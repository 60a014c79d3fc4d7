import Heartix.Ramdisk.Ignore
import Heartix.Ramdisk.Image
import Mathlib.Tactic.Push

/-!
A source tree with an ignore file. The writer leaves out each entry that it skips with
everything below it, so that it writes what it would write of the tree without them; and
where searches for stars and ends of paths agree with the lines, these are the entries
that the lines exclude.
-/

namespace Heartix.Ramdisk

open GhostRamdisk

def isFile (s : Stat) : Bool := s.st_mode &&& S_IFREG ≠ 0

/-- A folder that is written, with what is in it. -/
def isFolder (d_name : Name) (s : Stat) : Bool :=
  s.st_mode &&& S_IFREG = 0 ∧ s.st_mode &&& S_IFDIR ≠ 0 ∧
    ¬ (d_name.chars = dot ∨ d_name.chars = dotDot)

/-- A file or a folder that is written. -/
def isEntry (d_name : Name) : Option Stat → Bool
  | none => false
  | some s => isFile s || isFolder d_name s

namespace Directory

/-- The files and folders, each with its path and those of the folders above it. -/
def entries : Directory → List (List UInt8) → List UInt8 → List (List (List UInt8))
  | .nil, _, _ => []
  | .entry d_name stat _ opens children rest, above, path =>
      let entryPath := path ++ slash ++ d_name.chars
      match stat with
      | none => []
      | some s =>
          (if isFile s then [entryPath :: above]
            else if isFolder d_name s then
              (entryPath :: above) ::
                if opens then children.entries (entryPath :: above) entryPath else []
            else []) ++ rest.entries above path

/-- The directory without the entries that are skipped. -/
def prune (skip : List UInt8 → Bool) : Directory → List UInt8 → Directory
  | .nil, _ => .nil
  | .entry d_name stat content opens children rest, path =>
      let entryPath := path ++ slash ++ d_name.chars
      if isEntry d_name stat && skip entryPath then rest.prune skip path
      else .entry d_name stat content opens (children.prune skip entryPath) (rest.prune skip path)

end Directory

/-- The files and folders of a source, with the source above them. -/
def sourceEntries (sourcePath : List UInt8) (opens : Bool) (root : Directory) :
    List (List (List UInt8)) :=
  if opens then root.entries [sourcePath] sourcePath else []

/-- The source without what is skipped, which can be all of it. -/
def pruneSource (skip : List UInt8 → Bool) (sourcePath : List UInt8) (root : Directory) :
    Directory :=
  if skip sourcePath then .nil else root.prune skip sourcePath

/-- `create` after the ignore file has been read. -/
def createFrom (ignores : List (List UInt8)) (sourcePath : List UInt8) (opens : Bool)
    (root : Directory) : Option (List UInt8) :=
  let r : GhostRamdisk := { idCounter := 0, out := [], ignores := ignores }
  (r.writeRecursive sourcePath sourcePath [] 0 0 false none fun entryId r =>
    if opens then r.writeDirectory sourcePath root sourcePath entryId else some r).map
      GhostRamdisk.out

def ignored (ignores : List (List UInt8)) (basePath path : List UInt8) : Bool :=
  ignores.any (skips basePath path)

theorem create_eq_createFrom (sourcePath : List UInt8) (opens : Bool) (root : Directory) :
    create sourcePath opens root =
      (readIgnores root.rdignore).bind fun ignores => createFrom ignores sourcePath opens root := by
  unfold create
  cases readIgnores root.rdignore with
  | none => rfl
  | some ignores => rfl

section Entries

variable {skip : List UInt8 → Bool}

/-- Below a path that is skipped nothing is kept. -/
theorem filter_of_skipped {chains : List (List (List UInt8))} {path : List UInt8}
    (hskip : skip path = true) (hmem : ∀ chain ∈ chains, path ∈ chain) :
    chains.filter (fun chain => !chain.any skip) = [] := by
  apply List.filter_eq_nil_iff.mpr
  intro chain hchain
  have hany : chain.any skip = true := List.any_eq_true.mpr ⟨path, hmem chain hchain, hskip⟩
  rw [hany]
  exact Bool.false_ne_true

theorem mem_of_mem_entries {d : Directory} {above : List (List UInt8)} {path : List UInt8}
    {chain : List (List UInt8)} (hchain : chain ∈ d.entries above path) :
    ∀ p ∈ above, p ∈ chain := by
  induction d generalizing above path chain with
  | nil => cases hchain
  | entry d_name stat content opens children rest ihc ihr =>
    intro p hp
    unfold Directory.entries at hchain
    cases stat with
    | none => cases hchain
    | some s =>
      dsimp only at hchain
      rcases List.mem_append.mp hchain with hhead | hrest
      · split at hhead
        · obtain rfl := List.mem_singleton.mp hhead
          exact List.mem_cons_of_mem _ hp
        · split at hhead
          · rcases List.mem_cons.mp hhead with rfl | hbelow
            · exact List.mem_cons_of_mem _ hp
            · split at hbelow
              · exact ihc hbelow p (List.mem_cons_of_mem _ hp)
              · cases hbelow
          · cases hhead
      · exact ihr hrest p hp

theorem any_of_above {above : List (List UInt8)} (habove : ∀ p ∈ above, skip p = false)
    (p : List UInt8) : (p :: above).any skip = skip p := by
  have hfalse : above.any skip = false := by
    apply List.any_eq_false.mpr
    intro q hq
    rw [habove q hq]
    exact Bool.false_ne_true
  rw [List.any_cons, hfalse, Bool.or_false]

/-- The entries of one name and what is below it. -/
def Directory.entriesBelow (d_name : Name) (s : Stat) (opens : Bool) (children : Directory)
    (above : List (List UInt8)) (entryPath : List UInt8) : List (List (List UInt8)) :=
  if isFile s then [entryPath :: above]
  else if isFolder d_name s then
    (entryPath :: above) :: if opens then children.entries (entryPath :: above) entryPath else []
  else []

theorem entries_some (d_name : Name) (s : Stat) (content : Option (List UInt8)) (opens : Bool)
    (children rest : Directory) (above : List (List UInt8)) (path : List UInt8) :
    (Directory.entry d_name (some s) content opens children rest).entries above path =
      Directory.entriesBelow d_name s opens children above (path ++ slash ++ d_name.chars) ++
        rest.entries above path := rfl

/-- The entries that are left are those without a skipped path. -/
theorem entries_prune (d : Directory) (above : List (List UInt8)) (path : List UInt8)
    (habove : ∀ p ∈ above, skip p = false) :
    (d.prune skip path).entries above path =
      (d.entries above path).filter fun chain => !chain.any skip := by
  induction d generalizing above path with
  | nil => rfl
  | entry d_name stat content opens children rest ihc ihr =>
    have hrest := ihr above path habove
    cases stat with
    | none =>
      have hnot : ¬ (isEntry d_name none && skip (path ++ slash ++ d_name.chars)) = true :=
        Bool.false_ne_true
      rw [Directory.prune, if_neg hnot]
      rfl
    | some s =>
      have hmem : ∀ chain ∈ Directory.entriesBelow d_name s opens children above
          (path ++ slash ++ d_name.chars), path ++ slash ++ d_name.chars ∈ chain := by
        intro chain hchain
        unfold Directory.entriesBelow at hchain
        split at hchain
        · obtain rfl := List.mem_singleton.mp hchain
          exact List.mem_cons_self
        · split at hchain
          · rcases List.mem_cons.mp hchain with rfl | hbelow
            · exact List.mem_cons_self
            · split at hbelow
              · exact mem_of_mem_entries hbelow _ List.mem_cons_self
              · cases hbelow
          · cases hchain
      rw [Directory.prune, entries_some, List.filter_append]
      by_cases hkind : (isEntry d_name (some s) && skip (path ++ slash ++ d_name.chars)) = true
      · have hskip := (Bool.and_eq_true_iff.mp hkind).2
        rw [if_pos hkind, hrest, filter_of_skipped hskip hmem, List.nil_append]
      · rw [if_neg hkind, entries_some, hrest]
        congr 1
        unfold Directory.entriesBelow
        by_cases hfile : isFile s = true
        · have hskip : skip (path ++ slash ++ d_name.chars) = false := by
            simpa [isEntry, hfile] using hkind
          rw [if_pos hfile, if_pos hfile, List.filter_cons_of_pos, List.filter_nil]
          rw [any_of_above habove, hskip]
          rfl
        · rw [if_neg hfile, if_neg hfile]
          by_cases hfolder : isFolder d_name s = true
          · have hskip : skip (path ++ slash ++ d_name.chars) = false := by
              simpa [isEntry, hfolder] using hkind
            have hbelow := ihc ((path ++ slash ++ d_name.chars) :: above)
              (path ++ slash ++ d_name.chars) (List.forall_mem_cons.mpr ⟨hskip, habove⟩)
            rw [if_pos hfolder, if_pos hfolder, List.filter_cons_of_pos, hbelow]
            · cases opens with
              | true => rfl
              | false => rfl
            · rw [any_of_above habove, hskip]
              rfl
          · rw [if_neg hfolder, if_neg hfolder]
            rfl

/-- Of a source. -/
theorem sourceEntries_prune (sourcePath : List UInt8) (opens : Bool) (root : Directory) :
    sourceEntries sourcePath opens (pruneSource skip sourcePath root) =
      (sourceEntries sourcePath opens root).filter fun chain => !chain.any skip := by
  unfold sourceEntries pruneSource
  cases opens with
  | false => rfl
  | true =>
    rw [if_pos rfl, if_pos rfl]
    by_cases hskip : skip sourcePath = true
    · rw [if_pos hskip, filter_of_skipped hskip fun chain hchain =>
        mem_of_mem_entries hchain sourcePath List.mem_cons_self]
      rfl
    · rw [if_neg hskip]
      exact entries_prune root _ _ (List.forall_mem_singleton.mpr (eq_false_of_ne_true hskip))

end Entries

section Written

/-- The writer without its ignore list. -/
def forget (r : GhostRamdisk) : GhostRamdisk := { r with ignores := [] }

variable {r q : GhostRamdisk} {basePath path name : List UInt8} {contentLength parentId : ℕ}
  {file : Bool} {content : Option (List UInt8)}
  {readDirectory readDirectory' : ℕ → GhostRamdisk → Option GhostRamdisk}

theorem writeHeader_write (entryId parentId : ℕ) (name : List UInt8) (file : Bool) :
    ∃ fits : Bool, ∃ bytes, ∀ r : GhostRamdisk,
      r.writeHeader entryId parentId name file = if fits then some (r.write bytes) else none := by
  refine ⟨decide (strlen name ≤ bufferSize), (if file then 1 else 0) :: (word entryId ++
    (word parentId ++ (word (strlen name) ++ name.take (strlen name)))), ?_⟩
  intro r
  unfold writeHeader
  simp only [write_write, List.append_assoc, List.cons_append, List.nil_append,
    decide_eq_true_eq]

theorem writeContent_write (contentLength : ℕ) (content : Option (List UInt8)) :
    ∃ bytes, ∀ r : GhostRamdisk, r.writeContent contentLength content = r.write bytes := by
  cases content with
  | none => exact ⟨word contentLength, fun r => rfl⟩
  | some input =>
    refine ⟨word contentLength ++ input, ?_⟩
    intro r
    rw [writeContent, copy_eq (Nat.lt_succ_self _), write_write]

/-- An entry that is not skipped. What it appends and which folder it reads do not depend on
the ignore list. -/
theorem writeRecursive_of_not_skipped (basePath path name : List UInt8)
    (contentLength parentId : ℕ) (file : Bool) (content : Option (List UInt8)) (idCounter : ℕ) :
    ∃ fits : Bool, ∃ bytes, ∀ (r : GhostRamdisk) readDirectory, r.idCounter = idCounter →
      ignored r.ignores basePath path = false →
      r.writeRecursive basePath path name contentLength parentId file content readDirectory =
        if fits then
          if file then some ({ r with idCounter := idCounter + 1 }.write bytes)
          else readDirectory idCounter ({ r with idCounter := idCounter + 1 }.write bytes)
        else none := by
  obtain ⟨fits, header, hheader⟩ := writeHeader_write idCounter parentId name file
  obtain ⟨bytes, hbytes⟩ := writeContent_write contentLength content
  refine ⟨decide (idCounter + 1 < 2 ^ 31) && (fits || decide (idCounter = 0)),
    (if 0 < idCounter then header else []) ++ (if file then bytes else []), ?_⟩
  intro r readDirectory hid hskip
  have hempty (p : GhostRamdisk) : p.write [] = p := by
    unfold write
    rw [List.append_nil]
  unfold ignored at hskip
  unfold writeRecursive
  rw [hskip, hid]
  dsimp only
  rw [if_neg Bool.false_ne_true]
  by_cases hcount : idCounter + 1 < 2 ^ 31
  · rw [if_pos hcount, decide_eq_true hcount, Bool.true_and]
    by_cases hpositive : 0 < idCounter
    · have hne : decide (idCounter = 0) = false := decide_eq_false (by omega)
      rw [if_pos hpositive, if_pos hpositive, hheader, hne, Bool.or_false]
      cases fits with
      | false => rfl
      | true =>
        rw [if_pos rfl, if_pos rfl]
        dsimp only
        cases file with
        | true =>
          rw [if_pos rfl, if_pos rfl, if_pos rfl, hbytes, write_write]
        | false =>
          rw [if_neg Bool.false_ne_true, if_neg Bool.false_ne_true, if_neg Bool.false_ne_true,
            List.append_nil]
    · have hzero : decide (idCounter = 0) = true := decide_eq_true (by omega)
      rw [if_neg hpositive, if_neg hpositive, hzero, Bool.or_true, if_pos rfl, List.nil_append]
      dsimp only
      cases file with
      | true => rw [if_pos rfl, if_pos rfl, if_pos rfl, hbytes]
      | false =>
        rw [if_neg Bool.false_ne_true, if_neg Bool.false_ne_true, if_neg Bool.false_ne_true, hempty]
  · rw [if_neg hcount, decide_eq_false hcount, Bool.false_and, if_neg Bool.false_ne_true]

theorem writeRecursive_of_skipped (hskip : ignored r.ignores basePath path = true) :
    r.writeRecursive basePath path name contentLength parentId file content readDirectory =
      some r := by
  unfold ignored at hskip
  unfold writeRecursive
  rw [hskip]
  rfl

/-- What a part of the writer does with and without the ignore list: it leaves the list
alone, and does the same otherwise. -/
def Alike (r : GhostRamdisk) (written written' : Option GhostRamdisk) : Prop :=
  (∀ q ∈ written, q.ignores = r.ignores) ∧ written.map forget = written'

theorem alike_some (hq : q.ignores = r.ignores) : Alike r (some q) (some (forget q)) := by
  refine ⟨?_, rfl⟩
  intro p hp
  obtain rfl := Option.some.inj hp
  exact hq

theorem alike_none (r : GhostRamdisk) : Alike r none none := by
  refine ⟨?_, rfl⟩
  intro q hq
  cases hq

theorem Alike.of_eq {written written' : Option GhostRamdisk} (h : Alike q written written')
    (hq : q.ignores = r.ignores) : Alike r written written' := by
  refine ⟨?_, h.2⟩
  intro p hp
  rw [h.1 p hp, hq]

/-- One part of the writer after another. -/
theorem Alike.bind {written written' : Option GhostRamdisk}
    {next next' : GhostRamdisk → Option GhostRamdisk} (h : Alike r written written')
    (hnext : ∀ q, q.ignores = r.ignores → Alike q (next q) (next' (forget q))) :
    Alike r (written.bind next) (written'.bind next') := by
  obtain ⟨hsame, hmap⟩ := h
  rw [← hmap]
  cases written with
  | none => exact alike_none r
  | some q =>
    have hq := hsame q rfl
    obtain ⟨hkept, hforget⟩ := hnext q hq
    refine ⟨?_, hforget⟩
    intro p hp
    rw [hkept p hp, hq]

theorem alike_writeRecursive (hskip : ignored r.ignores basePath path = false)
    (hread : ∀ id p, p.ignores = r.ignores →
      Alike r (readDirectory id p) (readDirectory' id (forget p))) :
    Alike r
      (r.writeRecursive basePath path name contentLength parentId file content readDirectory)
      ((forget r).writeRecursive basePath path name contentLength parentId file content
        readDirectory') := by
  obtain ⟨fits, bytes, hwritten⟩ := writeRecursive_of_not_skipped basePath path name contentLength
    parentId file content r.idCounter
  rw [hwritten r readDirectory rfl hskip, hwritten (forget r) readDirectory' rfl rfl]
  cases fits with
  | false => exact alike_none r
  | true =>
    cases file with
    | true => exact alike_some rfl
    | false => exact hread r.idCounter _ rfl

/-- What the loop over a directory does for one name. -/
def writeEntry (basePath : List UInt8) (d_name : Name) (s : Stat) (content : Option (List UInt8))
    (opens : Bool) (children : Directory) (entryPath : List UInt8) (entryId : ℕ)
    (r : GhostRamdisk) : Option GhostRamdisk :=
  if isFile s then
    r.writeRecursive basePath entryPath d_name.chars (s.st_size % 2 ^ 32) entryId true content
      fun _ r => some r
  else if isFolder d_name s then
    r.writeRecursive basePath entryPath d_name.chars 0 entryId false none fun entryId r =>
      if opens then r.writeDirectory basePath children entryPath entryId else some r
  else some r

theorem writeDirectory_some (basePath : List UInt8) (d_name : Name) (s : Stat)
    (content : Option (List UInt8)) (opens : Bool) (children rest : Directory)
    (path : List UInt8) (entryId : ℕ) (r : GhostRamdisk) :
    r.writeDirectory basePath (.entry d_name (some s) content opens children rest) path entryId =
      (writeEntry basePath d_name s content opens children (path ++ slash ++ d_name.chars) entryId
        r).bind fun q => q.writeDirectory basePath rest path entryId := by
  have hentry : (if s.st_mode &&& S_IFREG ≠ 0 then
        r.writeRecursive basePath (path ++ slash ++ d_name.chars) d_name.chars
          (s.st_size % 2 ^ 32) entryId true content fun _ r => some r
      else if s.st_mode &&& S_IFDIR ≠ 0 then
        if d_name.chars = dot ∨ d_name.chars = dotDot then some r
        else
          r.writeRecursive basePath (path ++ slash ++ d_name.chars) d_name.chars 0 entryId false
            none fun entryId r =>
              if opens then
                r.writeDirectory basePath children (path ++ slash ++ d_name.chars) entryId
              else some r
      else some r) =
      writeEntry basePath d_name s content opens children (path ++ slash ++ d_name.chars)
        entryId r := by
    unfold writeEntry isFile isFolder
    by_cases hfile : s.st_mode &&& S_IFREG ≠ 0
    · rw [if_pos hfile, if_pos (decide_eq_true hfile)]
    · have hzero : s.st_mode &&& S_IFREG = 0 := not_not.mp hfile
      have hnot : ¬ decide (s.st_mode &&& S_IFREG ≠ 0) = true := mt of_decide_eq_true hfile
      rw [if_neg hfile, if_neg hnot]
      by_cases hfolder : s.st_mode &&& S_IFDIR ≠ 0
      · rw [if_pos hfolder]
        by_cases hdots : d_name.chars = dot ∨ d_name.chars = dotDot
        · rw [if_pos hdots, if_neg]
          intro h
          exact (of_decide_eq_true h).2.2 hdots
        · rw [if_neg hdots, if_pos (decide_eq_true ⟨hzero, hfolder, hdots⟩)]
      · rw [if_neg hfolder, if_neg]
        intro h
        exact hfolder (of_decide_eq_true h).2.1
  rw [writeDirectory, hentry]
  cases writeEntry basePath d_name s content opens children (path ++ slash ++ d_name.chars)
    entryId r with
  | none => rfl
  | some q => rfl

theorem writeEntry_of_skipped {d_name : Name} {s : Stat} {opens : Bool} {children : Directory}
    {entryPath : List UInt8} (entryId : ℕ)
    (hskip : ignored r.ignores basePath entryPath = true) :
    writeEntry basePath d_name s content opens children entryPath entryId r = some r := by
  unfold writeEntry
  rw [writeRecursive_of_skipped hskip, writeRecursive_of_skipped hskip, ite_self, ite_self]

/-- The loop over a directory, and over the directory without what is skipped. -/
theorem alike_writeDirectory (basePath : List UInt8) (d : Directory) (path : List UInt8)
    (entryId : ℕ) (r : GhostRamdisk) :
    Alike r (r.writeDirectory basePath d path entryId)
      ((forget r).writeDirectory basePath (d.prune (ignored r.ignores basePath) path) path
        entryId) := by
  induction d generalizing path entryId r with
  | nil => exact alike_some rfl
  | entry d_name stat content opens children rest ihc ihr =>
    cases stat with
    | none =>
      have hnot : ¬ (isEntry d_name none &&
          ignored r.ignores basePath (path ++ slash ++ d_name.chars)) = true := Bool.false_ne_true
      rw [Directory.prune, if_neg hnot]
      exact alike_some rfl
    | some s =>
      rw [Directory.prune]
      by_cases hkind : (isEntry d_name (some s) &&
          ignored r.ignores basePath (path ++ slash ++ d_name.chars)) = true
      · have hskip := (Bool.and_eq_true_iff.mp hkind).2
        rw [if_pos hkind, writeDirectory_some, writeEntry_of_skipped _ hskip, Option.bind_some]
        exact ihr path entryId r
      · rw [if_neg hkind, writeDirectory_some, writeDirectory_some]
        apply Alike.bind
        · unfold writeEntry
          by_cases hfile : isFile s = true
          · have hskip : ignored r.ignores basePath (path ++ slash ++ d_name.chars) = false := by
              simpa [isEntry, hfile] using hkind
            rw [if_pos hfile, if_pos hfile]
            exact alike_writeRecursive hskip fun _ p hp => alike_some hp
          · rw [if_neg hfile, if_neg hfile]
            by_cases hfolder : isFolder d_name s = true
            · have hskip : ignored r.ignores basePath (path ++ slash ++ d_name.chars) = false := by
                simpa [isEntry, hfolder] using hkind
              rw [if_pos hfolder, if_pos hfolder]
              apply alike_writeRecursive hskip
              intro id p hp
              cases opens with
              | false => exact alike_some hp
              | true =>
                have hbelow := ihc (path ++ slash ++ d_name.chars) id p
                rw [hp] at hbelow
                exact hbelow.of_eq hp
            · rw [if_neg hfolder, if_neg hfolder]
              exact alike_some rfl
        · intro q hq
          rw [← hq]
          exact ihr path entryId q

/-- With an ignore list the image is that of the source without what is skipped. -/
theorem createFrom_prune (ignores : List (List UInt8)) (sourcePath : List UInt8) (opens : Bool)
    (root : Directory) :
    createFrom ignores sourcePath opens root =
      createFrom [] sourcePath opens
        (pruneSource (ignored ignores sourcePath) sourcePath root) := by
  have hout (written : Option GhostRamdisk) :
      (written.map forget).map GhostRamdisk.out = written.map GhostRamdisk.out := by
    cases written with
    | none => rfl
    | some q => rfl
  unfold createFrom pruneSource
  dsimp only
  cases hskip : ignored ignores sourcePath sourcePath with
  | true =>
    rw [if_pos rfl, writeRecursive_of_skipped hskip]
    cases opens with
    | true => rfl
    | false => rfl
  | false =>
    rw [if_neg Bool.false_ne_true, ← hout]
    congr 1
    refine (alike_writeRecursive hskip ?_).2
    intro id p hp
    cases opens with
    | false => exact alike_some hp
    | true =>
      have hbelow := alike_writeDirectory sourcePath root sourcePath id p
      rw [hp] at hbelow
      exact hbelow.of_eq hp

end Written

section Lines

/-- A line without the blanks around it. -/
def strip (line : List UInt8) : List UInt8 := (line.dropWhile isBlank).rdropWhile isBlank

/-- The lines of an ignore file, but for those in which nothing is written. -/
def ruleLines (rdignore : Option (List UInt8)) : List (List UInt8) :=
  match rdignore with
  | none => []
  | some text => ((text.splitOn '\n'.toUInt8).map strip).filter (· ≠ [])

/-- A line with nothing but blanks, and at least one of them. -/
def HasBlankLine (rdignore : Option (List UInt8)) : Prop :=
  ∃ text ∈ rdignore, ∃ line ∈ text.splitOn '\n'.toUInt8, line ≠ [] ∧ ∀ c ∈ line, isBlank c = true

theorem strip_eq_nil {line : List UInt8} (h : strip line = []) : ∀ c ∈ line, isBlank c = true := by
  have hfront : ∀ c ∈ line.dropWhile isBlank, isBlank c = true := List.rdropWhile_eq_nil_iff.mp h
  have hnil : line.dropWhile isBlank = [] := by
    by_contra hne
    have hhead := List.head_dropWhile_not isBlank hne
    rw [hfront _ (List.head_mem hne)] at hhead
    cases hhead
  exact List.dropWhile_eq_nil_iff.mp hnil

/-- A line that is not empty. -/
theorem trim_eq {line : List UInt8} (hne : line ≠ []) :
    trim line = if line.all isBlank = true then none else some (strip line) := by
  unfold trim
  rw [if_pos (List.length_pos_of_ne_nil hne)]
  rfl

theorem mapM_trim_none {lines : List (List UInt8)} (h : ∃ line ∈ lines, trim line = none) :
    lines.mapM trim = none := by
  induction lines with
  | nil =>
    obtain ⟨line, hline, -⟩ := h
    cases hline
  | cons first lines ih =>
    obtain ⟨line, hline, hnone⟩ := h
    rw [List.mapM_cons]
    rcases List.mem_cons.mp hline with rfl | hrest
    · rw [hnone]
      rfl
    · rw [ih ⟨line, hrest, hnone⟩]
      cases trim first with
      | none => rfl
      | some stripped => rfl

theorem mapM_trim_some {lines : List (List UInt8)}
    (h : ∀ line ∈ lines, trim line = some (strip line)) :
    lines.mapM trim = some (lines.map strip) := by
  induction lines with
  | nil => rfl
  | cons first lines ih =>
    rw [List.mapM_cons, h first List.mem_cons_self,
      ih fun line hline => h line (List.mem_cons_of_mem first hline)]
    rfl

variable {rdignore : Option (List UInt8)}

/-- On a line of blanks `substr` throws. -/
theorem readIgnores_of_blank (h : HasBlankLine rdignore) : readIgnores rdignore = none := by
  obtain ⟨text, htext, line, hline, hne, hblank⟩ := h
  obtain rfl := Option.mem_def.mp htext
  apply mapM_trim_none
  refine ⟨line, ?_, ?_⟩
  · rw [List.mem_filter]
    exact ⟨hline, decide_eq_true (List.length_pos_of_ne_nil hne)⟩
  · rw [trim_eq hne, if_pos (List.all_eq_true.mpr hblank)]

/-- Elsewhere the lines are read as they are. -/
theorem readIgnores_eq (h : ¬ HasBlankLine rdignore) :
    readIgnores rdignore = some (ruleLines rdignore) := by
  cases rdignore with
  | none => rfl
  | some text =>
    have hmixed : ∀ line ∈ text.splitOn '\n'.toUInt8, line ≠ [] →
        ¬ ∀ c ∈ line, isBlank c = true := by
      intro line hline hne hblank
      exact h ⟨text, rfl, line, hline, hne, hblank⟩
    have htrim : ∀ line ∈ (text.splitOn '\n'.toUInt8).filter fun line => 0 < line.length,
        trim line = some (strip line) := by
      intro line hline
      obtain ⟨hmem, hlength⟩ := List.mem_filter.mp hline
      have hne : line ≠ [] := List.ne_nil_of_length_pos (of_decide_eq_true hlength)
      rw [trim_eq hne, if_neg (mt List.all_eq_true.mp (hmixed line hmem hne))]
    have hsame : (text.splitOn '\n'.toUInt8).filter (fun line => decide (0 < line.length)) =
        (text.splitOn '\n'.toUInt8).filter fun line => decide (strip line ≠ []) := by
      apply List.filter_congr
      intro line hline
      rw [decide_eq_decide, List.length_pos_iff]
      constructor
      · intro hne hnil
        exact hmixed line hline hne (strip_eq_nil hnil)
      · intro hne hnil
        rw [hnil] at hne
        exact hne rfl
    unfold readIgnores ruleLines
    dsimp only
    rw [mapM_trim_some htrim, hsame, List.filter_map]
    rfl

theorem ne_nil_of_mem_ruleLines {ign : List UInt8} (h : ign ∈ ruleLines rdignore) : ign ≠ [] := by
  cases rdignore with
  | none => cases h
  | some text => exact of_decide_eq_true (List.mem_filter.mp h).2

end Lines

section Rules

variable {lines : List (List UInt8)} {sourcePath : List UInt8} {chain : List (List UInt8)}

/-- A line excludes the entry or a folder above it. -/
def Excluded (lines : List (List UInt8)) (sourcePath : List UInt8) (chain : List (List UInt8)) :
    Prop := ∃ path ∈ chain, ∃ ign ∈ lines, Excludes sourcePath path ign

/-- A line has one character more behind its star than the entry or a folder above it. -/
def Outgrown (lines : List (List UInt8)) (chain : List (List UInt8)) : Prop :=
  ∃ path ∈ chain, ∃ ign ∈ lines, Overlong path ign

/-- The entry is left out, though no line excludes it. -/
def Lost (lines : List (List UInt8)) (sourcePath : List UInt8) (chain : List (List UInt8)) :
    Prop := Outgrown lines chain ∧ ¬ Excluded lines sourcePath chain

/-- The entry is not left out, though lines exclude it: all of them are overlooked. -/
def Missed (lines : List (List UInt8)) (sourcePath : List UInt8) (chain : List (List UInt8)) :
    Prop := Excluded lines sourcePath chain ∧ ¬ Outgrown lines chain ∧
      ∀ path ∈ chain, ∀ ign ∈ lines, Excludes sourcePath path ign →
        Overlooks sourcePath path ign

/-- Lines and paths are strings. -/
structure Sized (lines : List (List UInt8)) (chains : List (List (List UInt8))) : Prop where
  line : ∀ ign ∈ lines, ign.length < 2 ^ 63
  path : ∀ chain ∈ chains, ∀ path ∈ chain, path.length < 2 ^ 63

/-- The ignore file is read without an exception, and an entry is skipped, with what is below
it, exactly if a line excludes it or a folder above it. -/
def FollowsRules (sourcePath : List UInt8) (opens : Bool) (root : Directory) : Prop :=
  ∃ ignores, readIgnores root.rdignore = some ignores ∧
    ∀ chain ∈ sourceEntries sourcePath opens root,
      (∃ path ∈ chain, ignored ignores sourcePath path = true) ↔
        Excluded (ruleLines root.rdignore) sourcePath chain

theorem skipped_iff (hne : ∀ ign ∈ lines, ign ≠ []) (hline : ∀ ign ∈ lines, ign.length < 2 ^ 63)
    (hpath : ∀ path ∈ chain, path.length < 2 ^ 63) :
    ((∃ path ∈ chain, ignored lines sourcePath path = true) ↔ Excluded lines sourcePath chain) ↔
      ¬ Lost lines sourcePath chain ∧ ¬ Missed lines sourcePath chain := by
  have hskips : (∃ path ∈ chain, ignored lines sourcePath path = true) ↔
      (∃ path ∈ chain, ∃ ign ∈ lines, Excludes sourcePath path ign ∧
        ¬ Overlooks sourcePath path ign) ∨ Outgrown lines chain := by
    constructor
    · intro h
      obtain ⟨path, hmem, hany⟩ := h
      obtain ⟨ign, hign, hskip⟩ := List.any_eq_true.mp hany
      have hcases : Excludes sourcePath path ign ∧ ¬ Overlooks sourcePath path ign ∨
          Overlong path ign :=
        (skips_iff (hne ign hign) (hline ign hign) (hpath path hmem)).mp hskip
      rcases hcases with hrule | hlong
      · left
        exact ⟨path, hmem, ign, hign, hrule⟩
      · right
        exact ⟨path, hmem, ign, hign, hlong⟩
    · intro h
      rcases h with ⟨path, hmem, ign, hign, hrule⟩ | ⟨path, hmem, ign, hign, hlong⟩
      · refine ⟨path, hmem, List.any_eq_true.mpr ⟨ign, hign, ?_⟩⟩
        exact (skips_iff (hne ign hign) (hline ign hign) (hpath path hmem)).mpr (Or.inl hrule)
      · refine ⟨path, hmem, List.any_eq_true.mpr ⟨ign, hign, ?_⟩⟩
        exact (skips_iff (hne ign hign) (hline ign hign) (hpath path hmem)).mpr (Or.inr hlong)
  have hseen : (∃ path ∈ chain, ∃ ign ∈ lines, Excludes sourcePath path ign ∧
        ¬ Overlooks sourcePath path ign) → Excluded lines sourcePath chain := by
    intro h
    obtain ⟨path, hmem, ign, hign, hrule, -⟩ := h
    exact ⟨path, hmem, ign, hign, hrule⟩
  have hall : (∀ path ∈ chain, ∀ ign ∈ lines, Excludes sourcePath path ign →
        Overlooks sourcePath path ign) ↔
      ¬ ∃ path ∈ chain, ∃ ign ∈ lines, Excludes sourcePath path ign ∧
        ¬ Overlooks sourcePath path ign := by
    push Not
    rfl
  rw [hskips]
  unfold Lost Missed
  rw [hall]
  generalize (∃ path ∈ chain, ∃ ign ∈ lines, Excludes sourcePath path ign ∧
    ¬ Overlooks sourcePath path ign) = seen at hseen ⊢
  generalize Outgrown lines chain = outgrown
  generalize Excluded lines sourcePath chain = excluded at hseen ⊢
  by_cases hout : outgrown
  · simp [hout]
  · by_cases hsome : seen
    · simp [hout, hsome, hseen hsome]
    · simp [hout, hsome]

end Rules

/-- The writer leaves out what it skips and nothing else. It skips what the lines exclude
exactly if no line consists of blanks and no entry is lost or missed. -/
theorem ignore_rules_iff (sourcePath : List UInt8) (opens : Bool) (root : Directory)
    (hsized : Sized (ruleLines root.rdignore) (sourceEntries sourcePath opens root)) :
    (∀ ignores, readIgnores root.rdignore = some ignores →
      ∃ kept, create sourcePath opens root = createFrom [] sourcePath opens kept ∧
        sourceEntries sourcePath opens kept = (sourceEntries sourcePath opens root).filter
          fun chain => !chain.any (ignored ignores sourcePath)) ∧
    (FollowsRules sourcePath opens root ↔
      ¬ HasBlankLine root.rdignore ∧ ∀ chain ∈ sourceEntries sourcePath opens root,
        ¬ Lost (ruleLines root.rdignore) sourcePath chain ∧
          ¬ Missed (ruleLines root.rdignore) sourcePath chain) := by
  constructor
  · intro ignores hread
    refine ⟨pruneSource (ignored ignores sourcePath) sourcePath root, ?_,
      sourceEntries_prune sourcePath opens root⟩
    rw [create_eq_createFrom, hread, Option.bind_some]
    exact createFrom_prune ignores sourcePath opens root
  · have hentry (chain : List (List UInt8)) (hchain : chain ∈ sourceEntries sourcePath opens root) :
        ((∃ path ∈ chain, ignored (ruleLines root.rdignore) sourcePath path = true) ↔
          Excluded (ruleLines root.rdignore) sourcePath chain) ↔ _ :=
      skipped_iff (fun ign hign => ne_nil_of_mem_ruleLines hign) hsized.line
        (hsized.path chain hchain)
    constructor
    · intro h
      obtain ⟨ignores, hread, hall⟩ := h
      have hblank : ¬ HasBlankLine root.rdignore := by
        intro hblank
        rw [readIgnores_of_blank hblank] at hread
        cases hread
      rw [readIgnores_eq hblank] at hread
      obtain rfl := Option.some.inj hread
      refine ⟨hblank, ?_⟩
      intro chain hchain
      exact (hentry chain hchain).mp (hall chain hchain)
    · intro h
      refine ⟨ruleLines root.rdignore, readIgnores_eq h.1, ?_⟩
      intro chain hchain
      exact (hentry chain hchain).mpr (h.2 chain hchain)

/-- An ignore file with a text, next to a file `a.o`. -/
def withIgnores (text : String) : Directory :=
  .entry ⟨".rdignore".toUTF8.toList, by decide +kernel, by decide +kernel⟩ (some ⟨S_IFREG, 0⟩)
    (some text.toUTF8.toList) false .nil
    (.entry ⟨"a.o".toUTF8.toList, by decide +kernel, by decide +kernel⟩ (some ⟨S_IFREG, 0⟩)
      (some []) false .nil .nil)

theorem ignore_rules_iff_objects :
    FollowsRules ['s'.toUInt8] true (withIgnores "*.o\r\n") ↔
      ¬ HasBlankLine (withIgnores "*.o\r\n").rdignore ∧
        ∀ chain ∈ sourceEntries ['s'.toUInt8] true (withIgnores "*.o\r\n"),
          ¬ Lost (ruleLines (withIgnores "*.o\r\n").rdignore) ['s'.toUInt8] chain ∧
            ¬ Missed (ruleLines (withIgnores "*.o\r\n").rdignore) ['s'.toUInt8] chain :=
  (ignore_rules_iff ['s'.toUInt8] true (withIgnores "*.o\r\n")
    ⟨by decide +kernel, by decide +kernel⟩).2

/-- A blank line that ends in CR and LF. -/
theorem ignore_rules_blank_line :
    ¬ ∀ sourcePath opens root,
      Sized (ruleLines root.rdignore) (sourceEntries sourcePath opens root) →
        FollowsRules sourcePath opens root := by
  intro hall
  obtain ⟨ignores, hread, -⟩ := hall ['s'.toUInt8] true (withIgnores "\r\n")
    ⟨by decide +kernel, by decide +kernel⟩
  have hnone : readIgnores (withIgnores "\r\n").rdignore = none := by
    decide +kernel
  rw [hnone] at hread
  cases hread

end Heartix.Ramdisk
