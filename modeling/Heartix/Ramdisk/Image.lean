import Heartix.Ramdisk.Format
import Heartix.Ramdisk.Writer

/-!
The image of a source tree. The writer numbers files and folders in preorder, so
what it writes is the documented encoding of the tree's entries.
-/

namespace Heartix.Ramdisk

open GhostRamdisk

/-- The directory holds the tree: every path can be read, and is a regular file
of less than 4 GiB with the size that `stat` reports, or a directory. -/
inductive Holds : Directory → Tree → Prop
  | nil : Holds .nil .nil
  | dots {d_name stat content opens children rest tree}
      (hname : d_name.chars = dot ∨ d_name.chars = dotDot)
      (hstat : stat.st_mode &&& S_IFMT = S_IFDIR) (hrest : Holds rest tree) :
      Holds (.entry d_name (some stat) content opens children rest) tree
  | file {d_name stat data opens children rest tree}
      (hstat : stat.st_mode &&& S_IFMT = S_IFREG) (hsize : stat.st_size = data.length)
      (hlength : data.length < 2 ^ 32) (hrest : Holds rest tree) :
      Holds (.entry d_name (some stat) (some data) opens children rest)
        (.leaf (d_name.chars, data) tree)
  | folder {d_name stat content children rest sub tree}
      (hname : ¬ (d_name.chars = dot ∨ d_name.chars = dotDot))
      (hstat : stat.st_mode &&& S_IFMT = S_IFDIR) (hchildren : Holds children sub)
      (hrest : Holds rest tree) :
      Holds (.entry d_name (some stat) content true children rest)
        (.node d_name.chars sub tree)

/-- The image consists of entries with the numbers from 1 on, each below the root
or a folder that comes earlier, and the tree can be rebuilt from them. -/
def Encodes (image : List UInt8) (tree : Tree) : Prop :=
  ∃ entries, parse image = some entries ∧
    entries.map Forest.Entry.id = List.range' 1 entries.length ∧
    (∀ before e after, entries = before ++ e :: after →
      e.parent = 0 ∨ ∃ d ∈ before, d.id = e.parent ∧ d.value.isRight) ∧
    Forest.rebuild [] entries = .node [] tree .nil

theorem isRegular {m : ℕ} (hm : m &&& S_IFMT = S_IFREG) : m &&& S_IFREG ≠ 0 := by
  have hmask : m &&& S_IFREG = (m &&& S_IFMT) &&& S_IFREG := by
    rw [Nat.and_assoc]
    rfl
  rw [hmask, hm]
  decide

theorem isDirectory {m : ℕ} (hm : m &&& S_IFMT = S_IFDIR) :
    ¬ m &&& S_IFREG ≠ 0 ∧ m &&& S_IFDIR ≠ 0 := by
  have hregular : m &&& S_IFREG = (m &&& S_IFMT) &&& S_IFREG := by
    rw [Nat.and_assoc]
    rfl
  have hdirectory : m &&& S_IFDIR = (m &&& S_IFMT) &&& S_IFDIR := by
    rw [Nat.and_assoc]
    rfl
  rw [hregular, hdirectory, hm]
  decide

theorem word_eq (n : ℕ) : word n = LittleEndian.bytes 4 n := by
  have hmask (m : ℕ) : m &&& 0xFF = m % 256 := Nat.and_two_pow_sub_one_eq_mod m 8
  unfold word
  simp only [hmask, Nat.shiftRight_eq_div_pow, LittleEndian.bytes, Nat.div_div_eq_div_mul,
    Nat.pow_zero, Nat.div_one, Nat.reducePow, Nat.reduceMul]

theorem strlen_of_terminated {s : List UInt8} (hs : 0 ∉ s) : strlen s = s.length := by
  have hall : ∀ c ∈ s, c ≠ 0 := by
    rintro c hc rfl
    exact hs hc
  unfold strlen
  rw [List.takeWhile_eq_self_iff.mpr (by simpa using hall)]

variable {r : GhostRamdisk}

theorem write_write (a b : List UInt8) : (r.write a).write b = r.write (a ++ b) := by
  unfold write
  rw [List.append_assoc]

/-- The rounds of `copy` write the whole content. -/
theorem copy_eq {fuel : ℕ} {input : List UInt8} (hfuel : input.length < fuel) :
    r.copy fuel input = r.write input := by
  induction fuel generalizing input r with
  | zero => cases hfuel
  | succ fuel ih =>
    unfold copy
    by_cases hfull : bufferSize ≤ input.length
    · have hshorter : (input.drop bufferSize).length < fuel := by
        have hpos : 0 < bufferSize := by decide
        rw [List.length_drop]
        omega
      dsimp only
      rw [if_pos hfull, ih hshorter, write_write, List.take_append_drop]
    · dsimp only
      rw [if_neg hfull, List.take_of_length_le (by omega)]

theorem writeHeader_eq (entryId parentId : ℕ) (name : Name) (isFile : Bool) :
    r.writeHeader entryId parentId name.chars isFile =
      some (r.write ((if isFile then 1 else 0) :: (LittleEndian.bytes 4 entryId ++
        (LittleEndian.bytes 4 parentId ++
          (LittleEndian.bytes 4 name.chars.length ++ name.chars))))) := by
  have hshort := name.short
  have hfits : name.chars.length ≤ bufferSize := by
    have hsize : 256 ≤ bufferSize := by decide
    omega
  unfold writeHeader
  dsimp only
  rw [strlen_of_terminated name.terminated, if_pos hfits, List.take_length]
  simp only [write_write, word_eq, List.append_assoc, List.nil_append, List.cons_append]

/-- The entries of the tree are written, numbered from the counter on. -/
def emit (tree : Tree) (parent : ℕ) (r : GhostRamdisk) : GhostRamdisk := { r with
  idCounter := r.idCounter + tree.count
  out := r.out ++ (tree.entries r.idCounter parent).flatMap encode }

theorem emit_nil (parent : ℕ) : emit .nil parent r = r := by
  unfold emit
  rw [Forest.count, Forest.entries, List.flatMap_nil, List.append_nil, Nat.add_zero]

theorem emit_leaf (file : List UInt8 × List UInt8) (rest : Tree) (parent : ℕ) :
    emit rest parent (emit (.leaf file .nil) parent r) = emit (.leaf file rest) parent r := by
  simp [emit, Forest.count, Forest.entries, Nat.add_assoc]

theorem emit_node (name : List UInt8) (children rest : Tree) (parent : ℕ) :
    emit rest parent (emit children r.idCounter (emit (.node name .nil .nil) parent r)) =
      emit (.node name children rest) parent r := by
  simp [emit, Forest.count, Forest.entries, Nat.add_assoc]

variable {basePath path : List UInt8} {name : Name} {parent : ℕ}
  {readDirectory : ℕ → GhostRamdisk → Option GhostRamdisk}

theorem writeRecursive_file {data : List UInt8} (hignores : r.ignores = [])
    (hpos : 0 < r.idCounter) (hid : r.idCounter + 1 < 2 ^ 31) (hdata : data.length < 2 ^ 32) :
    r.writeRecursive basePath path name.chars (data.length % 2 ^ 32) parent true (some data)
        readDirectory = some (emit (.leaf (name.chars, data) .nil) parent r) := by
  unfold writeRecursive
  rw [hignores, if_neg (by simp), if_pos hid]
  dsimp only
  rw [if_pos hpos, writeHeader_eq]
  dsimp only
  rw [if_pos rfl, if_pos rfl, writeContent, copy_eq (Nat.lt_succ_self _),
    Nat.mod_eq_of_lt hdata, word_eq, write_write, write_write]
  simp [emit, write, Forest.count, Forest.entries, encode, hignores]

theorem writeRecursive_folder (hignores : r.ignores = [])
    (hpos : 0 < r.idCounter) (hid : r.idCounter + 1 < 2 ^ 31) :
    r.writeRecursive basePath path name.chars 0 parent false none readDirectory =
      readDirectory r.idCounter (emit (.node name.chars .nil .nil) parent r) := by
  unfold writeRecursive
  rw [hignores, if_neg (by simp), if_pos hid]
  dsimp only
  rw [if_pos hpos, writeHeader_eq]
  dsimp only
  rw [if_neg Bool.false_ne_true, if_neg Bool.false_ne_true]
  simp [emit, write, Forest.count, Forest.entries, encode, hignores]

theorem writeRecursive_overflow {contentLength : ℕ} {isFile : Bool}
    {content : Option (List UInt8)} (hignores : r.ignores = [])
    (hid : ¬ r.idCounter + 1 < 2 ^ 31) :
    r.writeRecursive basePath path name.chars contentLength parent isFile content
      readDirectory = none := by
  unfold writeRecursive
  rw [hignores, if_neg (by simp), if_neg hid]

/-- What the loop over a directory writes, as long as the counter does not
overflow. -/
theorem writeDirectory_eq {d : Directory} {tree : Tree} (h : Holds d tree) (path : List UInt8)
    (parent : ℕ) (r : GhostRamdisk) (hignores : r.ignores = []) (hpos : 0 < r.idCounter)
    (hid : r.idCounter < 2 ^ 31) :
    r.writeDirectory basePath d path parent =
      if r.idCounter + tree.count < 2 ^ 31 then some (emit tree parent r) else none := by
  induction h generalizing r path parent with
  | nil =>
    rw [writeDirectory, Forest.count, emit_nil, Nat.add_zero, if_pos hid]
  | dots hname hstat _ ih =>
    rw [writeDirectory, if_neg (isDirectory hstat).1, if_pos (isDirectory hstat).2, if_pos hname]
    exact ih path parent r hignores hpos hid
  | @file d_name stat data opens children rest tree hstat hsize hlength _ ih =>
    rw [writeDirectory, if_pos (isRegular hstat), hsize, Forest.count]
    by_cases hnext : r.idCounter + 1 < 2 ^ 31
    · have hrest := ih path parent (emit (.leaf (d_name.chars, data) .nil) parent r) hignores
        (Nat.succ_pos r.idCounter) hnext
      rw [writeRecursive_file hignores hpos hnext hlength]
      dsimp only
      rw [hrest, emit_leaf, ← Nat.add_assoc]
      rfl
    · rw [writeRecursive_overflow hignores hnext]
      exact (if_neg (by omega)).symm
  | @folder d_name stat content children rest sub tree hname hstat _ _ ihc ihr =>
    rw [writeDirectory, if_neg (isDirectory hstat).1, if_pos (isDirectory hstat).2, if_neg hname,
      Forest.count]
    by_cases hnext : r.idCounter + 1 < 2 ^ 31
    · let entered := emit (.node d_name.chars .nil .nil) parent r
      have hchildren := ihc (path ++ slash ++ d_name.chars) r.idCounter entered hignores
        (Nat.succ_pos r.idCounter) hnext
      have hentered : entered.idCounter = r.idCounter + 1 := rfl
      rw [writeRecursive_folder hignores hpos hnext, if_pos rfl, hchildren, hentered]
      by_cases hsub : r.idCounter + 1 + sub.count < 2 ^ 31
      · have hrest := ihr path parent (emit sub r.idCounter entered) hignores
          (Nat.lt_of_lt_of_le (Nat.succ_pos r.idCounter) (Nat.le_add_right _ _)) hsub
        rw [if_pos hsub]
        dsimp only
        rw [hrest, emit_node, ← Nat.add_assoc, ← Nat.add_assoc]
        rfl
      · rw [if_neg hsub]
        exact (if_neg (by omega)).symm
    · rw [writeRecursive_overflow hignores hnext]
      exact (if_neg (by omega)).symm

/-- The image, as long as the counter does not overflow. -/
theorem create_eq {root : Directory} {tree : Tree} (h : Holds root tree)
    (hignores : readIgnores root.rdignore = some []) (sourcePath : List UInt8) :
    create sourcePath true root =
      if 1 + tree.count < 2 ^ 31 then some ((tree.entries 1 0).flatMap encode) else none := by
  unfold create
  rw [hignores]
  dsimp only
  unfold writeRecursive
  rw [if_neg (by simp), if_pos (by decide)]
  dsimp only
  rw [if_neg (Nat.lt_irrefl 0)]
  dsimp only
  rw [if_neg Bool.false_ne_true, if_pos rfl,
    writeDirectory_eq h sourcePath 0 _ rfl Nat.one_pos (by decide)]
  change Option.map out (if 1 + tree.count < 2 ^ 31 then _ else none) = _
  by_cases hcount : 1 + tree.count < 2 ^ 31
  · rw [if_pos hcount, if_pos hcount]
    rfl
  · rw [if_neg hcount, if_neg hcount]
    rfl

/-- The numbers and lengths of a tree's entries fit into their fields. -/
theorem Holds.fits {root : Directory} {tree : Tree} (h : Holds root tree) {next parent : ℕ}
    (hparent : parent < next) (hnext : next + tree.count < 2 ^ 32) :
    ∀ e ∈ tree.entries next parent, Fits e := by
  have hname (d_name : Name) : d_name.chars.length < 2 ^ 32 :=
    Nat.lt_trans d_name.short (by decide)
  induction h generalizing next parent with
  | nil =>
    intro e he
    cases he
  | dots _ _ _ ih => exact ih hparent hnext
  | file _ _ hlength _ ih =>
    rw [Forest.count] at hnext
    have hid : next < 2 ^ 32 := by omega
    have hparent' : parent < 2 ^ 32 := Nat.lt_trans hparent hid
    rw [Forest.entries]
    intro e he
    rcases List.mem_cons.mp he with rfl | he
    · exact ⟨hid, hparent', hname _, hlength⟩
    · exact ih (by omega) (by omega) e he
  | folder _ _ _ _ ihc ihr =>
    rw [Forest.count] at hnext
    have hid : next < 2 ^ 32 := by omega
    have hparent' : parent < 2 ^ 32 := Nat.lt_trans hparent hid
    rw [Forest.entries]
    intro e he
    rcases List.mem_cons.mp he with rfl | he
    · exact ⟨hid, hparent', hname _⟩
    · rcases List.mem_append.mp he with he | he
      · exact ihc (by omega) (by omega) e he
      · exact ihr (by omega) (by omega) e he

theorem encodes_entries {tree : Tree} (hfits : ∀ e ∈ tree.entries 1 0, Fits e) :
    Encodes ((tree.entries 1 0).flatMap encode) tree := by
  have hids := Forest.entries_ids tree 1 0
  have hcount := congrArg List.length hids
  rw [List.length_map, List.length_range'] at hcount
  refine ⟨tree.entries 1 0, parse_flatMap_encode hfits, ?_, ?_, Forest.rebuild_entries [] tree⟩
  · rw [hids, hcount]
  · intro before e after heq
    exact Forest.entries_parent tree 1 0 heq

/-- Where no path is ignored and the numbers stay in range, the image encodes the
source tree. -/
theorem create_encodes_tree {root : Directory} {tree : Tree} (h : Holds root tree)
    (hignores : readIgnores root.rdignore = some []) (hcount : tree.count < 2 ^ 31 - 1)
    (sourcePath : List UInt8) :
    ∃ image, create sourcePath true root = some image ∧ Encodes image tree := by
  have hcreate := create_eq h hignores sourcePath
  rw [if_pos (by omega)] at hcreate
  exact ⟨_, hcreate, encodes_entries (h.fits Nat.zero_lt_one (by omega))⟩

/-- A folder with one file, next to the directory itself. -/
def sampleDirectory : Directory :=
  .entry ⟨dot, by decide, by decide⟩ (some ⟨S_IFDIR, 4096⟩) none true .nil
    (.entry ⟨['d'.toUInt8], by decide, by decide⟩ (some ⟨S_IFDIR, 4096⟩) none true
      (.entry ⟨['f'.toUInt8], by decide, by decide⟩ (some ⟨S_IFREG, 2⟩) (some [1, 2]) false
        .nil .nil)
      .nil)

def sampleTree : Tree :=
  .node ['d'.toUInt8] (.leaf (['f'.toUInt8], [1, 2]) .nil) .nil

theorem create_encodes_sample :
    ∃ image, create ['s'.toUInt8] true sampleDirectory = some image ∧
      Encodes image sampleTree :=
  create_encodes_tree
    (.dots (Or.inl rfl) (by decide)
      (.folder (by decide) (by decide) (.file (by decide) rfl (by decide) .nil) .nil))
    (by decide +kernel) (by decide) _

/-- A name for each number below `2 ^ 32`. -/
def bitName (n : ℕ) : Name where
  chars := (List.range 32).map fun b => if n.testBit b then 'b'.toUInt8 else 'a'.toUInt8
  terminated := by
    intro hzero
    obtain ⟨b, _, hb⟩ := List.mem_map.mp hzero
    by_cases htest : n.testBit b
    · rw [if_pos htest] at hb
      exact absurd hb (by decide)
    · rw [if_neg htest] at hb
      exact absurd hb (by decide)
  short := by
    rw [List.length_map, List.length_range]
    decide

def emptyFiles : ℕ → Directory
  | 0 => .nil
  | n + 1 => .entry (bitName n) (some ⟨S_IFREG, 0⟩) (some []) false .nil (emptyFiles n)

def emptyFilesTree : ℕ → Tree
  | 0 => .nil
  | n + 1 => .leaf ((bitName n).chars, []) (emptyFilesTree n)

theorem holds_emptyFiles (n : ℕ) : Holds (emptyFiles n) (emptyFilesTree n) := by
  induction n with
  | zero => exact .nil
  | succ n ih => exact .file (by decide) rfl (by decide) ih

theorem count_emptyFilesTree (n : ℕ) : (emptyFilesTree n).count = n := by
  induction n with
  | zero => rfl
  | succ n ih =>
    rw [emptyFilesTree, Forest.count, ih, Nat.add_comm]

theorem rdignore_emptyFiles (n : ℕ) : (emptyFiles n).rdignore = none := by
  induction n with
  | zero => rfl
  | succ n ih =>
    rw [emptyFiles, Directory.rdignore, if_neg, ih]
    intro heq
    have hlen := congrArg List.length heq
    rw [bitName, List.length_map, List.length_range] at hlen
    exact absurd hlen (by decide +kernel)

/-- A directory with more files than there are numbers. -/
theorem create_overflows :
    ¬ ∀ root tree sourcePath, Holds root tree → readIgnores root.rdignore = some [] →
      ∃ image, create sourcePath true root = some image ∧ Encodes image tree := by
  intro hall
  have hignores : readIgnores (emptyFiles (2 ^ 32)).rdignore = some [] := by
    rw [rdignore_emptyFiles]
    rfl
  obtain ⟨image, himage, _⟩ :=
    hall _ _ ['s'.toUInt8] (holds_emptyFiles (2 ^ 32)) hignores
  rw [create_eq (holds_emptyFiles _) hignores, count_emptyFilesTree] at himage
  cases himage

end Heartix.Ramdisk
