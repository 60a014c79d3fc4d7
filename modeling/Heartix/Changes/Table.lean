import Heartix.Lib.Decimal
import Heartix.Printf.Directive
import Heartix.Stdlib.Strtol
import Mathlib.Data.List.TakeWhile

/-!
The change table of `changes`: modify dates of files, kept as lines of a path, an equals
sign and a decimal number. A line is cut at its last equals sign, whose position is kept
in an `int`.
-/

namespace Heartix.Changes

open Decimal Numeral Printf Stdlib

abbrev Path := List UInt8

/-- `map<string, long>` -/
abbrev Entries := Std.ExtTreeMap Path Int64

/-- The file of the table: what it holds, if it exists, and whether it can be opened. -/
structure TableFile where
  content : Option (List UInt8)
  readable : Bool
  writable : Bool

/-- The lines that `getline` yields, with the part of the current one that is read. -/
def getlines (line : List UInt8) : List UInt8 → List (List UInt8)
  | [] => if line = [] then [] else [line]
  | c :: rest => if c = '\n'.toUInt8 then line :: getlines [] rest else getlines (line ++ [c]) rest

/-- The last position of a character. -/
def findLastOf (c : UInt8) : List UInt8 → Option ℕ
  | [] => none
  | d :: s =>
      match findLastOf c s with
      | some i => some (i + 1)
      | none => if d = c then some 0 else none

/-- A position, or `npos`, as an `int`. -/
def position : Option ℕ → ℤ
  | some i => (i : ℤ).bmod (2 ^ 32)
  | none => -1

/-- `>>` for a `long`. The number is not set where only blanks are left, and it is the
nearest one where it does not fit. -/
def extractLong (s : List UInt8) : Option Int64 :=
  match s.dropWhile isspace with
  | [] => none
  | c :: p =>
      match readSign (c :: p) with
      | (negative, p) =>
          let n : ℤ := value 10 ((p.takeWhile isdigit).filterMap digitOf)
          let n := if negative then -n else n
          some (Int64.ofInt (max (-2 ^ 63) (min n (2 ^ 63 - 1))))

/-- One round of the loop. Undefined where `substr` throws, and where a number that has
not been set is stored. -/
def readLine (target : Entries) (line : List UInt8) : Option Entries :=
  let eqpos := position (findLastOf '='.toUInt8 line)
  if eqpos ≠ -1 then
    let filepath := line.take (sizeT eqpos)
    let behind := sizeT ((eqpos + 1).bmod (2 ^ 32))
    if line.length < behind then none
    else
      let timestamps := line.drop behind
      if filepath ≠ [] ∧ timestamps ≠ [] then (extractLong timestamps).map (target.insert filepath)
      else some target
  else some target

def readChangeTable (file : TableFile) (target : Entries) : Option Entries :=
  match file.content with
  | none => some target
  | some bytes => if file.readable then (getlines [] bytes).foldlM readLine target else some target

/-- The line of an entry, without its end. -/
def entryLine (entry : Path × Int64) : List UInt8 :=
  entry.1 ++ '='.toUInt8 :: signedText entry.2.toInt

def saveChangeTable (file : TableFile) (target : Entries) : TableFile :=
  if file.writable then
    { file with content := some (target.toList.flatMap fun e => entryLine e ++ ['\n'.toUInt8]) }
  else file

section Lines

variable {c : UInt8}

/-- A line that is complete. -/
theorem getlines_append (line : List UInt8) {l : List UInt8} (rest : List UInt8)
    (hl : '\n'.toUInt8 ∉ l) :
    getlines line (l ++ '\n'.toUInt8 :: rest) = (line ++ l) :: getlines [] rest := by
  induction l generalizing line with
  | nil => rw [List.nil_append, getlines, if_pos rfl, List.append_nil]
  | cons c l ih =>
    obtain ⟨hc, hl⟩ := not_or.mp (mt List.mem_cons.mpr hl)
    rw [List.cons_append, getlines, if_neg (Ne.symm hc), ih _ hl, List.append_assoc,
      List.singleton_append]

/-- Lines without line ends are read as they have been written. -/
theorem getlines_flatMap {ls : List (List UInt8)} (hls : ∀ l ∈ ls, '\n'.toUInt8 ∉ l) :
    getlines [] (ls.flatMap fun l => l ++ ['\n'.toUInt8]) = ls := by
  induction ls with
  | nil => rfl
  | cons l ls ih =>
    rw [List.flatMap_cons, List.append_assoc, List.singleton_append,
      getlines_append [] _ (hls l List.mem_cons_self), List.nil_append,
      ih fun m hm => hls m (List.mem_cons_of_mem l hm)]

theorem findLastOf_of_notMem {s : List UInt8} (hs : c ∉ s) : findLastOf c s = none := by
  induction s with
  | nil => rfl
  | cons d s ih =>
    obtain ⟨hd, hs⟩ := not_or.mp (mt List.mem_cons.mpr hs)
    rw [findLastOf, ih hs]
    exact if_neg (Ne.symm hd)

/-- Behind the last one there is none. -/
theorem findLastOf_append (p : List UInt8) {s : List UInt8} (hs : c ∉ s) :
    findLastOf c (p ++ c :: s) = some p.length := by
  induction p with
  | nil =>
    rw [List.nil_append, findLastOf, findLastOf_of_notMem hs]
    exact if_pos rfl
  | cons d p ih =>
    rw [List.cons_append, findLastOf, ih]
    rfl

end Lines

section Numbers

theorem isdigit_digit {d : ℕ} (hd : d < 10) :
    isdigit (digit d) = true ∧ digitOf (digit d) = some d := by
  interval_cases d
  all_goals exact ⟨rfl, rfl⟩

/-- A number is written in digits, and these make up the number. -/
theorem text_spec (n : ℕ) :
    (∀ c ∈ text n, isdigit c = true) ∧ text n ≠ [] ∧ value 10 ((text n).filterMap digitOf) = n := by
  induction n using text_induction with
  | hdigit d hd =>
    obtain ⟨hdigit, hvalue⟩ := isdigit_digit hd
    refine ⟨List.forall_mem_singleton.mpr hdigit, List.cons_ne_nil _ _, ?_⟩
    rw [List.filterMap_cons, hvalue, List.filterMap_nil]
    exact Nat.zero_add d
  | hmore n d hd ih =>
    obtain ⟨hdigit, hvalue⟩ := isdigit_digit hd
    obtain ⟨hall, -, hnumber⟩ := ih
    refine ⟨?_, List.append_ne_nil_of_right_ne_nil _ (List.cons_ne_nil _ _), ?_⟩
    · intro c hc
      rcases List.mem_append.mp hc with hfront | hlast
      · exact hall c hfront
      · obtain rfl := List.mem_singleton.mp hlast
        exact hdigit
    · unfold value at hnumber ⊢
      rw [List.filterMap_append, extend_append, hnumber, List.filterMap_cons, hvalue,
        List.filterMap_nil, extend_cons, extend_nil, Nat.mul_comm]

/-- Where the number begins is neither a blank nor a sign. -/
theorem head_text (n : ℕ) :
    ∃ c t, text n = c :: t ∧ isspace c = false ∧ c ≠ '+'.toUInt8 ∧ c ≠ '-'.toUInt8 := by
  obtain ⟨hdigit, hne, -⟩ := text_spec n
  obtain ⟨c, t, hcons⟩ := List.exists_cons_of_ne_nil hne
  rw [hcons] at hdigit
  exact ⟨c, t, hcons, not_isspace_of_isdigit (hdigit c List.mem_cons_self)⟩

/-- The characters of a signed number. -/
theorem mem_signedText {n : ℤ} {c : UInt8} (hc : c ∈ signedText n) :
    c = '-'.toUInt8 ∨ isdigit c = true := by
  unfold signedText at hc
  split at hc
  · rcases List.mem_cons.mp hc with heq | hmem
    · left
      exact heq
    · right
      exact (text_spec _).1 c hmem
  · right
    exact (text_spec _).1 c hc

theorem signedText_ne_nil (n : ℤ) : signedText n ≠ [] := by
  unfold signedText
  split
  · exact List.cons_ne_nil _ _
  · exact (text_spec _).2.1

theorem length_signedText (v : Int64) : (signedText v.toInt).length ≤ 20 := by
  have hlow := v.le_toInt
  have hhigh := v.toInt_lt
  have hlength : (Decimal.text v.toInt.natAbs).length ≤ 19 := by
    unfold Decimal.text
    rw [List.length_map]
    apply Nat.toDigits_length
    · decide
    · omega
  unfold signedText
  split
  · exact Nat.succ_le_succ hlength
  · exact Nat.le_succ_of_le hlength

/-- A number that has been written is read back. -/
theorem extractLong_signedText (v : Int64) : extractLong (signedText v.toInt) = some v := by
  have hlow := v.le_toInt
  have hhigh := v.toInt_lt
  obtain ⟨hdigit, -, hvalue⟩ := text_spec v.toInt.natAbs
  obtain ⟨c, t, hcons, hspace, hplus, hminus⟩ := head_text v.toInt.natAbs
  have hall : (text v.toInt.natAbs).takeWhile isdigit = text v.toInt.natAbs :=
    List.takeWhile_eq_self_iff.mpr hdigit
  have hclamp : Int64.ofInt (max (-2 ^ 63) (min v.toInt (2 ^ 63 - 1))) = v := by
    have hsame : max (-2 ^ 63) (min v.toInt (2 ^ 63 - 1)) = v.toInt := by
      omega
    rw [hsame, Int64.ofInt_toInt]
  unfold extractLong signedText
  by_cases hnegative : v.toInt < 0
  · have hblank : ('-'.toUInt8 :: text v.toInt.natAbs).dropWhile isspace =
        '-'.toUInt8 :: text v.toInt.natAbs := List.dropWhile_cons_of_neg (by decide)
    have hsign : readSign ('-'.toUInt8 :: text v.toInt.natAbs) = (true, text v.toInt.natAbs) := rfl
    rw [if_pos hnegative, hblank]
    dsimp only
    rw [hsign]
    dsimp only
    rw [hall, hvalue, if_pos rfl, Int.ofNat_natAbs_of_nonpos (Int.le_of_lt hnegative), Int.neg_neg,
      hclamp]
  · have hblank : (text v.toInt.natAbs).dropWhile isspace = text v.toInt.natAbs := by
      rw [hcons]
      apply List.dropWhile_cons_of_neg
      rw [hspace]
      exact Bool.false_ne_true
    have hsign : readSign (c :: t) = (false, c :: t) := by
      rw [readSign, if_neg (not_or.mpr ⟨hplus, hminus⟩)]
    rw [if_neg hnegative, hblank, hcons]
    dsimp only
    rw [hsign]
    dsimp only
    rw [← hcons, hall, hvalue, if_neg Bool.false_ne_true,
      Int.natAbs_of_nonneg (Int.not_lt.mp hnegative), hclamp]

end Numbers

section Entries

/-- A path that the table can hold as a line, of any length that a string can have. -/
structure IsPath (p : Path) : Prop where
  nonempty : p ≠ []
  line : '\n'.toUInt8 ∉ p
  length : p.length < 2 ^ 63

/-- The position behind the path and the one after it are still numbers of an `int`. -/
def Short (p : Path) : Prop := p.length + 1 < 2 ^ 31

variable {p : Path} {v : Int64} {target : Entries}

theorem notMem_signedText {c : UInt8} (hc : c ≠ '-'.toUInt8) (hdigit : isdigit c = false) (n : ℤ) :
    c ∉ signedText n := by
  intro hmem
  rcases mem_signedText hmem with heq | hyes
  · exact hc heq
  · rw [hdigit] at hyes
    cases hyes

theorem sizeT_natCast {n : ℕ} (hn : n < 2 ^ 64) : sizeT (n : ℤ) = n := by
  unfold sizeT
  rw [Int.emod_eq_of_lt (Int.natCast_nonneg n) (by omega), Int.toNat_natCast]

theorem findLastOf_entryLine (p : Path) (v : Int64) :
    findLastOf '='.toUInt8 (entryLine (p, v)) = some p.length :=
  findLastOf_append p (notMem_signedText (by decide) rfl _)

/-- The line of a short path is read as the entry. -/
theorem readLine_entryLine (hpath : IsPath p) (hshort : Short p) (target : Entries) (v : Int64) :
    readLine target (entryLine (p, v)) = some (target.insert p v) := by
  have hlength : (entryLine (p, v)).length = p.length + ((signedText v.toInt).length + 1) := by
    unfold entryLine
    rw [List.length_append, List.length_cons]
  have hfront : (entryLine (p, v)).take p.length = p := List.take_left
  have hbehind : (entryLine (p, v)).drop (p.length + 1) = signedText v.toInt := by
    unfold entryLine
    rw [← List.drop_drop, List.drop_left, List.drop_one, List.tail_cons]
  unfold Short at hshort
  have hposition : position (some p.length) = p.length := by
    dsimp only [position]
    exact Int.bmod_eq_of_le (by omega) (by omega)
  have hnext : ((p.length : ℤ) + 1).bmod (2 ^ 32) = p.length + 1 :=
    Int.bmod_eq_of_le (by omega) (by omega)
  have hsize : sizeT (p.length : ℤ) = p.length := sizeT_natCast (by omega)
  have hsizeNext : sizeT ((p.length : ℤ) + 1) = p.length + 1 := by
    rw [← Int.natCast_succ]
    exact sizeT_natCast (by omega)
  unfold readLine
  rw [findLastOf_entryLine, hposition]
  dsimp only
  rw [if_pos (by omega), hnext, hsize, hsizeNext, if_neg (by omega), hfront,
    hbehind, if_pos ⟨hpath.nonempty, signedText_ne_nil _⟩, extractLong_signedText]
  rfl

/-- A line yields no entry for a path that is not short. -/
theorem readLine_short {line : List UInt8} {entries : Entries}
    (hline : line.length < 2 ^ 64 - 2 ^ 31)
    (h : readLine target line = some entries) :
    entries = target ∨ ∃ q w, Short q ∧ entries = target.insert q w := by
  unfold readLine at h
  dsimp only at h
  generalize hi : findLastOf '='.toUInt8 line = i at h
  split at h
  · split at h
    · cases h
    · split at h
      · right
        obtain ⟨w, -, rfl⟩ := Option.map_eq_some_iff.mp h
        refine ⟨_, w, ?_, rfl⟩
        rename_i hfound hfits _
        unfold Short
        rw [List.length_take]
        have hrange : -2 ^ 31 ≤ position i ∧ position i < 2 ^ 31 := by
          cases i with
          | none => decide
          | some i =>
            have hlow := Int.le_bmod (x := (i : ℤ)) (m := 2 ^ 32) (by decide)
            have hhigh := Int.bmod_lt (x := (i : ℤ)) (m := 2 ^ 32) (by decide)
            dsimp only [position]
            omega
        unfold sizeT at hfits ⊢
        have hnonneg : 0 ≤ position i ∧ position i + 1 < 2 ^ 31 := by
          generalize position i = n at hfits hfound hrange
          by_cases hlast : n + 1 = 2 ^ 31
          · have hwrapped : ((2 ^ 31 : ℤ).bmod (2 ^ 32) % 2 ^ 64).toNat = 2 ^ 64 - 2 ^ 31 := by
              decide
            rw [hlast, hwrapped] at hfits
            omega
          · rw [Int.bmod_eq_of_le (by omega) (by omega)] at hfits
            omega
        omega
      · left
        exact (Option.some.inj h).symm
  · left
    exact (Option.some.inj h).symm

end Entries

section RoundTrip

variable {entries target : Entries} {file : TableFile}

/-- The domain of the table: paths that a line can hold. -/
def Tabular (entries : Entries) : Prop := ∀ p ∈ entries, IsPath p

def AllShort (entries : Entries) : Prop := ∀ p ∈ entries, Short p

/-- The file can be read and written. -/
structure TableFile.Open (file : TableFile) : Prop where
  readable : file.readable = true
  writable : file.writable = true

theorem mem_of_mem_toList {e : Path × Int64} (he : e ∈ entries.toList) : e.1 ∈ entries := by
  apply Std.ExtTreeMap.mem_iff_isSome_getElem?.mpr
  rw [Std.ExtTreeMap.mem_toList_iff_getElem?_eq_some.mp he]
  rfl

/-- Inserting the entries of a table gives the table. -/
theorem foldl_insert_toList (entries : Entries) :
    entries.toList.foldl (fun acc e => acc.insert e.1 e.2) ∅ = entries := by
  rw [← Std.ExtTreeMap.ofList_eq_foldl]
  apply Std.ExtTreeMap.ext_getElem?
  intro p
  cases hp : entries[p]? with
  | none =>
    apply Std.ExtTreeMap.getElem?_ofList_of_contains_eq_false
    apply Bool.eq_false_of_not_eq_true
    intro hcontains
    obtain ⟨e, he, rfl⟩ := List.mem_map.mp (List.contains_iff_mem.mp hcontains)
    rw [Std.ExtTreeMap.mem_toList_iff_getElem?_eq_some.mp he] at hp
    cases hp
  | some v =>
    apply Std.ExtTreeMap.getElem?_ofList_of_mem
    · exact Std.ReflCmp.compare_self
    · exact Std.ExtTreeMap.distinct_keys_toList
    · exact Std.ExtTreeMap.mem_toList_iff_getElem?_eq_some.mpr hp

/-- What is read from a table that has been saved. -/
theorem readChangeTable_save (hfile : file.Open) (hpaths : Tabular entries) :
    readChangeTable (saveChangeTable file entries) ∅ =
      (entries.toList.map entryLine).foldlM readLine ∅ := by
  have hlines : ∀ l ∈ entries.toList.map entryLine, '\n'.toUInt8 ∉ l := by
    intro l hl hmem
    obtain ⟨e, he, rfl⟩ := List.mem_map.mp hl
    rcases List.mem_append.mp hmem with hpath | hnumber
    · exact (hpaths e.1 (mem_of_mem_toList he)).line hpath
    · rcases List.mem_cons.mp hnumber with heq | hdigit
      · exact absurd heq (by decide)
      · exact notMem_signedText (by decide) rfl _ hdigit
  have hread := getlines_flatMap hlines
  rw [List.flatMap_map] at hread
  unfold readChangeTable saveChangeTable
  rw [if_pos hfile.writable]
  dsimp only
  rw [if_pos hfile.readable, hread]

theorem foldlM_entryLine {es : List (Path × Int64)} (hes : ∀ e ∈ es, IsPath e.1 ∧ Short e.1)
    (target : Entries) :
    (es.map entryLine).foldlM readLine target =
      some (es.foldl (fun acc e => acc.insert e.1 e.2) target) := by
  induction es generalizing target with
  | nil => rfl
  | cons e es ih =>
    obtain ⟨hpath, hshort⟩ := hes e List.mem_cons_self
    rw [List.map_cons, List.foldlM_cons, readLine_entryLine hpath hshort]
    exact ih (fun f hf => hes f (List.mem_cons_of_mem e hf)) _

/-- No line of a file yields a path that is not short. -/
theorem foldlM_short {lines : List (List UInt8)} (hlines : ∀ l ∈ lines, l.length < 2 ^ 64 - 2 ^ 31)
    (htarget : AllShort target) (h : lines.foldlM readLine target = some entries) :
    AllShort entries := by
  induction lines generalizing target with
  | nil =>
    obtain rfl := Option.some.inj h
    exact htarget
  | cons l lines ih =>
    rw [List.foldlM_cons] at h
    obtain ⟨next, hnext, hrest⟩ := Option.bind_eq_some_iff.mp h
    refine ih (fun m hm => hlines m (List.mem_cons_of_mem l hm)) ?_ hrest
    rcases readLine_short (hlines l List.mem_cons_self) hnext with rfl | ⟨q, w, hq, rfl⟩
    · exact htarget
    · intro p hp
      rcases Std.ExtTreeMap.mem_insert.mp hp with heq | hmem
      · rw [← Std.LawfulEqCmp.compare_eq_iff_eq.mp heq]
        exact hq
      · exact htarget p hmem

theorem length_entryLine (e : Path × Int64) : (entryLine e).length ≤ e.1.length + 21 := by
  have hnumber := length_signedText e.2
  unfold entryLine
  rw [List.length_append, List.length_cons]
  omega

/-- What is read from a table that has been saved has short paths only. -/
theorem readChangeTable_save_short {found : Entries} (hfile : file.Open) (hpaths : Tabular entries)
    (h : readChangeTable (saveChangeTable file entries) ∅ = some found) : AllShort found := by
  rw [readChangeTable_save hfile hpaths] at h
  refine foldlM_short ?_ ?_ h
  · intro l hl
    obtain ⟨e, he, rfl⟩ := List.mem_map.mp hl
    have hline := length_entryLine e
    have hpath := (hpaths e.1 (mem_of_mem_toList he)).length
    omega
  · intro p hp
    exact absurd hp Std.ExtTreeMap.not_mem_empty

/-- A table that is saved is read back exactly if its paths are short. -/
theorem readChangeTable_save_iff (hfile : file.Open) (hpaths : Tabular entries) :
    readChangeTable (saveChangeTable file entries) ∅ = some entries ↔ AllShort entries := by
  constructor
  · exact readChangeTable_save_short hfile hpaths
  · intro h
    rw [readChangeTable_save hfile hpaths, foldlM_entryLine, foldl_insert_toList]
    intro e he
    exact ⟨hpaths e.1 (mem_of_mem_toList he), h e.1 (mem_of_mem_toList he)⟩

end RoundTrip

end Heartix.Changes
