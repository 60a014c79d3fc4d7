import Heartix.Changes.Table
import Heartix.Lib.Runs

/-!
Storing, checking and clearing modify dates. Each operation reads the whole table and
writes it again, so what a run of them records is kept as long as the text of the table
says what the table says.
-/

namespace Heartix.Changes

open Runs

/-- `store`, at a modify date of the file. -/
def store (path : Path) (lastModify : Int64) (file : TableFile) : Option TableFile :=
  (readChangeTable file ∅).map fun entries =>
    saveChangeTable file (entries.insert path lastModify)

/-- `check`, at a modify date of the file. -/
def check (path : Path) (lastModify : Int64) (file : TableFile) : Option ℤ :=
  (readChangeTable file ∅).map fun entries =>
    match entries.toList.find? (fun entry => path = entry.1) with
    | some entry => if entry.2 < lastModify then 1 else 0
    | none => 1

def clear (file : TableFile) : Option TableFile :=
  (readChangeTable file ∅).map fun _ => saveChangeTable file ∅

inductive Operation where
  | store (path : Path) (lastModify : Int64)
  | clear

namespace Operation

def exec (file : TableFile) : Operation → Option TableFile
  | store path lastModify => Changes.store path lastModify file
  | clear => Changes.clear file

/-- The date of each path when it was stored last since the table was cleared. Storing a
path leaves the others alone. -/
def record (recorded : Path → Option Int64) : Operation → Path → Option Int64
  | store path lastModify => Function.update recorded path (some lastModify)
  | clear => fun _ => none

/-- The paths that are stored. -/
def Stores (P : Path → Prop) : Operation → Prop
  | store path _ => P path
  | clear => True

end Operation

/-- The file of the table, and what the run has recorded. -/
structure Tracked where
  file : TableFile
  recorded : Path → Option Int64

def Tracked.step (s : Tracked) (op : Operation) : Option Tracked :=
  (op.exec s.file).map fun file => ⟨file, op.record s.recorded⟩

/-- The table has the recorded dates, and a check finds a file unchanged exactly if it has
been stored with a date that is not older. -/
def Tracked.Faithful (s : Tracked) : Prop :=
  (∃ entries, readChangeTable s.file ∅ = some entries ∧ ∀ p, entries[p]? = s.recorded p) ∧
    ∀ p lastModify,
      (check p lastModify s.file = some 0 ↔ ∃ v, s.recorded p = some v ∧ lastModify ≤ v) ∧
      (check p lastModify s.file = some 1 ↔ ¬ ∃ v, s.recorded p = some v ∧ lastModify ≤ v)

/-- The table has the recorded dates, and it can be written and read back. -/
structure Tracked.Kept (s : Tracked) : Prop where
  opens : s.file.Open
  table : ∃ entries, readChangeTable s.file ∅ = some entries ∧
    (∀ p, entries[p]? = s.recorded p) ∧ Tabular entries ∧ AllShort entries

section Check

variable {file : TableFile} {entries : Entries} {path : Path} {lastModify : Int64}

theorem check_eq (hread : readChangeTable file ∅ = some entries) :
    check path lastModify file =
      some (match entries[path]? with
        | some v => if v < lastModify then 1 else 0
        | none => 1) := by
  unfold check
  rw [hread, Option.map_some]
  congr 1
  cases hfind : entries.toList.find? (fun entry => path = entry.1) with
  | none =>
    cases hget : entries[path]? with
    | none => rfl
    | some v =>
      have hmem := Std.ExtTreeMap.mem_toList_iff_getElem?_eq_some.mpr hget
      have hne := List.find?_eq_none.mp hfind (path, v) hmem
      exact absurd (decide_eq_true rfl) hne
  | some entry =>
    have hfound := List.find?_some hfind
    have hpath : path = entry.1 := of_decide_eq_true hfound
    have hget := Std.ExtTreeMap.mem_toList_iff_getElem?_eq_some.mp
      (List.mem_of_find?_eq_some hfind)
    rw [hpath, hget]

end Check

namespace Tracked

variable {s t : Tracked} {op : Operation}

theorem Kept.faithful (h : s.Kept) : s.Faithful := by
  obtain ⟨entries, hread, hrecorded, -⟩ := h.table
  refine ⟨⟨entries, hread, hrecorded⟩, ?_⟩
  intro p lastModify
  rw [check_eq hread, hrecorded]
  cases s.recorded p with
  | none => simp
  | some v =>
    by_cases hlt : v < lastModify
    · have hle : ¬ lastModify ≤ v := Int64.not_le.mpr hlt
      simp [hlt, hle]
    · have hle : lastModify ≤ v := Int64.not_lt.mp hlt
      simp [hlt, hle]

theorem tabular_empty : Tabular ∅ := fun _ hp => absurd hp Std.ExtTreeMap.not_mem_empty

theorem allShort_empty : AllShort ∅ := fun _ hp => absurd hp Std.ExtTreeMap.not_mem_empty

theorem forall_mem_insert {P : Path → Prop} {entries : Entries} {path : Path} {v : Int64}
    (hpath : P path) (hentries : ∀ p ∈ entries, P p) : ∀ p ∈ entries.insert path v, P p := by
  intro p hp
  rcases Std.ExtTreeMap.mem_insert.mp hp with heq | hmem
  · rw [← Std.LawfulEqCmp.compare_eq_iff_eq.mp heq]
    exact hpath
  · exact hentries p hmem

theorem TableFile.Open.save {file : TableFile} (h : file.Open) (entries : Entries) :
    (saveChangeTable file entries).Open := by
  unfold saveChangeTable
  rw [if_pos h.writable]
  exact ⟨h.readable, h.writable⟩

/-- Saving a table of short paths keeps what it has. -/
theorem kept_save {file : TableFile} {entries : Entries} {recorded : Path → Option Int64}
    (hfile : file.Open) (hpaths : Tabular entries) (hshort : AllShort entries)
    (hrecorded : ∀ p, entries[p]? = recorded p) :
    Kept ⟨saveChangeTable file entries, recorded⟩ where
  opens := TableFile.Open.save hfile entries
  table := ⟨entries, (readChangeTable_save_iff hfile hpaths).mpr hshort, hrecorded, hpaths, hshort⟩

/-- What one operation on a short path leads to. -/
theorem Kept.step (h : s.Kept) (hpath : op.Stores IsPath) (hshort : op.Stores Short) :
    ∃ t, s.step op = some t ∧ t.Kept := by
  obtain ⟨entries, hread, hrecorded, hpaths, hall⟩ := h.table
  cases op with
  | store path lastModify =>
    refine ⟨⟨saveChangeTable s.file (entries.insert path lastModify),
      Operation.record s.recorded (.store path lastModify)⟩, ?_, ?_⟩
    · unfold Tracked.step Operation.exec store
      rw [hread]
      rfl
    · apply kept_save h.opens (forall_mem_insert hpath hpaths) (forall_mem_insert hshort hall)
      intro p
      dsimp only [Operation.record]
      rw [Std.ExtTreeMap.getElem?_insert, Function.update_apply, hrecorded]
      by_cases hp : p = path
      · rw [if_pos hp, if_pos (Std.LawfulEqCmp.compare_eq_iff_eq.mpr hp.symm)]
      · rw [if_neg hp, if_neg (mt Std.LawfulEqCmp.compare_eq_iff_eq.mp (Ne.symm hp))]
  | clear =>
    refine ⟨⟨saveChangeTable s.file ∅, Operation.record s.recorded .clear⟩, ?_, ?_⟩
    · unfold Tracked.step Operation.exec clear
      rw [hread]
      rfl
    · apply kept_save h.opens tabular_empty allShort_empty
      intro p
      exact Std.ExtTreeMap.getElem?_empty

end Tracked

/-- No table has been saved yet. -/
def freshTable : TableFile := ⟨none, true, true⟩

/-- A path with an equals sign in it. -/
def equalsPath : Path := "a=b".toList.map Char.toUInt8

theorem isPath_equalsPath : IsPath equalsPath := ⟨by decide, by decide, by decide⟩

end Heartix.Changes
