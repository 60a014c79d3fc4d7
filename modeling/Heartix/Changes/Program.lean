import Heartix.Changes.CommandLine

/-!
The program `changes`, called again and again. Each call reads its command line, asks the
system for the file, and stores, checks or clears a table that it finds on the disk. What
`--help` and `--version` print is left out.
-/

namespace Heartix.Changes

open Tracked

/-- A call: the name of the program, its arguments, and what the system says meanwhile about
the absolute path of a path, whether there is such a file, and when it was changed. -/
structure Invocation where
  self : Path
  argv : List Path
  absolute : Path → Path
  accessible : Path → Bool
  lastModify : Path → Int64

/-- The table files by their paths. -/
abbrev Disk := Path → TableFile

/-- The result of `main`, and what it writes to the standard error stream. -/
structure Outcome where
  status : ℤ
  message : Path
  disk : Disk

def usageMessage (self : Path) : Path :=
  literal "usage:\n\t" ++ self ++ literal " " ++
    (literal "[" ++ FLAG_CHECK ++ literal "," ++ FLAG_STORE ++ literal "]") ++
    literal " file\n" ++ literal "consider '" ++ FLAG_HELP ++ literal "' for more information"

def unknownFlag (self flag : Path) : Path :=
  literal "error: unknown flag '" ++ flag ++ literal "'\n" ++ usageMessage self

namespace Invocation

/-- The mode is carried out on the file and the table. -/
def carryOut (i : Invocation) (mode : Mode) (absolute tablepath : Path) (disk : Disk) :
    Option Outcome :=
  match mode with
  | .check => (check absolute (i.lastModify absolute) (disk tablepath)).map fun status =>
      ⟨status, [], disk⟩
  | .store => (store absolute (i.lastModify absolute) (disk tablepath)).map fun file =>
      ⟨0, [], Function.update disk tablepath file⟩
  | .clear => (clear (disk tablepath)).map fun file =>
      ⟨0, [], Function.update disk tablepath file⟩
  | .none => some ⟨0, [], disk⟩

/-- `main` -/
def main (i : Invocation) (disk : Disk) : Option Outcome :=
  match chosen i.argv with
  | .usage => some ⟨-1, usageMessage i.self, disk⟩
  | .help => some ⟨0, [], disk⟩
  | .version => some ⟨0, [], disk⟩
  | .unknown flag => some ⟨-1, unknownFlag i.self flag, disk⟩
  | .settings s =>
      if s.mode = .none then some ⟨-1, usageMessage i.self, disk⟩
      else
        let absolute := i.absolute s.file
        if (s.mode = .check ∨ s.mode = .store) ∧ i.accessible absolute = false then
          some ⟨-1, literal "error: '" ++ absolute ++ literal "' does not exist\n", disk⟩
        else i.carryOut s.mode absolute s.tablepath disk

/-- What a call does to which table. -/
def operation (i : Invocation) : Option (Path × Operation) :=
  match chosen i.argv with
  | .settings s =>
      match s.mode with
      | .store =>
          if i.accessible (i.absolute s.file) then
            some (s.tablepath, .store (i.absolute s.file) (i.lastModify (i.absolute s.file)))
          else none
      | .clear => some (s.tablepath, .clear)
      | _ => none
  | _ => none

/-- The dates that calls have recorded in the tables. -/
def record (recorded : Path → Path → Option Int64) (i : Invocation) :
    Path → Path → Option Int64 :=
  match i.operation with
  | some (table, op) => Function.update recorded table (op.record (recorded table))
  | none => recorded

end Invocation

def runAll (disk : Disk) : List Invocation → Option Disk
  | [] => some disk
  | i :: is => (i.main disk).bind fun outcome => runAll outcome.disk is

/-- What has been recorded by some calls, beginning with empty tables. -/
def recordedBy (is : List Invocation) : Path → Path → Option Int64 :=
  is.foldl Invocation.record fun _ _ => none

/-- All tables have the dates that have been recorded. -/
def AllKept (disk : Disk) (recorded : Path → Path → Option Int64) : Prop :=
  ∀ table, Tracked.Kept ⟨disk table, recorded table⟩

section Calls

variable {disk : Disk} {recorded : Path → Path → Option Int64} {i : Invocation} {table : Path}
  {op : Operation}

/-- An operation on one table, which the others do not notice. -/
theorem AllKept.update (h : AllKept disk recorded) {file : TableFile}
    {dates : Path → Option Int64} (hfile : Tracked.Kept ⟨file, dates⟩) :
    AllKept (Function.update disk table file) (Function.update recorded table dates) := by
  intro other
  by_cases hother : other = table
  · subst hother
    rw [Function.update_self, Function.update_self]
    exact hfile
  · rw [Function.update_of_ne hother, Function.update_of_ne hother]
    exact h other

theorem AllKept.exec (h : AllKept disk recorded) (hpath : op.Stores IsPath)
    (hshort : op.Stores Short) :
    ∃ file, op.exec (disk table) = some file ∧
      AllKept (Function.update disk table file)
        (Function.update recorded table (op.record (recorded table))) := by
  obtain ⟨t, hstep, hkept⟩ := (h table).step hpath hshort
  unfold Tracked.step at hstep
  obtain ⟨file, hexec, rfl⟩ := Option.map_eq_some_iff.mp hstep
  exact ⟨file, hexec, h.update hkept⟩

/-- A kept table answers a check. -/
theorem AllKept.check (h : AllKept disk recorded) (table path : Path) (lastModify : Int64) :
    ∃ status, Changes.check path lastModify (disk table) = some status := by
  obtain ⟨entries, hread, _⟩ := (h table).table
  exact ⟨_, check_eq hread⟩

/-- A call that does nothing to a table leaves all of them alone. -/
theorem AllKept.main_of_none (h : AllKept disk recorded) (hnone : i.operation = none) :
    ∃ status message, i.main disk = some ⟨status, message, disk⟩ := by
  unfold Invocation.main
  unfold Invocation.operation at hnone
  cases hchosen : chosen i.argv with
  | settings s =>
    obtain ⟨mode, file, tablepath⟩ := s
    rw [hchosen] at hnone
    dsimp only at hnone ⊢
    cases hfound : i.accessible (i.absolute file) with
    | true =>
      cases mode with
      | none => exact ⟨_, _, if_pos rfl⟩
      | store => rw [hfound] at hnone; cases hnone
      | clear => cases hnone
      | check =>
        obtain ⟨status, hcheck⟩ := h.check tablepath (i.absolute file)
          (i.lastModify (i.absolute file))
        refine ⟨status, [], ?_⟩
        rw [if_neg nofun, if_neg fun hmissing => nomatch hmissing.2]
        unfold Invocation.carryOut
        dsimp only
        rw [hcheck]
        rfl
    | false =>
      cases mode with
      | none => exact ⟨_, _, if_pos rfl⟩
      | store => exact ⟨_, _, (if_neg nofun).trans (if_pos ⟨Or.inr rfl, rfl⟩)⟩
      | check => exact ⟨_, _, (if_neg nofun).trans (if_pos ⟨Or.inl rfl, rfl⟩)⟩
      | clear => cases hnone
  | _ => exact ⟨_, _, rfl⟩

theorem main_of_some (hop : i.operation = some (table, op)) (disk : Disk) :
    i.main disk =
      (op.exec (disk table)).map fun file => ⟨0, [], Function.update disk table file⟩ := by
  unfold Invocation.main
  unfold Invocation.operation at hop
  cases hchosen : chosen i.argv with
  | settings s =>
    obtain ⟨mode, file, tablepath⟩ := s
    rw [hchosen] at hop
    dsimp only at hop ⊢
    cases mode with
    | none => cases hop
    | check => cases hop
    | store =>
      by_cases hfound : i.accessible (i.absolute file) = true
      · rw [if_pos hfound] at hop
        obtain ⟨rfl, rfl⟩ := Prod.mk.inj (Option.some.inj hop)
        rw [if_neg nofun, if_neg fun hmissing => Bool.false_ne_true (hmissing.2.symm.trans hfound)]
        rfl
      · rw [if_neg hfound] at hop
        cases hop
    | clear =>
      obtain ⟨rfl, rfl⟩ := Prod.mk.inj (Option.some.inj hop)
      rw [if_neg nofun, if_neg (by rintro ⟨h | h, _⟩ <;> cases h)]
      rfl
  | _ =>
    rw [hchosen] at hop
    cases hop

/-- Step lemma: every call ends, and the tables have what has been recorded. -/
theorem AllKept.main (h : AllKept disk recorded)
    (hpaths : ∀ table op, i.operation = some (table, op) → op.Stores IsPath ∧ op.Stores Short) :
    ∃ outcome, i.main disk = some outcome ∧ AllKept outcome.disk (i.record recorded) := by
  unfold Invocation.record
  cases hop : i.operation with
  | none =>
    obtain ⟨status, message, hmain⟩ := h.main_of_none hop
    exact ⟨_, hmain, h⟩
  | some target =>
    obtain ⟨table, op⟩ := target
    obtain ⟨hpath, hshort⟩ := hpaths table op hop
    obtain ⟨file, hexec, hkept⟩ := h.exec hpath hshort
    refine ⟨⟨0, [], Function.update disk table file⟩, ?_, hkept⟩
    rw [main_of_some hop, hexec]
    rfl

/-- Run lemma. -/
theorem AllKept.runAll {is : List Invocation} (h : AllKept disk recorded)
    (hpaths : ∀ i ∈ is, ∀ table op, i.operation = some (table, op) →
      op.Stores IsPath ∧ op.Stores Short) :
    ∃ disk', runAll disk is = some disk' ∧
      AllKept disk' (is.foldl Invocation.record recorded) := by
  induction is generalizing disk recorded with
  | nil => exact ⟨disk, rfl, h⟩
  | cons i is ih =>
    obtain ⟨outcome, hmain, hkept⟩ := h.main (hpaths i List.mem_cons_self)
    obtain ⟨disk', hrun, hall⟩ := ih hkept fun j hj => hpaths j (List.mem_cons_of_mem i hj)
    refine ⟨disk', ?_, hall⟩
    unfold Changes.runAll
    rw [hmain]
    exact hrun

end Calls

/-- After any calls, with any arguments, on tables that were empty, a check of a file that
is there says 0 exactly if the file was stored into that table since it was cleared, and has
not been changed since then. -/
theorem changes_runs (disk : Disk) (hopen : ∀ table, (disk table).Open)
    (hempty : ∀ table, readChangeTable (disk table) ∅ = some ∅) (is : List Invocation)
    (hpaths : ∀ i ∈ is, ∀ table op, i.operation = some (table, op) →
      op.Stores IsPath ∧ op.Stores Short) :
    ∃ disk', runAll disk is = some disk' ∧
      ∀ (i : Invocation) file table, chosen i.argv = .settings ⟨.check, file, table⟩ →
        i.accessible (i.absolute file) = true →
        ∃ status, i.main disk' = some ⟨status, [], disk'⟩ ∧
          (status = 0 ↔ ∃ v, recordedBy is table (i.absolute file) = some v ∧
            i.lastModify (i.absolute file) ≤ v) ∧
          (status = 1 ↔ ¬ ∃ v, recordedBy is table (i.absolute file) = some v ∧
            i.lastModify (i.absolute file) ≤ v) := by
  have hstart : AllKept disk fun _ _ => none := fun table =>
    ⟨hopen table, ∅, hempty table, fun _ => Std.ExtTreeMap.getElem?_empty, tabular_empty,
      allShort_empty⟩
  obtain ⟨disk', hrun, hkept⟩ := hstart.runAll hpaths
  refine ⟨disk', hrun, fun i file table hchosen hfound => ?_⟩
  obtain ⟨status, hcheck⟩ := hkept.check table (i.absolute file) (i.lastModify (i.absolute file))
  obtain ⟨_, hfaithful⟩ := (hkept table).faithful
  obtain ⟨hzero, hone⟩ := hfaithful (i.absolute file) (i.lastModify (i.absolute file))
  rw [hcheck] at hzero hone
  refine ⟨status, ?_, ?_, ?_⟩
  · unfold Invocation.main
    rw [hchosen]
    dsimp only
    rw [if_neg nofun, if_neg fun hmissing => Bool.false_ne_true (hmissing.2.symm.trans hfound)]
    unfold Invocation.carryOut
    dsimp only
    rw [hcheck]
    rfl
  · rw [← Option.some_inj, hzero]
    rfl
  · rw [← Option.some_inj, hone]
    rfl

/-- The first call of `changes`, which stores a file with an equals sign in its name. -/
def firstCall : Invocation where
  self := literal "changes"
  argv := [literal "-s", equalsPath]
  absolute path := path
  accessible _ := true
  lastModify _ := -7

theorem changes_runs_firstCall :
    ∃ disk', runAll (fun _ => freshTable) [firstCall] = some disk' ∧
      ∀ (i : Invocation) file table, chosen i.argv = .settings ⟨.check, file, table⟩ →
        i.accessible (i.absolute file) = true →
        ∃ status, i.main disk' = some ⟨status, [], disk'⟩ ∧
          (status = 0 ↔ ∃ v, recordedBy [firstCall] table (i.absolute file) = some v ∧
            i.lastModify (i.absolute file) ≤ v) ∧
          (status = 1 ↔ ¬ ∃ v, recordedBy [firstCall] table (i.absolute file) = some v ∧
            i.lastModify (i.absolute file) ≤ v) := by
  refine changes_runs (fun _ => freshTable) (fun _ => ⟨rfl, rfl⟩) (fun _ => rfl) _ ?_
  intro i hi table op hop
  obtain rfl := List.mem_singleton.mp hi
  have hstores : firstCall.operation = some (DEFAULT_TABLEPATH, .store equalsPath (-7)) := rfl
  obtain ⟨rfl, rfl⟩ := Prod.mk.inj (Option.some.inj (hstores.symm.trans hop))
  refine ⟨isPath_equalsPath, ?_⟩
  unfold Operation.Stores Short
  decide

end Heartix.Changes
