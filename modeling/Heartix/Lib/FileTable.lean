import Heartix.Lib.FlatFile
import Mathlib.Logic.Function.Basic

/-!
Named files and the descriptors open on them. A descriptor stands for a file and
an offset; a transfer through it moves the offset, and a write through it
changes that one file. What calls through one descriptor leave alone is
`SameExcept`, so that the users of two descriptors need not know of each other.
-/

namespace Heartix

structure FileTable (Name Fd α : Type*) where
  content : Name → FlatFile α
  position : Fd → Option (Name × ℕ)

namespace FileTable

variable {Name Fd α : Type*}

section Operations

variable [DecidableEq Name] [DecidableEq Fd]

def openAt [Inhabited α] (t : FileTable Name Fd α) (fd : Fd) (name : Name) (truncate : Bool) :
    FileTable Name Fd α where
  content := if truncate = true then Function.update t.content name (FlatFile.ofList [])
    else t.content
  position := Function.update t.position fd (some (name, 0))

/-- A descriptor that is not open moves nowhere. -/
def moveTo (t : FileTable Name Fd α) (fd : Fd) (offset : ℕ) : FileTable Name Fd α :=
  match t.position fd with
  | none => t
  | some (name, _) => { t with position := Function.update t.position fd (some (name, offset)) }

def advance (t : FileTable Name Fd α) (fd : Fd) (n : ℕ) : FileTable Name Fd α :=
  match t.position fd with
  | none => t
  | some (_, offset) => t.moveTo fd (offset + n)

def write (t : FileTable Name Fd α) (fd : Fd) (block : List α) : FileTable Name Fd α :=
  match t.position fd with
  | none => t
  | some (name, offset) =>
      { content := Function.update t.content name ((t.content name).write offset block)
        position := Function.update t.position fd (some (name, offset + block.length)) }

def close (t : FileTable Name Fd α) (fd : Fd) : FileTable Name Fd α :=
  { t with position := Function.update t.position fd none }

end Operations

/-- Only the file `name` and the descriptor `fd` may differ. -/
structure SameExcept (name : Name) (fd : Fd) (t u : FileTable Name Fd α) : Prop where
  content : ∀ n, n ≠ name → u.content n = t.content n
  position : ∀ d, d ≠ fd → u.position d = t.position d

variable {t u v : FileTable Name Fd α} {name : Name} {fd : Fd} {offset : ℕ}

theorem SameExcept.refl (t : FileTable Name Fd α) : SameExcept name fd t t :=
  ⟨fun _ _ => rfl, fun _ _ => rfl⟩

theorem SameExcept.trans (htu : SameExcept name fd t u) (huv : SameExcept name fd u v) :
    SameExcept name fd t v where
  content n hn := (huv.content n hn).trans (htu.content n hn)
  position d hd := (huv.position d hd).trans (htu.position d hd)

section Descriptors

variable [DecidableEq Fd]

@[simp] theorem content_moveTo (t : FileTable Name Fd α) (fd : Fd) (offset : ℕ) :
    (t.moveTo fd offset).content = t.content := by
  unfold moveTo
  split <;> rfl

theorem sameExcept_moveTo (t : FileTable Name Fd α) (name : Name) (fd : Fd) (offset : ℕ) :
    SameExcept name fd t (t.moveTo fd offset) where
  content n _ := by rw [content_moveTo]
  position d hd := by
    unfold moveTo
    split
    · rfl
    · exact Function.update_of_ne hd _ _

theorem sameExcept_advance (t : FileTable Name Fd α) (name : Name) (fd : Fd) (n : ℕ) :
    SameExcept name fd t (t.advance fd n) := by
  unfold advance
  split
  · exact .refl t
  · exact sameExcept_moveTo t name fd _

theorem sameExcept_close (t : FileTable Name Fd α) (name : Name) (fd : Fd) :
    SameExcept name fd t (t.close fd) where
  content _ _ := rfl
  position _ hd := Function.update_of_ne hd _ _

@[simp] theorem content_advance (t : FileTable Name Fd α) (fd : Fd) (n : ℕ) :
    (t.advance fd n).content = t.content := by
  unfold advance
  split
  · rfl
  · exact content_moveTo t fd _

theorem moveTo_self (h : t.position fd = some (name, offset)) : t.moveTo fd offset = t := by
  unfold moveTo
  rw [h]
  dsimp only
  rw [← h, Function.update_eq_self]

theorem moveTo_of_closed (h : t.position fd = none) (offset : ℕ) : t.moveTo fd offset = t := by
  unfold moveTo
  rw [h]

@[simp] theorem advance_zero (t : FileTable Name Fd α) (fd : Fd) : t.advance fd 0 = t := by
  unfold advance
  rcases h : t.position fd with _ | ⟨name, offset⟩
  · rfl
  · exact moveTo_self h

theorem position_advance (h : t.position fd = some (name, offset)) (n : ℕ) :
    (t.advance fd n).position fd = some (name, offset + n) := by
  simp [advance, moveTo, h]

end Descriptors

variable [DecidableEq Name] [DecidableEq Fd]

theorem sameExcept_openAt [Inhabited α] (t : FileTable Name Fd α) (fd : Fd) (name : Name)
    (truncate : Bool) : SameExcept name fd t (t.openAt fd name truncate) where
  content n hn := by
    cases truncate with
    | false => rfl
    | true => exact Function.update_of_ne hn _ _
  position d hd := Function.update_of_ne hd _ _

theorem sameExcept_write (h : t.position fd = some (name, offset)) (block : List α) :
    SameExcept name fd t (t.write fd block) := by
  unfold write
  rw [h]
  exact ⟨fun n hn => Function.update_of_ne hn _ _, fun d hd => Function.update_of_ne hd _ _⟩

theorem position_write (h : t.position fd = some (name, offset)) (block : List α) :
    (t.write fd block).position fd = some (name, offset + block.length) := by
  simp [write, h]

/-- Writing at the end of a file appends to it. -/
theorem content_write_end [Inhabited α] {l : List α}
    (h : t.position fd = some (name, l.length))
    (hcontent : t.content name = FlatFile.ofList l) (block : List α) :
    (t.write fd block).content name = FlatFile.ofList (l ++ block) := by
  simp only [write, h, Function.update_self, hcontent]
  exact FlatFile.write_ofList l block

end FileTable

end Heartix
