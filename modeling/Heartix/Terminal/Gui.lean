import Heartix.Terminal.DocumentRows
import Heartix.Terminal.Screen

/-!
The window of the terminal. The cursor is whatever was set last, and the
document is changed at the cursor without a look at the line there. What the
window recalculates for painting reads the document only and is left out.
-/

namespace Heartix.Terminal

open Runs

structure GuiScreen where
  document : Document
  cursorX : ℤ
  cursorY : ℤ

def GuiScreen.construct : GuiScreen where
  document := Document.construct
  cursorX := 0
  cursorY := 0

def charIsUtf8 (c : UInt8) : Bool :=
  c = 0x09 ∨ c = 0x0A ∨ c = 0x0D ∨ 0x20 ≤ c ∧ c ≤ 0x7E

namespace GuiScreen

def setCursor (x y : ℤ) (s : GuiScreen) : GuiScreen := { s with
  cursorX := x
  cursorY := y }

def write (c : UInt8) (s : GuiScreen) : Option GuiScreen :=
  if charIsUtf8 c then
    (s.document.insert s.cursorX s.cursorY c).map fun document =>
      if c = '\n'.toUInt8 then { s with document := document }.setCursor 0 s.cursorY
      else { s with document := document }.setCursor ((s.cursorX + 1).bmod (2 ^ 32)) s.cursorY
  else some s

def remove (s : GuiScreen) : Option GuiScreen :=
  (s.document.remove s.cursorX s.cursorY).map fun document => { s with document := document }

def backspace (s : GuiScreen) : Option GuiScreen :=
  (s.setCursor ((s.cursorX - 1).bmod (2 ^ 32)) s.cursorY).remove

def clean (s : GuiScreen) : Option GuiScreen :=
  s.document.clear.map fun document => { s with document := document }

def exec : GuiScreen → ScreenOp → Option GuiScreen
  | s, .write c => s.write c
  | s, .remove => s.remove
  | s, .backspace => s.backspace
  | s, .clean => s.clean
  | s, .setCursor x y => some (s.setCursor x y)

/-- The lengths are what was allocated less what has been removed since. -/
def Allocated (s : GuiScreen) : Prop :=
  ∀ a line, s.document.memory a = some line →
    line.length + line.removals = line.buffer.length

/-- The length of the line the cursor is on, if it is on one. -/
def OnLine (s : GuiScreen) (P : ℕ → Prop) : Prop :=
  ∀ a, Document.addressed s.document.addresses s.cursorY = some a → P (s.document.lengthOf a)

/-- The removal takes a character of a line, or finds the line empty. -/
def RemovesInside (s : GuiScreen) (x : ℤ) : Prop :=
  s.OnLine fun length => length = 0 ∨ 0 ≤ x ∧ x < length

/-- A step inside the line the cursor is on. A character can also be written
behind its end, as long as the new length is an `int`. -/
def Inside (s : GuiScreen) : ScreenOp → Prop
  | .write c => charIsUtf8 c → c ≠ '\n'.toUInt8 →
      s.OnLine fun length => 0 ≤ s.cursorX ∧ (s.cursorX + 1 < 2 ^ 31 ∨ s.cursorX < length)
  | .remove => s.RemovesInside s.cursorX
  | .backspace => s.RemovesInside ((s.cursorX - 1).bmod (2 ^ 32))
  | .clean => True
  | .setCursor _ _ => True

variable {s t : GuiScreen} {list : List ℕ}

/-- Either no line is addressed, or what is asked of the line is asked of the
one that `getLine` finds. -/
theorem onLine_cases (h : s.document.Holds list) :
    (Document.addressed list s.cursorY = none ∧ s.document.getLine s.cursorY = some 0 ∧
        ∀ P, s.OnLine P) ∨
      ∃ a, Document.addressed list s.cursorY = some a ∧ a ∈ list ∧ a ≠ 0 ∧
        s.document.getLine s.cursorY = some a ∧
        ∀ P, s.OnLine P ↔ P (s.document.lengthOf a) := by
  rcases h.getLine_addressed s.cursorY with ⟨hnone, hget⟩ | ⟨a, haddressed, hmem, ha, hget⟩
  · refine Or.inl ⟨hnone, hget, fun P b hb => ?_⟩
    rw [h.addresses_eq, hnone] at hb
    cases hb
  · refine Or.inr ⟨a, haddressed, hmem, ha, hget, fun P => ⟨fun hP => ?_, fun hP b hb => ?_⟩⟩
    · exact hP a (by rw [h.addresses_eq]; exact haddressed)
    · rw [h.addresses_eq, haddressed] at hb
      obtain rfl := Option.some.inj hb
      exact hP

theorem remove_isSome_iff (h : s.document.Holds list) :
    s.remove.isSome ↔ s.RemovesInside s.cursorX := by
  unfold remove RemovesInside
  rw [Option.isSome_map]
  rcases onLine_cases h with ⟨_, hget, hall⟩ | ⟨a, _, hmem, ha, hget, hiff⟩
  · rw [Document.remove_of_getLine_null hget]
    exact iff_of_true rfl (hall _)
  · rw [hiff]
    exact Document.remove_isSome_iff h hmem ha hget

theorem remove_holds (h : s.document.Holds list) (ht : s.remove = some t) :
    t.document.Holds list := by
  obtain ⟨d, hd, rfl⟩ := Option.map_eq_some_iff.mp ht
  rcases onLine_cases h with ⟨_, hget, _⟩ | ⟨a, _, hmem, ha, hget, _⟩
  · rw [Document.remove_of_getLine_null hget] at hd
    obtain rfl := Option.some.inj hd
    exact h
  · exact (h.remove_spec hmem ha hget hd).1

theorem write_isSome_iff (h : s.document.Holds list) (c : UInt8) :
    (s.write c).isSome ↔ s.Inside (.write c) := by
  unfold write Inside
  by_cases hchar : charIsUtf8 c
  · rw [if_pos hchar, Option.isSome_map]
    rcases onLine_cases h with ⟨_, hget, hall⟩ | ⟨a, _, hmem, ha, hget, hiff⟩
    · rw [Document.insert_of_getLine_null hget]
      exact iff_of_true rfl fun _ _ => hall _
    · dsimp only
      rw [hiff]
      by_cases hc : c = '\n'.toUInt8
      · obtain ⟨u, list', hrun, _⟩ := h.newline_spec (x := s.cursorX) hmem ha hget
        rw [← hc] at hrun
        rw [hrun]
        exact iff_of_true rfl fun _ hne => absurd hc hne
      · rw [Document.insert_isSome_iff h hmem ha hget hc]
        simp [hchar, hc]
  · rw [if_neg hchar]
    exact iff_of_true rfl fun hyes => absurd hyes hchar

theorem write_holds (h : s.document.Holds list) {c : UInt8} (ht : s.write c = some t) :
    ∃ list', t.document.Holds list' := by
  unfold write at ht
  by_cases hchar : charIsUtf8 c
  · rw [if_pos hchar] at ht
    obtain ⟨d, hd, rfl⟩ := Option.map_eq_some_iff.mp ht
    have hdocument : ∀ P : Document → Prop, P d →
        P (if c = '\n'.toUInt8 then { s with document := d }.setCursor 0 s.cursorY
          else { s with document := d }.setCursor ((s.cursorX + 1).bmod (2 ^ 32))
            s.cursorY).document := by
      intro P hP
      split <;> exact hP
    rcases onLine_cases h with ⟨_, hget, _⟩ | ⟨a, _, hmem, ha, hget, _⟩
    · rw [Document.insert_of_getLine_null hget] at hd
      obtain rfl := Option.some.inj hd
      exact hdocument (fun d => ∃ list', d.Holds list') ⟨list, h⟩
    · by_cases hc : c = '\n'.toUInt8
      · obtain ⟨u, list', hrun, hholds, _⟩ := h.newline_spec (x := s.cursorX) hmem ha hget
        rw [← hc] at hrun
        obtain rfl := Option.some.inj (hrun.symm.trans hd)
        exact hdocument (fun d => ∃ list', d.Holds list') ⟨list', hholds⟩
      · exact hdocument (fun d => ∃ list', d.Holds list')
          ⟨list, (h.insert_spec hmem ha hget hc hd).1⟩
  · rw [if_neg hchar] at ht
    obtain rfl := Option.some.inj ht
    exact ⟨list, h⟩

/-- A step is defined exactly inside the line. -/
theorem exec_isSome_iff (h : s.document.Holds list) (op : ScreenOp) :
    (s.exec op).isSome ↔ s.Inside op := by
  cases op with
  | write c => exact write_isSome_iff h c
  | remove => exact remove_isSome_iff h
  | backspace => exact remove_isSome_iff (s := s.setCursor _ _) h
  | clean =>
    obtain ⟨t, hrun, _⟩ := h.clear
    refine iff_of_true ?_ trivial
    unfold exec clean
    dsimp only
    rw [hrun]
    rfl
  | setCursor x y => exact iff_of_true rfl trivial

theorem exec_holds (h : s.document.Holds list) {op : ScreenOp} (ht : s.exec op = some t) :
    ∃ list', t.document.Holds list' := by
  cases op with
  | write c => exact write_holds h ht
  | remove => exact ⟨list, remove_holds h ht⟩
  | backspace =>
    have hmoved : (s.setCursor ((s.cursorX - 1).bmod (2 ^ 32)) s.cursorY).document.Holds list := h
    exact ⟨list, remove_holds hmoved ht⟩
  | clean =>
    obtain ⟨d, hrun, hholds, _⟩ := h.clear
    obtain ⟨d', hd', rfl⟩ := Option.map_eq_some_iff.mp ht
    obtain rfl := Option.some.inj (hrun.symm.trans hd')
    exact ⟨_, hholds⟩
  | setCursor x y =>
    obtain rfl := Option.some.inj ht
    exact ⟨list, h⟩

/-- From a new window, every access and every copy is inside the line, and the
lengths are what is left of the buffers, along exactly the runs whose steps are
inside the line the cursor is on. -/
theorem lines_in_range_iff (ops : List ScreenOp) :
    Along GuiScreen.exec Allocated ops GuiScreen.construct ↔
      Guarded GuiScreen.exec Inside ops GuiScreen.construct := by
  have hstart : ∃ list, GuiScreen.construct.document.Holds list :=
    ⟨[1], Document.construct_holds⟩
  refine along_iff_guarded (I := fun s => ∃ list, s.document.Holds list) ?_ ?_ ?_ ops hstart
  · rintro s ⟨list, h⟩
    exact h.allocated
  · rintro s op ⟨list, h⟩ hinside
    obtain ⟨t, ht⟩ := Option.isSome_iff_exists.mp ((exec_isSome_iff h op).mpr hinside)
    exact ⟨t, ht, exec_holds h ht⟩
  · rintro s op ⟨list, h⟩ hnot t ht
    exact absurd ((exec_isSome_iff h op).mp (Option.isSome_iff_exists.mpr ⟨t, ht⟩)) hnot

/-- A backspace on a line with one character, with the cursor before it. -/
theorem lines_out_of_range :
    ¬ ∀ ops, Along GuiScreen.exec Allocated ops GuiScreen.construct := by
  intro h
  obtain ⟨t, hrun, _⟩ := (h [.write 'a'.toUInt8, .setCursor 0 0, .backspace]).foldlM
  have hnone : ([ScreenOp.write 'a'.toUInt8, .setCursor 0 0, .backspace].foldlM GuiScreen.exec
      GuiScreen.construct).isSome = false := by
    decide
  rw [hrun] at hnone
  cases hnone

end GuiScreen

end Heartix.Terminal
