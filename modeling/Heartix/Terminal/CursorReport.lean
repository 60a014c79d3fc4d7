import Heartix.Terminal.Client
import Heartix.Terminal.ParameterBounds
import Heartix.Terminal.Window

/-!
The report of the cursor. The window keeps whatever cursor was set last, and the
response to a query holds it in decimal notation, with a sign where it is negative.
The client library reads digits and separators, so it takes back exactly the cursors
without a sign. A run keeps them as long as no step moves the cursor out of the
window's upper left quarter.
-/

namespace Heartix.Terminal

open Runs

/-- An `int` that is not negative. -/
def Coordinate (n : ℤ) : Prop := 0 ≤ n ∧ n < 2 ^ 31

def IsInt (n : ℤ) : Prop := -2 ^ 31 ≤ n ∧ n < 2 ^ 31

theorem isInt_bmod (n : ℤ) : IsInt (n.bmod (2 ^ 32)) := by
  have hlow := Int.le_bmod (x := n) (show 0 < 2 ^ 32 by decide)
  have hhigh := Int.bmod_lt (x := n) (show 0 < 2 ^ 32 by decide)
  unfold IsInt
  omega

/-- An addition of coordinates and other numbers stays one of `int`, if the result is
a coordinate. -/
theorem coordinate_bmod_iff {n : ℤ} (hlow : -2 ^ 31 ≤ n) (hhigh : n < 2 ^ 32) :
    Coordinate (n.bmod (2 ^ 32)) ↔ Coordinate n := by
  unfold Coordinate
  rw [Int.bmod_def]
  split <;> omega

namespace GuiScreen

/-- The column after a character has been written. -/
def columnAfter (c : UInt8) (x : ℤ) : ℤ :=
  if charIsUtf8 c then
    if c = '\n'.toUInt8 then 0 else (x + 1).bmod (2 ^ 32)
  else x

variable {g h : GuiScreen}

theorem write_cursor {c : UInt8} (hwrite : g.write c = some h) :
    h.cursorX = columnAfter c g.cursorX ∧ h.cursorY = g.cursorY := by
  unfold write at hwrite
  unfold columnAfter
  by_cases hchar : charIsUtf8 c
  · rw [if_pos hchar] at hwrite ⊢
    obtain ⟨d, _, rfl⟩ := Option.map_eq_some_iff.mp hwrite
    split <;> exact ⟨rfl, rfl⟩
  · rw [if_neg hchar] at hwrite ⊢
    obtain rfl := Option.some.inj hwrite
    exact ⟨rfl, rfl⟩

theorem remove_cursor (hremove : g.remove = some h) :
    h.cursorX = g.cursorX ∧ h.cursorY = g.cursorY := by
  obtain ⟨d, _, rfl⟩ := Option.map_eq_some_iff.mp hremove
  exact ⟨rfl, rfl⟩

theorem clean_cursor (hclean : g.clean = some h) :
    h.cursorX = g.cursorX ∧ h.cursorY = g.cursorY := by
  obtain ⟨d, _, rfl⟩ := Option.map_eq_some_iff.mp hclean
  exact ⟨rfl, rfl⟩

end GuiScreen

/-- The cursor of the server's window, column before row. -/
def Server.cursor (t : Server GuiWindow) : ℤ × ℤ :=
  (t.screen.screen.cursorX, t.screen.screen.cursorY)

/-- The column after a byte of text. -/
def columnAfterText (c : UInt8) (x : ℤ) : ℤ :=
  if c = '\r'.toUInt8 then x
  else if c = '\t'.toUInt8 then (x + 4).bmod (2 ^ 32)
  else GuiScreen.columnAfter c x

/-- The cursor after a VT100 sequence. -/
def cursorAfterVt100 (p : Vector ℤ TERMINAL_STREAM_CONTROL_MAX_PARAMETERS) (c : UInt8)
    (x y : ℤ) : ℤ × ℤ :=
  match Char.ofUInt8 c with
  | 'A' => (x, (y - getElem p 0 first_lt).bmod (2 ^ 32))
  | 'B' => (x, (y + getElem p 0 first_lt).bmod (2 ^ 32))
  | 'C' => ((x + getElem p 0 first_lt).bmod (2 ^ 32), y)
  | 'D' => ((x - getElem p 0 first_lt).bmod (2 ^ 32), y)
  | 'f' => (getElem p 1 second_lt, getElem p 0 first_lt)
  | _ => (x, y)

/-- The cursor after a sequence of the terminal's own. -/
def cursorAfterGhostterm (p : Vector ℤ TERMINAL_STREAM_CONTROL_MAX_PARAMETERS) (c : UInt8)
    (x y : ℤ) : ℤ × ℤ :=
  match Char.ofUInt8 c with
  | 'p' => (GuiScreen.columnAfter (UInt8.ofInt (getElem p 0 first_lt)) x, y)
  | _ => (x, y)

/-- The cursor after a byte of output. -/
def cursorAfter (status : StreamControlStatus) (c : UInt8) (x y : ℤ) : ℤ × ℤ :=
  match status.status with
  | .text => (columnAfterText c x, y)
  | .lastWasEsc => (x, y)
  | .withinVt100 =>
      if isDigit c ∨ c = ';'.toUInt8 then (x, y)
      else cursorAfterVt100 status.parameters c x y
  | .withinGhostterm =>
      if isDigit c ∨ c = ';'.toUInt8 then (x, y)
      else cursorAfterGhostterm status.parameters c x y

section Steps

variable {status status' : StreamControlStatus} {t u : Server GuiWindow} {c : UInt8}
  {isStderr : Bool}

theorem bmod_of_isInt {n : ℤ} (hn : IsInt n) : n.bmod (2 ^ 32) = n :=
  Int.bmod_eq_of_le (by unfold IsInt at hn; omega) (by unfold IsInt at hn; omega)

/-- What a write to the window leaves of the cursor. -/
theorem guiScreen_write {o : Option GuiWindow} {v : GuiWindow}
    (h : guiScreen.write c o = some v) :
    ∃ w, o = some w ∧ v.screen.cursorX = GuiScreen.columnAfter c w.screen.cursorX ∧
      v.screen.cursorY = w.screen.cursorY := by
  obtain ⟨w, rfl, hw⟩ := Option.bind_eq_some_iff.mp h
  obtain ⟨g, hg, rfl⟩ := GuiWindow.onScreen_eq_some_iff.mp hw
  exact ⟨w, rfl, GuiScreen.write_cursor hg⟩

theorem guiScreen_writeTab {w v : GuiWindow} (h : guiScreen.writeTab (some w) = some v) :
    v.screen.cursorX = (w.screen.cursorX + 4).bmod (2 ^ 32) ∧
      v.screen.cursorY = w.screen.cursorY := by
  have hblank (x : ℤ) : GuiScreen.columnAfter ' '.toUInt8 x = (x + 1).bmod (2 ^ 32) := rfl
  obtain ⟨w₃, h₃, hx₄, hy₄⟩ := guiScreen_write h
  obtain ⟨w₂, h₂, hx₃, hy₃⟩ := guiScreen_write h₃
  obtain ⟨w₁, h₁, hx₂, hy₂⟩ := guiScreen_write h₂
  obtain ⟨w₀, h₀, hx₁, hy₁⟩ := guiScreen_write h₁
  obtain rfl := Option.some.inj h₀
  rw [hx₄, hx₃, hx₂, hx₁, hblank, hblank, hblank, hblank, Int.bmod_add_bmod, add_assoc,
    Int.bmod_add_bmod, add_assoc, Int.bmod_add_bmod, add_assoc]
  exact ⟨rfl, by rw [hy₄, hy₃, hy₂, hy₁]⟩

theorem guiScreen_writeText {w v : GuiWindow}
    (h : guiScreen.writeText isStderr c (some w) = some v) :
    v.screen.cursorX = GuiScreen.columnAfter c w.screen.cursorX ∧
      v.screen.cursorY = w.screen.cursorY := by
  cases isStderr with
  | false =>
    obtain ⟨w', hw', hcursor⟩ := guiScreen_write h
    obtain rfl := Option.some.inj hw'
    exact hcursor
  | true =>
    obtain ⟨v', hv', rfl⟩ := Option.map_eq_some_iff.mp h
    obtain ⟨w', hw', hcursor⟩ := guiScreen_write hv'
    obtain rfl := Option.some.inj hw'
    exact hcursor

theorem guiScreen_setModes {i n : ℕ} {w v : GuiWindow}
    (h : guiScreen.setModes status i n (some w) = some (some v)) : v.screen = w.screen := by
  induction n generalizing i w with
  | zero =>
    obtain rfl := Option.some.inj (Option.some.inj h)
    rfl
  | succ n ih =>
    unfold Screen.setModes at h
    cases hparam : status.parameter i with
    | none =>
      rw [hparam] at h
      cases h
    | some param =>
      rw [hparam] at h
      have hmode : ∃ w', guiScreen.setMode param (some w) = some w' ∧
          w'.screen = w.screen := by
        unfold Screen.setMode
        split
        · exact ⟨_, rfl, rfl⟩
        · split
          · exact ⟨_, rfl, rfl⟩
          · split <;> exact ⟨_, rfl, rfl⟩
      obtain ⟨w', hw', hscreen⟩ := hmode
      dsimp only at h
      rw [hw'] at h
      rw [ih h, hscreen]

theorem guiScreen_moveCursor (dx dy : ℤ) (w : GuiWindow) :
    guiScreen.moveCursor dx dy (some w) = some { w with
      screen := w.screen.setCursor ((w.screen.cursorX + dx).bmod (2 ^ 32))
        ((w.screen.cursorY + dy).bmod (2 ^ 32)) } := rfl

/-- The window that a server operation leaves. -/
theorem screen_of_onScreen {f : Option GuiWindow → Option GuiWindow}
    (h : t.present.onScreen f = u.present) : f (some t.screen) = some u.screen :=
  congrArg Server.screen h

theorem cursor_of_screen (h : u.screen.screen = t.screen.screen) : u.cursor = t.cursor := by
  unfold Server.cursor
  rw [h]

/-- What leaves the window alone leaves the cursor. -/
theorem cursor_of_present {v : Server (Option GuiWindow)} (h : v = u.present)
    (hv : v.screen = some t.screen := by rfl) : u.cursor = t.cursor := by
  have hscreen : some t.screen = some u.screen := hv.symm.trans (congrArg Server.screen h)
  exact cursor_of_screen (congrArg GuiWindow.screen (Option.some.inj hscreen).symm)

theorem cursor_of_onScreen {f : GuiScreen → Option GuiScreen}
    (hf : ∀ {g h}, f g = some h → h.cursorX = g.cursorX ∧ h.cursorY = g.cursorY)
    (h : t.present.onScreen (fun o => o.bind (GuiWindow.onScreen f)) = u.present) :
    u.cursor = t.cursor := by
  have hscreen : t.screen.onScreen f = some u.screen := screen_of_onScreen h
  obtain ⟨g, hg, heq⟩ := GuiWindow.onScreen_eq_some_iff.mp hscreen
  obtain ⟨hx, hy⟩ := hf hg
  unfold Server.cursor
  rw [heq]
  exact Prod.ext hx hy

/-- What a move of the cursor leaves. -/
theorem cursor_of_moveCursor {dx dy : ℤ}
    (h : t.present.onScreen (guiScreen.moveCursor dx dy) = u.present) :
    u.cursor = ((t.cursor.1 + dx).bmod (2 ^ 32), (t.cursor.2 + dy).bmod (2 ^ 32)) := by
  have hscreen := screen_of_onScreen h
  rw [guiScreen_moveCursor] at hscreen
  unfold Server.cursor
  rw [← Option.some.inj hscreen]
  rfl

theorem processSequenceVt100_cursor (hx : IsInt t.cursor.1) (hy : IsInt t.cursor.2)
    (h : processSequenceVt100 guiScreen { status with controlCharacter := c } t.present =
      some u.present) :
    u.cursor = cursorAfterVt100 status.parameters c t.cursor.1 t.cursor.2 := by
  unfold processSequenceVt100 at h
  unfold cursorAfterVt100
  dsimp only at h
  generalize Char.ofUInt8 c = d at h ⊢
  split at h
  · have hcursor := cursor_of_moveCursor (Option.some.inj h)
    rw [add_zero, bmod_of_isInt hx, ← sub_eq_add_neg] at hcursor
    exact hcursor
  · have hcursor := cursor_of_moveCursor (Option.some.inj h)
    rw [add_zero, bmod_of_isInt hx] at hcursor
    exact hcursor
  · have hcursor := cursor_of_moveCursor (Option.some.inj h)
    rw [add_zero, bmod_of_isInt hy] at hcursor
    exact hcursor
  · have hcursor := cursor_of_moveCursor (Option.some.inj h)
    rw [add_zero, bmod_of_isInt hy, ← sub_eq_add_neg] at hcursor
    exact hcursor
  · obtain ⟨v, hv, hscreen⟩ := Option.map_eq_some_iff.mp h
    have hpresent : v = some u.screen := congrArg Server.screen hscreen
    rw [hpresent] at hv
    exact cursor_of_screen (guiScreen_setModes hv)
  · split at h
    · exact cursor_of_onScreen GuiScreen.clean_cursor (Option.some.inj h)
    · exact cursor_of_present (Option.some.inj h)
  · have hscreen := screen_of_onScreen (Option.some.inj h)
    unfold Server.cursor
    rw [← Option.some.inj hscreen]
    rfl
  · split at h <;> exact cursor_of_present (Option.some.inj h)
  · split at h <;> exact cursor_of_present (Option.some.inj h)
  · exact cursor_of_present (Option.some.inj h)
  · exact cursor_of_present (Option.some.inj h)
  · have hcursor := cursor_of_present (Option.some.inj h)
    simp [*]

theorem processSequenceGhostterm_cursor
    (h : processSequenceGhostterm guiScreen { status with controlCharacter := c } t.present =
      u.present) :
    u.cursor = cursorAfterGhostterm status.parameters c t.cursor.1 t.cursor.2 := by
  unfold processSequenceGhostterm at h
  unfold cursorAfterGhostterm
  dsimp only at h
  generalize Char.ofUInt8 c = d at h ⊢
  split at h
  · exact cursor_of_present h
  · exact cursor_of_present h
  · exact cursor_of_present h
  · obtain ⟨w, hw, hx, hy⟩ := guiScreen_write (screen_of_onScreen h)
    obtain rfl := Option.some.inj hw
    exact Prod.ext hx hy
  · exact cursor_of_onScreen GuiScreen.remove_cursor h
  · exact cursor_of_present h
  · split at h <;> exact cursor_of_present h
  · have hcursor := cursor_of_present h
    simp [*]

theorem processFinish_cursor (hx : IsInt t.cursor.1) (hy : IsInt t.cursor.2)
    (h : processFinish guiScreen status t.present c = some (status', u.present)) :
    u.cursor = if status.status = .withinVt100 then
        cursorAfterVt100 status.parameters c t.cursor.1 t.cursor.2
      else cursorAfterGhostterm status.parameters c t.cursor.1 t.cursor.2 := by
  unfold processFinish at h
  dsimp only at h
  split at h
  · rename_i hvt
    obtain ⟨v, hv, heq⟩ := Option.map_eq_some_iff.mp h
    obtain ⟨_, rfl⟩ := Prod.mk.inj heq
    rw [if_pos hvt]
    exact processSequenceVt100_cursor hx hy hv
  · rename_i hghost
    obtain ⟨_, heq⟩ := Prod.mk.inj (Option.some.inj h)
    rw [if_neg hghost]
    exact processSequenceGhostterm_cursor heq

theorem processWithin_cursor (hx : IsInt t.cursor.1) (hy : IsInt t.cursor.2)
    (h : processWithin guiScreen status t.present c = some (status', u.present)) :
    u.cursor = if isDigit c ∨ c = ';'.toUInt8 then t.cursor
      else if status.status = .withinVt100 then
        cursorAfterVt100 status.parameters c t.cursor.1 t.cursor.2
      else cursorAfterGhostterm status.parameters c t.cursor.1 t.cursor.2 := by
  unfold processWithin at h
  by_cases hdigit : isDigit c
  · rw [if_pos hdigit] at h
    rw [if_pos (Or.inl hdigit)]
    obtain ⟨v, _, heq⟩ := Option.map_eq_some_iff.mp h
    exact cursor_of_present (Prod.mk.inj heq).2
  · rw [if_neg hdigit] at h
    by_cases hsep : c = ';'.toUInt8
    · rw [if_pos hsep] at h
      rw [if_pos (Or.inr hsep)]
      exact cursor_of_present (Prod.mk.inj (Option.some.inj h)).2
    · rw [if_neg hsep] at h
      rw [if_neg (by rintro (hd | hs); exacts [hdigit hd, hsep hs])]
      exact processFinish_cursor hx hy h

theorem processText_cursor
    (h : processText guiScreen isStderr status t.present c = (status', u.present)) :
    u.cursor = (columnAfterText c t.cursor.1, t.cursor.2) := by
  unfold processText at h
  unfold columnAfterText
  by_cases hcr : c = '\r'.toUInt8
  · rw [if_pos hcr] at h ⊢
    exact cursor_of_present (Prod.mk.inj h).2
  · rw [if_neg hcr] at h ⊢
    by_cases htab : c = '\t'.toUInt8
    · rw [if_pos htab] at h ⊢
      obtain ⟨hx, hy⟩ := guiScreen_writeTab (screen_of_onScreen (Prod.mk.inj h).2)
      exact Prod.ext hx hy
    · rw [if_neg htab] at h ⊢
      by_cases hesc : c = G_TERMKEY_ESC
      · rw [if_pos hesc] at h
        have hcolumn : GuiScreen.columnAfter c t.cursor.1 = t.cursor.1 := by
          rw [hesc]
          rfl
        rw [hcolumn]
        exact cursor_of_present (Prod.mk.inj h).2
      · rw [if_neg hesc] at h
        obtain ⟨hx, hy⟩ := guiScreen_writeText (screen_of_onScreen (Prod.mk.inj h).2)
        exact Prod.ext hx hy

/-- Where a byte of output leaves the cursor. -/
theorem guiProcessOutput_cursor (hx : IsInt t.cursor.1) (hy : IsInt t.cursor.2)
    (h : guiProcessOutput isStderr (status, t) c = some (status', u)) :
    u.cursor = cursorAfter status c t.cursor.1 t.cursor.2 := by
  have hstep := guiProcessOutput_eq_some_iff.mp h
  unfold terminalProcessOutput processOutput at hstep
  unfold cursorAfter
  dsimp only at hstep
  cases hstatus : status.status with
  | text =>
    rw [hstatus] at hstep
    exact processText_cursor (Option.some.inj hstep)
  | lastWasEsc =>
    rw [hstatus] at hstep
    exact cursor_of_present (Prod.mk.inj (Option.some.inj hstep)).2
  | withinVt100 =>
    rw [hstatus] at hstep
    have hcursor := processWithin_cursor hx hy hstep
    rw [if_pos hstatus] at hcursor
    exact hcursor
  | withinGhostterm =>
    rw [hstatus] at hstep
    have hcursor := processWithin_cursor hx hy hstep
    have hghost : status.status ≠ .withinVt100 := by
      rw [hstatus]
      decide
    rw [if_neg hghost] at hcursor
    exact hcursor

end Steps

/-- The parameters of a decoder are of type `int`. -/
def StreamControlStatus.Ints (status : StreamControlStatus) : Prop :=
  ∀ i (hi : i < TERMINAL_STREAM_CONTROL_MAX_PARAMETERS), IsInt status.parameters[i]

section Ints

variable {σ : Type*} {S : Screen σ} {isStderr : Bool} {status status' : StreamControlStatus}
  {t u : Server σ} {c : UInt8}

theorem ints_set {k : ℕ} (hk : k < TERMINAL_STREAM_CONTROL_MAX_PARAMETERS) {n : ℤ}
    (h : status.Ints) (hn : IsInt n) :
    ({ status with parameters := status.parameters.set k n } : StreamControlStatus).Ints := by
  intro i hi
  by_cases hik : k = i
  · subst hik
    rw [Vector.getElem_set_self]
    exact hn
  · rw [Vector.getElem_set_ne _ _ hik]
    exact h i hi

theorem ints_reset (status : StreamControlStatus) : status.reset.Ints := by
  intro i hi
  have hzero : status.reset.parameters[i] = 0 := Vector.getElem_replicate hi
  rw [hzero]
  unfold IsInt
  omega

theorem processDigit_ints (h : status.Ints) (hstep : processDigit status c = some status') :
    status'.Ints := by
  unfold processDigit at hstep
  dsimp only at hstep
  generalize hcurrent : (if status.parameterCount = 0 then
    { status with parameterCount := 1 } else status) = current at hstep
  have hints : current.Ints := by
    rw [← hcurrent]
    split <;> exact h
  split at hstep
  · split at hstep
    · cases hstep
    · unfold StreamControlStatus.setParameter at hstep
      split at hstep
      · obtain rfl := Option.some.inj hstep
        exact ints_set _ hints (isInt_bmod _)
      · cases hstep
  · obtain rfl := Option.some.inj hstep
    exact hints

theorem processText_parameters (S : Screen σ) (isStderr : Bool) (status : StreamControlStatus)
    (t : Server σ) (c : UInt8) :
    (processText S isStderr status t c).1.parameters = status.parameters := by
  unfold processText
  split
  · rfl
  · split
    · rfl
    · split <;> rfl

/-- Every byte of output keeps the parameters inside their type. -/
theorem processOutput_ints (h : status.Ints)
    (hstep : processOutput S isStderr (status, t) c = some (status', u)) : status'.Ints := by
  have hwithin (hstep : processWithin S status t c = some (status', u)) : status'.Ints := by
    unfold processWithin at hstep
    split at hstep
    · obtain ⟨v, hv, heq⟩ := Option.map_eq_some_iff.mp hstep
      obtain ⟨rfl, _⟩ := Prod.mk.inj heq
      exact processDigit_ints h hv
    · split at hstep
      · obtain ⟨rfl, _⟩ := Prod.mk.inj (Option.some.inj hstep)
        exact h
      · unfold processFinish at hstep
        dsimp only at hstep
        split at hstep
        · obtain ⟨v, _, heq⟩ := Option.map_eq_some_iff.mp hstep
          obtain ⟨rfl, _⟩ := Prod.mk.inj heq
          exact ints_reset _
        · obtain ⟨rfl, _⟩ := Prod.mk.inj (Option.some.inj hstep)
          exact ints_reset _
  unfold processOutput at hstep
  dsimp only at hstep
  split at hstep
  · have hparameters := processText_parameters S isStderr status t c
    rw [Option.some.inj hstep] at hparameters
    unfold StreamControlStatus.Ints
    dsimp only at hparameters
    rw [hparameters]
    exact h
  · obtain ⟨rfl, _⟩ := Prod.mk.inj (Option.some.inj hstep)
    unfold processEsc
    split
    · exact h
    · split <;> exact h
  · exact hwithin hstep
  · exact hwithin hstep

end Ints

theorem isInt_cursorAfter {status : StreamControlStatus} {c : UInt8} {x y : ℤ}
    (hints : status.Ints) (hx : IsInt x) (hy : IsInt y) :
    IsInt (cursorAfter status c x y).1 ∧ IsInt (cursorAfter status c x y).2 := by
  have hcolumn (b : UInt8) : IsInt (GuiScreen.columnAfter b x) := by
    unfold GuiScreen.columnAfter
    split
    · split
      · exact ⟨by decide, by decide⟩
      · exact isInt_bmod _
    · exact hx
  unfold cursorAfter
  split
  · refine ⟨?_, hy⟩
    unfold columnAfterText
    split
    · exact hx
    · split
      · exact isInt_bmod _
      · exact hcolumn c
  · exact ⟨hx, hy⟩
  · split
    · exact ⟨hx, hy⟩
    · unfold cursorAfterVt100
      split
      · exact ⟨hx, isInt_bmod _⟩
      · exact ⟨hx, isInt_bmod _⟩
      · exact ⟨isInt_bmod _, hy⟩
      · exact ⟨isInt_bmod _, hy⟩
      · exact ⟨hints 1 (by decide), hints 0 (by decide)⟩
      · exact ⟨hx, hy⟩
  · split
    · exact ⟨hx, hy⟩
    · unfold cursorAfterGhostterm
      split
      · exact ⟨hcolumn _, hy⟩
      · exact ⟨hx, hy⟩

/-- A character that is written leaves the column a coordinate. -/
def KeepsColumn (c : UInt8) (x : ℤ) : Prop :=
  charIsUtf8 c → c ≠ '\n'.toUInt8 → x + 1 < 2 ^ 31

/-- A step that keeps the cursor to the right of and below the corner of the window:
no sequence moves it up or left by more than there is, or sets it to a negative
number, and no addition leaves `int`. -/
def KeepsCursor (status : StreamControlStatus) (t : Server GuiWindow) (c : UInt8) : Prop :=
  let p := status.parameters
  match status.status with
  | .text =>
      if c = '\t'.toUInt8 then t.cursor.1 + 4 < 2 ^ 31
      else c ≠ '\r'.toUInt8 → KeepsColumn c t.cursor.1
  | .lastWasEsc => True
  | .withinVt100 =>
      match Char.ofUInt8 c with
      | 'A' => Coordinate (t.cursor.2 - getElem p 0 first_lt)
      | 'B' => Coordinate (t.cursor.2 + getElem p 0 first_lt)
      | 'C' => Coordinate (t.cursor.1 + getElem p 0 first_lt)
      | 'D' => Coordinate (t.cursor.1 - getElem p 0 first_lt)
      | 'f' => 0 ≤ getElem p 1 second_lt ∧ 0 ≤ getElem p 0 first_lt
      | _ => True
  | .withinGhostterm =>
      match Char.ofUInt8 c with
      | 'p' => KeepsColumn (UInt8.ofInt (getElem p 0 first_lt)) t.cursor.1
      | _ => True

theorem columnAfter_coordinate_iff {c : UInt8} {x : ℤ} (hx : Coordinate x) :
    Coordinate (GuiScreen.columnAfter c x) ↔ KeepsColumn c x := by
  unfold GuiScreen.columnAfter KeepsColumn
  by_cases hchar : charIsUtf8 c
  · rw [if_pos hchar]
    by_cases hc : c = '\n'.toUInt8
    · rw [if_pos hc]
      exact iff_of_true ⟨le_refl 0, by decide⟩ fun _ hne => absurd hc hne
    · rw [if_neg hc, coordinate_bmod_iff (by unfold Coordinate at hx; omega)
        (by unfold Coordinate at hx; omega)]
      unfold Coordinate at hx ⊢
      simp only [hchar, true_imp_iff, hc, ne_eq, not_false_eq_true]
      omega
  · rw [if_neg hchar]
    exact iff_of_true hx fun hyes => absurd hyes hchar

theorem add_coordinate_iff {n p : ℤ} (hn : Coordinate n) (hp : IsInt p) :
    Coordinate ((n + p).bmod (2 ^ 32)) ↔ Coordinate (n + p) := by
  unfold Coordinate at hn
  unfold IsInt at hp
  exact coordinate_bmod_iff (by omega) (by omega)

theorem sub_coordinate_iff {n p : ℤ} (hn : Coordinate n) (hp : IsInt p) :
    Coordinate ((n - p).bmod (2 ^ 32)) ↔ Coordinate (n - p) := by
  unfold Coordinate at hn
  unfold IsInt at hp
  exact coordinate_bmod_iff (by omega) (by omega)

theorem columnAfterText_coordinate_iff {c : UInt8} {x : ℤ} (hx : Coordinate x) :
    Coordinate (columnAfterText c x) ↔
      if c = '\t'.toUInt8 then x + 4 < 2 ^ 31 else c ≠ '\r'.toUInt8 → KeepsColumn c x := by
  unfold columnAfterText
  by_cases hcr : c = '\r'.toUInt8
  · have htab : c ≠ '\t'.toUInt8 := by
      rw [hcr]
      decide
    rw [if_pos hcr, if_neg htab]
    exact iff_of_true hx fun hne => absurd hcr hne
  · rw [if_neg hcr]
    by_cases htab : c = '\t'.toUInt8
    · rw [if_pos htab, if_pos htab, add_coordinate_iff hx (by unfold IsInt; omega)]
      unfold Coordinate at hx ⊢
      omega
    · rw [if_neg htab, if_neg htab, columnAfter_coordinate_iff hx]
      exact ⟨fun h _ => h, fun h => h hcr⟩

/-- A character that ends a sequence is no part of its body. -/
theorem not_body {c : UInt8} {d : Char} (hd : Char.ofUInt8 c = d)
    (hbody : ¬(isDigit d.toUInt8 ∨ d.toUInt8 = ';'.toUInt8)) :
    ¬(isDigit c ∨ c = ';'.toUInt8) := by
  rw [eq_toUInt8_of_ofUInt8_eq hd]
  exact hbody

theorem keepsCursor_iff {status : StreamControlStatus} {t : Server GuiWindow} {c : UInt8}
    (hints : status.Ints) (hx : Coordinate t.cursor.1) (hy : Coordinate t.cursor.2) :
    KeepsCursor status t c ↔
      Coordinate (cursorAfter status c t.cursor.1 t.cursor.2).1 ∧
        Coordinate (cursorAfter status c t.cursor.1 t.cursor.2).2 := by
  have hp₀ : IsInt status.parameters[0] := hints 0 (by decide)
  have hp₁ : IsInt status.parameters[1] := hints 1 (by decide)
  unfold KeepsCursor cursorAfter
  dsimp only
  cases status.status with
  | text => exact (columnAfterText_coordinate_iff hx).symm.trans (and_iff_left hy).symm
  | lastWasEsc => exact iff_of_true trivial ⟨hx, hy⟩
  | withinVt100 =>
    dsimp only
    split
    · rename_i heq
      rw [if_neg (not_body heq (by decide))]
      unfold cursorAfterVt100
      rw [heq]
      exact (sub_coordinate_iff hy hp₀).symm.trans (and_iff_right hx).symm
    · rename_i heq
      rw [if_neg (not_body heq (by decide))]
      unfold cursorAfterVt100
      rw [heq]
      exact (add_coordinate_iff hy hp₀).symm.trans (and_iff_right hx).symm
    · rename_i heq
      rw [if_neg (not_body heq (by decide))]
      unfold cursorAfterVt100
      rw [heq]
      exact (add_coordinate_iff hx hp₀).symm.trans (and_iff_left hy).symm
    · rename_i heq
      rw [if_neg (not_body heq (by decide))]
      unfold cursorAfterVt100
      rw [heq]
      exact (sub_coordinate_iff hx hp₀).symm.trans (and_iff_left hy).symm
    · rename_i heq
      rw [if_neg (not_body heq (by decide))]
      unfold cursorAfterVt100
      rw [heq]
      exact ⟨fun h => ⟨⟨h.1, hp₁.2⟩, h.2, hp₀.2⟩, fun h => ⟨h.1.1, h.2.1⟩⟩
    · refine iff_of_true trivial ?_
      split
      · exact ⟨hx, hy⟩
      · unfold cursorAfterVt100
        simp [*]
  | withinGhostterm =>
    dsimp only
    split
    · rename_i heq
      rw [if_neg (not_body heq (by decide))]
      unfold cursorAfterGhostterm
      rw [heq]
      exact (columnAfter_coordinate_iff hx).symm.trans (and_iff_left hy).symm
    · refine iff_of_true trivial ?_
      split
      · exact ⟨hx, hy⟩
      · unfold cursorAfterGhostterm
        simp [*]

/-- When a program asks for the cursor, through a decoder that reads the request as
one, the server writes a response that the client library reads back as this cursor,
row before column. It reads the response to its end and nothing behind it, and only
the keys in front of it are kept for later. -/
def Reported (t : Server GuiWindow) : Prop :=
  ∀ (status : StreamControlStatus) (isStderr : Bool), status.AtRest →
    Vanishes (getElem status.parameters 0 first_lt) 6 → ∃ status' bytes,
      (terminalCommand "[6n" []).foldlM (terminalProcessOutput guiScreen isStderr)
          (status, t.present) = some (status', (t.writeToShell bytes).present) ∧
        ∀ (s : Client) (keys : List Key) (later : List UInt8), s.Sound →
          s.stdin = keys.flatMap Key.encode ++ (bytes ++ later) →
            ∃ s', s.getCursor = some ((t.cursor.2, t.cursor.1), s') ∧ s'.stdin = later ∧
              s'.buffered = (s.buffered ++ keys.map Key.value).take bufferSize

theorem query_responds (t : Server GuiWindow) {status : StreamControlStatus} (isStderr : Bool)
    (hrest : status.AtRest) (hsix : Vanishes status.parameters[0] 6) :
    ∃ status', (terminalCommand "[6n" []).foldlM (terminalProcessOutput guiScreen isStderr)
      (status, t.present) =
        some (status', (t.writeToShell (response '[' t.cursor.2 t.cursor.1 'R')).present) := by
  have hparameter : Parameter 6 := by
    unfold Parameter
    omega
  have hcommand : terminalCommand "[6n" [] = G_TERMKEY_ESC :: '['.toUInt8 ::
      (Decimal.signedText 6 ++ ['n'.toUInt8]) := by decide
  have hcarried := (carried_eq_iff hparameter).mpr hsix
  let asked : StreamControlStatus := { status with
    status := .withinVt100
    parameterCount := 1
    parameters := status.parameters.set 0 6 }
  have hdecode : (terminalCommand "[6n" []).foldlM (terminalProcessOutput guiScreen isStderr)
      (status, t.present) = processFinish guiScreen asked t.present 'n'.toUInt8 := by
    have hdigit : isDigit 'n'.toUInt8 = false := rfl
    have hsep : 'n'.toUInt8 ≠ ';'.toUInt8 := by decide
    rw [hcommand]
    unfold asked
    nth_rewrite 2 [← hcarried]
    exact decode_one hparameter.1 .vt100 hrest hdigit hsep
  have hsequence : processSequenceVt100 guiScreen
      { asked with controlCharacter := 'n'.toUInt8 } t.present =
        some (t.writeToShell (response '[' t.cursor.2 t.cursor.1 'R')).present := by
    have hfirst : asked.parameters[0] = 6 := Vector.getElem_set_self _
    have hcontrol : Char.ofUInt8 'n'.toUInt8 = 'n' := rfl
    unfold processSequenceVt100
    dsimp only
    rw [hcontrol]
    exact if_pos hfirst
  obtain ⟨status', hfinish, _⟩ := ready_of_vt100 rfl hsequence
  exact ⟨status', hdecode.trans hfinish⟩

theorem reported_of_coordinates {t : Server GuiWindow} (hx : Coordinate t.cursor.1)
    (hy : Coordinate t.cursor.2) : Reported t := by
  intro status isStderr hrest hsix
  obtain ⟨status', hrun⟩ := query_responds t isStderr hrest hsix
  refine ⟨status', _, hrun, fun s keys later hs hstdin => ?_⟩
  obtain ⟨x, hnx⟩ := Int.eq_ofNat_of_zero_le hx.1
  obtain ⟨y, hny⟩ := Int.eq_ofNat_of_zero_le hy.1
  have hxlt : x < 2 ^ 31 := by
    have hlt := hx.2
    rw [hnx] at hlt
    exact_mod_cast hlt
  have hylt : y < 2 ^ 31 := by
    have hlt := hy.2
    rw [hny] at hlt
    exact_mod_cast hlt
  rw [hnx, hny, response_natCast, List.cons_append, List.cons_append, List.append_assoc,
    List.singleton_append, ← ParameterFields.bytes_pair hylt hxlt] at hstdin
  obtain ⟨r, s', hquery, hlater, _, _, _, hbuffered, hvalue⟩ :=
    Client.query_response hs "[6n" '[' 'R' hstdin (by decide)
      (ParameterFields.pair hylt hxlt).isBody (by decide)
  obtain ⟨hzero, hone⟩ := ParameterFields.parameters_pair hylt hxlt
  refine ⟨s', ?_, hlater, hbuffered⟩
  rw [hnx, hny]
  have hmode : (('R'.toUInt8.toNat : ℕ) : ℤ) = ('R'.toNat : ℕ) := rfl
  have hr : r = ((y : ℤ), (x : ℤ)) := by
    rw [hvalue, if_pos hmode, ParameterFields.bytes_pair]
    exact Prod.ext hzero hone
  rw [← hr]
  exact hquery

/-- A response with a sign: the client reads up to the sign only. -/
theorem response_of_negative {first second : ℤ} (h : first < 0 ∨ second < 0) :
    ∃ body later, response '[' first second 'R' =
        G_TERMKEY_ESC :: '['.toUInt8 :: (body ++ '-'.toUInt8 :: later) ∧
      (∀ c ∈ body, isDigit c ∨ c = ';'.toUInt8) ∧ later ≠ [] := by
  have hsigned {n : ℤ} (hn : n < 0) :
      Decimal.signedText n = '-'.toUInt8 :: Decimal.text n.natAbs := if_pos hn
  unfold response
  by_cases hfirst : first < 0
  · refine ⟨[], Decimal.text first.natAbs ++ ';'.toUInt8 ::
      (Decimal.signedText second ++ ['R'.toUInt8]), ?_, by simp, by simp⟩
    rw [hsigned hfirst]
    rfl
  · have hnonneg : 0 ≤ first := Int.not_lt.mp hfirst
    refine ⟨Decimal.text first.natAbs ++ [';'.toUInt8],
      Decimal.text second.natAbs ++ ['R'.toUInt8], ?_, ?_, by simp⟩
    · rw [hsigned (h.resolve_left hfirst), signedText_of_nonneg hnonneg, List.append_assoc]
      rfl
    · intro c hc
      rcases List.mem_append.mp hc with hc | hc
      · exact Or.inl (isDigit_of_mem_text hc)
      · exact Or.inr (List.mem_singleton.mp hc)

theorem not_reported_of_negative {t : Server GuiWindow} (h : t.cursor.1 < 0 ∨ t.cursor.2 < 0) :
    ¬ Reported t := by
  intro hreported
  obtain ⟨body, later, hresponse, hbody, hlater⟩ := response_of_negative h.symm
  let ready : StreamControlStatus :=
    StreamControlStatus.construct (Vector.replicate _ 0) 0
  have hrest : ready.AtRest := ⟨rfl, rfl⟩
  have hsix : Vanishes ready.parameters[0] 6 := by
    have hzero : ready.parameters[0] = 0 := Vector.getElem_replicate _
    unfold Vanishes
    rw [hzero, zero_mul]
    exact dvd_zero _
  obtain ⟨status', bytes, hrun, hclient⟩ := hreported ready false hrest hsix
  obtain ⟨status'', hrun'⟩ := query_responds t false hrest hsix
  have hbytes : bytes = response '[' t.cursor.2 t.cursor.1 'R' := by
    have hserver := (Prod.mk.inj (Option.some.inj (hrun.symm.trans hrun'))).2
    exact List.append_cancel_left (congrArg Server.shellStdin hserver)
  let waiting : Client := { Client.construct with stdin := bytes }
  have hsound : waiting.Sound := Nat.zero_le _
  obtain ⟨s', hcursor, hempty, _⟩ := hclient waiting [] [] hsound (by simp [waiting])
  have hstdin : waiting.stdin = ([] : List Key).flatMap Key.encode ++
      G_TERMKEY_ESC :: '['.toUInt8 :: (body ++ '-'.toUInt8 :: later) := by
    rw [← hresponse, ← hbytes]
    rfl
  obtain ⟨r, s'', hquery, hrest', _⟩ := Client.query_response hsound "[6n" '[' 'R' hstdin
    (by decide) hbody (by decide)
  obtain ⟨_, rfl⟩ := Prod.mk.inj (Option.some.inj (hcursor.symm.trans hquery))
  exact hlater (hrest'.symm.trans hempty)

/-- The two output streams, standard error under `true`, each with its own decoder,
and the window they write to. -/
structure Streams where
  decoder : Bool → StreamControlStatus
  server : Server GuiWindow

namespace Streams

/-- The streams when the shell has been started, on a document that has been cleared
or is new. The decoders hold what was in their memory. -/
def start (document : Document) (columns rows : ℤ)
    (memory : Bool → Vector Int32 TERMINAL_STREAM_CONTROL_MAX_PARAMETERS)
    (controlCharacter : Bool → UInt8) : Streams where
  decoder isStderr :=
    StreamControlStatus.construct ((memory isStderr).map Int32.toInt) (controlCharacter isStderr)
  server := Server.start { GuiWindow.construct columns rows with
    screen := { GuiScreen.construct with document := document } }

/-- One byte of output. -/
def output (s : Streams) : Bool × UInt8 → Option (Unit × Streams)
  | (isStderr, c) =>
      (guiProcessOutput isStderr (s.decoder isStderr, s.server) c).map fun (status, t) =>
        ((), ⟨Function.update s.decoder isStderr status, t⟩)

/-- The cursor is to the right of and below the corner of the window. -/
structure Sound (s : Streams) : Prop where
  ints : ∀ isStderr, (s.decoder isStderr).Ints
  column : Coordinate s.server.cursor.1
  row : Coordinate s.server.cursor.2

variable {s t : Streams} {isStderr : Bool} {c : UInt8}

theorem Sound.output (h : s.Sound) (hstep : s.output (isStderr, c) = some ((), t)) :
    (∀ isStderr, (t.decoder isStderr).Ints) ∧
      (KeepsCursor (s.decoder isStderr) s.server c ↔
        Coordinate t.server.cursor.1 ∧ Coordinate t.server.cursor.2) ∧
      IsInt t.server.cursor.1 ∧ IsInt t.server.cursor.2 := by
  obtain ⟨⟨status, u⟩, hbyte, heq⟩ := Option.map_eq_some_iff.mp hstep
  obtain ⟨_, rfl⟩ := Prod.mk.inj heq
  have hx : IsInt s.server.cursor.1 := ⟨by have := h.column.1; omega, h.column.2⟩
  have hy : IsInt s.server.cursor.2 := ⟨by have := h.row.1; omega, h.row.2⟩
  have hcursor := guiProcessOutput_cursor hx hy hbyte
  have hints : status.Ints :=
    processOutput_ints (h.ints isStderr) (guiProcessOutput_eq_some_iff.mp hbyte)
  refine ⟨fun other => ?_, ?_, ?_⟩
  · dsimp only
    by_cases hother : other = isStderr
    · subst hother
      rw [Function.update_self]
      exact hints
    · rw [Function.update_of_ne hother]
      exact h.ints other
  · rw [keepsCursor_iff (h.ints isStderr) h.column h.row]
    dsimp only
    rw [hcursor]
  · dsimp only
    rw [hcursor]
    exact isInt_cursorAfter (h.ints isStderr) hx hy

theorem Sound.start (document : Document) (columns rows : ℤ)
    (memory : Bool → Vector Int32 TERMINAL_STREAM_CONTROL_MAX_PARAMETERS)
    (controlCharacter : Bool → UInt8) :
    (Streams.start document columns rows memory controlCharacter).Sound := by
  have hzero : Coordinate 0 := ⟨le_refl 0, by decide⟩
  refine ⟨fun isStderr i hi => ?_, hzero, hzero⟩
  have hparameter : ((memory isStderr).map Int32.toInt)[i] = (memory isStderr)[i].toInt :=
    Vector.getElem_map _ hi
  change IsInt ((memory isStderr).map Int32.toInt)[i]
  rw [hparameter]
  exact ⟨Int32.le_toInt _, Int32.toInt_lt _⟩

/-- In every state of a run that is defined, the cursor is reported right, exactly when
every step of the run keeps the cursor. -/
theorem cursor_reported_iff (document : Document) (columns rows : ℤ)
    (memory : Bool → Vector Int32 TERMINAL_STREAM_CONTROL_MAX_PARAMETERS)
    (controlCharacter : Bool → UInt8) (bytes : List (Bool × UInt8)) :
    Throughout output (fun _ _ _ t => Reported t.server) (fun s => Reported s.server) bytes
        (start document columns rows memory controlCharacter) ↔
      Throughout output (fun s b _ _ => KeepsCursor (s.decoder b.1) s.server b.2)
        (fun _ => True) bytes (start document columns rows memory controlCharacter) := by
  refine throughout_iff (I := Sound) ?_ ?_ ?_ bytes
    (Sound.start document columns rows memory controlCharacter)
  · rintro s ⟨isStderr, c⟩ _ t h hstep hkeeps
    obtain ⟨hints, hiff, _⟩ := h.output hstep
    obtain ⟨hx, hy⟩ := hiff.mp hkeeps
    exact ⟨reported_of_coordinates hx hy, hints, hx, hy⟩
  · rintro s ⟨isStderr, c⟩ _ t h hstep hnot hreported
    obtain ⟨_, hiff, hx, hy⟩ := h.output hstep
    refine not_reported_of_negative ?_ hreported
    by_contra hsigns
    rw [not_or, not_lt, not_lt] at hsigns
    exact hnot (hiff.mpr ⟨⟨hsigns.1, hx.2⟩, hsigns.2, hy.2⟩)
  · exact fun s h => iff_of_true (reported_of_coordinates h.column h.row) trivial

/-- The cursor up by one, from the first row. -/
theorem cursor_reported_negative :
    ¬ ∀ bytes, Throughout output (fun _ _ _ t => Reported t.server) (fun s => Reported s.server)
      bytes (start Document.construct 86 27 (fun _ => Vector.replicate _ 0) (fun _ => 0)) := by
  intro h
  let bytes : List (Bool × UInt8) :=
    (terminalCommand "[%dA" [1]).map fun c => (false, c)
  have hcursor : (bytes.foldlM (fun s b => (output s b).map Prod.snd)
      (start Document.construct 86 27 (fun _ => Vector.replicate _ 0) (fun _ => 0))).map
        (fun s => s.server.cursor) = some (0, -1) := by
    decide +kernel
  obtain ⟨t, hrun, hminus⟩ := Option.map_eq_some_iff.mp hcursor
  have hnegative : t.server.cursor.2 < 0 := by
    rw [hminus]
    decide
  exact not_reported_of_negative (Or.inr hnegative) ((h bytes).last hrun)

end Streams

end Heartix.Terminal
