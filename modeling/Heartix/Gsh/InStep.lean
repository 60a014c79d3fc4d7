import Heartix.Gsh.EditorSteps

/-!
When the line of the editor and the screen stay in step. The editor keeps a place
of the screen while it prints, and returns to it. The place is another one as
soon as the screen has scrolled, and no place in front of a row leads back into
the row before it.
-/

namespace Heartix.Gsh

open Runs Terminal FbScreen

/-- From the cell with the number `origin` on, the screen shows the line and
blanks after it, and the cursor is at the caret. Numbers go on while the screen
scrolls, so `origin` is the prompt's end also when it has scrolled away. -/
structure InStep (origin : ℤ) (s : Session) : Prop where
  cursor : s.screen.position = origin + s.caret
  visible : origin + s.line.length ≤ s.screen.bottom
  cells : ∀ x y, 0 ≤ x → x < s.screen.columns → 0 ≤ y → y < s.screen.rows →
    origin ≤ s.screen.number x y → s.screen.cells x y =
      (s.line[(s.screen.number x y - origin).toNat]?).getD blank

namespace Session

/-- The keys other than the one that ends the line. Characters and completions
are text. -/
def IsEdit (files : Files) (s : Session) (c : ℤ) : Prop :=
  if c = 9 ∨ c = G_TERMKEY_STAB then
    ∀ completion, gshAutocomplete files s.toComplete = [completion] → ∀ b ∈ completion, IsText b
  else if c < 0x100 then 0 ≤ c ∧ IsText (UInt8.ofInt c)
  else c ≠ G_TERMKEY_ENTER

/-- The number after the line's end, if the line is in step. -/
def lineEnd (s : Session) : ℤ := s.screen.position + (s.line.length - s.caret)

/-- The completion, if there is one, replaces text of the cursor's row, and the
line does not come to its end in the last cell. -/
def FitsCompletion (files : Files) (s : Session) : Prop :=
  ∀ completion, gshAutocomplete files s.toComplete = [completion] →
    s.toComplete.length ≤ s.screen.cursorX ∧
      s.lineEnd + (completion.length - s.toComplete.length) < s.screen.bottom

/-- The line does not come to its end in the last cell, and the cursor does not
go back over the start of a row. -/
def FitsKey (files : Files) (s : Session) (c : ℤ) : Prop :=
  if c = 9 ∨ c = G_TERMKEY_STAB then s.FitsCompletion files
  else if c < 0x100 then s.lineEnd + 1 < s.screen.bottom
  else if c = G_TERMKEY_LEFT ∨ c = G_TERMKEY_BACKSPACE then s.caret = 0 ∨ 0 < s.screen.cursorX
  else True

end Session

/-- What holds of the key that the event handles, if it handles one. -/
def OfKey (P : Session → ℤ → Prop) (s : Session) : LineEvent → Prop
  | .key _ => True
  | .handle _ => s.finished = false → ∀ c client, s.client.getChar = some (c, client) → P s c

/-- Every key that is handled is one of the editor's. -/
def Edits (files : Files) : Session → LineEvent → Prop := OfKey (Session.IsEdit files)

def Fits (files : Files) : Session → LineEvent → Prop := OfKey (Session.FitsKey files)

section Autocomplete

variable {files : Files} {text completion : List UInt8}

/-- The text after the last slash is shorter than a text with a slash. -/
theorem length_splitAtLastSlash (text : List UInt8) :
    (splitAtLastSlash text).2.length ≤ text.length ∧
      (slash ∈ text → (splitAtLastSlash text).2.length < text.length) ∧
      (slash ∉ text → (splitAtLastSlash text).2 = text) := by
  have hsuffix := List.rtakeWhile_suffix (fun c => decide (c ≠ slash)) text
  refine ⟨hsuffix.length_le, fun hslash => ?_, fun hslash => ?_⟩
  · by_contra hnot
    have hall := hsuffix.eq_of_length_le (Nat.le_of_not_lt hnot)
    have hmem : slash ∈ List.rtakeWhile (fun c => decide (c ≠ slash)) text := by
      rw [hall]
      exact hslash
    have himp := List.mem_rtakeWhile_imp hmem
    exact absurd rfl (of_decide_eq_true himp)
  · refine List.rtakeWhile_eq_self_iff.mpr fun c hc => decide_eq_true ?_
    rintro rfl
    exact hslash hc

/-- A completion goes on after what is completed, by at most a name and a slash. -/
theorem length_completion (h : completion ∈ gshAutocomplete files text) :
    text.length ≤ completion.length ∧ completion.length ≤ text.length + 256 := by
  obtain ⟨hle, hslash, hplain⟩ := length_splitAtLastSlash text
  have hfolder : (splitAtLastSlash text).1.length =
      text.length - (splitAtLastSlash text).2.length - 1 := by
    unfold splitAtLastSlash
    dsimp only
    rw [List.length_take]
    omega
  unfold gshAutocomplete at h
  dsimp only at h
  generalize hsplit : splitAtLastSlash text = split at *
  obtain ⟨folder, name⟩ := split
  dsimp only at h hfolder hle hslash hplain
  generalize (if text.head? = some slash then folder
    else if slash ∈ text then files.cwdbuf ++ slash :: folder
    else files.cwdbuf) = startDir at h
  cases hopen : files.opendir startDir with
  | none =>
    rw [hopen] at h
    cases h
  | some names =>
    rw [hopen] at h
    obtain ⟨entname, hentname, rfl⟩ := List.mem_map.mp h
    have hname := List.IsPrefix.length_le
      (List.isPrefixOf_iff_prefix.mp (List.mem_filter.mp hentname).2)
    have hshort := entname.short
    have hdir : (if (files.opendir (startDir ++ slash :: entname.chars)).isSome then [slash]
        else []).length ≤ 1 := by
      split <;> decide
    rw [List.length_append, List.length_append]
    generalize (if (files.opendir (startDir ++ slash :: entname.chars)).isSome then [slash]
      else []).length = last at hdir ⊢
    by_cases hin : slash ∈ text
    · have hlt := hslash hin
      rw [if_pos hin, List.length_append, List.length_singleton]
      omega
    · rw [if_neg hin, List.length_nil]
      rw [hplain hin] at hname
      omega

end Autocomplete

namespace Session

/-- The line in step, with its end in front of the last cell. The prompt's end is
still on the screen. -/
structure Editing (origin : ℤ) (s : Session) : Prop where
  idle : s.Idle
  text : ∀ c ∈ s.line, IsText c
  caret_le : s.caret ≤ s.line.length
  cursor : s.screen.position = origin + s.caret
  top_le : s.screen.number 0 0 ≤ origin
  room : origin + s.line.length < s.screen.bottom
  cells : ∀ k, origin ≤ k → k < s.screen.bottom →
    s.screen.cell k = overlay origin s.line (fun _ => blank) k

variable {origin : ℤ} {s t : Session} {line : List UInt8} {caret : ℕ} {files : Files}

/-- The line is changed from the index `j` on, and its cells with it. A shorter
line is followed by blanks over the old one. -/
theorem Editing.edited (h : Editing origin s) (hidle : t.Idle) {text : List UInt8} {j n : ℕ}
    (hj : j ≤ s.line.length) (hlength : s.line.length ≤ j + text.length + n)
    (hredrawn : Redrawn s.screen t.screen
      (overlay (origin + j) (text ++ List.replicate n blank) s.screen.cell))
    (hline : t.line = s.line.take j ++ text) (htext : ∀ c ∈ text, IsText c)
    (hcaret : t.caret ≤ j + text.length) (hcursor : t.screen.position = origin + t.caret)
    (hroom : origin + j + text.length < s.screen.bottom) : Editing origin t := by
  have hbottom := bottom_eq hredrawn.size hredrawn.scrolled
  have hlength' : t.line.length = j + text.length := by
    rw [hline, List.length_append, List.length_take_of_le hj]
  refine ⟨hidle, ?_, ?_, hcursor, ?_, ?_, fun k hk hk' => ?_⟩
  · rw [hline]
    intro c hc
    rcases List.mem_append.mp hc with hc | hc
    · exact h.text c (List.mem_of_mem_take hc)
    · exact htext c hc
  · rw [hlength']
    exact hcaret
  · rw [number_eq hredrawn.size hredrawn.scrolled]
    exact h.top_le
  · rw [hbottom, hlength']
    push_cast
    omega
  · rw [hbottom] at hk'
    have hcovers : s.line.length ≤ j + (text ++ List.replicate n blank).length := by
      rw [List.length_append, List.length_replicate]
      omega
    rw [hredrawn.cell, hline, ← overlay_replicate origin (s.line.take j ++ text) n,
      List.append_assoc, ← overlay_take origin hj hcovers]
    exact overlay_congr (h.cells k hk hk')

/-- The length of the line is a parameter. -/
theorem Editing.length_lt (h : Editing origin s) : s.line.length < 2 ^ 25 := by
  obtain ⟨hcolumns, hrows⟩ := h.idle.bounds
  have hrows_pos := h.idle.onScreen.rows_pos
  have htop := h.top_le
  have hroom := h.room
  have hcells : s.screen.bottom = s.screen.number 0 0 + s.screen.columns * s.screen.rows := by
    unfold FbScreen.bottom FbScreen.number
    ring
  have hmul := Int.mul_le_mul (Int.le_of_lt hcolumns) (Int.le_of_lt hrows) (by omega)
    (by decide : (0 : ℤ) ≤ 2 ^ 13)
  omega

theorem Editing.not_tab (h : Editing origin s) {i : ℕ} (hi : i < s.line.length) :
    s.line.getD i 0 ≠ '\t'.toUInt8 := by
  rw [List.getD_eq_getElem?_getD, List.getElem?_eq_getElem hi, Option.getD_some]
  exact (h.text _ (List.getElem_mem hi)).2.2.1

/-- Only the cursor moves. -/
theorem Editing.moved (h : Editing origin s) (ht : Draws { s with caret := caret } t)
    (hcaret : caret ≤ s.line.length)
    (hmoved : Moved s.screen t.screen (origin + caret)) : Editing origin t := by
  have hroom := h.room
  have hredrawn := hmoved.redrawn (by omega)
  have htcaret : t.caret = caret := ht.same.caret
  rw [← overlay_nil (origin + s.line.length) s.screen.cell] at hredrawn
  change Redrawn s.screen t.screen (overlay (origin + s.line.length)
    ([] ++ List.replicate 0 blank) s.screen.cell) at hredrawn
  refine h.edited ht.idle (Nat.le_refl _) (Nat.le_refl _) hredrawn ?_ ?_ ?_ ?_ ?_
  · rw [List.append_nil, List.take_length]
    exact ht.same.line
  · exact fun c hc => absurd hc List.not_mem_nil
  · rw [htcaret]
    exact hcaret
  · rw [htcaret]
    exact hmoved.position
  · rw [List.length_nil]
    omega

/-- A step to the left stays in step unless the cursor is at the start of a row. -/
theorem Editing.left (h : Editing origin s) :
    ∃ t, s.left = some t ∧
      (s.caret = 0 ∨ 0 < s.screen.cursorX → Editing origin t) ∧
      (¬ (s.caret = 0 ∨ 0 < s.screen.cursorX) → ¬ InStep origin t) := by
  have hcursor := h.cursor
  have hle := h.caret_le
  unfold Session.left
  by_cases hcaret : 0 < s.caret
  · obtain ⟨t, hrun, hdraws, hmoved⟩ :=
      (h.idle.edit s.line (s.caret - 1)).moveCursorBack parameter_one
    rw [if_pos hcaret]
    dsimp only
    rw [if_neg (h.not_tab (Nat.lt_of_lt_of_le (Nat.sub_lt hcaret Nat.one_pos) hle))]
    refine ⟨t, hrun, fun hfits => ?_, fun hnot hstep => ?_⟩
    · refine h.moved hdraws (by omega) ?_
      have hplace : s.screen.number (max 0 (s.screen.cursorX - 1)) s.screen.cursorY =
          origin + (s.caret - 1 : ℕ) := by
        rw [max_eq_right (by omega)]
        unfold FbScreen.position FbScreen.number at hcursor
        unfold FbScreen.number
        omega
      rw [← hplace]
      exact hmoved
    · have hplace : s.screen.number (max 0 (s.screen.cursorX - 1)) s.screen.cursorY =
          s.screen.position := by
        have hx := h.idle.onScreen.cursorX_nonneg
        rw [max_eq_left (by omega)]
        unfold FbScreen.position
        rw [show s.screen.cursorX = 0 by omega]
      have hposition : t.screen.position = s.screen.position := hmoved.position.trans hplace
      have hcaret' : t.caret = s.caret - 1 := hdraws.same.caret
      have hstep := hstep.cursor
      omega
  · rw [if_neg hcaret]
    exact ⟨s, rfl, fun _ => h, fun hnot => absurd (Or.inl (by omega)) hnot⟩

theorem Editing.right (h : Editing origin s) : ∃ t, s.right = some t ∧ Editing origin t := by
  have hcursor := h.cursor
  unfold Session.right
  by_cases hcaret : s.caret < s.line.length
  · obtain ⟨t, hrun, hdraws, hmoved⟩ := (h.idle.edit s.line (s.caret + 1)).moveCursorForward
    rw [if_pos hcaret]
    dsimp only
    rw [if_neg (h.not_tab hcaret)]
    refine ⟨t, hrun, h.moved hdraws hcaret ?_⟩
    have hplace : s.screen.number (s.screen.cursorX + 1) s.screen.cursorY =
        origin + (s.caret + 1 : ℕ) := by
      unfold FbScreen.position FbScreen.number at hcursor
      unfold FbScreen.number
      omega
    rw [← hplace]
    exact hmoved
  · rw [if_neg hcaret]
    exact ⟨s, rfl, h⟩

theorem Editing.lineEnd_eq (h : Editing origin s) : s.lineEnd = origin + s.line.length := by
  have hcursor := h.cursor
  unfold lineEnd
  omega

theorem Editing.text_after (h : Editing origin s) : ∀ c ∈ s.line.drop s.caret, IsText c :=
  fun c hc => h.text c (List.mem_of_mem_drop hc)

/-- A character is inserted in step unless the line's end comes to the last cell. -/
theorem Editing.insert (h : Editing origin s) {c : UInt8} (hc : IsText c) (typed : List Key) :
    ∃ t, s.insert c typed = some t ∧
      (s.lineEnd + 1 < s.screen.bottom → Editing origin t) ∧
      (¬ s.lineEnd + 1 < s.screen.bottom → ¬ InStep origin t) := by
  have hcursor := h.cursor
  have hle := h.caret_le
  have hend := h.lineEnd_eq
  obtain ⟨t, hrun, ⟨hidle, htline, htcaret⟩, hgood, hbad⟩ := h.idle.insert hc h.text_after typed
  rw [List.length_drop] at hgood hbad
  refine ⟨t, hrun, fun hfits => ?_, fun hnot hstep => ?_⟩
  · obtain ⟨hredrawn, hposition⟩ := hgood (by omega)
    rw [hcursor, ← List.append_nil (c :: s.line.drop s.caret)] at hredrawn
    refine h.edited hidle hle ?_ (n := 0) hredrawn htline ?_ ?_ ?_ ?_
    · rw [List.length_cons, List.length_drop]
      omega
    · intro b hb
      rcases List.mem_cons.mp hb with rfl | hb
      · exact hc
      · exact h.text_after b hb
    · rw [htcaret, List.length_cons]
      exact Nat.add_le_add_left (Nat.succ_le_succ (Nat.zero_le _)) _
    · rw [htcaret, hposition, hcursor]
      push_cast
      ring
    · rw [List.length_cons, List.length_drop]
      omega
  · have hposition := hbad (by omega)
    have hstep := hstep.cursor
    rw [htcaret] at hstep
    push_cast at hstep
    omega

/-- A character is removed in step unless the cursor is at the start of a row. -/
theorem Editing.backspace (h : Editing origin s) (typed : List Key) :
    ∃ t, s.backspace typed = some t ∧
      (s.caret = 0 ∨ 0 < s.screen.cursorX → Editing origin t) ∧
      (¬ (s.caret = 0 ∨ 0 < s.screen.cursorX) → ¬ InStep origin t) := by
  have hcursor := h.cursor
  have hle := h.caret_le
  have hroom := h.room
  have hx := h.idle.onScreen.cursorX_nonneg
  by_cases hcaret : 0 < s.caret
  · have htab := h.not_tab (Nat.lt_of_lt_of_le (Nat.sub_lt hcaret Nat.one_pos) hle)
    by_cases hfront : 0 < s.screen.cursorX
    · obtain ⟨t, hrun, ⟨hidle, htline, htcaret⟩, hredrawn, hposition⟩ := h.idle.backspace hcaret
        hle htab h.text_after hfront (by rw [List.length_drop]; omega) typed
      refine ⟨t, hrun, fun _ => ?_, fun hnot => absurd (Or.inr hfront) hnot⟩
      have hplace : s.screen.position - 1 = origin + (s.caret - 1 : ℕ) := by omega
      rw [hplace] at hredrawn hposition
      refine h.edited hidle (by omega) ?_ (n := 1) hredrawn htline h.text_after ?_ ?_ ?_
      · rw [List.length_drop]
        omega
      · rw [htcaret]
        exact Nat.le_add_right _ _
      · rw [htcaret]
        exact hposition
      · rw [List.length_drop]
        omega
    · obtain ⟨t, hrun, htcaret, hposition⟩ :=
        h.idle.backspace_first hcaret hle htab h.text_after (by omega) typed
      refine ⟨t, hrun, fun hfits => absurd hfits (by omega), fun _ hstep => ?_⟩
      have hstep := hstep.cursor
      omega
  · refine ⟨s, ?_, fun _ => h, fun hnot => absurd (Or.inl (by omega)) hnot⟩
    unfold Session.backspace
    exact if_neg fun hpos => hcaret hpos.2

theorem length_toComplete_le (s : Session) : s.toComplete.length ≤ s.caret := by
  have hsuffix := List.rtakeWhile_suffix (fun c => decide (c ≠ ' '.toUInt8)) (s.line.take s.caret)
  refine Nat.le_trans hsuffix.length_le ?_
  rw [List.length_take]
  exact Nat.min_le_left _ _

/-- A completion is inserted in step unless what it replaces starts in a row
before the cursor's, or the line's end comes to the last cell. -/
theorem Editing.completed (h : Editing origin s) (typed : List Key) {completion : List UInt8}
    (hcompletion : gshAutocomplete files s.toComplete = [completion])
    (htext : ∀ b ∈ completion, IsText b) :
    ∃ t, s.complete files typed = some t ∧
      (s.toComplete.length ≤ s.screen.cursorX ∧
          s.lineEnd + (completion.length - s.toComplete.length) < s.screen.bottom →
        Editing origin t) ∧
      (¬ (s.toComplete.length ≤ s.screen.cursorX ∧
          s.lineEnd + (completion.length - s.toComplete.length) < s.screen.bottom) →
        ¬ InStep origin t) := by
  have hcursor := h.cursor
  have hle := h.caret_le
  have hend := h.lineEnd_eq
  have hlt := h.length_lt
  have hx := h.idle.onScreen.cursorX_nonneg
  have hshort := s.length_toComplete_le
  obtain ⟨hlonger, hbounded⟩ :=
    length_completion (show completion ∈ gshAutocomplete files s.toComplete by
      rw [hcompletion]
      exact List.mem_singleton_self completion)
  have hprinted : ∀ b ∈ completion ++ s.line.drop s.caret, IsText b := by
    intro b hb
    rcases List.mem_append.mp hb with hb | hb
    · exact htext b hb
    · exact h.text_after b hb
  obtain ⟨t, hrun, ⟨hidle, htline, htcaret⟩, hgood, hbad⟩ := h.idle.complete hcompletion hprinted
    ⟨by omega, by omega⟩ (by omega) typed rfl
  rw [List.length_append, List.length_drop] at hgood hbad
  refine ⟨t, hrun, fun ⟨hrow, hroom⟩ => ?_, fun hnot hstep => ?_⟩
  · have hplace : s.screen.position - s.screen.cursorX +
        max 0 (s.screen.cursorX - s.toComplete.length) =
          origin + (s.caret - s.toComplete.length : ℕ) := by omega
    rw [hplace] at hgood
    obtain ⟨hredrawn, hposition⟩ := hgood (by omega)
    rw [← List.append_nil (completion ++ s.line.drop s.caret)] at hredrawn
    refine h.edited hidle (by omega) ?_ (n := 0) hredrawn (htline.trans (List.append_assoc _ _ _))
      hprinted ?_ ?_ ?_
    · rw [List.length_append, List.length_drop]
      omega
    · rw [htcaret, List.length_append]
      dsimp only
      omega
    · rw [htcaret, hposition]
      push_cast
      ring
    · rw [List.length_append, List.length_drop]
      omega
  · have hstep := hstep.cursor
    rw [htcaret] at hstep
    push_cast at hgood hbad hstep
    by_cases hfull : s.screen.bottom ≤ s.screen.position - s.screen.cursorX +
        max 0 (s.screen.cursorX - s.toComplete.length) +
          (completion.length + (s.line.length - s.caret : ℕ))
    · have hposition := hbad hfull
      omega
    · have hposition := (hgood (by omega)).2
      omega

theorem Editing.complete (h : Editing origin s) (typed : List Key)
    (htext : ∀ completion, gshAutocomplete files s.toComplete = [completion] →
      ∀ b ∈ completion, IsText b) :
    ∃ t, s.complete files typed = some t ∧ (s.FitsCompletion files → Editing origin t) ∧
      (¬ s.FitsCompletion files → ¬ InStep origin t) := by
  by_cases hone : ∃ completion, gshAutocomplete files s.toComplete = [completion]
  · obtain ⟨completion, hcompletion⟩ := hone
    obtain ⟨t, hrun, hgood, hbad⟩ := h.completed typed hcompletion (htext completion hcompletion)
    refine ⟨t, hrun, fun hfits => hgood (hfits completion hcompletion), fun hnot => hbad ?_⟩
    intro hfits
    refine hnot fun other hother => ?_
    obtain rfl := List.singleton_inj.mp (hcompletion.symm.trans hother)
    exact hfits
  · refine ⟨s, ?_, fun _ => h, fun hnot => absurd ?_ hnot⟩
    · unfold Session.complete
      split
      next completion heq => exact absurd ⟨completion, heq⟩ hone
      next => rfl
    · intro completion hcompletion
      exact absurd ⟨completion, hcompletion⟩ hone

/-- One case for each branch of the loop's body. -/
theorem Editing.handle (h : Editing origin s) {c : ℤ} (hedit : s.IsEdit files c)
    (typed : List Key) :
    ∃ t, s.handle files c typed = some t ∧ (s.FitsKey files c → Editing origin t) ∧
      (¬ s.FitsKey files c → ¬ InStep origin t) := by
  have hleft : G_TERMKEY_LEFT = 0x104 := rfl
  have hright : G_TERMKEY_RIGHT = 0x105 := rfl
  have hbackspace : G_TERMKEY_BACKSPACE = 0x107 := rfl
  have hstab : G_TERMKEY_STAB = 0x154 := rfl
  have henter : G_TERMKEY_ENTER = 0x157 := rfl
  unfold IsEdit at hedit
  unfold Session.handle FitsKey
  by_cases htab : c = 9 ∨ c = G_TERMKEY_STAB
  · rw [if_pos htab] at hedit
    rw [if_neg (by omega), if_neg (by omega), if_pos htab, if_pos htab]
    exact h.complete typed hedit
  rw [if_neg htab] at hedit
  rw [if_neg htab, if_neg htab]
  by_cases hchar : c < 0x100
  · rw [if_pos hchar] at hedit
    rw [if_neg (by omega), if_neg (by omega), if_neg (by omega), if_neg (by omega),
      if_neg (by omega), if_pos hchar, if_pos hchar]
    exact h.insert hedit.2 typed
  rw [if_neg hchar] at hedit
  rw [if_neg (by omega), if_neg hedit, if_neg hchar, if_neg hchar]
  by_cases hback : c = G_TERMKEY_BACKSPACE
  · rw [if_pos hback, if_pos (Or.inr hback)]
    exact h.backspace typed
  rw [if_neg hback]
  by_cases hto : c = G_TERMKEY_LEFT
  · rw [if_pos hto, if_pos (Or.inl hto)]
    exact h.left
  rw [if_neg hto, if_neg (show ¬ (c = G_TERMKEY_LEFT ∨ c = G_TERMKEY_BACKSPACE) by omega)]
  by_cases hfrom : c = G_TERMKEY_RIGHT
  · obtain ⟨t, hrun, ht⟩ := h.right
    rw [if_pos hfrom]
    exact ⟨t, hrun, fun _ => ht, fun hnot => absurd trivial hnot⟩
  · rw [if_neg hfrom]
    exact ⟨s, rfl, fun _ => h, fun hnot => absurd trivial hnot⟩

/-- The keys that arrive or are taken do not touch the line. -/
theorem Editing.withClient (h : Editing origin s) {client : Client} (hsound : client.Sound)
    (hunread : ∃ keys : List Key, client.stdin = keys.flatMap Key.encode) :
    Editing origin { s with client := client } :=
  ⟨⟨h.idle.ready, h.idle.onScreen, h.idle.resX, h.idle.resY, h.idle.answered, hsound, hunread⟩,
    h.text, h.caret_le, h.cursor, h.top_le, h.room, h.cells⟩

/-- One event. -/
theorem Editing.exec (h : Editing origin s) {event : LineEvent} (hedits : Edits files s event) :
    ∃ t, s.exec files event = some t ∧ (Fits files s event → Editing origin t) ∧
      (¬ Fits files s event → ¬ InStep origin t) := by
  cases event with
  | key k =>
    obtain ⟨keys, hkeys⟩ := h.idle.unread
    refine ⟨_, rfl, fun _ => h.withClient h.idle.sound ⟨keys ++ [k], ?_⟩,
      fun hnot => absurd trivial hnot⟩
    change s.client.stdin ++ [k].flatMap Key.encode = _
    rw [hkeys, List.flatMap_append]
  | handle typed =>
    unfold Session.exec
    dsimp only
    by_cases hfinished : s.finished
    · refine ⟨s, if_pos hfinished, fun _ => h, fun hnot => absurd (fun hopen => ?_) hnot⟩
      exact absurd (hfinished.symm.trans hopen) (by decide)
    · rw [if_neg hfinished]
      have hopen : s.finished = false := Bool.eq_false_of_not_eq_true hfinished
      cases hget : s.client.getChar with
      | none =>
        refine ⟨s, rfl, fun _ => h, fun hnot => absurd (fun _ c client hsome => ?_) hnot⟩
        cases hget.symm.trans hsome
      | some next =>
        obtain ⟨c, client⟩ := next
        obtain ⟨hsound, hunread⟩ := Client.sound_of_getChar h.idle.sound h.idle.unread hget
        obtain ⟨t, hrun, hgood, hbad⟩ :=
          (h.withClient hsound hunread).handle (hedits hopen c client hget) typed
        refine ⟨t, hrun, fun hfits => hgood (hfits hopen c client hget),
          fun hnot => hbad fun hfits => hnot fun _ c' client' hget' => ?_⟩
        obtain ⟨rfl, rfl⟩ := Prod.mk.inj (Option.some.inj (hget.symm.trans hget'))
        exact hfits

end Session

end Heartix.Gsh
