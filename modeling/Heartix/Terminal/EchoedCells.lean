import Heartix.Terminal.CursorReport

/-!
The cells of the window, with the lines counted from the last one. A character that is
written at the cursor and a backspace change one line, and which cells of it they change
is read off the texts before and after. Cells that have been echoed may change.
-/

namespace Heartix.Terminal

namespace TerminalLine

variable {line changed : TerminalLine} {position : ℤ} {c : UInt8}

/-- The characters before and behind the position of an insertion stay. -/
theorem insert_text (hallocated : line.length + line.removals = line.buffer.length)
    (h : line.insert position c = some changed) {i : ℕ} (hne : (i : ℤ) ≠ position)
    (hi : i < line.length) :
    (changed.buffer.take changed.length)[i]? = (line.buffer.take line.length)[i]? := by
  rw [insert_text_eq hallocated h, if_neg hne, if_pos hi, List.getElem?_take_of_lt hi]

/-- A removal takes one character, and those before it stay. -/
theorem remove_text (hallocated : line.length + line.removals = line.buffer.length)
    (hpos : 0 < line.length) (h : line.remove position = some changed) :
    changed.length = line.length - 1 ∧ ∀ i : ℕ, (i : ℤ) < position →
      (changed.buffer.take changed.length)[i]? = (line.buffer.take line.length)[i]? := by
  unfold TerminalLine.remove at h
  rw [if_pos hpos] at h
  by_cases hin : 0 ≤ position ∧ position < line.length
  · rw [if_pos hin] at h
    obtain rfl := Option.some.inj h
    refine ⟨rfl, fun i hi => ?_⟩
    have hlength : i < (line.buffer.take position.toNat).length := by
      rw [List.length_take]
      omega
    dsimp only
    rw [List.getElem?_take_of_lt (by omega), List.getElem?_take_of_lt (by omega),
      List.getElem?_append_left hlength, List.getElem?_take_of_lt (by omega)]
  · rw [if_neg hin] at h
    cases h

end TerminalLine

namespace Document

variable {d t : Document} {list : List ℕ} {a : ℕ} {x offsetY : ℤ} {c : UInt8}

/-- The texts after a character has been put into a line. -/
theorem Holds.insert_texts (h : d.Holds list) (hmem : a ∈ list) (ha : a ≠ 0)
    (hget : d.getLine offsetY = some a) (hc : c ≠ '\n'.toUInt8)
    (ht : d.insert x offsetY c = some t) :
    t.Holds list ∧ t.lengthOf a = max (d.lengthOf a) (x + 1).toNat ∧
      (∀ b, b ≠ a → t.textOf b = d.textOf b) ∧
      ∀ i : ℕ, (i : ℤ) ≠ x → i < d.lengthOf a → (t.textOf a)[i]? = (d.textOf a)[i]? := by
  obtain ⟨hholds, _, _⟩ := h.insert_spec hmem ha hget hc ht
  obtain ⟨line, hline⟩ := h.alive a hmem
  have hallocated := h.allocated a line hline
  rw [insert_of_getLine ha hget, if_neg hc] at ht
  obtain ⟨changed, hchanged, rfl⟩ := modify_eq_some hline ht
  obtain ⟨_, _, _, hlength⟩ := TerminalLine.insert_spec hallocated hchanged
  refine ⟨hholds, ?_, fun b hb => ?_, fun i hne hi => ?_⟩
  · rw [lengthOf_put_self, hlength, lengthOf_of_memory hline]
  · rw [textOf_put, if_neg hb]
  · rw [lengthOf_of_memory hline] at hi
    rw [textOf_put, if_pos rfl, textOf_of_memory hline]
    exact TerminalLine.insert_text hallocated hchanged hne hi

/-- The texts after a character has been taken from a line. -/
theorem Holds.remove_texts (h : d.Holds list) (hmem : a ∈ list) (ha : a ≠ 0)
    (hget : d.getLine offsetY = some a) (hpos : 0 < d.lengthOf a)
    (ht : d.remove x offsetY = some t) :
    t.Holds list ∧ t.lengthOf a = d.lengthOf a - 1 ∧
      (∀ b, b ≠ a → t.textOf b = d.textOf b) ∧
      ∀ i : ℕ, (i : ℤ) < x → (t.textOf a)[i]? = (d.textOf a)[i]? := by
  obtain ⟨hholds, _⟩ := h.remove_spec hmem ha hget ht
  obtain ⟨line, hline⟩ := h.alive a hmem
  rw [lengthOf_of_memory hline] at hpos
  rw [remove_of_getLine ha hget] at ht
  obtain ⟨changed, hchanged, rfl⟩ := modify_eq_some hline ht
  obtain ⟨hlength, htext⟩ := TerminalLine.remove_text (h.allocated a line hline) hpos hchanged
  refine ⟨hholds, ?_, fun b hb => ?_, fun i hi => ?_⟩
  · rw [lengthOf_put_self, hlength, lengthOf_of_memory hline]
  · rw [textOf_put, if_neg hb]
  · rw [textOf_put, if_pos rfl, textOf_of_memory hline]
    exact htext i hi

/-- A removal from an empty line. -/
theorem Holds.remove_empty (h : d.Holds list) (hmem : a ∈ list) (ha : a ≠ 0)
    (hget : d.getLine offsetY = some a) (hempty : d.lengthOf a = 0)
    (ht : d.remove x offsetY = some t) :
    t.Holds list ∧ t.lengthOf a = 0 ∧ ∀ b, t.textOf b = d.textOf b := by
  obtain ⟨hholds, _⟩ := h.remove_spec hmem ha hget ht
  obtain ⟨line, hline⟩ := h.alive a hmem
  rw [lengthOf_of_memory hline] at hempty
  rw [remove_of_getLine ha hget] at ht
  obtain ⟨changed, hchanged, rfl⟩ := modify_eq_some hline ht
  have hsame : changed = line := by
    unfold TerminalLine.remove at hchanged
    rw [if_neg (by omega)] at hchanged
    exact (Option.some.inj hchanged).symm
  refine ⟨hholds, ?_, fun b => ?_⟩
  · rw [lengthOf_put_self, hsame, hempty]
  · rw [textOf_put]
    split
    · rename_i hb
      rw [hb, hsame, textOf_of_memory hline]
    · rfl

end Document

namespace GuiScreen

/-- How many lines the cursor is above the last one. -/
def row (g : GuiScreen) : ℕ := countdown g.cursorY

/-- The character in a column of a line, with the lines counted from the last one. -/
def cell (g : GuiScreen) (y x : ℕ) : Option UInt8 :=
  (g.document.texts.reverse[y]?).bind fun text => text[x]?

/-- Two screens with the same lines, but for the characters in some cells. -/
structure AgreeOutside (echoed : List (ℕ × ℤ)) (g h : GuiScreen) : Prop where
  lines : g.document.texts.length = h.document.texts.length
  cells : ∀ y x : ℕ, (y, (x : ℤ)) ∉ echoed → g.cell y x = h.cell y x

variable {g h : GuiScreen} {list : List ℕ} {a : ℕ} {c : UInt8}

theorem cell_eq (hg : g.document.Holds list) (y x : ℕ) :
    g.cell y x = (list[y]?).bind fun a => (g.document.textOf a)[x]? := by
  unfold cell Document.texts
  rw [List.reverse_reverse, hg.addresses_eq, List.getElem?_map]
  cases list[y]? <;> rfl

theorem length_texts (hg : g.document.Holds list) : g.document.texts.length = list.length := by
  unfold Document.texts
  rw [List.length_reverse, List.length_map, hg.addresses_eq]

theorem AgreeOutside.refl (echoed : List (ℕ × ℤ)) (g : GuiScreen) : AgreeOutside echoed g g :=
  ⟨rfl, fun _ _ _ => rfl⟩

theorem AgreeOutside.of_document {echoed : List (ℕ × ℤ)} (heq : g.document = h.document) :
    AgreeOutside echoed g h := by
  refine ⟨by rw [heq], fun y x _ => ?_⟩
  unfold cell
  rw [heq]

theorem AgreeOutside.trans {f : GuiScreen} {echoed : List (ℕ × ℤ)}
    (hfg : AgreeOutside echoed f g) (hgh : AgreeOutside echoed g h) :
    AgreeOutside echoed f h :=
  ⟨hfg.lines.trans hgh.lines, fun y x hout => (hfg.cells y x hout).trans (hgh.cells y x hout)⟩

theorem AgreeOutside.symm {echoed : List (ℕ × ℤ)} (hgh : AgreeOutside echoed g h) :
    AgreeOutside echoed h g :=
  ⟨hgh.lines.symm, fun y x hout => (hgh.cells y x hout).symm⟩

theorem AgreeOutside.mono {echoed more : List (ℕ × ℤ)} (hsub : ∀ p ∈ echoed, p ∈ more)
    (hgh : AgreeOutside echoed g h) : AgreeOutside more g h :=
  ⟨hgh.lines, fun y x hout => hgh.cells y x fun hmem => hout (hsub _ hmem)⟩

/-- Changing one line in one column. -/
theorem agreeOutside_of_line {echoed : List (ℕ × ℤ)} {y : ℕ} (hg : g.document.Holds list)
    (hh : h.document.Holds list) (hy : list[y]? = some a)
    (hother : ∀ b, b ≠ a → h.document.textOf b = g.document.textOf b)
    (hline : ∀ x : ℕ, (y, (x : ℤ)) ∉ echoed →
      (h.document.textOf a)[x]? = (g.document.textOf a)[x]?) :
    AgreeOutside echoed h g := by
  refine ⟨by rw [length_texts hg, length_texts hh], fun z x hout => ?_⟩
  rw [cell_eq hg, cell_eq hh]
  cases hz : list[z]? with
  | none => rfl
  | some b =>
    rw [Option.bind_some, Option.bind_some]
    by_cases hb : b = a
    · subst hb
      have hzy : z = y := by
        have hlt := (List.getElem?_eq_some_iff.mp hz).1
        exact (List.getElem?_inj hlt hg.chained.nodup).mp (hz.trans hy.symm)
      subst hzy
      exact hline x hout
    · rw [hother b hb]

theorem onLine_of_none (hg : g.document.Holds list)
    (hnone : Document.addressed list g.cursorY = none) (P : ℕ → Prop) : g.OnLine P := by
  intro a ha
  rw [hg.addresses_eq, hnone] at ha
  cases ha

theorem onLine_of_some (hg : g.document.Holds list)
    (haddressed : Document.addressed list g.cursorY = some a) (P : ℕ → Prop) :
    g.OnLine P ↔ P (g.document.lengthOf a) := by
  refine ⟨fun hon => hon a (hg.addresses_eq ▸ haddressed), fun hP b hb => ?_⟩
  rw [hg.addresses_eq, haddressed] at hb
  obtain rfl := Option.some.inj hb
  exact hP

/-- Every line is shorter than an `int` can count. -/
def Short (g : GuiScreen) (list : List ℕ) : Prop :=
  ∀ b ∈ list, g.document.lengthOf b < 2 ^ 31

/-- A written newline puts an empty line into the document, if the cursor is on a line. -/
theorem write_newline (hg : g.document.Holds list) (hshort : g.Short list) :
    ∃ h list', g.write '\n'.toUInt8 = some h ∧ h.document.Holds list' ∧ h.Short list' ∧
      h.cursorX = 0 ∧ h.cursorY = g.cursorY ∧
      (Document.addressed list g.cursorY = none ∧ h.document = g.document ∨
        (∃ a, Document.addressed list g.cursorY = some a) ∧
          h.document.texts.length = g.document.texts.length + 1) := by
  have hwrite : g.write '\n'.toUInt8 = (g.document.insert g.cursorX g.cursorY '\n'.toUInt8).map
      fun document => { g with document := document }.setCursor 0 g.cursorY := rfl
  rcases onLine_cases hg with ⟨hnone, hget, _⟩ | ⟨a, haddressed, hmem, ha, hget, _⟩
  · refine ⟨g.setCursor 0 g.cursorY, list, ?_, hg, hshort, rfl, rfl, Or.inl ⟨hnone, rfl⟩⟩
    rw [hwrite, Document.insert_of_getLine_null hget]
    rfl
  · obtain ⟨d, hrun, hinserted⟩ := hg.insertLine_inserted hmem
    obtain ⟨front, back, rfl⟩ := List.append_of_mem hmem
    have hholds := hinserted.holds hg
    obtain ⟨hold, hnew⟩ := Document.lengthOf_of_inserted hinserted hg
    refine ⟨{ g with document := d }.setCursor 0 g.cursorY, _, ?_, hholds, ?_, rfl, rfl,
      Or.inr ⟨⟨a, haddressed⟩, ?_⟩⟩
    · rw [hwrite, Document.insert_of_getLine ha hget, if_pos rfl, hrun]
      rfl
    · intro b hb
      change d.lengthOf b < 2 ^ 31
      by_cases hfresh : b = g.document.fresh
      · rw [hfresh, hnew]
        decide
      · have hmem' : b ∈ front ++ a :: back := by
          simp only [List.mem_append, List.mem_cons] at hb ⊢
          exact hb.imp_right fun hb => hb.resolve_left hfresh
        rw [hold b hmem']
        exact hshort b hmem'
    · have hlength : d.texts.length = (front ++ g.document.fresh :: a :: back).length :=
        length_texts (g := { g with document := d }) hholds
      change d.texts.length = _
      rw [hlength, length_texts hg]
      simp only [List.length_append, List.length_cons]
      omega

/-- A written character changes one line in one column, where the cursor is not behind
the end of the line. -/
theorem write_char (hg : g.document.Holds list) (hutf : charIsUtf8 c) (hc : c ≠ '\n'.toUInt8)
    (hw : g.write c = some h) :
    h.document.Holds list ∧ h.cursorX = (g.cursorX + 1).bmod (2 ^ 32) ∧
      h.cursorY = g.cursorY ∧
      (Document.addressed list g.cursorY = none ∧ h.document = g.document ∨
        ∃ a, Document.addressed list g.cursorY = some a ∧
          h.document.lengthOf a = max (g.document.lengthOf a) (g.cursorX + 1).toNat ∧
          (∀ b, b ≠ a → h.document.textOf b = g.document.textOf b) ∧
          ∀ i : ℕ, (i : ℤ) ≠ g.cursorX → i < g.document.lengthOf a →
            (h.document.textOf a)[i]? = (g.document.textOf a)[i]?) := by
  unfold write at hw
  rw [if_pos hutf] at hw
  obtain ⟨d, hd, rfl⟩ := Option.map_eq_some_iff.mp hw
  rw [if_neg hc]
  rcases onLine_cases hg with ⟨hnone, hget, _⟩ | ⟨a, haddressed, hmem, ha, hget, _⟩
  · rw [Document.insert_of_getLine_null hget] at hd
    obtain rfl := Option.some.inj hd
    exact ⟨hg, rfl, rfl, Or.inl ⟨hnone, rfl⟩⟩
  · obtain ⟨hholds, hlength, hother, htext⟩ := hg.insert_texts hmem ha hget hc hd
    exact ⟨hholds, rfl, rfl, Or.inr ⟨a, haddressed, hlength, hother, htext⟩⟩

/-- A backspace moves the cursor, and takes the character it is on then. -/
theorem backspace_char (hg : g.document.Holds list) (hb : g.backspace = some h) :
    h.document.Holds list ∧ h.cursorX = (g.cursorX - 1).bmod (2 ^ 32) ∧
      h.cursorY = g.cursorY ∧
      (Document.addressed list g.cursorY = none ∧ h.document = g.document ∨
        ∃ a, Document.addressed list g.cursorY = some a ∧
          (∀ b, b ≠ a → h.document.textOf b = g.document.textOf b) ∧
          (g.document.lengthOf a = 0 ∧ h.document.textOf a = g.document.textOf a ∨
            0 < g.document.lengthOf a ∧
            h.document.lengthOf a = g.document.lengthOf a - 1 ∧
              ∀ i : ℕ, (i : ℤ) < (g.cursorX - 1).bmod (2 ^ 32) →
                (h.document.textOf a)[i]? = (g.document.textOf a)[i]?)) := by
  obtain ⟨d, hd, rfl⟩ := Option.map_eq_some_iff.mp hb
  rcases onLine_cases hg with ⟨hnone, hget, _⟩ | ⟨a, haddressed, hmem, ha, hget, _⟩
  · have hremove : g.document.remove ((g.cursorX - 1).bmod (2 ^ 32)) g.cursorY =
        some g.document := Document.remove_of_getLine_null hget
    obtain rfl := Option.some.inj (hremove.symm.trans hd)
    exact ⟨hg, rfl, rfl, Or.inl ⟨hnone, rfl⟩⟩
  · by_cases hempty : g.document.lengthOf a = 0
    · obtain ⟨hholds, _, htext⟩ := hg.remove_empty hmem ha hget hempty hd
      exact ⟨hholds, rfl, rfl, Or.inr ⟨a, haddressed, fun b _ => htext b,
        Or.inl ⟨hempty, htext a⟩⟩⟩
    · have hpos := Nat.pos_of_ne_zero hempty
      obtain ⟨hholds, hlength, hother, htext⟩ := hg.remove_texts hmem ha hget hpos hd
      exact ⟨hholds, rfl, rfl, Or.inr ⟨a, haddressed, hother, Or.inr ⟨hpos, hlength, htext⟩⟩⟩

/-- In the line of the cursor, no echoed cell is between the cursor and the end. -/
def Marked (echoed : List (ℕ × ℤ)) (g : GuiScreen) : Prop :=
  g.OnLine fun length => ∀ column, (g.row, column) ∈ echoed →
    0 ≤ column ∧ (g.cursorX ≤ length → column < g.cursorX ∨ length ≤ column)

/-- A character can be echoed here: the cursor is in the line or at its end, or all
cells between the end and the cursor have been echoed before. -/
def Echoes (echoed : List (ℕ × ℤ)) (g : GuiScreen) : Prop :=
  g.OnLine fun length => 0 ≤ g.cursorX ∧ g.cursorX + 1 < 2 ^ 31 ∧
    ∀ column : ℕ, length ≤ column → (column : ℤ) < g.cursorX → (g.row, (column : ℤ)) ∈ echoed

/-- A backspace here takes back an echoed character, or finds no character. -/
def TakesBack (echoed : List (ℕ × ℤ)) (g : GuiScreen) : Prop :=
  g.OnLine fun length => length = 0 ∨ length = g.cursorX ∧ (g.row, g.cursorX - 1) ∈ echoed

variable {echoed : List (ℕ × ℤ)}

theorem text_getElem?_eq_none (hg : g.document.Holds list) {i : ℕ}
    (hi : g.document.lengthOf a ≤ i) : (g.document.textOf a)[i]? = none :=
  List.getElem?_eq_none (by rw [hg.length_textOf]; exact hi)

theorem text_getElem?_isSome (hg : g.document.Holds list) {i : ℕ}
    (hi : i < g.document.lengthOf a) : ((g.document.textOf a)[i]?).isSome := by
  rw [List.getElem?_eq_getElem (by rw [hg.length_textOf]; exact hi)]
  rfl

theorem short_of_line (hg : g.document.Holds list) (hh : h.document.Holds list)
    (hshort : g.Short list) (hline : h.document.lengthOf a < 2 ^ 31)
    (hother : ∀ b, b ≠ a → h.document.textOf b = g.document.textOf b) : h.Short list := by
  intro b hb
  by_cases hba : b = a
  · rw [hba]
    exact hline
  · rw [← hh.length_textOf, hother b hba, hg.length_textOf]
    exact hshort b hb

/-- A character that is echoed at the cursor. -/
theorem write_echoed (hg : g.document.Holds list) (hshort : g.Short list)
    (hmarked : g.Marked echoed) (hutf : charIsUtf8 c) (hc : c ≠ '\n'.toUInt8)
    (hw : g.write c = some h) (hechoes : g.Echoes echoed) :
    h.document.Holds list ∧ h.Short list ∧ h.Marked (echoed ++ [(g.row, g.cursorX)]) ∧
      AgreeOutside (echoed ++ [(g.row, g.cursorX)]) h g := by
  obtain ⟨hh, hx, hy, hor⟩ := write_char hg hutf hc hw
  refine ⟨hh, ?_⟩
  rcases hor with ⟨hnone, hdocument⟩ | ⟨a, haddressed, hlength, hother, htext⟩
  · refine ⟨fun b hb => ?_, onLine_of_none hh (hy ▸ hnone) _, .of_document hdocument⟩
    rw [hdocument]
    exact hshort b hb
  · have hlt := hshort a (List.mem_of_getElem? haddressed)
    obtain ⟨hpos, hint, hgap⟩ := (onLine_of_some hg haddressed _).mp hechoes
    have hmoved : h.cursorX = g.cursorX + 1 := by
      rw [hx, Int.bmod_eq_of_le (by omega) (by omega)]
    have hrow : h.row = g.row := congrArg countdown hy
    refine ⟨short_of_line hg hh hshort (by omega) hother, ?_,
      agreeOutside_of_line hg hh haddressed hother fun i hout => ?_⟩
    · refine (onLine_of_some hh (hy ▸ haddressed) _).mpr fun column hcolumn => ?_
      rw [hrow, List.mem_append, List.mem_singleton, Prod.mk.injEq] at hcolumn
      rw [hlength, hmoved]
      rcases hcolumn with hold | ⟨_, hnew⟩
      · have hmark := (onLine_of_some hg haddressed _).mp hmarked column hold
        omega
      · omega
    · have hne : (i : ℤ) ≠ g.cursorX := fun heq =>
        hout (List.mem_append_right _ (by rw [heq]; exact List.mem_singleton_self _))
      by_cases hi : i < g.document.lengthOf a
      · exact htext i hne hi
      · have hbehind : g.cursorX < i := by
          by_contra hnot
          exact hout (List.mem_append_left _ (hgap i (by omega) (by omega)))
        rw [text_getElem?_eq_none hg (by omega), text_getElem?_eq_none hh (by omega)]

/-- Elsewhere the character leaves a gap behind the end of the line, with a cell that is
not echoed. -/
theorem write_unechoed (hg : g.document.Holds list) (hshort : g.Short list)
    (hutf : charIsUtf8 c) (hc : c ≠ '\n'.toUInt8) (hw : g.write c = some h)
    (hnot : ¬ g.Echoes echoed) :
    ¬ AgreeOutside (echoed ++ [(g.row, g.cursorX)]) h g := by
  obtain ⟨hh, _, _, hor⟩ := write_char hg hutf hc hw
  have hinside : g.Inside (.write c) := (write_isSome_iff hg c).mp (by rw [hw]; rfl)
  rcases hor with ⟨hnone, _⟩ | ⟨a, haddressed, hlength, _, _⟩
  · exact absurd (onLine_of_none hg hnone _) hnot
  · have hlt := hshort a (List.mem_of_getElem? haddressed)
    have hdefined := (onLine_of_some hg haddressed _).mp (hinside hutf hc)
    unfold Echoes at hnot
    rw [onLine_of_some hg haddressed] at hnot
    obtain ⟨column, hend, hbefore, hunechoed⟩ : ∃ column : ℕ,
        g.document.lengthOf a ≤ column ∧ (column : ℤ) < g.cursorX ∧
          (g.row, (column : ℤ)) ∉ echoed := by
      by_contra hall
      push Not at hall
      exact hnot ⟨hdefined.1, by omega, hall⟩
    intro hagree
    have hout : (g.row, (column : ℤ)) ∉ echoed ++ [(g.row, g.cursorX)] := by
      rw [List.mem_append, List.mem_singleton, Prod.mk.injEq]
      rintro (hold | ⟨_, hnew⟩)
      · exact hunechoed hold
      · omega
    have hcell := hagree.cells _ _ hout
    rw [cell_eq hh, cell_eq hg, show list[g.row]? = some a from haddressed, Option.bind_some,
      Option.bind_some, text_getElem?_eq_none hg hend] at hcell
    have hsome := text_getElem?_isSome hh (a := a) (i := column) (by omega)
    rw [hcell] at hsome
    cases hsome

/-- A backspace that takes back an echoed character. -/
theorem backspace_echoed (hg : g.document.Holds list) (hshort : g.Short list)
    (hcolumn : IsInt g.cursorX) (hmarked : g.Marked echoed) (htakes : g.TakesBack echoed) :
    ∃ h, g.backspace = some h ∧ h.document.Holds list ∧ h.Short list ∧ h.Marked echoed ∧
      AgreeOutside echoed h g := by
  unfold IsInt at hcolumn
  have hinside : g.Inside .backspace := by
    intro a ha
    have hmark := hmarked a ha (g.cursorX - 1)
    rcases htakes a ha with hempty | ⟨hend, hechoed⟩
    · exact Or.inl hempty
    · have hpos := (hmark hechoed).1
      right
      rw [Int.bmod_eq_of_le (by omega) (by omega)]
      omega
  obtain ⟨h, hb⟩ := Option.isSome_iff_exists.mp ((exec_isSome_iff hg .backspace).mpr hinside)
  obtain ⟨hh, hx, hy, hor⟩ := backspace_char hg hb
  have hrow : h.row = g.row := congrArg countdown hy
  refine ⟨h, hb, hh, ?_⟩
  rcases hor with ⟨hnone, hdocument⟩ | ⟨a, haddressed, hother, hline⟩
  · refine ⟨fun b hmem => ?_, onLine_of_none hh (hy ▸ hnone) _, .of_document hdocument⟩
    rw [hdocument]
    exact hshort b hmem
  · have hlt := hshort a (List.mem_of_getElem? haddressed)
    have hmark := (onLine_of_some hg haddressed _).mp hmarked
    have htake := (onLine_of_some hg haddressed _).mp htakes
    unfold Marked
    rw [onLine_of_some hh (hy ▸ haddressed), hrow]
    rcases hline with ⟨hempty, htext⟩ | ⟨hpos, hlength, htext⟩
    · have hlength : h.document.lengthOf a = 0 := by
        rw [← hh.length_textOf, htext, hg.length_textOf, hempty]
      refine ⟨short_of_line hg hh hshort (by omega) hother, fun column hechoed => ?_,
        agreeOutside_of_line hg hh haddressed hother fun i _ => by rw [htext]⟩
      have hold := hmark column hechoed
      exact ⟨hold.1, fun _ => Or.inr (by omega)⟩
    · obtain ⟨hend, hlast⟩ := htake.resolve_left (by omega)
      have hmoved : h.cursorX = g.cursorX - 1 := by
        rw [hx, Int.bmod_eq_of_le (by omega) (by omega)]
      refine ⟨short_of_line hg hh hshort (by omega) hother, fun column hechoed => ?_,
        agreeOutside_of_line hg hh haddressed hother fun i hout => ?_⟩
      · have hold := hmark column hechoed
        omega
      · have hne : (i : ℤ) ≠ g.cursorX - 1 := fun heq => hout (by rw [heq]; exact hlast)
        by_cases hi : i < g.document.lengthOf a
        · exact htext i (by rw [← hx]; omega)
        · rw [text_getElem?_eq_none hg (by omega), text_getElem?_eq_none hh (by omega)]

/-- Elsewhere the backspace takes a character that is not echoed. -/
theorem backspace_unechoed (hg : g.document.Holds list) (hcolumn : IsInt g.cursorX)
    (hshort : g.Short list) (hmarked : g.Marked echoed) (hb : g.backspace = some h)
    (hnot : ¬ g.TakesBack echoed) :
    ¬ AgreeOutside echoed h g := by
  obtain ⟨hh, _, _, hor⟩ := backspace_char hg hb
  have hinside : g.RemovesInside ((g.cursorX - 1).bmod (2 ^ 32)) :=
    (exec_isSome_iff hg .backspace).mp (Option.isSome_iff_exists.mpr ⟨h, hb⟩)
  rcases hor with ⟨hnone, _⟩ | ⟨a, haddressed, _, hline⟩
  · exact absurd (onLine_of_none hg hnone _) hnot
  · have hlt := hshort a (List.mem_of_getElem? haddressed)
    have hdefined := (onLine_of_some hg haddressed _).mp hinside
    have hmark := (onLine_of_some hg haddressed _).mp hmarked
    unfold TakesBack at hnot
    rw [onLine_of_some hg haddressed] at hnot
    obtain ⟨hnonempty, hlast⟩ := not_or.mp hnot
    obtain ⟨hpos, hlength, _⟩ := hline.resolve_left fun hempty => hnonempty hempty.1
    intro hagree
    have hout : (g.row, ((g.document.lengthOf a - 1 : ℕ) : ℤ)) ∉ echoed := by
      intro hechoed
      have hleft := hmark _ hechoed
      have hmoved := hdefined.resolve_left hnonempty
      unfold IsInt at hcolumn
      rw [Int.bmod_def] at hmoved
      have hend : (g.document.lengthOf a : ℤ) = g.cursorX := by omega
      refine hlast ⟨hend, ?_⟩
      rw [← hend]
      convert hechoed using 2
      omega
    have hcell := hagree.cells _ _ hout
    rw [cell_eq hh, cell_eq hg, show list[g.row]? = some a from haddressed, Option.bind_some,
      Option.bind_some, text_getElem?_eq_none hh (by omega)] at hcell
    have hsome := text_getElem?_isSome hg (a := a) (i := g.document.lengthOf a - 1) (by omega)
    rw [← hcell] at hsome
    cases hsome

end GuiScreen

end Heartix.Terminal
