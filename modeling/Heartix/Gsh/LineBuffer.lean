import Heartix.Gsh.LineEditor
import Heartix.Lib.Separator
import Heartix.Lib.Zipper

/-!
The line and the caret of the shell's input, without what is printed. `at` and
`substr` throw beyond the end of the line, and a key that throws has no result.
The reference is an editor on a zipper, in which the caret is the place.
-/

namespace Heartix.Gsh

open Editing Separator Terminal

/-- `line.at(pos)`. -/
def charAt (pos : ℤ) (text : List UInt8) : Option UInt8 :=
  if 0 ≤ pos then text[pos.toNat]? else none

/-- `line.substr(pos)`. A negative position is a large one as `size_t`. -/
def substrFrom (pos : ℤ) (line : List UInt8) : Option (List UInt8) :=
  if 0 ≤ pos ∧ pos ≤ line.length then some (line.drop pos.toNat) else none

/-- `line.substr(0, count)`, the whole line for a negative count. -/
def substrTo (count : ℤ) (line : List UInt8) : List UInt8 :=
  if 0 ≤ count then line.take count.toNat else line

/-- The variables of the loop, and what the function has returned. -/
structure LineBuffer where
  line : List UInt8
  caret : ℤ
  returned : Option Bool
  deriving DecidableEq

namespace LineBuffer

def backspace (b : LineBuffer) : Option LineBuffer :=
  if b.line.length > 0 ∧ b.caret > 0 then do
    let _deleted ← charAt (b.caret - 1) b.line
    let afterCaret ← substrFrom b.caret b.line
    some { b with
      line := substrTo (b.caret - 1) b.line ++ afterCaret
      caret := b.caret - 1 }
  else some b

def notBlank (c : UInt8) : Bool := c ≠ ' '.toUInt8

def complete (files : Files) (b : LineBuffer) : Option LineBuffer := do
  let beforeCaret := substrTo b.caret b.line
  let afterCaret ← substrFrom b.caret b.line
  let toComplete := beforeCaret.rtakeWhile notBlank
  match gshAutocomplete files toComplete with
  | [completion] =>
      let caret := b.caret - toComplete.length
      some { b with
        line := substrTo caret b.line ++ completion ++ afterCaret
        caret := caret + completion.length }
  | _ => some b

def left (b : LineBuffer) : Option LineBuffer :=
  if b.caret > 0 then do
    let _beforeCaret ← charAt (b.caret - 1) b.line
    some { b with caret := b.caret - 1 }
  else some b

def right (b : LineBuffer) : Option LineBuffer :=
  if 0 ≤ b.caret ∧ b.caret < b.line.length then do
    let _atCaret ← charAt b.caret b.line
    some { b with caret := b.caret + 1 }
  else some b

def insert (c : UInt8) (b : LineBuffer) : Option LineBuffer := do
  let afterCaret ← substrFrom b.caret b.line
  some { b with
    line := substrTo b.caret b.line ++ c :: afterCaret
    caret := b.caret + 1 }

/-- The body of the loop for a key. -/
def handle (files : Files) (c : ℤ) (b : LineBuffer) : Option LineBuffer :=
  if c = -1 then some { b with returned := some false }
  else if c = G_TERMKEY_BACKSPACE then b.backspace
  else if c = 9 ∨ c = G_TERMKEY_STAB then b.complete files
  else if c = G_TERMKEY_ENTER then some { b with returned := some true }
  else if c = G_TERMKEY_LEFT then b.left
  else if c = G_TERMKEY_RIGHT then b.right
  else if c < 0x100 then b.insert (UInt8.ofInt c)
  else some b

/-- One round of the loop, with the files as they are then. -/
def exec (b : LineBuffer) (key : ℤ × Files) : Option LineBuffer :=
  if b.returned.isSome then some b else b.handle key.2 key.1

end LineBuffer

/-- The line and the caret after some keys. -/
def readInputLine (line : List UInt8) (keys : List (ℤ × Files)) : Option LineBuffer :=
  keys.foldlM LineBuffer.exec ⟨line, 0, none⟩

section Reference

/-- What a text is completed to, if that is unique. -/
def uniqueCompletion (files : Files) (text : List UInt8) : Option (List UInt8) :=
  match gshAutocomplete files text with
  | [completion] => some completion
  | _ => none

/-- The reference editor. -/
structure Editor where
  zipper : Zipper UInt8
  returned : Option Bool

namespace Editor

/-- The effect of a key, where the word before the caret has the given completion. -/
def key (completion : Option (List UInt8)) (c : ℤ) (e : Editor) : Editor :=
  if c = -1 then { e with returned := some false }
  else if c = G_TERMKEY_BACKSPACE then { e with zipper := e.zipper.delete }
  else if c = 9 ∨ c = G_TERMKEY_STAB then
    match completion with
    | none => e
    | some w => { e with zipper := e.zipper.replaceWord LineBuffer.notBlank w }
  else if c = G_TERMKEY_ENTER then { e with returned := some true }
  else if c = G_TERMKEY_LEFT then { e with zipper := e.zipper.left }
  else if c = G_TERMKEY_RIGHT then { e with zipper := e.zipper.right }
  else if c < 0x100 then { e with zipper := e.zipper.insert (UInt8.ofInt c) }
  else e

def exec (e : Editor) (key : ℤ × Files) : Editor :=
  if e.returned.isSome then e
  else e.key (uniqueCompletion key.2 (e.zipper.word LineBuffer.notBlank)) key.1

/-- The editor after some keys, from the start of a line. -/
def run (line : List UInt8) (keys : List (ℤ × Files)) : Editor :=
  keys.foldl exec ⟨.ofList line, none⟩

/-- The line and the caret that the reference has. -/
def buffer (e : Editor) : LineBuffer where
  line := e.zipper.toList
  caret := e.zipper.position
  returned := e.returned

end Editor

end Reference

section Substrings

variable {z : Zipper UInt8} {a : UInt8} {l : List UInt8}

theorem substrFrom_position (z : Zipper UInt8) :
    substrFrom z.position z.toList = some z.after := by
  have hle : (z.position : ℤ) ≤ z.toList.length := by
    rw [z.length_toList]
    omega
  rw [substrFrom, if_pos ⟨Int.natCast_nonneg _, hle⟩, Int.toNat_natCast, z.drop_position]

theorem substrTo_natCast (n : ℕ) (line : List UInt8) : substrTo n line = line.take n := by
  rw [substrTo, if_pos (Int.natCast_nonneg n), Int.toNat_natCast]

theorem charAt_natCast (n : ℕ) (text : List UInt8) : charAt n text = text[n]? := by
  rw [charAt, if_pos (Int.natCast_nonneg n), Int.toNat_natCast]

/-- What the guard of a step to the left gives. -/
theorem pred_position (h : z.before = a :: l) :
    0 < z.position ∧ (z.position : ℤ) - 1 = (z.position - 1 : ℕ) := by
  have hpos : z.position = l.length + 1 := by
    rw [Zipper.position, h, List.length_cons]
  omega

theorem position_of_nil (h : z.before = []) : z.position = 0 := by
  rw [Zipper.position, h, List.length_nil]

end Substrings

namespace Editor

variable {e : Editor} {files : Files}

theorem backspace_buffer (e : Editor) :
    e.buffer.backspace = some { e with zipper := e.zipper.delete }.buffer := by
  obtain ⟨z, returned⟩ := e
  have hrest := substrFrom_position z
  have hlen := z.length_toList
  unfold LineBuffer.backspace buffer
  dsimp only
  cases hbefore : z.before with
  | nil =>
    have hpos := position_of_nil hbefore
    have hsame : z.delete = z := by
      rw [Zipper.delete, hbefore, List.tail_nil, ← hbefore]
    rw [if_neg (by omega), hsame]
  | cons a before =>
    obtain ⟨hpos, hpred⟩ := pred_position hbefore
    obtain ⟨htake, hget⟩ := Zipper.take_pred_position hbefore
    have hdelete : z.delete = ⟨before, z.after⟩ := by
      rw [Zipper.delete, hbefore, List.tail_cons]
    rw [if_pos ⟨by omega, by omega⟩, hpred, charAt_natCast, hget, hrest, substrTo_natCast, htake,
      hdelete]
    have hcaret : z.position - 1 = before.length := by
      rw [Zipper.position, hbefore, List.length_cons, Nat.add_sub_cancel]
    rw [hcaret]
    rfl

theorem complete_buffer (e : Editor) (files : Files) :
    e.buffer.complete files =
      some (match uniqueCompletion files (e.zipper.word LineBuffer.notBlank) with
        | none => e
        | some w => { e with zipper := e.zipper.replaceWord LineBuffer.notBlank w }).buffer := by
  obtain ⟨z, returned⟩ := e
  have hrest := substrFrom_position z
  have hword := Zipper.word_eq (z := z) (p := LineBuffer.notBlank)
  have hle := Zipper.length_word_le (z := z) (p := LineBuffer.notBlank)
  unfold LineBuffer.complete buffer uniqueCompletion
  dsimp only
  rw [hrest, substrTo_natCast, ← hword]
  cases hcompletions : gshAutocomplete files (z.word LineBuffer.notBlank) with
  | nil => rfl
  | cons completion others =>
    cases others with
    | nil =>
      have hcaret : (z.position : ℤ) - (z.word LineBuffer.notBlank).length =
          (z.position - (z.word LineBuffer.notBlank).length : ℕ) := by
        omega
      have hposition := Zipper.position_replaceWord (z := z) (p := LineBuffer.notBlank)
        (w := completion)
      simp only [hcaret, substrTo_natCast]
      rw [Option.bind_eq_bind, Option.bind_some, Zipper.toList_replaceWord, hposition]
      congr 2
    | cons _ _ => rfl

theorem left_buffer (e : Editor) :
    e.buffer.left = some { e with zipper := e.zipper.left }.buffer := by
  obtain ⟨⟨before, after⟩, returned⟩ := e
  unfold LineBuffer.left buffer
  dsimp only
  rw [Zipper.toList_left]
  cases before with
  | nil => rfl
  | cons a before =>
    obtain ⟨hpos, hpred⟩ := pred_position (z := ⟨a :: before, after⟩) rfl
    obtain ⟨_, hget⟩ := Zipper.take_pred_position (z := ⟨a :: before, after⟩) rfl
    rw [if_pos (by omega), hpred, charAt_natCast, hget]
    rfl

theorem right_buffer (e : Editor) :
    e.buffer.right = some { e with zipper := e.zipper.right }.buffer := by
  obtain ⟨⟨before, after⟩, returned⟩ := e
  have hlen := Zipper.length_toList ⟨before, after⟩
  unfold LineBuffer.right buffer
  dsimp only at hlen ⊢
  rw [Zipper.toList_right]
  cases after with
  | nil =>
    rw [List.length_nil] at hlen
    rw [if_neg (by omega)]
    rfl
  | cons a after =>
    have hget := Zipper.getElem?_position (z := ⟨before, a :: after⟩) rfl
    rw [List.length_cons] at hlen
    rw [if_pos (by omega), charAt_natCast, hget]
    rfl

theorem insert_buffer (e : Editor) (c : UInt8) :
    e.buffer.insert c = some { e with zipper := e.zipper.insert c }.buffer := by
  have hrest := substrFrom_position e.zipper
  unfold LineBuffer.insert buffer
  dsimp only
  rw [hrest, substrTo_natCast, Zipper.take_position, Zipper.toList_insert]
  rfl

/-- Each key has the effect on the line and the caret that it has on the zipper. -/
theorem handle_buffer (e : Editor) (files : Files) (c : ℤ) :
    e.buffer.handle files c =
      some (e.key (uniqueCompletion files (e.zipper.word LineBuffer.notBlank)) c).buffer := by
  unfold LineBuffer.handle key
  split
  · rfl
  split
  · exact e.backspace_buffer
  split
  · rw [complete_buffer]
  split
  · rfl
  split
  · exact e.left_buffer
  split
  · exact e.right_buffer
  split
  · exact e.insert_buffer _
  · rfl

theorem exec_buffer (e : Editor) (key : ℤ × Files) :
    e.buffer.exec key = some (e.exec key).buffer := by
  unfold LineBuffer.exec exec
  split
  · next h => rw [if_pos (show e.returned.isSome = true from h)]
  · next h =>
    rw [if_neg (show ¬ e.returned.isSome = true from h)]
    exact e.handle_buffer key.2 key.1

theorem foldlM_buffer (keys : List (ℤ × Files)) (e : Editor) :
    keys.foldlM LineBuffer.exec e.buffer = some (keys.foldl exec e).buffer := by
  induction keys generalizing e with
  | nil => rfl
  | cons key keys ih =>
    rw [List.foldlM_cons, exec_buffer, List.foldl_cons]
    exact ih (e.exec key)

end Editor

section Completion

variable {files : Files} {text completion : List UInt8}

end Completion

section Sessions

variable {s t : Session} {files : Files} {typed : List Key} {c : ℤ}

/-- The line, the caret and the end of the loop are the same. -/
def SameInput (s t : Session) : Prop :=
  t.line = s.line ∧ t.caret = s.caret ∧ t.finished = s.finished

theorem SameInput.trans {u : Session} (h : SameInput s t) (h' : SameInput t u) : SameInput s u :=
  ⟨h'.1.trans h.1, h'.2.1.trans h.2.1, h'.2.2.trans h.2.2⟩

theorem sameInput_print {bytes : List UInt8} (h : s.print bytes = some t) : SameInput s t := by
  obtain ⟨⟨status, server⟩, _, rfl⟩ := Option.map_eq_some_iff.mp h
  exact ⟨rfl, rfl, rfl⟩

theorem sameInput_command {op : Operation} (h : s.command op = some t) : SameInput s t :=
  sameInput_print h

theorem sameInput_getCursor {pos : ℤ × ℤ} (h : s.getCursor typed = some (pos, t)) :
    SameInput s t := by
  unfold Session.getCursor at h
  split at h
  · cases h
  · next u hu =>
    obtain ⟨⟨pos', client⟩, _, heq⟩ := Option.map_eq_some_iff.mp h
    cases heq
    obtain ⟨hline, hcaret, hfinished⟩ := sameInput_print hu
    exact ⟨hline, hcaret, hfinished⟩

theorem sameInput_removes {n : ℕ} (h : s.removes n = some t) : SameInput s t := by
  induction n generalizing s with
  | zero =>
    cases h
    exact ⟨rfl, rfl, rfl⟩
  | succ n ih =>
    unfold Session.removes at h
    split at h
    · cases h
    · next u hu => exact (sameInput_command hu).trans (ih h)

/-- The line buffer of a session whose loop goes on. -/
def Session.buffer (s : Session) : LineBuffer := ⟨s.line, s.caret, none⟩

theorem substrFrom_natCast {n : ℕ} {line : List UInt8} (h : n ≤ line.length) :
    substrFrom n line = some (line.drop n) := by
  rw [substrFrom, if_pos ⟨Int.natCast_nonneg n, by omega⟩, Int.toNat_natCast]

theorem charAt_of_lt {n : ℕ} {text : List UInt8} (h : n < text.length) :
    ∃ c, charAt n text = some c :=
  ⟨text[n], by rw [charAt_natCast, List.getElem?_eq_getElem h]⟩

theorem backspace_session (hcaret : s.caret ≤ s.line.length) (h : s.backspace typed = some t) :
    s.buffer.backspace = some ⟨t.line, t.caret, none⟩ ∧ t.finished = s.finished := by
  unfold Session.backspace at h
  unfold Session.buffer LineBuffer.backspace
  dsimp only
  split at h
  · next hguard =>
    simp only [Option.bind_eq_bind, Option.bind_eq_some_iff] at h
    obtain ⟨⟨pos, s₁⟩, h₁, s₂, h₂, s₃, h₃, s₄, h₄, h₅⟩ := h
    obtain ⟨hline, hcaret', hfinished⟩ := (((sameInput_command h₂).trans (sameInput_print h₃)).trans
      (sameInput_removes h₄)).trans (sameInput_command h₅)
    have hpred : (s.caret : ℤ) - 1 = (s.caret - 1 : ℕ) := by omega
    obtain ⟨c, hc⟩ := charAt_of_lt (show s.caret - 1 < s.line.length by omega)
    have hfirst := sameInput_getCursor h₁
    rw [if_pos ⟨by omega, by omega⟩, hpred, hc, substrFrom_natCast hcaret, substrTo_natCast, hline,
      hcaret']
    dsimp only
    rw [hfirst.1, hfirst.2.1]
    exact ⟨rfl, hfinished.trans hfirst.2.2⟩
  · next hguard =>
    cases h
    rw [if_neg (by omega)]
    exact ⟨rfl, rfl⟩

theorem complete_session (hcaret : s.caret ≤ s.line.length)
    (h : s.complete files typed = some t) :
    s.buffer.complete files = some ⟨t.line, t.caret, none⟩ ∧ t.finished = s.finished := by
  unfold Session.complete at h
  unfold Session.buffer LineBuffer.complete
  dsimp only
  rw [substrFrom_natCast hcaret, substrTo_natCast]
  have hword : (s.line.take s.caret).rtakeWhile LineBuffer.notBlank = s.toComplete := rfl
  rw [Option.bind_eq_bind, Option.bind_some, hword]
  have hle : s.toComplete.length ≤ s.caret := by
    refine (List.rtakeWhile_suffix _ _).length_le.trans ?_
    rw [List.length_take]
    omega
  rcases hfound : gshAutocomplete files s.toComplete with _ | ⟨completion, _ | ⟨second, rest⟩⟩
  · rw [hfound] at h
    cases h
    exact ⟨rfl, rfl⟩
  · rw [hfound] at h
    simp only [Option.bind_eq_bind, Option.bind_eq_some_iff] at h
    obtain ⟨s₁, h₁, ⟨pos, s₂⟩, h₂, s₃, h₃, h₄⟩ := h
    have hfirst := (sameInput_command h₁).trans (sameInput_getCursor h₂)
    obtain ⟨hline, hcaret', hfinished⟩ := (sameInput_print h₃).trans (sameInput_command h₄)
    have hstart : (s.caret : ℤ) - s.toComplete.length = (s.caret - s.toComplete.length : ℕ) := by
      omega
    rw [hline, hcaret']
    dsimp only
    rw [hstart, substrTo_natCast, hfirst.1]
    exact ⟨rfl, hfinished.trans hfirst.2.2⟩
  · rw [hfound] at h
    cases h
    exact ⟨rfl, rfl⟩

theorem left_session (hcaret : s.caret ≤ s.line.length) (h : s.left = some t) :
    s.buffer.left = some ⟨t.line, t.caret, none⟩ ∧ t.finished = s.finished := by
  unfold Session.left at h
  unfold Session.buffer LineBuffer.left
  dsimp only
  split at h
  · next hpos =>
    obtain ⟨hline, hcaret', hfinished⟩ := sameInput_command h
    have hpred : (s.caret : ℤ) - 1 = (s.caret - 1 : ℕ) := by omega
    obtain ⟨c, hc⟩ := charAt_of_lt (show s.caret - 1 < s.line.length by omega)
    rw [if_pos (by omega), hpred, hc, hline, hcaret']
    exact ⟨rfl, hfinished⟩
  · next hzero =>
    cases h
    rw [if_neg (by omega)]
    exact ⟨rfl, rfl⟩

theorem right_session (h : s.right = some t) :
    s.buffer.right = some ⟨t.line, t.caret, none⟩ ∧ t.finished = s.finished := by
  unfold Session.right at h
  unfold Session.buffer LineBuffer.right
  dsimp only
  split at h
  · next hlt =>
    obtain ⟨hline, hcaret', hfinished⟩ := sameInput_command h
    obtain ⟨c, hc⟩ := charAt_of_lt hlt
    rw [if_pos (by omega), hc, hline, hcaret']
    exact ⟨rfl, hfinished⟩
  · next hend =>
    cases h
    rw [if_neg (by omega)]
    exact ⟨rfl, rfl⟩

theorem insert_session (hcaret : s.caret ≤ s.line.length) {c : UInt8}
    (h : s.insert c typed = some t) :
    s.buffer.insert c = some ⟨t.line, t.caret, none⟩ ∧ t.finished = s.finished := by
  unfold Session.insert at h
  unfold Session.buffer LineBuffer.insert
  dsimp only
  simp only [Option.bind_eq_bind, Option.bind_eq_some_iff] at h
  obtain ⟨⟨pos, s₁⟩, h₁, s₂, h₂, s₃, h₃, s₄, h₄, h₅⟩ := h
  have hfirst := (sameInput_getCursor h₁).trans (sameInput_print h₂)
  obtain ⟨hline, hcaret', hfinished⟩ :=
    ((sameInput_command h₃).trans (sameInput_print h₄)).trans (sameInput_command h₅)
  rw [substrFrom_natCast hcaret, substrTo_natCast, hline, hcaret']
  dsimp only
  rw [hfirst.1, hfirst.2.1]
  exact ⟨rfl, hfinished.trans hfirst.2.2⟩

/-- The session changes line and caret as the line buffer does. -/
theorem handle_session (hcaret : s.caret ≤ s.line.length) (hrunning : s.finished = false)
    (h : s.handle files c typed = some t) :
    ∃ b, s.buffer.handle files c = some b ∧ b.line = t.line ∧ b.caret = t.caret ∧
      b.returned.isSome = t.finished := by
  have hgoes {b : Option LineBuffer}
      (hb : b = some ⟨t.line, t.caret, none⟩ ∧ t.finished = s.finished) :
      ∃ b', b = some b' ∧ b'.line = t.line ∧ b'.caret = t.caret ∧
        b'.returned.isSome = t.finished :=
    ⟨_, hb.1, rfl, rfl, (hb.2.trans hrunning).symm⟩
  unfold Session.handle at h
  unfold LineBuffer.handle
  split at h
  · cases h
    rw [if_pos ‹_›]
    exact ⟨_, rfl, rfl, rfl, rfl⟩
  rw [if_neg ‹_›]
  split at h
  · rw [if_pos ‹_›]
    exact hgoes (backspace_session hcaret h)
  rw [if_neg ‹_›]
  split at h
  · rw [if_pos ‹_›]
    exact hgoes (complete_session hcaret h)
  rw [if_neg ‹_›]
  split at h
  · obtain ⟨u, hu, rfl⟩ := Option.map_eq_some_iff.mp h
    obtain ⟨hline, hcaret', _⟩ := sameInput_print hu
    rw [if_pos ‹_›]
    refine ⟨_, rfl, hline.symm, ?_, rfl⟩
    exact congrArg Nat.cast hcaret'.symm
  rw [if_neg ‹_›]
  split at h
  · rw [if_pos ‹_›]
    exact hgoes (left_session hcaret h)
  rw [if_neg ‹_›]
  split at h
  · rw [if_pos ‹_›]
    exact hgoes (right_session h)
  rw [if_neg ‹_›]
  split at h
  · rw [if_pos ‹_›]
    exact hgoes (insert_session hcaret h)
  · rw [if_neg ‹_›]
    cases h
    exact hgoes ⟨rfl, rfl⟩

end Sessions

end Heartix.Gsh
