import Heartix.Printf.Sinks

/-!
The output of a list of sites, and what the engine does with a format that is
known: the sites of its directives are passed on one after the other.
-/

namespace Heartix.Printf

/-- The characters that the sites pass to the callback. -/
def text (sites : List Site) : List UInt8 := (sites.map Site.chunk).flatten

@[simp] theorem text_nil : text [] = [] := rfl

theorem text_cons (site : Site) (sites : List Site) :
    text (site :: sites) = site.chunk ++ text sites := rfl

@[simp] theorem text_append (l m : List Site) : text (l ++ m) = text l ++ text m := by
  unfold text
  rw [List.map_append, List.flatten_append]

@[simp] theorem text_singleton (chunk : List UInt8) (added : ℤ) : text [⟨chunk, added⟩] = chunk :=
  List.append_nil chunk

@[simp] theorem text_char (c : Char) : text [char c] = [c.toUInt8] := rfl

@[simp] theorem text_repeated (n : ℕ) (c : Char) :
    text (repeated n c) = List.replicate n c.toUInt8 := by
  unfold text repeated
  induction n with
  | zero => rfl
  | succ n ih =>
    rw [List.replicate_succ, List.map_cons, List.flatten_cons, ih, List.replicate_succ]
    rfl

/-- The recording callback takes the text of the sites. -/
theorem emit_record (sites : List Site) (o : Output (List (List UInt8))) :
    ∃ written, emit record sites o =
      (true, ⟨o.sink ++ sites.map Site.chunk, written, o.counts⟩) := by
  induction sites generalizing o with
  | nil => exact ⟨o.written, by rw [List.map_nil, List.append_nil]; rfl⟩
  | cons site sites ih =>
    obtain ⟨written, hrest⟩ := ih { o with
      sink := o.sink ++ [site.chunk]
      written := (o.written + site.added).bmod (2 ^ 32) }
    refine ⟨written, ?_⟩
    rw [emit_record_cons, hrest, List.map_cons, List.append_assoc]
    rfl

variable {strings : BitVec 64 → List UInt8} {s t : List UInt8} {args args' : VaList}
  {sites : List Site}

/-- One round of the engine. -/
theorem vcbprintfLoop_sites (fuel : ℕ) (o : Output (List (List UInt8)))
    (hdirective : directive strings s args = (.sites sites, t, args')) :
    ∃ written, vcbprintfLoop record strings (fuel + 1) s args o =
      match step t with
      | none => some (written, ⟨o.sink ++ sites.map Site.chunk, written, o.counts⟩)
      | some t => vcbprintfLoop record strings fuel t args'
          ⟨o.sink ++ sites.map Site.chunk, written, o.counts⟩ := by
  obtain ⟨written, hemit⟩ := emit_record sites o
  refine ⟨written, ?_⟩
  cases hstep : step t with
  | none => simp only [vcbprintfLoop, hdirective, hemit, hstep]
  | some u => simp only [vcbprintfLoop, hdirective, hemit, hstep]

/-- A format that is one directive. -/
theorem vcbprintf_single {last : UInt8}
    (hdirective : directive strings s args = (.sites sites, [last], args')) :
    ∃ o, vcbprintf record [] strings s args = some (o.written, o) ∧
      o.sink.flatten = text sites := by
  obtain ⟨written, hround⟩ := vcbprintfLoop_sites s.length (.start []) hdirective
  exact ⟨⟨sites.map Site.chunk, written, []⟩, hround, rfl⟩

/-- `%s` without flags, width and precision. -/
def plainString : Spec := ⟨noFlags, 0, 6, false, .default, 's'⟩

theorem text_plainString {value : List UInt8} (hlength : value.length < 2 ^ 31) :
    text (stringSites plainString value) = value := by
  have hwidth : sizeT (if sizeT 0 < value.length then (value.length : ℤ).bmod (2 ^ 32) else 0) =
      value.length := by
    split
    · rw [Int.bmod_eq_of_le (by omega) (by omega)]
      unfold sizeT
      omega
    · unfold sizeT at *
      omega
  have hpadding : rounds (sizeT ((value.length : ℤ) - value.length)) = 0 := by
    rw [Int.sub_self]
    rfl
  unfold stringSites plainString
  dsimp only
  rw [hwidth, hpadding]
  simp [noFlags, repeated]

/-- The block that is long enough for the output holds it with its NUL. -/
theorem map_stored (memory : Memory) (output : List UInt8) :
    (List.range (output.length + 1)).map (stored memory (output.length + 1) output) =
      output ++ [0] := by
  apply List.ext_getElem
  · rw [List.length_map, List.length_range, List.length_append, List.length_singleton]
  · intro i hi _
    rw [List.length_map, List.length_range] at hi
    have hlt : i < (output ++ [0]).length := by
      rw [List.length_append, List.length_singleton]
      exact hi
    rw [List.getElem_map, List.getElem_range]
    unfold stored Memory.store
    rw [if_neg (Nat.succ_ne_zero _), if_pos (Nat.zero_le i), Nat.sub_zero, Nat.add_sub_cancel,
      List.take_length, List.getElem?_eq_getElem hlt]
    rfl

/-- A larger block begins with the same bytes. -/
theorem map_stored_of_lt (memory : Memory) {n : ℕ} {output : List UInt8} (hn : output.length < n) :
    (List.range (output.length + 1)).map (stored memory n output) = output ++ [0] := by
  have hwhole : stored memory n output = stored memory (output.length + 1) output := by
    unfold stored
    rw [if_neg (by omega), if_neg (Nat.succ_ne_zero _), List.take_of_length_le (by omega),
      Nat.add_sub_cancel, List.take_length]
  rw [hwhole, map_stored]

end Heartix.Printf
