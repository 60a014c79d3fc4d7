import Heartix.Stdio.Reading

/-!
`fgets`. The function is written for lines, but its loop never looks at the
characters, and the pointer it returns is always the one passed to it. What a
call is to store is stated on the list of the bytes still to come.
-/

namespace Heartix.Stdio

variable {W : Type}

/-- The loop of `fgets`, with the number of characters that still fit. It returns
what it has stored. -/
def fgetsLoop (K : Kernel W) : ℕ → List UInt8 → State W → Option (List UInt8 × State W)
  | 0, stored, s => some (stored, s)
  | n + 1, stored, s =>
      match fgetcUnlocked K s with
      | none => none
      | some (c, s) =>
          if c = EOF then some (stored, s) else fgetsLoop K n (stored ++ [toByte c]) s

/-- What `fgets` returns, `true` being the pointer passed and `false` NULL, and
what it stores. -/
structure GotLine where
  returned : Bool
  stored : List UInt8
  deriving DecidableEq, Repr

/-- `fgets`, for a positive size. -/
def fgets (K : Kernel W) (n : ℕ) (s : State W) : Option (GotLine × State W) :=
  match n with
  | 0 => none
  | n + 1 => (fgetsLoop K n [] s).map fun (stored, s) => (⟨true, stored ++ [0]⟩, s)

section Specification

/-- The bytes up to the first newline, which is one of them. -/
def toNewline : List UInt8 → List UInt8
  | [] => []
  | b :: source => if b = newline then [b] else b :: toNewline source

/-- The line a call has to deliver. -/
def lineOf (n : ℕ) (source : List UInt8) : List UInt8 := toNewline (source.take (n - 1))

/-- All the bytes are one line if there is no newline before the last of them. -/
theorem toNewline_eq_self_iff {source : List UInt8} :
    toNewline source = source ↔ newline ∉ source.dropLast := by
  induction source with
  | nil => simp [toNewline]
  | cons b source ih =>
    rcases source with _ | ⟨c, source⟩
    · by_cases hb : b = newline
      · simp [toNewline, hb]
      · simp [toNewline, hb]
    · have hdrop : (b :: c :: source).dropLast = b :: (c :: source).dropLast := rfl
      rw [hdrop, List.mem_cons, not_or, ← ih, toNewline]
      by_cases hb : b = newline
      · rw [if_pos hb]
        refine iff_of_false ?_ fun h => h.1 hb.symm
        exact fun h => absurd (List.cons.inj h).2 (List.cons_ne_nil c source).symm
      · rw [if_neg hb, List.cons.injEq, and_iff_right rfl]
        exact (and_iff_right fun h => hb h.symm).symm

theorem drop_lineOf {n : ℕ} {source : List UInt8} (h : lineOf n source = source.take (n - 1)) :
    source.drop (lineOf n source).length = source.drop (n - 1) := by
  rw [h, List.length_take]
  rcases Nat.le_total (n - 1) source.length with hle | hge
  · rw [Nat.min_eq_left hle]
  · rw [Nat.min_eq_right hge, List.drop_length, List.drop_eq_nil_of_le hge]

/-- What a call has to return and to store. -/
def lineResult (n : ℕ) (source : List UInt8) : GotLine :=
  ⟨!(lineOf n source).isEmpty, lineOf n source ++ [0]⟩

end Specification

section Streams

variable {K : Kernel W} {fd : ℤ} {S : ByteSource K fd} {s t : State W} {source source' : List UInt8}

/-- A stream still to read these bytes: with a buffer, without one, or one that gets
its default buffer at the first call. -/
def Presents (S : ByteSource K fd) (s : State W) (source : List UInt8) : Prop :=
  FromBuffer S s source ∨ Direct S s source ∨
    (s.stream.flagBufferSet = false ∧ ∃ t, ensureBuffer K s = (0, t) ∧ FromBuffer S t source)

/-- A stream does not present two different lists. -/
theorem Presents.unique (h : Presents S s source) (h' : Presents S s source') :
    source = source' := by
  rcases h with hbuf | hdir | ⟨hunset, t, hensure, hbuf⟩
  · rcases h' with hbuf' | hdir' | ⟨hunset', _⟩
    · rw [← hbuf.source_eq, ← hbuf'.source_eq]
    · exact absurd hdir'.unbuffered.2 (hbuf.sound.buffered hbuf.set).1
    · exact absurd (hbuf.set.symm.trans hunset') (by decide)
  · rcases h' with hbuf' | hdir' | ⟨hunset', _⟩
    · exact absurd hdir.unbuffered.2 (hbuf'.sound.buffered hbuf'.set).1
    · rw [← hdir.source_eq, ← hdir'.source_eq]
    · exact absurd (hdir.unbuffered.1.symm.trans hunset') (by decide)
  · rcases h' with hbuf' | hdir' | ⟨_, t', hensure', hbuf'⟩
    · exact absurd (hbuf'.set.symm.trans hunset) (by decide)
    · exact absurd (hdir'.unbuffered.1.symm.trans hunset) (by decide)
    · obtain ⟨-, rfl⟩ := Prod.mk.inj (hensure.symm.trans hensure')
      rw [← hbuf.source_eq, ← hbuf'.source_eq]

/-- `fgetc` on a stream without a buffer is `fgetc` on the stream with its new one. -/
theorem fgetcUnlocked_ensure (hensure : ensureBuffer K s = (0, t))
    (hset : t.stream.flagBufferSet = true) : fgetcUnlocked K s = fgetcUnlocked K t := by
  have hsame : ensureBuffer K t = (0, t) := if_pos hset
  unfold fgetcUnlocked
  rw [hensure, hsame]

theorem Presents.fgetc (h : Presents S s source) :
    ∃ t, fgetcUnlocked K s = some ((nextByte source).1, t) ∧ Presents S t (nextByte source).2 := by
  rcases h with hbuf | hdir | ⟨_, t, hensure, hbuf⟩
  · obtain ⟨t, hgetc, ht⟩ := hbuf.fgetc
    exact ⟨t, hgetc, Or.inl ht⟩
  · obtain ⟨ret, t, hexec, hret, ht⟩ := hdir.exec (show Op.Reads .fgetc from trivial)
    rw [Op.exec, Option.map_eq_some_iff] at hexec
    obtain ⟨⟨c, u⟩, hgetc, heq⟩ := hexec
    obtain ⟨hvalue, rfl⟩ := Prod.mk.inj heq
    rw [hret] at hvalue
    have hc : c = (nextByte source).1 := congrArg Ret.value hvalue
    rw [hc] at hgetc
    exact ⟨u, hgetc, Or.inr (Or.inl ht)⟩
  · obtain ⟨u, hgetc, hu⟩ := hbuf.fgetc
    rw [← fgetcUnlocked_ensure hensure hbuf.set] at hgetc
    exact ⟨u, hgetc, Or.inl hu⟩

/-- The loop takes what fits, whatever the characters are. -/
theorem Presents.fgetsLoop (h : Presents S s source) (n : ℕ) (stored : List UInt8) :
    ∃ t, fgetsLoop K n stored s = some (stored ++ source.take n, t) ∧
      Presents S t (source.drop n) := by
  induction n generalizing s source stored with
  | zero => exact ⟨s, by rw [List.take_zero, List.append_nil]; rfl, h⟩
  | succ n ih =>
    obtain ⟨t, hgetc, ht⟩ := h.fgetc
    unfold Stdio.fgetsLoop
    simp only [hgetc]
    cases source with
    | nil =>
      refine ⟨t, ?_, ht⟩
      simp [nextByte]
    | cons b source =>
      obtain ⟨u, hloop, hu⟩ := ih ht (stored ++ [b])
      refine ⟨u, ?_, hu⟩
      simp only [nextByte, toNat_ne_EOF, if_false, toByte_toNat]
      rw [hloop, List.append_assoc]
      rfl

theorem Presents.fgets (h : Presents S s source) {n : ℕ} (hn : 2 ≤ n) :
    ∃ t, fgets K n s = some (⟨true, source.take (n - 1) ++ [0]⟩, t) ∧
      Presents S t (source.drop (n - 1)) := by
  obtain ⟨m, rfl⟩ : ∃ m, n = m + 1 := ⟨n - 1, by omega⟩
  obtain ⟨t, hloop, ht⟩ := h.fgetsLoop m []
  refine ⟨t, ?_, ht⟩
  rw [Stdio.fgets, hloop]
  rfl

/-- Calls one after the other deliver the lines and take no more than these. -/
def ReadsLines (S : ByteSource K fd) : List ℕ → State W → List UInt8 → Prop
  | [], _, _ => True
  | n :: sizes, s, source =>
      ∃ t, fgets K n s = some (lineResult n source, t) ∧
        Presents S t (source.drop (lineOf n source).length) ∧
        ReadsLines S sizes t (source.drop (lineOf n source).length)

/-- Each call is made before the end, and there is no newline among the bytes that
fit, but for the last of them. -/
def NoNewlineInside : List ℕ → List UInt8 → Prop
  | [], _ => True
  | n :: sizes, source =>
      source ≠ [] ∧ newline ∉ (source.take (n - 1)).dropLast ∧
        NoNewlineInside sizes (source.drop (n - 1))

/-- One call delivers the line where it is right to ignore what the bytes are. -/
theorem Presents.fgets_line_iff (h : Presents S s source) {n : ℕ} (hn : 2 ≤ n) :
    (∃ t, Stdio.fgets K n s = some (lineResult n source, t) ∧
      Presents S t (source.drop (lineOf n source).length)) ↔
      source ≠ [] ∧ newline ∉ (source.take (n - 1)).dropLast := by
  obtain ⟨t, hgets, ht⟩ := h.fgets hn
  have hnil : source.take (n - 1) = [] ↔ source = [] := by
    rw [List.take_eq_nil_iff]
    exact or_iff_right (by omega)
  constructor
  · rintro ⟨u, hline, _⟩
    rw [hgets, Option.some.injEq, Prod.mk.injEq, lineResult, GotLine.mk.injEq] at hline
    obtain ⟨⟨hreturned, hstored⟩, _⟩ := hline
    have hsame : lineOf n source = source.take (n - 1) := (List.append_cancel_right hstored).symm
    refine ⟨?_, toNewline_eq_self_iff.1 hsame⟩
    rintro rfl
    rw [hsame, List.take_nil] at hreturned
    exact absurd hreturned (by decide)
  · rintro ⟨hne, hnewline⟩
    have hsame : lineOf n source = source.take (n - 1) := toNewline_eq_self_iff.2 hnewline
    refine ⟨t, ?_, ?_⟩
    · rw [hgets, lineResult, hsame]
      have hempty : (source.take (n - 1)).isEmpty = false :=
        List.isEmpty_eq_false_iff.2 (mt hnil.1 hne)
      rw [hempty]
      rfl
    · rw [drop_lineOf hsame]
      exact ht

/-- `fgets` reads lines where every call is made before the end and meets no newline
before the last byte that fits. -/
theorem fgets_reads_lines_iff (h : Presents S s source) {sizes : List ℕ}
    (hsizes : ∀ n ∈ sizes, 2 ≤ n) : ReadsLines S sizes s source ↔ NoNewlineInside sizes source := by
  induction sizes generalizing s source with
  | nil => exact Iff.rfl
  | cons n sizes ih =>
    have hn := hsizes n List.mem_cons_self
    have hrest : ∀ m ∈ sizes, 2 ≤ m := fun m hm => hsizes m (List.mem_cons_of_mem n hm)
    have hcall := h.fgets_line_iff hn
    constructor
    · rintro ⟨t, hgets, ht, hlines⟩
      obtain ⟨hne, hnewline⟩ := hcall.1 ⟨t, hgets, ht⟩
      refine ⟨hne, hnewline, ?_⟩
      rw [← drop_lineOf (toNewline_eq_self_iff.2 hnewline)]
      exact (ih ht hrest).1 hlines
    · rintro ⟨hne, hnewline, hinside⟩
      obtain ⟨t, hgets, ht⟩ := hcall.2 ⟨hne, hnewline⟩
      refine ⟨t, hgets, ht, (ih ht hrest).2 ?_⟩
      rw [drop_lineOf (toNewline_eq_self_iff.2 hnewline)]
      exact hinside

/-- Two bytes without a newline, in room for three. -/
theorem fgets_reads_lines_iff_two :
    ReadsLines (sourceKernel_source 0 3) [4] ⟨openedStream readFlags [0] .iofbf, [97, 98]⟩
        [97, 98] ↔
      NoNewlineInside [4] [97, 98] :=
  fgets_reads_lines_iff
    (Or.inl ((openedStream_reader [0] .iofbf).fromBuffer _ (by decide) (by decide)))
    (by decide)

/-- Two lines in room for all of them. -/
theorem fgets_joins_lines :
    ¬ReadsLines (sourceKernel_source 0 3) [9] ⟨openedStream readFlags [0] .iofbf, [97, 10, 98]⟩
      [97, 10, 98] := by
  rintro ⟨t, hgets, ht, _⟩
  have hpresents : Presents (sourceKernel_source 0 3)
      ⟨openedStream readFlags [0] .iofbf, [97, 10, 98]⟩ [97, 10, 98] :=
    Or.inl ((openedStream_reader [0] .iofbf).fromBuffer _ (by decide) (by decide))
  have hinside := (hpresents.fgets_line_iff (show 2 ≤ 9 by decide)).1 ⟨t, hgets, ht⟩
  exact hinside.2 (by decide)

end Streams

end Heartix.Stdio
