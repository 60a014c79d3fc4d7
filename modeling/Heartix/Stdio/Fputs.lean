import Heartix.Stdio.ElementCounts

/-!
`fputs`. The string is written as one element of its length, and the count of
elements is compared with that length. What the stream has accepted is what it
has put into its buffer, or what `impl_write` has taken where it has none.
-/

namespace Heartix.Stdio

variable {W : Type}

/-- `fputs` on the characters of a string; the result is converted to an int. -/
def fputs (K : Kernel W) (str : List UInt8) (s : State W) : Option (ℤ × State W) :=
  match fwrite K str str.length 1 s with
  | none => none
  | some (written, t) =>
      if written = str.length then some ((written : ℤ).bmod (2 ^ 32), t) else some (EOF, t)

/-- A result that is not negative exactly where all was accepted, and EOF exactly
where it was not. -/
structure Truthful (accepted : Prop) (r : ℤ) : Prop where
  success : 0 ≤ r ↔ accepted
  failure : r = EOF ↔ ¬accepted

/-- Writing the bytes one by one stores them all. A newline that is stuck is
stored, and is the last. -/
inductive StoresAll (K : Kernel W) : List UInt8 → State W → Prop
  | nil (s : State W) : StoresAll K [] s
  | stuck {b : UInt8} {s : State W} (hstuck : StuckNewline K b s) : StoresAll K [b] s
  | later {b : UInt8} {ptr : List UInt8} {s t : State W} {c : ℤ}
      (hput : fputcUnlocked K b.toNat s = some (c, t)) (hc : c ≠ EOF)
      (hrest : StoresAll K ptr t) : StoresAll K (b :: ptr) s

/-- The stream accepts all the bytes: it may write and has a buffer; an unbuffered
one can write and takes them, and any other stores them. -/
def AcceptsAll (K : Kernel W) (str : List UInt8) (s : State W) : Prop :=
  s.stream.mode.write = true ∧ BufferAvailable K s ∧
    (s.stream.Unbuffered → s.stream.implWrite = true ∧
      TakesAll K s.stream.fileDescriptor str s.world) ∧
    (¬ s.stream.Unbuffered → StoresAll K str (ensureBuffer K s).2)

/-- The byte is a newline that a line buffered stream stores and cannot flush. -/
def StuckByte (K : Kernel W) (b : UInt8) (s : State W) : Prop :=
  s.stream.mode.write = true ∧ BufferAvailable K s ∧ ¬ s.stream.Unbuffered ∧
    StuckNewline K b (ensureBuffer K s).2

section Loop

variable {K : Kernel W} {size nmemb done n : ℕ} {b : UInt8} {ptr : List UInt8} {s t : State W}

/-- The byte loop of a write stores some of the bytes. It returns the number of
elements, or stops at a byte and returns the elements before it. -/
theorem fwriteLoop_storesAll (hset : s.stream.flagBufferSet = true)
    (hmode : s.stream.bufferMode ≠ .ionbf)
    (heq : fwriteLoop K size nmemb done ptr s = some (n, t)) :
    ∃ k, t.stream.stored.length = s.stream.stored.length + k ∧
      (k = ptr.length ↔ StoresAll K ptr s) ∧
      (n = nmemb ∨ ∃ j < ptr.length, n = (done + j) / size) := by
  induction ptr generalizing done s with
  | nil =>
    obtain ⟨rfl, rfl⟩ := Prod.mk.inj (Option.some.inj heq)
    exact ⟨0, rfl, iff_of_true rfl (.nil _), Or.inl rfl⟩
  | cons b ptr ih =>
    unfold fwriteLoop at heq
    rcases hput : fputcUnlocked K b.toNat s with _ | ⟨c, u⟩
    · simp [hput] at heq
    · simp only [hput] at heq
      rcases fputcUnlocked_stuck K hset hmode hput with
        ⟨hc, hnot, hstored⟩ | ⟨rfl, hnot, hstored⟩ | ⟨rfl, hstuck, hstored⟩
      · rw [if_neg hc] at heq
        obtain ⟨hset', hmode'⟩ := (preserves_bufferMode K).fputcUnlocked hput hset
        obtain ⟨k, hk, hall, hresult⟩ := ih hset' (hmode' ▸ hmode) heq
        have hiff : StoresAll K (b :: ptr) s ↔ StoresAll K ptr u := by
          refine ⟨fun h => ?_, fun h => .later hput hc h⟩
          cases h with
          | stuck hstuck => exact absurd hstuck hnot
          | later hput' _ hrest =>
            obtain ⟨-, rfl⟩ := Prod.mk.inj (Option.some.inj (hput.symm.trans hput'))
            exact hrest
        refine ⟨k + 1, ?_, ?_, ?_⟩
        · rw [hk, hstored, List.length_append, List.length_singleton]
          omega
        · rw [hiff, ← hall, List.length_cons, Nat.add_right_cancel_iff]
        · rcases hresult with hn | ⟨j, hj, hn⟩
          · exact Or.inl hn
          · have hsum : done + (j + 1) = done + 1 + j := by omega
            exact Or.inr ⟨j + 1, Nat.succ_lt_succ hj, hsum ▸ hn⟩
      · rw [if_pos rfl] at heq
        obtain ⟨rfl, rfl⟩ := Prod.mk.inj (Option.some.inj heq)
        have hpos : 0 < (b :: ptr).length := Nat.succ_pos _
        refine ⟨0, congrArg List.length hstored, iff_of_false (Nat.ne_of_lt hpos) fun h => ?_,
          Or.inr ⟨0, hpos, rfl⟩⟩
        cases h with
        | stuck hstuck => exact hnot hstuck
        | later hput' hc _ =>
          exact hc (Prod.mk.inj (Option.some.inj (hput'.symm.trans hput))).1
      · rw [if_pos rfl] at heq
        obtain ⟨rfl, rfl⟩ := Prod.mk.inj (Option.some.inj heq)
        refine ⟨1, by rw [hstored, List.length_append, List.length_singleton], ?_,
          Or.inr ⟨0, Nat.succ_pos _, rfl⟩⟩
        rw [List.length_cons]
        constructor
        · intro hlen
          obtain rfl : ptr = [] := List.length_eq_zero_iff.1 (by omega)
          exact .stuck hstuck
        · intro h
          cases h with
          | stuck _ => rfl
          | later hput' hc _ =>
            exact absurd (Prod.mk.inj (Option.some.inj (hput'.symm.trans hput))).1 hc

end Loop

section Result

variable {K : Kernel W} {str : List UInt8} {n : ℕ} {r : ℤ} {s t : State W}

theorem total_one (hlen : str.length < 2 ^ 64) : str.take (total str.length 1) = str := by
  rw [total, Nat.mul_one, Nat.mod_eq_of_lt hlen, List.take_length]

/-- What a write byte by byte has moved. -/
theorem takenSince_of_loop {size nmemb k : ℕ} {u : State W}
    (hset : u.stream.flagBufferSet = true) (hnot : u.stream.bufferMode ≠ .ionbf)
    (hstored : u.stream.stored = s.stream.stored)
    (hloop : fwriteLoop K size nmemb 0 str u = some (n, t))
    (hk : t.stream.stored.length = u.stream.stored.length + k) :
    s.stream.takenSince t.stream = k := by
  obtain ⟨_, hmode⟩ := (preserves_bufferMode K).fwriteLoop hloop hset
  rw [FILE.takenSince, if_neg (hmode ▸ hnot), hk, hstored]
  exact Nat.add_sub_cancel_left _ _

/-- What the stream has accepted of a string, and which counts `fwrite` can return
for one element. -/
theorem fwrite_accepts (hne : str ≠ []) (hlen : str.length < 2 ^ 64)
    (heq : fwrite K str str.length 1 s = some (n, t)) :
    (s.stream.takenSince t.stream = str.length ↔ AcceptsAll K str s) ∧
      (n = 0 ∨ n = 1 ∨ n = SIZE_MAX) := by
  have hpos := List.length_pos_of_ne_nil hne
  have hwriting := SizeT.fwriteUnlocked_writing K (by omega) heq
  cases hwriting with
  | denied hnot htaken =>
    rw [htaken]
    exact ⟨iff_of_false (by omega) fun h => hnot ⟨h.1, h.2.1⟩, Or.inr (Or.inr rfl)⟩
  | direct hmode havailable hunbuffered hdirect =>
    rw [total_one hlen] at hdirect
    have haccepts : AcceptsAll K str s ↔
        s.stream.implWrite = true ∧ TakesAll K s.stream.fileDescriptor str s.world :=
      ⟨fun h => h.2.2.1 hunbuffered,
        fun h => ⟨hmode, havailable, fun _ => h, fun hnot => absurd hunbuffered hnot⟩⟩
    rw [haccepts]
    rcases fwriteUnbuffered_taken K hunbuffered.2 hdirect with
      ⟨hall, rfl, htaken⟩ | ⟨hnot, rfl, htaken⟩
    · exact ⟨iff_of_true htaken hall, Or.inr (Or.inl (Nat.div_self hpos))⟩
    · exact ⟨iff_of_false (by omega) hnot, Or.inr (Or.inr rfl)⟩
  | byBytes hmode havailable hbuffered hensure hset hnot hstored hloop =>
    obtain ⟨k, hk, hall, hresult⟩ := fwriteLoop_storesAll hset hnot hloop
    rw [takenSince_of_loop hset hnot hstored hloop hk]
    have haccepts : AcceptsAll K str s ↔ StoresAll K str (ensureBuffer K s).2 :=
      ⟨fun h => h.2.2.2 hbuffered,
        fun h => ⟨hmode, havailable, fun hunbuffered => absurd hunbuffered hbuffered, fun _ => h⟩⟩
    rw [haccepts, hensure]
    refine ⟨hall, ?_⟩
    rcases hresult with rfl | ⟨j, hj, rfl⟩
    · exact Or.inr (Or.inl rfl)
    · exact Or.inl (Nat.div_eq_of_lt (by omega))

/-- One byte is counted where it has been accepted, but for a stuck newline. -/
theorem fwrite_single {b : UInt8} (heq : fwrite K [b] 1 1 s = some (n, t)) :
    (StuckByte K b s → n = 0 ∧ s.stream.takenSince t.stream = 1) ∧
      (¬ StuckByte K b s → (n = 1 ↔ s.stream.takenSince t.stream = 1)) := by
  have hwriting := SizeT.fwriteUnlocked_writing K (by decide) heq
  cases hwriting with
  | denied hnot htaken =>
    rw [htaken]
    exact ⟨fun h => absurd ⟨h.1, h.2.1⟩ hnot, fun _ => iff_of_false (by decide) (by decide)⟩
  | direct hmode havailable hunbuffered hdirect =>
    refine ⟨fun h => absurd hunbuffered h.2.2.1, fun _ => ?_⟩
    rw [show [b].take (total 1 1) = [b] from rfl] at hdirect
    rcases fwriteUnbuffered_taken K hunbuffered.2 hdirect with
      ⟨_, rfl, htaken⟩ | ⟨_, rfl, htaken⟩
    · exact iff_of_true (Nat.div_one 1) htaken
    · refine iff_of_false (by decide) ?_
      rw [List.length_singleton] at htaken
      omega
  | byBytes hmode havailable hbuffered hensure hset hnot hstored hloop =>
    have hstuck : StuckByte K b s ↔ StuckNewline K b (ensureBuffer K s).2 :=
      ⟨fun h => h.2.2.2, fun h => ⟨hmode, havailable, hbuffered, h⟩⟩
    rw [hstuck, hensure]
    have hbytes := hloop
    unfold fwriteLoop at hloop
    rename_i u
    rcases hput : fputcUnlocked K b.toNat u with _ | ⟨c, v⟩
    · simp [hput] at hloop
    · simp only [hput] at hloop
      rcases fputcUnlocked_stuck K hset hnot hput with
        ⟨hc, hfree, hv⟩ | ⟨rfl, hfree, hv⟩ | ⟨rfl, hheld, hv⟩
      · rw [if_neg hc] at hloop
        obtain ⟨rfl, rfl⟩ := Prod.mk.inj (Option.some.inj hloop)
        have hk : v.stream.stored.length = u.stream.stored.length + 1 := by
          rw [hv, List.length_append, List.length_singleton]
        rw [takenSince_of_loop hset hnot hstored hbytes hk]
        exact ⟨fun h => absurd h hfree, fun _ => iff_of_true rfl rfl⟩
      · rw [if_pos rfl] at hloop
        obtain ⟨rfl, rfl⟩ := Prod.mk.inj (Option.some.inj hloop)
        have hk : v.stream.stored.length = u.stream.stored.length + 0 := by
          rw [hv, Nat.add_zero]
        rw [takenSince_of_loop hset hnot hstored hbytes hk]
        exact ⟨fun h => absurd h hfree, fun _ => iff_of_false (by decide) (by decide)⟩
      · rw [if_pos rfl] at hloop
        obtain ⟨rfl, rfl⟩ := Prod.mk.inj (Option.some.inj hloop)
        have hk : v.stream.stored.length = u.stream.stored.length + 1 := by
          rw [hv, List.length_append, List.length_singleton]
        rw [takenSince_of_loop hset hnot hstored hbytes hk]
        exact ⟨fun _ => ⟨rfl, rfl⟩, fun h => absurd hheld h⟩

/-- A result is truthful if it is not negative for an accepted string and EOF for
another one. -/
theorem truthful_iff {accepted : Prop} (hr : 0 ≤ r ∨ r = EOF) :
    Truthful accepted r ↔ (0 ≤ r ↔ accepted) := by
  refine ⟨fun h => h.success, fun h => ⟨h, ?_⟩⟩
  rw [← h]
  rcases hr with hpos | rfl
  · exact iff_of_false (fun heof => absurd (heof ▸ hpos) (by decide)) (not_not.2 hpos)
  · exact iff_of_true rfl (by decide)

theorem fwrite_nil (K : Kernel W) (s : State W) :
    fwrite K [] ([] : List UInt8).length 1 s = some (0, s) := by
  unfold fwrite SizeT.fwriteUnlocked
  rw [if_pos (Or.inl List.length_nil)]

/-- What `fputs` returns: 0 for the empty string, 1 or EOF for one byte, and EOF
for every longer string. -/
theorem fputs_result (hlen : str.length < 2 ^ 64) (heq : fputs K str s = some (r, t)) :
    ∃ n, fwrite K str str.length 1 s = some (n, t) ∧
      (str = [] ∧ r = 0 ∨ (∃ b, str = [b] ∧ r = if n = 1 then 1 else EOF) ∨
        2 ≤ str.length ∧ r = EOF) := by
  unfold fputs at heq
  rcases hwrite : fwrite K str str.length 1 s with _ | ⟨n, u⟩
  · simp [hwrite] at heq
  · simp only [hwrite] at heq
    rcases str with _ | ⟨b, _ | ⟨c, str⟩⟩
    · obtain ⟨rfl, rfl⟩ := Prod.mk.inj (Option.some.inj ((fwrite_nil K s).symm.trans hwrite))
      rw [if_pos List.length_nil.symm] at heq
      obtain ⟨rfl, rfl⟩ := Prod.mk.inj (Option.some.inj heq)
      exact ⟨0, rfl, Or.inl ⟨rfl, by decide⟩⟩
    · rw [List.length_singleton] at heq
      by_cases hn : n = 1
      · rw [if_pos hn] at heq
        obtain ⟨rfl, rfl⟩ := Prod.mk.inj (Option.some.inj heq)
        refine ⟨n, rfl, Or.inr (Or.inl ⟨b, rfl, ?_⟩)⟩
        rw [if_pos hn, hn]
        decide
      · rw [if_neg hn] at heq
        obtain ⟨rfl, rfl⟩ := Prod.mk.inj (Option.some.inj heq)
        exact ⟨n, rfl, Or.inr (Or.inl ⟨b, rfl, (if_neg hn).symm⟩)⟩
    · have hlong : 2 ≤ (b :: c :: str).length := by simp
      obtain ⟨-, hn⟩ := fwrite_accepts (List.cons_ne_nil _ _) hlen hwrite
      by_cases hwritten : n = (b :: c :: str).length
      · -- one element: only the count 2 ^ 64 - 1 can be the length, and it is EOF as an int
        obtain rfl : n = SIZE_MAX := by omega
        rw [if_pos hwritten] at heq
        obtain ⟨rfl, rfl⟩ := Prod.mk.inj (Option.some.inj heq)
        exact ⟨SIZE_MAX, rfl, Or.inr (Or.inr ⟨hlong, by decide⟩)⟩
      · rw [if_neg hwritten] at heq
        obtain ⟨rfl, rfl⟩ := Prod.mk.inj (Option.some.inj heq)
        exact ⟨n, rfl, Or.inr (Or.inr ⟨hlong, rfl⟩)⟩

/-- `fputs` tells the truth for the empty string, for one byte that is no stuck
newline, and for a longer string only where the stream does not accept it. -/
theorem fputs_truthful_iff (hlen : str.length < 2 ^ 64) (heq : fputs K str s = some (r, t)) :
    Truthful (s.stream.takenSince t.stream = str.length) r ↔
      str = [] ∨ (∃ b, str = [b] ∧ ¬ StuckByte K b s) ∨
        (2 ≤ str.length ∧ ¬ AcceptsAll K str s) := by
  obtain ⟨n, hwrite, hresult⟩ := fputs_result hlen heq
  rcases hresult with ⟨rfl, rfl⟩ | ⟨b, rfl, rfl⟩ | ⟨hlong, rfl⟩
  · obtain ⟨-, rfl⟩ := Prod.mk.inj (Option.some.inj ((fwrite_nil K s).symm.trans hwrite))
    have hsame : s.stream.takenSince s.stream = 0 := by simp [FILE.takenSince]
    rw [truthful_iff (Or.inl le_rfl)]
    exact iff_of_true (iff_of_true le_rfl hsame) (Or.inl rfl)
  · have hr : (0 : ℤ) ≤ (if n = 1 then 1 else EOF) ↔ n = 1 := by
      split
      · exact iff_of_true (by decide) ‹_›
      · exact iff_of_false (by decide) ‹_›
    have hcases : (0 : ℤ) ≤ (if n = 1 then 1 else EOF) ∨
        (if n = 1 then (1 : ℤ) else EOF) = EOF := by
      split
      · exact Or.inl (by decide)
      · exact Or.inr rfl
    rw [truthful_iff hcases, hr]
    obtain ⟨hstuck, hfree⟩ := fwrite_single hwrite
    by_cases hb : StuckByte K b s
    · obtain ⟨rfl, htaken⟩ := hstuck hb
      refine iff_of_false (fun h => absurd (h.2 htaken) (by decide)) ?_
      rintro (hnil | ⟨c, hc, hnot⟩ | ⟨htwo, -⟩)
      · cases hnil
      · obtain rfl := List.singleton_injective hc
        exact hnot hb
      · rw [List.length_singleton] at htwo
        exact absurd htwo (by decide)
    · exact iff_of_true (hfree hb) (Or.inr (Or.inl ⟨b, rfl, hb⟩))
  · have hne : str ≠ [] := List.ne_nil_of_length_pos (by omega)
    obtain ⟨haccepts, -⟩ := fwrite_accepts hne hlen hwrite
    rw [truthful_iff (Or.inr rfl), haccepts]
    constructor
    · intro h
      exact Or.inr (Or.inr ⟨hlong, fun hall => absurd (h.2 hall) (by decide)⟩)
    · rintro (rfl | ⟨b, rfl, -⟩ | ⟨-, hnot⟩)
      · exact absurd rfl hne
      · rw [List.length_singleton] at hlong
        exact absurd hlong (by decide)
      · exact iff_of_false (by decide) hnot

end Result

/-- On a sound stream that is not about to overrun, `fputs` returns. -/
theorem fputs_returns (K : Kernel W) (str : List UInt8) {s : State W} (h : s.stream.Sound)
    (hno : ¬ s.stream.Overruns) : ∃ r t, fputs K str s = some (r, t) := by
  obtain ⟨n, t, hwrite⟩ := fwrite_returns K
    (⟨⟨str⟩, (Nat.mul_one _).symm⟩ : Vector UInt8 (str.length * 1)) h hno
  have hstr : fwrite K str str.length 1 s = some (n, t) := hwrite
  unfold fputs
  rw [hstr]
  dsimp only
  split
  · exact ⟨_, _, rfl⟩
  · exact ⟨_, _, rfl⟩

/-- One byte that is no newline, into a buffer with room. -/
theorem fputs_truthful_iff_letter :
    ∃ r t, fputs scriptedKernel [97] ⟨openedStream writeFlags [0, 0] .iolbf, []⟩ = some (r, t) ∧
      Truthful ((openedStream writeFlags [0, 0] .iolbf).takenSince t.stream = 1) r := by
  obtain ⟨r, t, hcall⟩ : ∃ r t, fputs scriptedKernel [97]
      ⟨openedStream writeFlags [0, 0] .iolbf, []⟩ = some (r, t) := ⟨_, _, rfl⟩
  refine ⟨r, t, hcall, (fputs_truthful_iff (by decide) hcall).2 (Or.inr (Or.inl ⟨97, rfl, ?_⟩))⟩
  rintro ⟨-, -, -, _, _, _, -, -, -, hb, -⟩
  exact absurd hb (by decide)

/-- Two bytes that the buffer takes, with room left: `fputs` answers EOF. -/
theorem fputs_denies_accepted :
    ∃ r t, fputs scriptedKernel [97, 98] ⟨openedStream writeFlags [0, 0, 0, 0] .iofbf, []⟩ =
        some (r, t) ∧
      (openedStream writeFlags [0, 0, 0, 0] .iofbf).takenSince t.stream = 2 ∧ r = EOF ∧
      ¬ Truthful ((openedStream writeFlags [0, 0, 0, 0] .iofbf).takenSince t.stream = 2) r := by
  have hrun : (fputs scriptedKernel [97, 98]
      ⟨openedStream writeFlags [0, 0, 0, 0] .iofbf, []⟩).map
      (fun (r, t) => (r, (openedStream writeFlags [0, 0, 0, 0] .iofbf).takenSince t.stream)) =
      some (EOF, 2) := by
    decide +kernel
  obtain ⟨⟨r, t⟩, hcall, hpair⟩ := Option.map_eq_some_iff.mp hrun
  obtain ⟨hr, htaken⟩ := Prod.mk.inj hpair
  refine ⟨r, t, hcall, htaken, hr, fun h => ?_⟩
  exact absurd htaken (h.failure.mp hr)

end Heartix.Stdio
