import Heartix.Stdio.Fclose

/-!
Streams set unbuffered. Every operation goes to the kernel directly and leaves
the stream unbuffered.
-/

namespace Heartix.Stdio

open PartialTransfer

variable {W : Type}

/-- The loop around `impl_read` changes the indicators only. -/
theorem readLoop_eq (K : Kernel W) (left : ℕ) (s : State W) :
    ∃ bytes eof error w, readLoop K left s =
      (bytes, ⟨{ s.stream with flagEof := eof, flagError := error }, w⟩) := by
  induction left using Nat.strong_induction_on generalizing s with
  | h left ih =>
    unfold readLoop
    by_cases hleft : left = 0
    · rw [dif_pos hleft]
      exact ⟨[], s.stream.flagEof, s.stream.flagError, s.world, rfl⟩
    · rw [dif_neg hleft]
      unfold implRead
      rcases K.read s.stream.fileDescriptor left s.world with ⟨_ | ⟨_ | ⟨b, bytes⟩, hlen⟩, w⟩
      · exact ⟨[], s.stream.flagEof, true, w, rfl⟩
      · exact ⟨[], true, s.stream.flagError, w, rfl⟩
      · obtain ⟨more, eof, error, w', heq⟩ :=
          ih (left - (bytes.length + 1)) (by omega) { s with world := w }
        exact ⟨b :: bytes ++ more, eof, error, w', by simp only [heq]⟩

theorem freadUnbuffered_unbuffered (K : Kernel W) (size nmemb : ℕ) {s : State W}
    (h : s.stream.Unbuffered) : (freadUnbuffered K size nmemb s).2.2.stream.Unbuffered := by
  unfold freadUnbuffered
  split
  · exact h
  · obtain ⟨bytes, eof, error, w, heq⟩ := readLoop_eq K (size * nmemb)
      { s with stream := { s.stream with flagDirectionRead := true, flagEof := false } }
    rw [heq]
    exact h

theorem fwriteUnbuffered_unbuffered (K : Kernel W) (ptr : List UInt8) (size : ℕ) {s : State W}
    (h : s.stream.Unbuffered) : (fwriteUnbuffered K ptr size s).2.stream.Unbuffered := by
  unfold fwriteUnbuffered
  split
  · exact h
  · obtain ⟨left, calls, eof, error, w, heq, _⟩ := writeLoop_eq K 0 ptr
      { s with stream := { s.stream with flagDirectionWrite := true, flagEof := false } }
    rw [heq]
    dsimp only
    split
    · exact h
    · exact h

theorem fflushUnlocked_unbuffered (K : Kernel W) {s : State W} (h : s.stream.Unbuffered) :
    (fflushUnlocked K s).2.stream.Unbuffered := by
  have hread : (fflushReadUnlocked K s).2.stream.Unbuffered := by
    rcases fflushReadUnlocked_cases K s with ⟨_, hcase⟩ | ⟨_, _, hcase⟩ | ⟨_, _, _, _, hcase⟩
    · rw [hcase]
      exact h
    · rw [hcase]
      exact h
    · rw [hcase]
      exact h
  rcases fflushUnlocked_cases K s with hflush | hflush
  · rw [hflush]
    exact hread
  · rw [hflush]
    rcases fflushWriteUnlocked_cases K (fflushReadUnlocked K s).2 with
      ⟨_, hcase⟩ | ⟨_, _, hcase⟩ | ⟨_, _, _, _, _, _, _, _, hcase, _⟩
    · rw [hcase]
      exact hread
    · rw [hcase]
      exact hread
    · rw [hcase]
      exact hread

theorem ensureBuffer_unbuffered (K : Kernel W) {s : State W} (h : s.stream.Unbuffered) :
    ensureBuffer K s = (0, s) := by simp [ensureBuffer, h.1]

section Calls

variable {K : Kernel W} {s t : State W}

theorem fgetcUnlocked_unbuffered (h : s.stream.Unbuffered) {c : ℤ}
    (hcall : fgetcUnlocked K s = some (c, t)) : t.stream.Unbuffered := by
  have hread := freadUnbuffered_unbuffered K 1 1 h
  unfold fgetcUnlocked at hcall
  simp only [ensureBuffer_unbuffered K h, zero_ne_EOF, if_false, h.2, if_true] at hcall
  split at hcall
  · obtain ⟨-, rfl⟩ := Prod.mk.inj (Option.some.inj hcall)
    exact h
  · generalize freadUnbuffered K 1 1 s = result at hread hcall
    obtain ⟨n, bytes, s₂⟩ := result
    dsimp only at hread hcall
    split at hcall
    · obtain ⟨-, rfl⟩ := Prod.mk.inj (Option.some.inj hcall)
      exact hread
    · rcases bytes with _ | ⟨b, bytes⟩
      · cases hcall
      · obtain ⟨-, rfl⟩ := Prod.mk.inj (Option.some.inj hcall)
        exact hread

theorem freadUnlocked_unbuffered (h : s.stream.Unbuffered) {size nmemb n : ℕ}
    {stored : List UInt8} (hcall : freadUnlocked K size nmemb s = some (n, stored, t)) :
    t.stream.Unbuffered := by
  have hread := freadUnbuffered_unbuffered K size nmemb h
  unfold freadUnlocked at hcall
  simp only [ensureBuffer_unbuffered K h, zero_ne_EOF, if_false, h.2, if_true] at hcall
  split at hcall
  · obtain ⟨-, -, rfl⟩ := by simpa using hcall
    exact h
  · split at hcall
    · obtain ⟨-, -, rfl⟩ := by simpa using hcall
      exact h
    · rw [Option.some.inj hcall] at hread
      exact hread

theorem fungetcUnlocked_unbuffered (h : s.stream.Unbuffered) {c r : ℤ}
    (hcall : fungetcUnlocked K c s = some (r, t)) : t.stream.Unbuffered := by
  unfold fungetcUnlocked at hcall
  simp only [ensureBuffer_unbuffered K h, zero_ne_EOF, if_false, h.2, if_true] at hcall
  obtain ⟨-, rfl⟩ := Prod.mk.inj (Option.some.inj hcall)
  exact h

theorem fputcUnlocked_unbuffered (h : s.stream.Unbuffered) {c r : ℤ}
    (hcall : fputcUnlocked K c s = some (r, t)) : t.stream.Unbuffered := by
  have hwrite := fwriteUnbuffered_unbuffered K [toByte c] 1 h
  unfold fputcUnlocked at hcall
  simp only [ensureBuffer_unbuffered K h, zero_ne_EOF, if_false, h.2, if_true] at hcall
  split at hcall
  · obtain ⟨-, rfl⟩ := Prod.mk.inj (Option.some.inj hcall)
    exact h
  · generalize fwriteUnbuffered K [toByte c] 1 s = result at hwrite hcall
    obtain ⟨n, s₂⟩ := result
    dsimp only at hwrite hcall
    split at hcall
    · obtain ⟨-, rfl⟩ := Prod.mk.inj (Option.some.inj hcall)
      exact hwrite
    · obtain ⟨-, rfl⟩ := Prod.mk.inj (Option.some.inj hcall)
      exact hwrite

theorem fwriteUnlocked_unbuffered (h : s.stream.Unbuffered) {ptr : List UInt8}
    {size nmemb n : ℕ} (hcall : fwriteUnlocked K ptr size nmemb s = some (n, t)) :
    t.stream.Unbuffered := by
  have hwrite := fwriteUnbuffered_unbuffered K ptr size h
  unfold fwriteUnlocked at hcall
  simp only [ensureBuffer_unbuffered K h, zero_ne_EOF, if_false, h.2, if_true] at hcall
  split at hcall
  · obtain ⟨-, rfl⟩ := Prod.mk.inj (Option.some.inj hcall)
    exact h
  · split at hcall
    · obtain ⟨-, rfl⟩ := Prod.mk.inj (Option.some.inj hcall)
      exact h
    · rw [Option.some.inj hcall] at hwrite
      exact hwrite

/-- An unbuffered stream stays unbuffered. -/
theorem step_unbuffered (K : Kernel W) {op : Op} (h : s.stream.Unbuffered)
    (hstep : step K s op = some t) : t.stream.Unbuffered := by
  unfold step at hstep
  obtain ⟨⟨ret, u⟩, hexec, rfl⟩ := Option.map_eq_some_iff.mp hstep
  cases op with
  | fgetc =>
    obtain ⟨⟨c, v⟩, hcall, hpair⟩ := Option.map_eq_some_iff.mp hexec
    obtain ⟨-, rfl⟩ := Prod.mk.inj hpair
    exact fgetcUnlocked_unbuffered h hcall
  | fread size nmemb =>
    obtain ⟨⟨n, stored, v⟩, hcall, hpair⟩ := Option.map_eq_some_iff.mp hexec
    obtain ⟨-, rfl⟩ := Prod.mk.inj hpair
    exact freadUnlocked_unbuffered h hcall
  | ungetc c =>
    obtain ⟨⟨r, v⟩, hcall, hpair⟩ := Option.map_eq_some_iff.mp hexec
    obtain ⟨-, rfl⟩ := Prod.mk.inj hpair
    exact fungetcUnlocked_unbuffered h hcall
  | fputc c =>
    obtain ⟨⟨r, v⟩, hcall, hpair⟩ := Option.map_eq_some_iff.mp hexec
    obtain ⟨-, rfl⟩ := Prod.mk.inj hpair
    exact fputcUnlocked_unbuffered h hcall
  | fwrite size nmemb ptr =>
    obtain ⟨⟨n, v⟩, hcall, hpair⟩ := Option.map_eq_some_iff.mp hexec
    obtain ⟨-, rfl⟩ := Prod.mk.inj hpair
    exact fwriteUnlocked_unbuffered h hcall
  | fflush =>
    obtain ⟨-, rfl⟩ := Prod.mk.inj (Option.some.inj hexec)
    exact fflushUnlocked_unbuffered K h

end Calls

end Heartix.Stdio
