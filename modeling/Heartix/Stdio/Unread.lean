import Heartix.Stdio.BufferBounds

/-!
The bytes in the buffer of a stream that wait to be read, and what filling the
buffer and taking a byte from it do to them.
-/

namespace Heartix.Stdio

open Overwrite

variable {W : Type}

namespace FILE

/-- The bytes in the buffer that have not been delivered. -/
def unread (f : FILE) : List UInt8 :=
  (f.buffer.take f.bufferedBytesRead).drop f.bufferedBytesReadOffset

theorem length_unread {f : FILE} (h : f.Bounds) :
    f.unread.length = f.bufferedBytesRead - f.bufferedBytesReadOffset := by
  have hle := h.read_le
  unfold bufferSize at hle
  simp only [unread, List.length_drop, List.length_take]
  omega

theorem unread_eq_nil_iff {f : FILE} (h : f.Bounds) :
    f.unread = [] ↔ f.bufferedBytesRead ≤ f.bufferedBytesReadOffset := by
  rw [← List.length_eq_zero_iff, length_unread h]
  omega

/-- The first unread byte is the one at the offset. -/
theorem unread_eq_cons {f : FILE} {b : UInt8} {rest : List UInt8}
    (h : f.unread = b :: rest) :
    f.buffer[f.bufferedBytesReadOffset]? = some b ∧
      (f.buffer.take f.bufferedBytesRead).drop (f.bufferedBytesReadOffset + 1) = rest := by
  unfold unread at h
  constructor
  · have hget := congrArg (fun l => l[0]?) h
    simp only [List.getElem?_drop, Nat.add_zero, List.getElem?_cons_zero] at hget
    rw [List.getElem?_take] at hget
    split at hget
    · exact hget
    · cases hget
  · rw [← List.drop_drop, h]
    rfl

end FILE

/-- Filling the buffer asks the kernel once. An answer with bytes replaces what
the buffer holds; nothing else of the stream changes then. -/
theorem fillBuffer_cases (K : Kernel W) {s : State W} (hsound : s.stream.Sound)
    (hset : s.stream.flagBufferSet = true) : ∃ len, 0 < len ∧
    ((∃ w, K.read s.stream.fileDescriptor len s.world = (none, w) ∧
        fillBuffer K s = (EOF, ({ s with world := w } : State W).setError)) ∨
      (∃ bytes w, K.read s.stream.fileDescriptor len s.world = (some bytes, w) ∧
        bytes.val = [] ∧ fillBuffer K s = (EOF, ({ s with world := w } : State W).setEof)) ∨
      ∃ bytes w buffer stop offset, bytes.val ≠ [] ∧
        K.read s.stream.fileDescriptor len s.world = (some bytes, w) ∧
        fillBuffer K s = (0, ⟨{ s.stream with
          buffer := buffer, bufferedBytesRead := stop, bufferedBytesReadOffset := offset }, w⟩) ∧
        (buffer.take stop).drop offset = bytes.val ∧ buffer.length = s.stream.buffer.length ∧
        offset ≤ stop ∧ stop ≤ buffer.length) := by
  have hpos := (hsound.buffered hset).2
  unfold fillBuffer implRead
  dsimp only
  generalize hspace : (if ungetPreservedSpace ≥ s.stream.bufferSize then 0
    else ungetPreservedSpace) = space
  have hlt : space < s.stream.bufferSize := by
    rw [← hspace]
    split <;> omega
  refine ⟨s.stream.bufferSize - space, by omega, ?_⟩
  rcases hread : K.read s.stream.fileDescriptor (s.stream.bufferSize - space) s.world with
    ⟨_ | ⟨bytes, hlen⟩, w⟩
  · exact Or.inl ⟨w, rfl, rfl⟩
  · right
    cases bytes with
    | nil => exact Or.inl ⟨_, w, rfl, rfl, rfl⟩
    | cons b bytes =>
      right
      have hfit : space + (b :: bytes).length ≤ s.stream.buffer.length := by
        unfold FILE.bufferSize at hlt hlen
        omega
      have hlength := length_overwrite hfit
      refine ⟨_, w, overwrite s.stream.buffer space (b :: bytes), space + (b :: bytes).length,
        space, List.cons_ne_nil b bytes, rfl, rfl, ?_, hlength, Nat.le_add_right _ _, ?_⟩
      · exact drop_take_overwrite (Nat.le_of_lt hlt) _
      · rw [hlength]
        exact hfit

/-- The buffer after a refill is within bounds. -/
theorem FILE.Sound.refilled {f : FILE} (h : f.Sound) (hset : f.flagBufferSet = true)
    {buffer : List UInt8} {stop offset : ℕ} (hlength : buffer.length = f.buffer.length)
    (hoffset : offset ≤ stop) (hstop : stop ≤ buffer.length) :
    ({ f with buffer := buffer, bufferedBytesRead := stop,
              bufferedBytesReadOffset := offset } : FILE).Sound where
  write_le := by
    have hle := h.write_le
    unfold bufferSize at hle ⊢
    rw [hlength]
    exact hle
  offset_le := hoffset
  read_le := hstop
  buffered := by
    unfold bufferSize
    rw [hlength]
    exact h.buffered
  unused hunset := by
    rw [hset] at hunset
    cases hunset

/-- Taking the first unread byte. -/
theorem takeByte_cons {s : State W} {b : UInt8} {rest : List UInt8}
    (h : s.stream.unread = b :: rest) :
    takeByte s = some ((b.toNat : ℤ), { s with stream := { s.stream with
      bufferedBytesReadOffset := s.stream.bufferedBytesReadOffset + 1 } }) ∧
    ({ s.stream with bufferedBytesReadOffset := s.stream.bufferedBytesReadOffset + 1 } :
      FILE).unread = rest := by
  obtain ⟨hget, hrest⟩ := FILE.unread_eq_cons h
  unfold takeByte
  rw [hget]
  exact ⟨rfl, hrest⟩

end Heartix.Stdio
