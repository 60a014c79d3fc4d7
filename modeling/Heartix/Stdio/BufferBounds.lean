import Heartix.Lib.Runs
import Heartix.Stdio.Access

/-!
The representation invariant of a buffered stream. The counters stay inside the
buffer whatever the kernel answers. The one access that can leave it is the
store of `fputc`: a flush that fails on a full buffer takes the write direction
away, the next `fputc` then finds a full buffer that needs no flush and stores
behind its end. A run is free of such accesses exactly when it never puts a byte
on a stream in that state.
-/

namespace Heartix.Stdio

open PartialTransfer Overwrite Runs

variable {W : Type}

namespace FILE

structure Bounds (f : FILE) : Prop where
  write_le : f.bufferedBytesWrite ≤ f.bufferSize
  offset_le : f.bufferedBytesReadOffset ≤ f.bufferedBytesRead
  read_le : f.bufferedBytesRead ≤ f.bufferSize

/-- A stream that will be buffered: its buffer is not empty, or it has not been
used and gets the default buffer. -/
structure Sound (f : FILE) : Prop extends Bounds f where
  buffered : f.flagBufferSet = true → f.bufferMode ≠ .ionbf ∧ 0 < f.bufferSize
  unused : f.flagBufferSet = false → f.bufferedBytesWrite = 0 ∧ f.bufferedBytesRead = 0 ∧
    f.flagDirectionRead = false ∧ f.flagDirectionWrite = false

/-- The buffer is full and will not be flushed before the next byte is stored. -/
def Overruns (f : FILE) : Prop :=
  f.flagBufferSet = true ∧ f.bufferedBytesWrite = f.bufferSize ∧
    f.flagDirectionWrite = false ∧ (f.flagDirectionRead = true → f.mode.read = true)

instance (f : FILE) : Decidable f.Overruns := by
  unfold Overruns
  infer_instance

theorem pending_length {f : FILE} (h : f.Bounds) :
    f.pending.length = f.bufferedBytesWrite := by
  have hle := h.write_le
  unfold bufferSize at hle
  simp only [pending, List.length_take]
  omega

end FILE

/-- After the buffer check of an operation the stream is sound and has a
buffer, or the operation ends with the stream as it was. -/
theorem ensureBuffer_sound (K : Kernel W) {s : State W} (h : s.stream.Sound) :
    ∃ r t, ensureBuffer K s = (r, t) ∧ t.stream.Sound ∧
      ((r = EOF ∧ t.stream = s.stream ∧ s.stream.flagBufferSet = false) ∨
       (r = 0 ∧ t.stream.flagBufferSet = true ∧
         (s.stream.flagBufferSet = true → t = s) ∧
         (s.stream.flagBufferSet = false → t.stream.bufferedBytesWrite = 0))) := by
  rcases ensureBuffer_cases K s with
    ⟨hset, heq⟩ | ⟨hset, w, heq⟩ | ⟨hset, address, memory, w, hlen, heq⟩
  · exact ⟨0, s, heq, h, Or.inr ⟨rfl, hset, fun _ => rfl, fun hc => by simp [hset] at hc⟩⟩
  · exact ⟨EOF, _, heq, h, Or.inl ⟨rfl, rfl, hset⟩⟩
  · refine ⟨0, _, heq, ?_, Or.inr ⟨rfl, rfl, fun hc => by simp [hset] at hc, fun _ => rfl⟩⟩
    exact {
      write_le := Nat.zero_le _
      offset_le := Nat.le_refl _
      read_le := Nat.zero_le _
      buffered := fun _ => ⟨by simp [attachBuffer], by simp [FILE.bufferSize, attachBuffer, hlen]⟩
      unused := fun hc => by simp [attachBuffer] at hc }

theorem setError_sound {s : State W} (h : s.stream.Sound) : s.setError.stream.Sound :=
  ⟨⟨h.write_le, h.offset_le, h.read_le⟩, h.buffered, h.unused⟩

/-- A write flush keeps the stream sound; if it does not fail nothing is left to
write on a stream that had the direction. -/
theorem fflushWriteUnlocked_sound (K : Kernel W) {s : State W} (h : s.stream.Sound) :
    ∃ r t, fflushWriteUnlocked K s = (r, t) ∧ t.stream.Sound ∧
      t.stream.buffer = s.stream.buffer ∧ t.stream.flagBufferSet = s.stream.flagBufferSet ∧
      t.stream.bufferedBytesRead = s.stream.bufferedBytesRead ∧
      t.stream.bufferedBytesReadOffset = s.stream.bufferedBytesReadOffset ∧
      (r = EOF ∨ r = 0 ∧ t.stream.flagDirectionWrite = false ∧
        (s.stream.flagDirectionWrite = true → t.stream.bufferedBytesWrite = 0) ∧
        (s.stream.flagDirectionWrite = false → t = s)) := by
  rcases fflushWriteUnlocked_cases K s with
    ⟨hdir, heq⟩ | ⟨hdir, _, heq⟩ | ⟨hdir, _, _, left, calls, eof, error, w, heq, htransfer⟩
  · exact ⟨0, s, heq, h, rfl, rfl, rfl, rfl,
      Or.inr ⟨rfl, hdir, fun hc => by simp [hdir] at hc, fun _ => rfl⟩⟩
  · exact ⟨EOF, _, heq, setError_sound h, rfl, rfl, rfl, rfl, Or.inl rfl⟩
  · refine ⟨_, _, heq, ?_, rfl, rfl, rfl, rfl, ?_⟩
    · have hleft : left.length ≤ s.stream.bufferedBytesWrite := by
        have hlen := congrArg List.length htransfer.taken_append_left
        rw [FILE.pending_length h.toBounds, List.length_append] at hlen
        omega
      exact {
        write_le := Nat.le_trans hleft h.write_le
        offset_le := h.offset_le
        read_le := h.read_le
        buffered := h.buffered
        unused := fun hset => by
          obtain ⟨_, _, _, hnot⟩ := h.unused hset
          simp [hdir] at hnot }
    · by_cases hnil : left = []
      · exact Or.inr ⟨by simp [hnil], rfl, fun _ => by simp [hnil], fun hc => by simp [hdir] at hc⟩
      · exact Or.inl (by simp [hnil])

/-- A read flush keeps the stream sound and leaves what is pending alone. -/
theorem fflushReadUnlocked_sound (K : Kernel W) {s : State W} (h : s.stream.Sound) :
    ∃ r t, fflushReadUnlocked K s = (r, t) ∧ t.stream.Sound ∧
      t.stream.buffer = s.stream.buffer ∧ t.stream.flagBufferSet = s.stream.flagBufferSet ∧
      t.stream.bufferedBytesWrite = s.stream.bufferedBytesWrite ∧
      t.stream.flagDirectionWrite = s.stream.flagDirectionWrite ∧
      (r = EOF ∧ s.stream.flagDirectionRead = true ∧ s.stream.mode.read = false ∨
       r = 0 ∧ (s.stream.flagDirectionRead = true → s.stream.mode.read = true)) := by
  rcases fflushReadUnlocked_cases K s with
    ⟨hdir, heq⟩ | ⟨hdir, hmode, heq⟩ | ⟨hdir, hmode, error, w, heq⟩
  · exact ⟨0, s, heq, h, rfl, rfl, rfl, rfl, Or.inr ⟨rfl, fun hc => by simp [hdir] at hc⟩⟩
  · exact ⟨EOF, _, heq, setError_sound h, rfl, rfl, rfl, rfl, Or.inl ⟨rfl, hdir, hmode⟩⟩
  · refine ⟨0, _, heq, ?_, rfl, rfl, rfl, rfl, Or.inr ⟨rfl, fun _ => hmode⟩⟩
    exact {
      write_le := h.write_le
      offset_le := Nat.le_refl _
      read_le := Nat.zero_le _
      buffered := h.buffered
      unused := fun hset => by
        obtain ⟨hw, _, _, hdw⟩ := h.unused hset
        exact ⟨hw, rfl, rfl, hdw⟩ }

/-- Room is made, or refused, unless the stream overruns; then it is pretended. -/
theorem makeRoom_sound (K : Kernel W) {s : State W} (h : s.stream.Sound)
    (hset : s.stream.flagBufferSet = true) :
    ∃ r t, makeRoom K s = (r, t) ∧ t.stream.Sound ∧
      t.stream.flagBufferSet = true ∧ t.stream.bufferSize = s.stream.bufferSize ∧
      (s.stream.Overruns ∧ r = 0 ∧ t.stream.bufferedBytesWrite = t.stream.bufferSize ∨
       ¬ s.stream.Overruns ∧
        (r = EOF ∨ r = 0 ∧ t.stream.bufferedBytesWrite < t.stream.bufferSize)) := by
  obtain ⟨r, t, heq, ht, hbuf, hsetT, hwrite, hdir, hres⟩ := fflushReadUnlocked_sound K h
  have hsize : t.stream.bufferSize = s.stream.bufferSize := congrArg List.length hbuf
  have hpos : 0 < s.stream.bufferSize := (h.buffered hset).2
  have hle := ht.write_le
  unfold makeRoom
  rw [ite_fflushReadUnlocked, heq]
  rcases hres with ⟨hr, hread, hmode⟩ | ⟨hr, hmode⟩
  · refine ⟨EOF, t, by simp [hr], ht, hsetT.trans hset, hsize, Or.inr ⟨?_, Or.inl rfl⟩⟩
    rintro ⟨_, _, _, himp⟩
    simp [himp hread] at hmode
  · subst hr
    by_cases hfull : t.stream.bufferedBytesWrite = t.stream.bufferSize
    · obtain ⟨r', u, heq', hu, hbuf', hset', _, _, hres'⟩ := fflushWriteUnlocked_sound K ht
      have hsize' : u.stream.bufferSize = t.stream.bufferSize := congrArg List.length hbuf'
      have hsetU : u.stream.flagBufferSet = true := hset'.trans (hsetT.trans hset)
      have hsizeU : u.stream.bufferSize = s.stream.bufferSize := hsize'.trans hsize
      cases hw : t.stream.flagDirectionWrite with
      | true =>
        have hno : ¬ s.stream.Overruns := by
          rintro ⟨_, _, hdirW, _⟩
          rw [← hdir, hw] at hdirW
          cases hdirW
        rcases hres' with hr' | ⟨hr', _, hempty, _⟩
        · exact ⟨EOF, u, by simp [hfull, heq', hr'], hu, hsetU, hsizeU, Or.inr ⟨hno, Or.inl rfl⟩⟩
        · refine ⟨0, u, by simp [hfull, heq', hr'], hu, hsetU, hsizeU,
            Or.inr ⟨hno, Or.inr ⟨rfl, ?_⟩⟩⟩
          rw [hempty hw]
          omega
      | false =>
        have hskip : fflushWriteUnlocked K t = (0, t) := by simp [fflushWriteUnlocked, hw]
        refine ⟨0, t, by simp [hfull, hskip], ht, hsetT.trans hset, hsize, Or.inl ⟨?_, rfl, hfull⟩⟩
        exact ⟨hset, by omega, by rw [← hdir, hw], hmode⟩
    · refine ⟨0, t, by simp [hfull], ht, hsetT.trans hset, hsize, Or.inr ⟨?_, Or.inr ⟨rfl, ?_⟩⟩⟩
      · rintro ⟨_, hfull', _, _⟩
        omega
      · omega

theorem storeByte_sound {s : State W} (h : s.stream.Sound) (c8 : UInt8)
    (hset : s.stream.flagBufferSet = true)
    (hroom : s.stream.bufferedBytesWrite < s.stream.bufferSize) :
    ∃ t, storeByte c8 s = some t ∧ t.stream.Sound ∧ t.stream.flagBufferSet = true ∧
      t.stream.flagDirectionWrite = true := by
  refine ⟨_, if_pos hroom, ?_, hset, rfl⟩
  have hsize : (s.stream.buffer.set s.stream.bufferedBytesWrite c8).length =
      s.stream.buffer.length := List.length_set
  exact {
    write_le := by simp only [FILE.bufferSize, hsize]; exact hroom
    offset_le := h.offset_le
    read_le := by simpa [FILE.bufferSize, hsize] using h.read_le
    buffered := fun _ => by simpa [FILE.bufferSize, hsize] using h.buffered hset
    unused := fun hc => by simp [hset] at hc }

/-- Outside the overrunning state `fputc` stays inside the buffer, and only a
failing call can lead into that state. -/
theorem fputcUnlocked_sound (K : Kernel W) (c : ℤ) {s : State W} (h : s.stream.Sound)
    (hno : ¬ s.stream.Overruns) :
    ∃ r t, fputcUnlocked K c s = some (r, t) ∧ t.stream.Sound ∧
      (r = EOF ∨ ¬ t.stream.Overruns) := by
  obtain ⟨r₁, s₁, heq₁, h₁, hres₁⟩ := ensureBuffer_sound K h
  unfold fputcUnlocked
  simp only [heq₁]
  rcases hres₁ with ⟨rfl, _, _⟩ | ⟨rfl, hset₁, hsame, hfresh⟩
  · exact ⟨EOF, s₁, by simp, h₁, Or.inl rfl⟩
  · obtain ⟨hmode, hpos⟩ := h₁.buffered hset₁
    have hno₁ : ¬ s₁.stream.Overruns := by
      cases hset : s.stream.flagBufferSet with
      | true => rwa [hsame hset]
      | false =>
        rintro ⟨_, hfull, _, _⟩
        rw [hfresh hset] at hfull
        omega
    obtain ⟨r₂, s₂, heq₂, h₂, hset₂, _, hres₂⟩ := makeRoom_sound K h₁ hset₁
    simp only [heq₂, hmode, zero_ne_EOF, if_false]
    rcases hres₂ with ⟨hover, _, _⟩ | ⟨_, rfl | ⟨rfl, hroom⟩⟩
    · exact absurd hover hno₁
    · exact ⟨EOF, s₂, by simp, h₂, Or.inl rfl⟩
    · obtain ⟨s₃, heq₃, h₃, hset₃, hdir₃⟩ := storeByte_sound h₂ (toByte c) hset₂ hroom
      simp only [heq₃, zero_ne_EOF, if_false]
      by_cases hline : s₃.stream.bufferMode = .iolbf ∧ toByte c = newline
      · obtain ⟨r₄, s₄, heq₄, h₄, _, hset₄, _, _, hres₄⟩ := fflushWriteUnlocked_sound K h₃
        rw [if_pos hline]
        simp only [heq₄]
        rcases hres₄ with rfl | ⟨rfl, _, hempty, _⟩
        · exact ⟨EOF, s₄, by simp, h₄, Or.inl rfl⟩
        · refine ⟨(toByte c).toNat, s₄, by simp, h₄, Or.inr ?_⟩
          rintro ⟨_, hfull, _, _⟩
          have hpos₄ := (h₄.buffered (hset₄.trans hset₃)).2
          rw [hempty hdir₃] at hfull
          omega
      · refine ⟨(toByte c).toNat, s₃, by rw [if_neg hline], h₃, Or.inr ?_⟩
        rintro ⟨_, _, hdir, _⟩
        simp [hdir₃] at hdir

/-- In the overrunning state the next byte goes behind the end of the buffer. -/
theorem fputcUnlocked_overruns (K : Kernel W) (c : ℤ) {s : State W} (h : s.stream.Sound)
    (hover : s.stream.Overruns) : fputcUnlocked K c s = none := by
  have hset := hover.1
  have hensure : ensureBuffer K s = (0, s) := by simp [ensureBuffer, hset]
  obtain ⟨r, t, heq, _, _, _, hres⟩ := makeRoom_sound K h hset
  have hmode := (h.buffered hset).1
  rcases hres with ⟨_, rfl, hfull⟩ | ⟨hno, _⟩
  · simp [fputcUnlocked, hensure, hmode, heq, storeByte, hfull]
  · exact absurd hover hno

theorem fwriteLoop_sound (K : Kernel W) (size nmemb : ℕ) (ptr : List UInt8) (done : ℕ)
    {s : State W} (h : s.stream.Sound) (hno : ¬ s.stream.Overruns) :
    ∃ n t, fwriteLoop K size nmemb done ptr s = some (n, t) ∧ t.stream.Sound := by
  induction ptr generalizing done s with
  | nil => exact ⟨nmemb, s, rfl, h⟩
  | cons b ptr ih =>
    obtain ⟨r, t, heq, ht, hres⟩ := fputcUnlocked_sound K b.toNat h hno
    unfold fwriteLoop
    simp only [heq]
    by_cases hr : r = EOF
    · exact ⟨done / size, t, by simp [hr], ht⟩
    · obtain ⟨n, u, hequ, hu⟩ := ih (done + 1) ht (hres.resolve_left hr)
      exact ⟨n, u, by simp [hr, hequ], hu⟩

theorem fillBuffer_sound (K : Kernel W) {s : State W} (h : s.stream.Sound)
    (hset : s.stream.flagBufferSet = true) :
    ∃ r t, fillBuffer K s = (r, t) ∧ t.stream.Sound ∧
      (r = EOF ∨ t.stream.bufferedBytesReadOffset < t.stream.bufferedBytesRead) := by
  have hpos := (h.buffered hset).2
  unfold fillBuffer implRead
  dsimp only
  generalize hunget : (if ungetPreservedSpace ≥ s.stream.bufferSize then 0
    else ungetPreservedSpace) = unget
  have hle : unget ≤ s.stream.bufferSize := by
    rw [← hunget]
    split <;> omega
  rcases K.read s.stream.fileDescriptor (s.stream.bufferSize - unget) s.world with
    ⟨_ | ⟨_ | ⟨b, bytes⟩, hlen⟩, w⟩
  · exact ⟨EOF, _, rfl, ⟨⟨h.write_le, h.offset_le, h.read_le⟩, h.buffered, h.unused⟩, Or.inl rfl⟩
  · exact ⟨EOF, _, rfl, ⟨⟨h.write_le, h.offset_le, h.read_le⟩, h.buffered, h.unused⟩, Or.inl rfl⟩
  · refine ⟨0, _, rfl, ?_, Or.inr (by simp)⟩
    have hsize : (overwrite s.stream.buffer unget (b :: bytes)).length =
        s.stream.buffer.length :=
      length_overwrite (by simp only [FILE.bufferSize] at hle hlen; omega)
    exact {
      write_le := by simpa [FILE.bufferSize, hsize] using h.write_le
      offset_le := Nat.le_add_right _ _
      read_le := by simp only [FILE.bufferSize, hsize] at hle hlen ⊢; omega
      buffered := fun _ => by simpa [FILE.bufferSize, hsize] using h.buffered hset
      unused := fun hc => by simp [hset] at hc }

theorem takeByte_sound {s : State W} (h : s.stream.Sound)
    (hset : s.stream.flagBufferSet = true)
    (hmore : s.stream.bufferedBytesReadOffset < s.stream.bufferedBytesRead) :
    ∃ r t, takeByte s = some (r, t) ∧ t.stream.Sound := by
  have hindex : s.stream.bufferedBytesReadOffset < s.stream.buffer.length :=
    Nat.lt_of_lt_of_le hmore h.read_le
  unfold takeByte
  rw [List.getElem?_eq_getElem hindex]
  exact ⟨_, _, rfl, ⟨⟨h.write_le, hmore, h.read_le⟩, h.buffered,
    fun hc => by simp [hset] at hc⟩⟩

theorem readBuffered_sound (K : Kernel W) {s : State W} (h : s.stream.Sound)
    (hset : s.stream.flagBufferSet = true) :
    ∃ r t, readBuffered K s = some (r, t) ∧ t.stream.Sound := by
  unfold readBuffered
  by_cases hempty : s.stream.bufferedBytesReadOffset ≥ s.stream.bufferedBytesRead
  · rw [if_pos hempty]
    obtain ⟨r, t, heq, ht, hmore⟩ := fillBuffer_sound K h hset
    rw [heq]
    by_cases hr : r = EOF
    · exact ⟨EOF, t, by simp [hr], ht⟩
    · have hsetT : t.stream.flagBufferSet = true := by
        by_contra hc
        have hzero := ht.unused (by simpa using hc)
        have hlt := hmore.resolve_left hr
        omega
      obtain ⟨c, u, hequ, hu⟩ := takeByte_sound ht hsetT (hmore.resolve_left hr)
      exact ⟨c, u, by simp [hr, hequ], hu⟩
  · rw [if_neg hempty]
    exact takeByte_sound h hset (Nat.lt_of_not_ge hempty)

theorem fgetcUnlocked_sound (K : Kernel W) {s : State W} (h : s.stream.Sound) :
    ∃ r t, fgetcUnlocked K s = some (r, t) ∧ t.stream.Sound := by
  obtain ⟨r₁, s₁, heq₁, h₁, hres₁⟩ := ensureBuffer_sound K h
  unfold fgetcUnlocked
  simp only [heq₁]
  rcases hres₁ with ⟨rfl, _, _⟩ | ⟨rfl, hset₁, _, _⟩
  · exact ⟨EOF, s₁, by simp, h₁⟩
  · have hmode := (h₁.buffered hset₁).1
    obtain ⟨r₂, s₂, heq₂, h₂, _, hset₂, _, _, hres₂⟩ := fflushWriteUnlocked_sound K h₁
    simp only [hmode, zero_ne_EOF, if_false]
    rw [ite_fflushWriteUnlocked, heq₂]
    rcases hres₂ with rfl | ⟨rfl, _⟩
    · exact ⟨EOF, s₂, by simp, h₂⟩
    · have hset₃ : s₂.stream.flagBufferSet = true := hset₂.trans hset₁
      simp only [zero_ne_EOF, if_false]
      have h₃ : ({ s₂ with stream := { s₂.stream with
          flagDirectionWrite := false, flagDirectionRead := true } } : State W).stream.Sound :=
        ⟨⟨h₂.write_le, h₂.offset_le, h₂.read_le⟩, h₂.buffered,
          fun hc => by simp [hset₃] at hc⟩
      exact readBuffered_sound K h₃ hset₃

theorem freadLoop_sound (K : Kernel W) (size nmemb left : ℕ) (bytes : List UInt8)
    {s : State W} (h : s.stream.Sound) :
    ∃ n stored t, freadLoop K size nmemb left bytes s = some (n, stored, t) ∧
      t.stream.Sound := by
  induction left generalizing bytes s with
  | zero => exact ⟨nmemb, bytes, s, rfl, h⟩
  | succ left ih =>
    obtain ⟨c, t, heq, ht⟩ := fgetcUnlocked_sound K h
    unfold freadLoop
    simp only [heq]
    by_cases hc : c = EOF
    · exact ⟨bytes.length / size, bytes, t, by simp [hc], ht⟩
    · simp only [hc, if_false]
      exact ih (bytes ++ [toByte c]) ht

theorem putBack_sound {s : State W} (h : s.stream.Sound) (c8 : UInt8)
    (hset : s.stream.flagBufferSet = true) :
    ∃ r t, putBack c8 s = some (r, t) ∧ t.stream.Sound := by
  have hpos := (h.buffered hset).2
  have hindex : s.stream.bufferedBytesReadOffset - 1 < s.stream.bufferSize := by
    have hoffset := h.offset_le
    have hread := h.read_le
    omega
  refine ⟨c8.toNat, _, if_pos hindex, ?_⟩
  have hsize : (s.stream.buffer.set (s.stream.bufferedBytesReadOffset - 1) c8).length =
      s.stream.buffer.length := List.length_set
  exact {
    write_le := by simpa [FILE.bufferSize, hsize] using h.write_le
    offset_le := Nat.le_trans (Nat.sub_le _ _) h.offset_le
    read_le := by simpa [FILE.bufferSize, hsize] using h.read_le
    buffered := fun _ => by simpa [FILE.bufferSize, hsize] using h.buffered hset
    unused := fun hc => by simp [hset] at hc }

theorem shiftRight_sound {f : FILE} (h : f.Sound) (hset : f.flagBufferSet = true) :
    (shiftRight f).Sound := by
  have hread := h.read_le
  have hsize : (shiftRight f).buffer.length = f.buffer.length := by
    unfold shiftRight
    dsimp only
    apply length_overwrite
    simp only [FILE.bufferSize, List.length_take] at hread ⊢
    omega
  exact {
    write_le := by
      have hwrite := h.write_le
      simp only [FILE.bufferSize, hsize]
      exact hwrite
    offset_le := Nat.le_add_right _ _
    read_le := by
      simp only [FILE.bufferSize, hsize]
      simp only [shiftRight, FILE.bufferSize] at hread ⊢
      omega
    buffered := fun _ => by
      have hbuf := h.buffered hset
      simp only [FILE.bufferSize, hsize]
      exact hbuf
    unused := fun hc => by simp [shiftRight, hset] at hc }

theorem unreadBuffered_sound {s : State W} (h : s.stream.Sound) (c8 : UInt8)
    (hset : s.stream.flagBufferSet = true) :
    ∃ r t, unreadBuffered c8 s = some (r, t) ∧ t.stream.Sound := by
  unfold unreadBuffered
  by_cases hoffset : s.stream.bufferedBytesReadOffset = 0
  · rw [if_pos hoffset]
    split
    · exact ⟨EOF, s, rfl, h⟩
    · exact putBack_sound (shiftRight_sound h hset) c8 hset
  · rw [if_neg hoffset]
    exact putBack_sound h c8 hset

theorem fungetcUnlocked_sound (K : Kernel W) (c : ℤ) {s : State W} (h : s.stream.Sound) :
    ∃ r t, fungetcUnlocked K c s = some (r, t) ∧ t.stream.Sound := by
  obtain ⟨r₁, s₁, heq₁, h₁, hres₁⟩ := ensureBuffer_sound K h
  unfold fungetcUnlocked
  simp only [heq₁]
  rcases hres₁ with ⟨rfl, _, _⟩ | ⟨rfl, hset₁, _, _⟩
  · exact ⟨EOF, s₁, by simp, h₁⟩
  · have hmode := (h₁.buffered hset₁).1
    obtain ⟨r₂, s₂, heq₂, h₂, _, hset₂, _, _, hres₂⟩ := fflushWriteUnlocked_sound K h₁
    simp only [hmode, zero_ne_EOF, if_false]
    rw [ite_fflushWriteUnlocked, heq₂]
    rcases hres₂ with rfl | ⟨rfl, _⟩
    · exact ⟨EOF, s₂, by simp, h₂⟩
    · have hset₃ : s₂.stream.flagBufferSet = true := hset₂.trans hset₁
      simp only [zero_ne_EOF, if_false]
      have h₃ : ({ s₂ with stream := { s₂.stream with
          flagDirectionRead := true, flagEof := false } } : State W).stream.Sound :=
        ⟨⟨h₂.write_le, h₂.offset_le, h₂.read_le⟩, h₂.buffered,
          fun hc => by simp [hset₃] at hc⟩
      by_cases hc : c = EOF
      · exact ⟨EOF, _, if_pos hc, h₃⟩
      · rw [if_neg hc]
        exact unreadBuffered_sound h₃ (toByte c) hset₃

theorem freadUnlocked_sound (K : Kernel W) (size nmemb : ℕ) {s : State W}
    (h : s.stream.Sound) :
    ∃ n stored t, freadUnlocked K size nmemb s = some (n, stored, t) ∧ t.stream.Sound := by
  unfold freadUnlocked
  by_cases hzero : size = 0 ∨ nmemb = 0
  · exact ⟨0, [], s, if_pos hzero, h⟩
  · rw [if_neg hzero]
    by_cases hmode : s.stream.mode.read = false
    · exact ⟨SIZE_MAX, [], s.setError, if_pos hmode, setError_sound h⟩
    · rw [if_neg hmode]
      obtain ⟨r, t, heq, ht, hres⟩ := ensureBuffer_sound K h
      rcases hres with ⟨rfl, _, _⟩ | ⟨rfl, hset, _, _⟩
      · exact ⟨SIZE_MAX, [], t, by simp [heq], ht⟩
      · simp only [heq, zero_ne_EOF, if_false, (ht.buffered hset).1]
        exact freadLoop_sound K size nmemb (size * nmemb) [] ht

theorem fwriteUnlocked_sound (K : Kernel W) (ptr : List UInt8) (size nmemb : ℕ) {s : State W}
    (h : s.stream.Sound)
    (hno : size ≠ 0 → nmemb ≠ 0 → s.stream.mode.write = true → ¬ s.stream.Overruns) :
    ∃ n t, fwriteUnlocked K ptr size nmemb s = some (n, t) ∧ t.stream.Sound := by
  unfold fwriteUnlocked
  by_cases hzero : size = 0 ∨ nmemb = 0
  · exact ⟨0, s, if_pos hzero, h⟩
  · rw [if_neg hzero]
    rw [not_or] at hzero
    by_cases hmode : s.stream.mode.write = false
    · exact ⟨SIZE_MAX, s.setError, if_pos hmode, setError_sound h⟩
    · rw [if_neg hmode]
      have hnot := hno hzero.1 hzero.2 (by simpa using hmode)
      obtain ⟨r, t, heq, ht, hres⟩ := ensureBuffer_sound K h
      rcases hres with ⟨rfl, _, _⟩ | ⟨rfl, hset, hsame, hfresh⟩
      · exact ⟨SIZE_MAX, t, by simp [heq], ht⟩
      · obtain ⟨hionbf, hpos⟩ := ht.buffered hset
        simp only [heq, zero_ne_EOF, if_false, hionbf]
        apply fwriteLoop_sound K size nmemb ptr 0 ht
        cases hs : s.stream.flagBufferSet with
        | true => rwa [hsame hs]
        | false =>
          rintro ⟨_, hfull, _, _⟩
          rw [hfresh hs] at hfull
          omega

theorem fwriteUnlocked_overruns (K : Kernel W) {ptr : List UInt8} {size nmemb : ℕ}
    {s : State W} (h : s.stream.Sound) (hover : s.stream.Overruns)
    (hsize : size ≠ 0) (hnmemb : nmemb ≠ 0) (hptr : ptr ≠ [])
    (hmode : s.stream.mode.write = true) : fwriteUnlocked K ptr size nmemb s = none := by
  have hset := hover.1
  have hensure : ensureBuffer K s = (0, s) := by simp [ensureBuffer, hset]
  obtain ⟨b, ptr, rfl⟩ := List.exists_cons_of_ne_nil hptr
  simp [fwriteUnlocked, hsize, hnmemb, hmode, hensure, (h.buffered hset).1, fwriteLoop,
    fputcUnlocked_overruns K _ h hover]

theorem fflushUnlocked_sound (K : Kernel W) {s : State W} (h : s.stream.Sound) :
    (fflushUnlocked K s).2.stream.Sound := by
  obtain ⟨r, t, heq, ht, _⟩ := fflushReadUnlocked_sound K h
  obtain ⟨r', u, heq', hu, _⟩ := fflushWriteUnlocked_sound K ht
  rcases fflushUnlocked_cases K s with hflush | hflush
  · rw [hflush, heq]
    exact ht
  · rw [hflush, heq, heq']
    exact hu

/-- The operation hands at least one byte to `fputc`. -/
def Op.Stores (f : FILE) : Op → Prop
  | .fputc _ => True
  | .fwrite size nmemb _ => size ≠ 0 ∧ nmemb ≠ 0 ∧ f.mode.write = true
  | _ => False

theorem step_sound (K : Kernel W) {s : State W} (op : Op) (h : s.stream.Sound)
    (hguard : ¬ (op.Stores s.stream ∧ s.stream.Overruns)) :
    ∃ t, step K s op = some t ∧ t.stream.Sound := by
  cases op with
  | fgetc =>
    obtain ⟨r, t, heq, ht⟩ := fgetcUnlocked_sound K h
    exact ⟨t, by simp [step, Op.exec, heq], ht⟩
  | fread size nmemb =>
    obtain ⟨n, stored, t, heq, ht⟩ := freadUnlocked_sound K size nmemb h
    exact ⟨t, by simp [step, Op.exec, heq], ht⟩
  | ungetc c =>
    obtain ⟨r, t, heq, ht⟩ := fungetcUnlocked_sound K c h
    exact ⟨t, by simp [step, Op.exec, heq], ht⟩
  | fputc c =>
    have hno : ¬ s.stream.Overruns := fun hover => hguard ⟨trivial, hover⟩
    obtain ⟨r, t, heq, ht, _⟩ := fputcUnlocked_sound K c h hno
    exact ⟨t, by simp [step, Op.exec, heq], ht⟩
  | fwrite size nmemb ptr =>
    obtain ⟨n, t, heq, ht⟩ := fwriteUnlocked_sound K ptr.toList size nmemb h
      (fun hsize hnmemb hmode hover => hguard ⟨⟨hsize, hnmemb, hmode⟩, hover⟩)
    exact ⟨t, by simp [step, Op.exec, heq], ht⟩
  | fflush => exact ⟨_, rfl, fflushUnlocked_sound K h⟩

theorem step_overruns (K : Kernel W) {s : State W} {op : Op} (h : s.stream.Sound)
    (hstores : op.Stores s.stream) (hover : s.stream.Overruns) : step K s op = none := by
  cases op with
  | fputc c => simp [step, Op.exec, fputcUnlocked_overruns K c h hover]
  | fwrite size nmemb ptr =>
    obtain ⟨hsize, hnmemb, hmode⟩ := hstores
    have hptr : ptr.toList ≠ [] := by
      intro hnil
      have hlen := congrArg List.length hnil
      simp [hsize, hnmemb] at hlen
    simp [step, Op.exec,
      fwriteUnlocked_overruns K h hover hsize hnmemb hptr hmode]
  | _ => exact absurd hstores id

/-- A stream as it is handed to a program: nothing is buffered, and if a buffer
has been set the stream is buffered and the buffer is not empty. -/
structure FILE.Fresh (f : FILE) : Prop where
  write_zero : f.bufferedBytesWrite = 0
  read_zero : f.bufferedBytesRead = 0
  offset_zero : f.bufferedBytesReadOffset = 0
  notReading : f.flagDirectionRead = false
  notWriting : f.flagDirectionWrite = false
  buffered : f.flagBufferSet = true → f.bufferMode ≠ .ionbf ∧ 0 < f.bufferSize

theorem FILE.Fresh.sound {f : FILE} (h : f.Fresh) : f.Sound where
  write_le := by rw [h.write_zero]; exact Nat.zero_le _
  offset_le := by rw [h.offset_zero]; exact Nat.zero_le _
  read_le := by rw [h.read_zero]; exact Nat.zero_le _
  buffered := h.buffered
  unused _ := ⟨h.write_zero, h.read_zero, h.notReading, h.notWriting⟩

/-- No byte is put on a stream whose full buffer is not going to be flushed. -/
def OverrunFree (K : Kernel W) (ops : List Op) (s : State W) : Prop :=
  Guarded (step K) (fun s op => ¬ (op.Stores s.stream ∧ s.stream.Overruns))
    ops s

theorem OverrunFree.along (K : Kernel W) {ops : List Op} {s : State W}
    (hs : s.stream.Sound) (h : OverrunFree K ops s) :
    Along (step K) (fun s => s.stream.Sound) ops s :=
  Guarded.along (fun _ op => step_sound K op) hs h

/-- Every access of a run is inside the buffer and every state within bounds,
exactly when no byte is put on an overrunning stream. -/
theorem buffer_bounds_iff (K : Kernel W) (ops : List Op) (s : State W)
    (hs : s.stream.Fresh) :
    Along (step K) (fun s => s.stream.Bounds) ops s ↔
      OverrunFree K ops s := by
  apply along_iff_guarded (I := fun s => s.stream.Sound) (fun _ h => h.toBounds)
    (fun _ op h hguard => step_sound K op h hguard)
  · intro t op ht hbad u hu
    obtain ⟨hstores, hover⟩ := not_not.mp hbad
    rw [step_overruns K ht hstores hover] at hu
    cases hu
  · exact hs.sound

theorem openedStream_fresh (mode : ModeFlags) {memory : List UInt8} {bufferMode : BufferMode}
    (hmode : bufferMode ≠ .ionbf) (hpos : 0 < memory.length) :
    (openedStream mode memory bufferMode).Fresh :=
  ⟨rfl, rfl, rfl, rfl, rfl, fun _ => ⟨hmode, hpos⟩⟩

theorem buffer_bounds_iff_oneByte :
    Along (step scriptedKernel) (fun s : State _ => s.stream.Bounds)
        [.fputc 65, .fflush, .fputc 66] ⟨openedStream writeFlags [0] .iofbf, []⟩ ↔
      OverrunFree scriptedKernel [.fputc 65, .fflush, .fputc 66]
        ⟨openedStream writeFlags [0] .iofbf, []⟩ :=
  buffer_bounds_iff scriptedKernel _ _ (openedStream_fresh writeFlags (by decide) (by decide))

/-- One refused flush of a full buffer: the byte after it is stored at index
`buffer_size`. -/
theorem buffer_bounds_oneByte_refused :
    (openedStream writeFlags [0] .iofbf).Fresh ∧
    ¬ Along (step scriptedKernel) (fun s : State _ => s.stream.Bounds)
      [.fputc 65, .fputc 66, .fputc 67] ⟨openedStream writeFlags [0] .iofbf, [none]⟩ := by
  refine ⟨openedStream_fresh writeFlags (by decide) (by decide), ?_⟩
  intro h
  obtain ⟨t, ht, _⟩ := h.foldlM
  have hnone : (([.fputc 65, .fputc 66, .fputc 67] : List Op).foldlM (step scriptedKernel)
      ⟨openedStream writeFlags [0] .iofbf, [none]⟩).isNone = true := by
    decide +kernel
  rw [ht] at hnone
  cases hnone

end Heartix.Stdio
