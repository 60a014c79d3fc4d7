import Heartix.Stdio.Cursor

/-!
The flushes move bytes between the buffer and the file of the kernel. The cursor
the stream shows does not notice, except that a read flush forgets the bytes
pushed back. A read flush needs the kernel's offset, which `impl_seek` cuts to an
int; where the cut offset is a different one, the position is lost.
-/

namespace Heartix.Stdio

open Overwrite PartialTransfer

variable {W : Type} {K : Kernel W} {fd : ℤ} {F : SeekableFile K fd} {s : State W} {c : Cursor}

/-- On a regular file the loop around `impl_write` gets everything written. -/
theorem writeLoop_file (F : SeekableFile K fd) (done : ℕ) (rest : List UInt8) (s : State W)
    (hfd : s.stream.fileDescriptor = fd) :
    (writeLoop K done rest s).2.1 = [] ∧
      F.file (writeLoop K done rest s).2.2.world =
        (F.file s.world).write (F.offset s.world) rest ∧
      F.offset (writeLoop K done rest s).2.2.world = F.offset s.world + rest.length := by
  induction hlen : rest.length using Nat.strong_induction_on generalizing done rest s with
  | h len ih =>
    subst hlen
    unfold writeLoop
    by_cases hrest : rest = []
    · subst hrest
      simp
    · obtain ⟨n, w, heq, hn, hfile, hoffset⟩ := F.write_spec rest s.world hrest
      obtain ⟨n, hlt⟩ := n
      obtain ⟨n, rfl⟩ := Nat.exists_eq_add_of_lt hn
      simp only [Nat.zero_add] at heq hfile hoffset hlt
      rw [dif_neg hrest]
      unfold implWrite
      rw [hfd, heq]
      dsimp only
      have hpos := List.length_pos_of_ne_nil hrest
      obtain ⟨hleft, hfile', hoffset'⟩ := ih (rest.drop (n + 1)).length
        (by simp only [List.length_drop]; omega) (done + (n + 1)) (rest.drop (n + 1))
        ⟨{ s.stream with writes := s.stream.writes ++ [⟨done, rest.take (n + 1)⟩] }, w⟩ hfd rfl
      refine ⟨hleft, ?_, ?_⟩
      · rw [hfile', hoffset, hfile]
        have htake : (rest.take (n + 1)).length = n + 1 := by
          simp only [List.length_take]
          omega
        have hwrite := (F.file s.world).write_write (F.offset s.world) (rest.take (n + 1))
          (rest.drop (n + 1))
        rwa [htake, List.take_append_drop] at hwrite
      · rw [hoffset', hoffset, List.length_drop]
        omega

/-- A write flush succeeds and empties the buffer. -/
theorem Shows.fflushWrite (h : Shows F s c) :
    ∃ t, fflushWriteUnlocked K s = (0, t) ∧ Shows F t c ∧
      t.stream.flagDirectionWrite = false ∧ t.stream.pending = [] ∧
      t.stream.unread = s.stream.unread ∧ t.stream.buffer = s.stream.buffer ∧
      t.stream.flagBufferSet = s.stream.flagBufferSet ∧
      t.stream.bufferMode = s.stream.bufferMode ∧
      t.stream.flagDirectionRead = s.stream.flagDirectionRead := by
  cases hdir : s.stream.flagDirectionWrite with
  | false =>
    exact ⟨s, by simp [fflushWriteUnlocked, hdir], h, hdir, h.pending_eq_nil hdir,
      rfl, rfl, rfl, rfl, rfl⟩
  | true =>
    obtain ⟨hread, hmode⟩ := h.oneWay hdir
    have hunread := h.unread_eq_nil hread
    obtain ⟨hleft, hfile, hoffset⟩ := writeLoop_file F 0 s.stream.pending s h.fd_eq
    obtain ⟨left, calls, eof, error, w, hloop, _⟩ := writeLoop_eq K 0 s.stream.pending s
    rw [hloop] at hleft hfile hoffset
    dsimp only at hleft hfile hoffset
    subst hleft
    have heq : fflushWriteUnlocked K s = (0,
        ⟨{ s.stream with flagEof := eof, flagError := error,
                         writes := s.stream.writes ++ calls,
                         flagDirectionWrite := false,
                         bufferedBytesWrite := 0 }, w⟩) := by
      simp [fflushWriteUnlocked, hdir, hmode, h.canWrite, hloop]
    have hsound : ((fflushWriteUnlocked K s).2).stream.Sound := by
      obtain ⟨_, _, heq', hsound, _⟩ := fflushWriteUnlocked_sound K h.sound
      rwa [heq']
    rw [heq] at hsound
    refine ⟨_, heq, ?_, rfl, rfl, rfl, rfl, rfl, rfl, rfl⟩
    exact {
      sound := hsound
      fd_eq := h.fd_eq
      readable := h.readable
      canWrite := h.canWrite
      canSeek := h.canSeek
      canTell := h.canTell
      file_eq := by
        rw [h.file_eq, ← hfile]
        exact (FlatFile.write_nil _ _).symm
      position_eq := by
        have hposition := h.position_eq
        show c.position = (F.offset w : ℤ) + ((0 : ℕ) : ℤ) - s.stream.unread.length
        rw [hoffset, hposition]
        push_cast
        omega
      ahead := by
        refine ⟨[], ?_, Nat.zero_le _, FlatFile.read_zero _ _⟩
        show s.stream.unread = c.pushed ++ []
        rw [h.pushed_eq_nil hunread, hunread]
        rfl
      writing := fun hne => absurd rfl hne
      reading := h.reading
      oneWay := fun hc => by cases hc }

/-- The offsets of the kernel that `impl_seek` hands through unchanged, or that
a read flush leaves alone because they come out negative. -/
def Restorable (F : SeekableFile K fd) (s : State W) : Prop :=
  s.stream.flagDirectionRead = true →
    (F.offset s.world : ℤ) < 2 ^ 31 ∨
      (F.offset s.world : ℤ).bmod (2 ^ 32) < 0 ∧ s.stream.unread = []

theorem bmod_eq_self {n : ℤ} (h : 0 ≤ n) (hlt : n < 2 ^ 31) : n.bmod (2 ^ 32) = n := by
  rw [Int.bmod_eq_of_le] <;> omega

/-- What the kernel's offset is after a read flush. -/
theorem restorePosition_file (h : Shows F s c) (hdir : s.stream.flagDirectionRead = true)
    (hsafe : Restorable F s) :
    ∃ t, restorePosition K ((F.offset s.world : ℤ).bmod (2 ^ 32)) s = t ∧
      F.file t.world = F.file s.world ∧
      (F.offset t.world : ℤ) = max (F.offset s.world - s.stream.unread.length : ℤ) 0 := by
  refine ⟨_, rfl, ?_⟩
  unfold restorePosition
  have hlen := FILE.length_unread h.sound.toBounds
  rcases hsafe hdir with hsmall | ⟨hneg, hunread⟩
  · rw [bmod_eq_self (by omega) hsmall, if_pos (by omega)]
    dsimp only
    rw [← hlen]
    have htarget : (if (F.offset s.world : ℤ) < (s.stream.unread.length : ℤ) then (0 : ℤ)
        else (F.offset s.world : ℤ) - s.stream.unread.length) =
        max (F.offset s.world - s.stream.unread.length : ℤ) 0 := by
      split <;> omega
    rw [htarget]
    obtain ⟨w, hseek, hfile, hoffset⟩ := F.seek_set
      (max (F.offset s.world - s.stream.unread.length : ℤ) 0) s.world (by omega)
    unfold implSeek
    rw [h.fd_eq, hseek]
    dsimp only
    split
    · refine ⟨hfile, ?_⟩
      show (F.offset w : ℤ) = _
      omega
    · refine ⟨hfile, ?_⟩
      show (F.offset w : ℤ) = _
      omega
  · rw [if_neg (by omega), hunread]
    refine ⟨rfl, ?_⟩
    simp only [List.length_nil]
    omega

/-- A read flush of a seekable stream, by the two seeks it makes. -/
theorem Shows.fflushRead_eq (h : Shows F s c) (hdir : s.stream.flagDirectionRead = true)
    {current : ℤ} {s₁ t : State W} (hseek : implSeek K 0 .seekCur s = (current, s₁))
    (hrestore : restorePosition K current s₁ = t) :
    fflushReadUnlocked K s = (0, { t with stream := { t.stream with
      bufferedBytesRead := 0
      bufferedBytesReadOffset := 0
      flagDirectionRead := false } }) := by
  unfold fflushReadUnlocked
  rw [if_neg (by simp [hdir]), if_neg (by simp [h.readable]), if_pos h.canSeek, hseek]
  dsimp only
  rw [hrestore]

/-- A read flush takes the file back to the position of the cursor. -/
theorem Shows.fflushRead (h : Shows F s c) (hsafe : Restorable F s) :
    ∃ t, fflushReadUnlocked K s = (0, t) ∧ Shows F t c.settle ∧
      t.stream.flagDirectionRead = false ∧ t.stream.pending = s.stream.pending ∧
      t.stream.buffer = s.stream.buffer ∧ t.stream.flagBufferSet = s.stream.flagBufferSet ∧
      t.stream.bufferMode = s.stream.bufferMode ∧
      t.stream.bufferedBytesWrite = s.stream.bufferedBytesWrite ∧
      t.stream.flagDirectionWrite = s.stream.flagDirectionWrite := by
  cases hdir : s.stream.flagDirectionRead with
  | false =>
    have hsettle := h.settle_eq (h.unread_eq_nil hdir)
    exact ⟨s, fflushReadUnlocked_notReading K hdir, hsettle.symm ▸ h, hdir, rfl, rfl, rfl, rfl,
      rfl, rfl⟩
  | true =>
    have hdirW := h.notWriting hdir
    have hpending := h.pending_eq_nil hdirW
    obtain ⟨w, hcur, hfile, hoffset⟩ := F.seek_cur 0 s.world (by omega)
    have hzero : F.offset w = F.offset s.world := by omega
    have h₁ : Shows F { s with world := w } c :=
      h.of_eq h.sound rfl rfl rfl rfl rfl hfile hzero
    have hsafe₁ : Restorable F { s with world := w } := by
      unfold Restorable
      rw [hzero]
      exact hsafe
    obtain ⟨t, hrestore, hfile', hoffset'⟩ := restorePosition_file h₁ hdir hsafe₁
    obtain ⟨error, w', heq⟩ := restorePosition_eq K
      ((F.offset w : ℤ).bmod (2 ^ 32)) { s with world := w }
    have hseek : implSeek K 0 .seekCur s =
        ((F.offset w : ℤ).bmod (2 ^ 32), { s with world := w }) := by
      unfold implSeek
      rw [h.fd_eq, hcur, hzero, Int.add_zero]
    rw [hrestore] at heq
    subst heq
    have hflush := h.fflushRead_eq hdir hseek hrestore
    have hsound : ((fflushReadUnlocked K s).2).stream.Sound := by
      obtain ⟨_, _, heq', hsound, _⟩ := fflushReadUnlocked_sound K h.sound
      rwa [heq']
    rw [hflush] at hsound
    refine ⟨_, hflush, ?_, rfl, rfl, rfl, rfl, rfl, rfl, rfl⟩
    have hposition := h.position_eq
    rw [hpending, List.length_nil] at hposition
    dsimp only at hfile' hoffset'
    rw [hzero] at hoffset'
    exact {
      sound := hsound
      fd_eq := h.fd_eq
      readable := h.readable
      canWrite := h.canWrite
      canSeek := h.canSeek
      canTell := h.canTell
      file_eq := by
        have heq := h.file_eq
        show c.file = (F.file w').write (F.offset w') s.stream.pending
        rw [hpending, FlatFile.write_nil] at heq ⊢
        rw [hfile', hfile, heq]
      position_eq := by
        show max c.position 0 = (F.offset w' : ℤ) + s.stream.pending.length - ((0 : ℕ) : ℤ)
        rw [hpending, List.length_nil, hposition]
        omega
      ahead := ⟨[], rfl, Nat.zero_le _, FlatFile.read_zero _ _⟩
      writing := fun hne => absurd hpending hne
      reading := fun hne => absurd rfl hne
      oneWay := fun hc => by simp [hdirW] at hc }

/-- A stream without buffer gets one. -/
theorem Shows.ensureBuffer (h : Shows F s c) :
    ∃ t, ensureBuffer K s = (0, t) ∧ Shows F t c ∧ t.stream.flagBufferSet = true ∧
      t.stream.flagDirectionRead = s.stream.flagDirectionRead ∧
      (s.stream.flagBufferSet = true → t = s) ∧
      (s.stream.flagBufferSet = false → t.stream.unread = []) ∧
      (Restorable F s → Restorable F t) := by
  cases hset : s.stream.flagBufferSet with
  | true =>
    exact ⟨s, by simp [Stdio.ensureBuffer, hset], h, hset, rfl, fun _ => rfl,
      fun hc => by simp at hc, id⟩
  | false =>
    obtain ⟨hwrite, hread, hdirR, hdirW⟩ := h.sound.unused hset
    have hrelease : F.file (releaseBuffer K s).world = F.file s.world ∧
        F.offset (releaseBuffer K s).world = F.offset s.world := by
      unfold releaseBuffer
      split
      · exact F.free_spec s.stream.bufferAddress s.world
      · exact ⟨rfl, rfl⟩
    obtain ⟨⟨address, memory⟩, w, hmalloc, hfile, hoffset⟩ :=
      F.malloc_spec BUFSIZ (releaseBuffer K s).world
    have hsetvbuf : setvbufUnlocked K none .iofbf BUFSIZ s =
        (0, ⟨attachBuffer address memory.toList .iofbf true s.stream, w⟩) := by
      have hsize : (if BUFSIZ = 0 then BUFSIZ
          else if BUFSIZ < BUFSIZMIN then BUFSIZMIN else BUFSIZ) = BUFSIZ := by decide
      unfold setvbufUnlocked
      dsimp only
      rw [hsize, hmalloc]
      simp
    have hensure : Stdio.ensureBuffer K s =
        (0, ⟨attachBuffer address memory.toList .iofbf true s.stream, w⟩) := by
      simp [Stdio.ensureBuffer, hset, setdefbufUnlocked, hsetvbuf]
    have hsound : (Stdio.ensureBuffer K s).2.stream.Sound := by
      obtain ⟨_, _, heq, hsound, _⟩ := ensureBuffer_sound K h.sound
      rwa [heq]
    rw [hensure] at hsound
    have hunread := h.unread_eq_nil hdirR
    refine ⟨_, hensure, ?_, rfl, rfl, fun hc => by simp at hc, fun _ => rfl, ?_⟩
    · refine h.of_eq hsound rfl ?_ ?_ rfl rfl (hfile.trans hrelease.1)
        (hoffset.trans hrelease.2)
      · rw [h.pending_eq_nil hdirW]
        rfl
      · rw [hunread]
        rfl
    · intro _ hc
      have hfalse : s.stream.flagDirectionRead = true := hc
      simp [hdirR] at hfalse

/-- `fflush` succeeds, empties the buffer and forgets the bytes pushed back. -/
theorem Shows.fflush (h : Shows F s c) (hsafe : Restorable F s) :
    ∃ t, fflushUnlocked K s = (0, t) ∧ Shows F t c.settle := by
  obtain ⟨t, hread, ht, _⟩ := h.fflushRead hsafe
  obtain ⟨u, hwrite, hu, _⟩ := ht.fflushWrite
  refine ⟨u, ?_, hu⟩
  unfold fflushUnlocked
  rw [ite_fflushReadUnlocked, hread]
  simp only [zero_ne_EOF, if_false]
  rw [ite_fflushWriteUnlocked, hwrite]
  simp

/-- Restoring the position leaves the file alone, whatever the offset is. -/
theorem restorePosition_keeps (F : SeekableFile K fd) (current : ℤ) (s : State W)
    (hfd : s.stream.fileDescriptor = fd) :
    F.file (restorePosition K current s).world = F.file s.world := by
  unfold restorePosition
  by_cases hcurrent : 0 ≤ current
  · rw [if_pos hcurrent]
    dsimp only
    generalize hrestored : (if current < _ then (0 : ℤ) else _) = restored
    have hnonneg : 0 ≤ restored := by
      rw [← hrestored]
      split <;> omega
    obtain ⟨w, hseek, hfile, _⟩ := F.seek_set restored s.world hnonneg
    unfold implSeek
    rw [hfd, hseek]
    dsimp only
    split
    · exact hfile
    · exact hfile
  · rw [if_neg hcurrent]

/-- Whatever the offset, a flush succeeds and leaves the file of the cursor. -/
theorem Shows.fflush_file (h : Shows F s c) :
    (fflushUnlocked K s).1 = 0 ∧ F.file (fflushUnlocked K s).2.world = c.file := by
  cases hdir : s.stream.flagDirectionRead with
  | false =>
    obtain ⟨t, hwrite, ht, _, hpending, _⟩ := h.fflushWrite
    rw [fflushUnlocked_notReading K hdir, hwrite]
    refine ⟨rfl, ?_⟩
    rw [ht.file_eq, hpending, FlatFile.write_nil]
  | true =>
    have hdirW := h.notWriting hdir
    obtain ⟨w, hcur, hfile, hoffset⟩ := F.seek_cur 0 s.world (by omega)
    have hseek : ∃ current, implSeek K 0 .seekCur s = (current, { s with world := w }) := by
      unfold implSeek
      rw [h.fd_eq, hcur]
      exact ⟨_, rfl⟩
    obtain ⟨current, hseek⟩ := hseek
    have hkeeps := restorePosition_keeps F current { s with world := w } h.fd_eq
    obtain ⟨error, w', hrestore⟩ := restorePosition_eq K current { s with world := w }
    rw [hrestore] at hkeeps
    have hread := h.fflushRead_eq hdir hseek hrestore
    unfold fflushUnlocked
    rw [ite_fflushReadUnlocked, hread]
    simp only [zero_ne_EOF, if_false, hdirW, Bool.false_eq_true, true_and]
    rw [h.file_eq, h.pending_eq_nil hdirW, FlatFile.write_nil, ← hfile]
    exact hkeeps

end Heartix.Stdio
