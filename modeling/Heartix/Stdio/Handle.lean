import Heartix.Stdio.Access

/-!
What the operations on an open stream keep. A relation between states that
survives the calls of the kernel, the changes of counters, indicators and buffer
bytes, and the setting of the default buffer, survives every operation; a byte
that is stored is a case of its own. The first use is the part of a stream that no
transfer of bytes changes: the file descriptor, the lock, the mode, the
implementations and the links of the open file list.
-/

namespace Heartix.Stdio

open PartialTransfer

variable {W : Type}

namespace FILE

/-- The stream with everything cleared that reading and writing may change. -/
def handle (f : FILE) : FILE :=
  { (default : FILE) with
    fileDescriptor := f.fileDescriptor, lock := f.lock, mode := f.mode
    implRead := f.implRead, implWrite := f.implWrite, implSeek := f.implSeek
    implTell := f.implTell, implReopen := f.implReopen, implClearerr := f.implClearerr
    prev := f.prev, next := f.next }

/-- The handle and the bytes stored so far, which only `fputc` and `fwrite` add to. -/
def record (f : FILE) : FILE := { f.handle with stored := f.stored }

/-- The stream with everything cleared that moving bytes may change; of the
buffer it keeps where it is and whose. -/
def frame (f : FILE) : FILE :=
  { f.record with
    bufferAddress := f.bufferAddress, bufferMode := f.bufferMode
    flagBufferSet := f.flagBufferSet, flagOwnerLibrary := f.flagOwnerLibrary }

variable {f g : FILE}

theorem record_of_frame (h : f.frame = g.frame) : f.record = g.record :=
  (congrArg (fun f => { f with
    bufferAddress := 0, bufferMode := .zeroed, flagBufferSet := false
    flagOwnerLibrary := false }) h :)

theorem handle_of_record (h : f.record = g.record) : f.handle = g.handle :=
  (congrArg handle h :)

theorem stored_of_record (h : f.record = g.record) : f.stored = g.stored :=
  (congrArg stored h :)

theorem fileDescriptor_eq (h : f.handle = g.handle) : f.fileDescriptor = g.fileDescriptor :=
  (congrArg fileDescriptor h :)

theorem mode_eq (h : f.handle = g.handle) : f.mode = g.mode := (congrArg mode h :)

theorem implWrite_eq (h : f.handle = g.handle) : f.implWrite = g.implWrite :=
  (congrArg implWrite h :)

theorem implSeek_eq (h : f.handle = g.handle) : f.implSeek = g.implSeek :=
  (congrArg implSeek h :)

theorem implTell_eq (h : f.handle = g.handle) : f.implTell = g.implTell :=
  (congrArg implTell h :)

theorem implReopen_eq (h : f.handle = g.handle) : f.implReopen = g.implReopen :=
  (congrArg implReopen h :)

theorem prev_eq (h : f.handle = g.handle) : f.prev = g.prev := (congrArg prev h :)

theorem next_eq (h : f.handle = g.handle) : f.next = g.next := (congrArg next h :)

end FILE

/-- The steps that a transfer of bytes is made of keep the relation. -/
structure Preserves (K : Kernel W) (R : State W → State W → Prop) : Prop where
  refl : ∀ s, R s s
  trans : ∀ {s t u}, R s t → R t u → R s u
  fields : ∀ {f g : FILE} (w : W), g.frame = f.frame → R ⟨f, w⟩ ⟨g, w⟩
  write : ∀ fd bytes (s : State W), R s { s with world := (K.write fd bytes s.world).2 }
  read : ∀ fd len (s : State W), R s { s with world := (K.read fd len s.world).2 }
  lseek : ∀ fd offset whence (s : State W),
    R s { s with world := (K.lseek fd offset whence s.world).2 }

/-- So does the setting of the default buffer. -/
structure PreservesBuffer (K : Kernel W) (R : State W → State W → Prop) : Prop
    extends Preserves K R where
  buffer : ∀ s, R s (ensureBuffer K s).2

/-- So does the storing of a byte. -/
structure PreservesStored (K : Kernel W) (R : State W → State W → Prop) : Prop
    extends PreservesBuffer K R where
  store : ∀ {c8 s t}, storeByte c8 s = some t → R s t

namespace Preserves

variable {K : Kernel W} {R : State W → State W → Prop} (h : Preserves K R)

include h

theorem fieldsOf {s t : State W} (hframe : t.stream.frame = s.stream.frame)
    (hworld : t.world = s.world) : R s t := by
  obtain ⟨f, w⟩ := s
  obtain ⟨g, w'⟩ := t
  dsimp only at hworld
  subst hworld
  exact h.fields w' hframe

theorem implWrite (done : ℕ) (bytes : List UInt8) (s : State W) :
    R s (implWrite K done bytes s).2 := by
  have hwrite := h.write s.stream.fileDescriptor bytes s
  unfold Stdio.implWrite
  generalize K.write s.stream.fileDescriptor bytes s.world = result at hwrite ⊢
  obtain ⟨_ | n, w⟩ := result
  · exact h.trans hwrite (h.fieldsOf rfl rfl)
  · exact h.trans hwrite (h.fieldsOf rfl rfl)

theorem implRead (len : ℕ) (s : State W) : R s (implRead K len s).2 := by
  have hread := h.read s.stream.fileDescriptor len s
  unfold Stdio.implRead
  generalize K.read s.stream.fileDescriptor len s.world = result at hread ⊢
  obtain ⟨_ | bytes, w⟩ := result
  · exact hread
  · exact hread

theorem implSeek (offset : ℤ) (whence : Whence) (s : State W) :
    R s (implSeek K offset whence s).2 :=
  h.lseek s.stream.fileDescriptor offset whence s

theorem writeLoop (done : ℕ) (rest : List UInt8) (s : State W) :
    R s (writeLoop K done rest s).2.2 := by
  induction hlen : rest.length using Nat.strong_induction_on generalizing done rest s with
  | h n ih =>
    subst hlen
    have hwrite := h.implWrite done rest s
    unfold Stdio.writeLoop
    by_cases hrest : rest = []
    · rw [dif_pos hrest]
      exact h.refl s
    · rw [dif_neg hrest]
      have hpos := List.length_pos_of_ne_nil hrest
      generalize Stdio.implWrite K done rest s = result at hwrite ⊢
      obtain ⟨_ | _ | n, t⟩ := result
      · exact h.trans hwrite (h.fieldsOf rfl rfl)
      · exact h.trans hwrite (h.fieldsOf rfl rfl)
      · exact h.trans hwrite (ih _ (by simp only [List.length_drop]; omega) _ _ t rfl)

theorem fflushWriteUnlocked (s : State W) : R s (fflushWriteUnlocked K s).2 := by
  unfold Stdio.fflushWriteUnlocked
  split
  · exact h.refl s
  · split
    · exact h.fieldsOf rfl rfl
    · split
      · exact h.fieldsOf rfl rfl
      · have hloop := h.writeLoop 0 s.stream.pending s
        generalize Stdio.writeLoop K 0 s.stream.pending s = result at hloop ⊢
        exact h.trans hloop (h.fieldsOf rfl rfl)

theorem restorePosition (current : ℤ) (s : State W) : R s (restorePosition K current s) := by
  unfold Stdio.restorePosition
  split
  · dsimp only
    generalize (if current < _ then (0 : ℤ) else _) = restored
    have hseek := h.implSeek restored .seekSet s
    generalize Stdio.implSeek K restored .seekSet s = result at hseek ⊢
    obtain ⟨r, t⟩ := result
    dsimp only
    split
    · exact h.trans hseek (h.fieldsOf rfl rfl)
    · exact hseek
  · exact h.refl s

theorem fflushReadUnlocked (s : State W) : R s (fflushReadUnlocked K s).2 := by
  unfold Stdio.fflushReadUnlocked
  split
  · exact h.refl s
  · split
    · exact h.fieldsOf rfl rfl
    · have hseek : R s (if s.stream.implSeek = true then Stdio.implSeek K 0 .seekCur s
          else (-1, s)).2 := by
        split
        · exact h.implSeek 0 .seekCur s
        · exact h.refl s
      generalize (if s.stream.implSeek = true then Stdio.implSeek K 0 .seekCur s
        else (-1, s)) = result at hseek ⊢
      have hrestore := h.restorePosition result.1 result.2
      exact h.trans (h.trans hseek hrestore) (h.fieldsOf rfl rfl)

theorem fflushUnlocked (s : State W) : R s (fflushUnlocked K s).2 := by
  have hread := h.fflushReadUnlocked s
  rcases fflushUnlocked_cases K s with hflush | hflush
  · rw [hflush]
    exact hread
  · rw [hflush]
    exact h.trans hread (h.fflushWriteUnlocked _)

theorem fwriteUnbuffered (ptr : List UInt8) (size : ℕ) (s : State W) :
    R s (fwriteUnbuffered K ptr size s).2 := by
  unfold Stdio.fwriteUnbuffered
  split
  · exact h.fieldsOf rfl rfl
  · have hloop := h.writeLoop 0 ptr
      { s with stream := { s.stream with flagDirectionWrite := true, flagEof := false } }
    generalize Stdio.writeLoop K 0 ptr _ = result at hloop ⊢
    obtain ⟨r, left, t⟩ := result
    have hkeep : R s t := by
      refine h.trans ?_ hloop
      exact h.fieldsOf rfl rfl
    dsimp only
    split
    · exact hkeep
    · exact hkeep

theorem makeRoom (s : State W) : R s (makeRoom K s).2 := by
  have hread := h.fflushReadUnlocked s
  have hroom := makeRoom_makingRoom K s
  generalize Stdio.makeRoom K s = result at hroom ⊢
  obtain ⟨r, t⟩ := result
  cases hroom with
  | denied heq => rwa [heq] at hread
  | free heq _ => rwa [heq] at hread
  | @flushed _ s₁ _ heq _ hwrite =>
    have hflush := h.fflushWriteUnlocked s₁
    rw [hwrite] at hflush
    rw [heq] at hread
    exact h.trans hread hflush

theorem readLoop (left : ℕ) (s : State W) : R s (readLoop K left s).2 := by
  induction left using Nat.strong_induction_on generalizing s with
  | h left ih =>
    have hread := h.implRead left s
    unfold Stdio.readLoop
    split
    · exact h.refl s
    · generalize Stdio.implRead K left s = result at hread ⊢
      rcases result with ⟨_ | ⟨_ | ⟨b, bytes⟩⟩, t⟩
      · exact h.trans hread (h.fieldsOf rfl rfl)
      · exact h.trans hread (h.fieldsOf rfl rfl)
      · exact h.trans hread (ih (left - (bytes.length + 1)) (by omega) t)

theorem freadUnbuffered (size nmemb : ℕ) (s : State W) :
    R s (freadUnbuffered K size nmemb s).2.2 := by
  unfold Stdio.freadUnbuffered
  split
  · exact h.fieldsOf rfl rfl
  · have hloop := h.readLoop (size * nmemb)
      { s with stream := { s.stream with flagDirectionRead := true, flagEof := false } }
    refine h.trans ?_ hloop
    exact h.fieldsOf rfl rfl

theorem fillBuffer (s : State W) : R s (fillBuffer K s).2 := by
  unfold Stdio.fillBuffer
  dsimp only
  generalize s.stream.bufferSize - _ = len
  have hread := h.implRead len s
  generalize Stdio.implRead K len s = result at hread ⊢
  rcases result with ⟨_ | ⟨_ | ⟨b, bytes⟩⟩, t⟩
  · exact h.trans hread (h.fieldsOf rfl rfl)
  · exact h.trans hread (h.fieldsOf rfl rfl)
  · exact h.trans hread (h.fieldsOf rfl rfl)

theorem takeByte {r : ℤ} {s t : State W} (heq : takeByte s = some (r, t)) : R s t := by
  unfold Stdio.takeByte at heq
  split at heq
  · cases heq
  · obtain ⟨-, rfl⟩ := Prod.mk.inj (Option.some.inj heq)
    exact h.fieldsOf rfl rfl

theorem readBuffered {r : ℤ} {s t : State W} (heq : readBuffered K s = some (r, t)) : R s t := by
  have hfill := h.fillBuffer s
  unfold Stdio.readBuffered at heq
  generalize Stdio.fillBuffer K s = result at heq hfill
  obtain ⟨r₁, s₁⟩ := result
  dsimp only at heq hfill
  split at heq
  · split at heq
    · obtain ⟨-, rfl⟩ := Prod.mk.inj (Option.some.inj heq)
      exact hfill
    · exact h.trans hfill (h.takeByte heq)
  · exact h.takeByte heq

theorem putBack {c8 : UInt8} {r : ℤ} {s t : State W} (heq : putBack c8 s = some (r, t)) :
    R s t := by
  unfold Stdio.putBack at heq
  dsimp only at heq
  split at heq
  · obtain ⟨-, rfl⟩ := Prod.mk.inj (Option.some.inj heq)
    exact h.fieldsOf rfl rfl
  · cases heq

theorem unreadBuffered {c8 : UInt8} {r : ℤ} {s t : State W}
    (heq : unreadBuffered c8 s = some (r, t)) : R s t := by
  unfold Stdio.unreadBuffered at heq
  split at heq
  · split at heq
    · obtain ⟨-, rfl⟩ := Prod.mk.inj (Option.some.inj heq)
      exact h.refl s
    · refine h.trans ?_ (h.putBack heq)
      exact h.fieldsOf rfl rfl
  · exact h.putBack heq

end Preserves

namespace PreservesBuffer

variable {K : Kernel W} {R : State W → State W → Prop} (h : PreservesBuffer K R)

include h

theorem fgetcUnlocked {r : ℤ} {s t : State W} (heq : fgetcUnlocked K s = some (r, t)) :
    R s t := by
  have hensure := h.buffer s
  unfold Stdio.fgetcUnlocked at heq
  generalize ensureBuffer K s = result at heq hensure
  obtain ⟨r₁, s₁⟩ := result
  dsimp only at heq hensure
  split at heq
  · obtain ⟨-, rfl⟩ := Prod.mk.inj (Option.some.inj heq)
    exact hensure
  · split at heq
    · split at heq
      · obtain ⟨-, rfl⟩ := Prod.mk.inj (Option.some.inj heq)
        exact h.trans hensure (h.fieldsOf rfl rfl)
      · have hread := h.freadUnbuffered 1 1 s₁
        generalize Stdio.freadUnbuffered K 1 1 s₁ = result at heq hread
        obtain ⟨n, bytes, s₂⟩ := result
        dsimp only at heq hread
        split at heq
        · obtain ⟨-, rfl⟩ := Prod.mk.inj (Option.some.inj heq)
          exact h.trans hensure hread
        · rcases bytes with _ | ⟨b, bytes⟩
          · cases heq
          · obtain ⟨-, rfl⟩ := Prod.mk.inj (Option.some.inj heq)
            exact h.trans hensure hread
    · rw [ite_fflushWriteUnlocked] at heq
      have hflush := h.trans hensure (h.fflushWriteUnlocked s₁)
      generalize Stdio.fflushWriteUnlocked K s₁ = result at heq hflush
      obtain ⟨r₂, s₂⟩ := result
      dsimp only at heq hflush
      split at heq
      · obtain ⟨-, rfl⟩ := Prod.mk.inj (Option.some.inj heq)
        exact hflush
      · refine h.trans (h.trans hflush ?_) (h.readBuffered heq)
        exact h.fieldsOf rfl rfl

theorem freadLoop {size nmemb left n : ℕ} {bytes stored : List UInt8} {s t : State W}
    (heq : freadLoop K size nmemb left bytes s = some (n, stored, t)) : R s t := by
  induction left generalizing bytes s with
  | zero =>
    obtain ⟨-, -, rfl⟩ := by simpa [Stdio.freadLoop] using heq
    exact h.refl s
  | succ left ih =>
    unfold Stdio.freadLoop at heq
    rcases hget : Stdio.fgetcUnlocked K s with _ | ⟨c, u⟩
    · simp [hget] at heq
    · simp only [hget] at heq
      have hkeep := h.fgetcUnlocked hget
      split at heq
      · obtain ⟨-, -, rfl⟩ := by simpa using heq
        exact hkeep
      · exact h.trans hkeep (ih heq)

theorem freadUnlocked {size nmemb n : ℕ} {stored : List UInt8} {s t : State W}
    (heq : freadUnlocked K size nmemb s = some (n, stored, t)) : R s t := by
  have hensure := h.buffer s
  unfold Stdio.freadUnlocked at heq
  generalize ensureBuffer K s = result at heq hensure
  obtain ⟨r, u⟩ := result
  dsimp only at heq hensure
  split at heq
  · obtain ⟨-, -, rfl⟩ := by simpa using heq
    exact h.refl s
  · split at heq
    · obtain ⟨-, -, rfl⟩ := by simpa using heq
      exact h.fieldsOf rfl rfl
    · split at heq
      · obtain ⟨-, -, rfl⟩ := by simpa using heq
        exact hensure
      · split at heq
        · have hread := h.freadUnbuffered size nmemb u
          rw [Option.some.inj heq] at hread
          exact h.trans hensure hread
        · exact h.trans hensure (h.freadLoop heq)

theorem fungetcUnlocked {c r : ℤ} {s t : State W}
    (heq : fungetcUnlocked K c s = some (r, t)) : R s t := by
  have hensure := h.buffer s
  unfold Stdio.fungetcUnlocked at heq
  generalize ensureBuffer K s = result at heq hensure
  obtain ⟨r₁, s₁⟩ := result
  dsimp only at heq hensure
  split at heq
  · obtain ⟨-, rfl⟩ := Prod.mk.inj (Option.some.inj heq)
    exact hensure
  · split at heq
    · obtain ⟨-, rfl⟩ := Prod.mk.inj (Option.some.inj heq)
      exact h.trans hensure (h.fieldsOf rfl rfl)
    · rw [ite_fflushWriteUnlocked] at heq
      have hflush := h.trans hensure (h.fflushWriteUnlocked s₁)
      generalize Stdio.fflushWriteUnlocked K s₁ = result at heq hflush
      obtain ⟨r₂, s₂⟩ := result
      dsimp only at heq hflush
      split at heq
      · obtain ⟨-, rfl⟩ := Prod.mk.inj (Option.some.inj heq)
        exact hflush
      · have hturn := h.trans hflush (h.fieldsOf (t := { s₂ with
          stream := { s₂.stream with flagDirectionRead := true, flagEof := false } }) rfl rfl)
        split at heq
        · obtain ⟨-, rfl⟩ := Prod.mk.inj (Option.some.inj heq)
          exact hturn
        · exact h.trans hturn (h.unreadBuffered heq)

end PreservesBuffer

namespace PreservesStored

variable {K : Kernel W} {R : State W → State W → Prop} (h : PreservesStored K R)

include h

theorem fputcUnlocked {c r : ℤ} {s t : State W} (heq : fputcUnlocked K c s = some (r, t)) :
    R s t := by
  have hensure := h.buffer s
  unfold Stdio.fputcUnlocked at heq
  generalize ensureBuffer K s = result at heq hensure
  obtain ⟨r₁, s₁⟩ := result
  dsimp only at heq hensure
  split at heq
  · obtain ⟨-, rfl⟩ := Prod.mk.inj (Option.some.inj heq)
    exact hensure
  · split at heq
    · split at heq
      · obtain ⟨-, rfl⟩ := Prod.mk.inj (Option.some.inj heq)
        exact h.trans hensure (h.fieldsOf rfl rfl)
      · have hwrite := h.trans hensure (h.fwriteUnbuffered [toByte c] 1 s₁)
        generalize Stdio.fwriteUnbuffered K [toByte c] 1 s₁ = result at heq hwrite
        obtain ⟨n, s₂⟩ := result
        dsimp only at heq hwrite
        split at heq
        · obtain ⟨-, rfl⟩ := Prod.mk.inj (Option.some.inj heq)
          exact hwrite
        · obtain ⟨-, rfl⟩ := Prod.mk.inj (Option.some.inj heq)
          exact hwrite
    · have hroom := h.trans hensure (h.makeRoom s₁)
      generalize Stdio.makeRoom K s₁ = result at heq hroom
      obtain ⟨r₂, s₂⟩ := result
      dsimp only at heq hroom
      split at heq
      · obtain ⟨-, rfl⟩ := Prod.mk.inj (Option.some.inj heq)
        exact hroom
      · rcases hstore : storeByte (toByte c) s₂ with _ | s₃
        · simp [hstore] at heq
        · simp only [hstore] at heq
          have hkeep := h.trans hroom (h.store hstore)
          split at heq
          · have hflush := h.trans hkeep (h.fflushWriteUnlocked s₃)
            generalize Stdio.fflushWriteUnlocked K s₃ = result at heq hflush
            obtain ⟨r₄, s₄⟩ := result
            dsimp only at heq hflush
            split at heq
            · obtain ⟨-, rfl⟩ := Prod.mk.inj (Option.some.inj heq)
              exact hflush
            · obtain ⟨-, rfl⟩ := Prod.mk.inj (Option.some.inj heq)
              exact hflush
          · obtain ⟨-, rfl⟩ := Prod.mk.inj (Option.some.inj heq)
            exact hkeep

theorem fwriteLoop {size nmemb done n : ℕ} {ptr : List UInt8} {s t : State W}
    (heq : fwriteLoop K size nmemb done ptr s = some (n, t)) : R s t := by
  induction ptr generalizing done s with
  | nil =>
    obtain ⟨-, rfl⟩ := Prod.mk.inj (Option.some.inj heq)
    exact h.refl s
  | cons b ptr ih =>
    unfold Stdio.fwriteLoop at heq
    rcases hput : Stdio.fputcUnlocked K b.toNat s with _ | ⟨r, u⟩
    · simp [hput] at heq
    · simp only [hput] at heq
      have hkeep := h.fputcUnlocked hput
      split at heq
      · obtain ⟨-, rfl⟩ := Prod.mk.inj (Option.some.inj heq)
        exact hkeep
      · exact h.trans hkeep (ih heq)

theorem fwriteUnlocked {ptr : List UInt8} {size nmemb n : ℕ} {s t : State W}
    (heq : fwriteUnlocked K ptr size nmemb s = some (n, t)) : R s t := by
  have hensure := h.buffer s
  unfold Stdio.fwriteUnlocked at heq
  generalize ensureBuffer K s = result at heq hensure
  obtain ⟨r, u⟩ := result
  dsimp only at heq hensure
  split at heq
  · obtain ⟨-, rfl⟩ := Prod.mk.inj (Option.some.inj heq)
    exact h.refl s
  · split at heq
    · obtain ⟨-, rfl⟩ := Prod.mk.inj (Option.some.inj heq)
      exact h.fieldsOf rfl rfl
    · split at heq
      · obtain ⟨-, rfl⟩ := Prod.mk.inj (Option.some.inj heq)
        exact hensure
      · split at heq
        · have hwrite := h.fwriteUnbuffered ptr size u
          rw [Option.some.inj heq] at hwrite
          exact h.trans hensure hwrite
        · exact h.trans hensure (h.fwriteLoop heq)

/-- Every operation on an open stream keeps the relation. -/
theorem exec {op : Op} {ret : Ret} {s t : State W} (heq : op.exec K s = some (ret, t)) :
    R s t := by
  cases op with
  | fgetc =>
    obtain ⟨⟨c, v⟩, hcall, hv⟩ := Option.map_eq_some_iff.mp heq
    obtain ⟨-, rfl⟩ := Prod.mk.inj hv
    exact h.fgetcUnlocked hcall
  | fread size nmemb =>
    obtain ⟨⟨n, stored, v⟩, hcall, hv⟩ := Option.map_eq_some_iff.mp heq
    obtain ⟨-, rfl⟩ := Prod.mk.inj hv
    exact h.freadUnlocked hcall
  | ungetc c =>
    obtain ⟨⟨r, v⟩, hcall, hv⟩ := Option.map_eq_some_iff.mp heq
    obtain ⟨-, rfl⟩ := Prod.mk.inj hv
    exact h.fungetcUnlocked hcall
  | fputc c =>
    obtain ⟨⟨r, v⟩, hcall, hv⟩ := Option.map_eq_some_iff.mp heq
    obtain ⟨-, rfl⟩ := Prod.mk.inj hv
    exact h.fputcUnlocked hcall
  | fwrite size nmemb ptr =>
    obtain ⟨⟨n, v⟩, hcall, hv⟩ := Option.map_eq_some_iff.mp heq
    obtain ⟨-, rfl⟩ := Prod.mk.inj hv
    exact h.fwriteUnlocked hcall
  | fflush =>
    obtain ⟨-, rfl⟩ := Prod.mk.inj (Option.some.inj heq)
    exact h.fflushUnlocked s

end PreservesStored

theorem ensureBuffer_record (K : Kernel W) (s : State W) :
    (ensureBuffer K s).2.stream.record = s.stream.record := by
  rcases ensureBuffer_cases K s with ⟨_, heq⟩ | ⟨_, _, heq⟩ | ⟨_, _, _, _, _, heq⟩
  · rw [heq]
  · rw [heq]
  · rw [heq]
    rfl

/-- A transfer keeps the frame. -/
theorem preserves_frame (K : Kernel W) :
    Preserves K fun s t => t.stream.frame = s.stream.frame where
  refl _ := rfl
  trans hst htu := htu.trans hst
  fields _ hframe := hframe
  write _ _ _ := rfl
  read _ _ _ := rfl
  lseek _ _ _ _ := rfl

/-- Moving bytes without storing one keeps the handle and the bytes stored. -/
theorem preserves_record (K : Kernel W) :
    PreservesBuffer K fun s t => t.stream.record = s.stream.record where
  refl _ := rfl
  trans hst htu := htu.trans hst
  fields _ hframe := FILE.record_of_frame hframe
  write _ _ _ := rfl
  read _ _ _ := rfl
  lseek _ _ _ _ := rfl
  buffer := ensureBuffer_record K

theorem preserves_handle (K : Kernel W) :
    PreservesStored K fun s t => t.stream.handle = s.stream.handle where
  refl _ := rfl
  trans hst htu := htu.trans hst
  fields _ hframe := FILE.handle_of_record (FILE.record_of_frame hframe)
  write _ _ _ := rfl
  read _ _ _ := rfl
  lseek _ _ _ _ := rfl
  buffer s := FILE.handle_of_record (ensureBuffer_record K s)
  store hstore := by
    unfold storeByte at hstore
    split at hstore
    · obtain rfl := Option.some.inj hstore
      rfl
    · cases hstore

section Record

variable (K : Kernel W) {s t : State W}

theorem fflushWriteUnlocked_record (s : State W) :
    (fflushWriteUnlocked K s).2.stream.record = s.stream.record :=
  (preserves_record K).fflushWriteUnlocked s

theorem fflushReadUnlocked_record (s : State W) :
    (fflushReadUnlocked K s).2.stream.record = s.stream.record :=
  (preserves_record K).fflushReadUnlocked s

theorem fflushUnlocked_record (s : State W) :
    (fflushUnlocked K s).2.stream.record = s.stream.record :=
  (preserves_record K).fflushUnlocked s

theorem makeRoom_record (s : State W) :
    (makeRoom K s).2.stream.record = s.stream.record :=
  (preserves_record K).makeRoom s

theorem fgetcUnlocked_record {r : ℤ} (h : fgetcUnlocked K s = some (r, t)) :
    t.stream.record = s.stream.record :=
  (preserves_record K).fgetcUnlocked h

theorem freadUnlocked_record {size nmemb n : ℕ} {stored : List UInt8}
    (h : freadUnlocked K size nmemb s = some (n, stored, t)) :
    t.stream.record = s.stream.record :=
  (preserves_record K).freadUnlocked h

theorem fungetcUnlocked_record {c r : ℤ} (h : fungetcUnlocked K c s = some (r, t)) :
    t.stream.record = s.stream.record :=
  (preserves_record K).fungetcUnlocked h

theorem fputcUnlocked_handle {c r : ℤ} (h : fputcUnlocked K c s = some (r, t)) :
    t.stream.handle = s.stream.handle :=
  (preserves_handle K).fputcUnlocked h

theorem fwriteUnlocked_handle {ptr : List UInt8} {size nmemb n : ℕ}
    (h : fwriteUnlocked K ptr size nmemb s = some (n, t)) :
    t.stream.handle = s.stream.handle :=
  (preserves_handle K).fwriteUnlocked h

/-- No operation on an open stream changes its handle. -/
theorem step_handle {op : Op} (h : step K s op = some t) :
    t.stream.handle = s.stream.handle := by
  unfold step at h
  obtain ⟨⟨ret, u⟩, hexec, rfl⟩ := Option.map_eq_some_iff.mp h
  exact (preserves_handle K).exec hexec

end Record

end Heartix.Stdio
