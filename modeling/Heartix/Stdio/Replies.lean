import Heartix.Stdio.ModeViolations

/-!
What the kernel replies during a call and what the indicators make of it. The
replies that can matter are entered in a log beside the world: a read without
bytes, a transfer that is refused, a write that takes nothing, and a position
that cannot be restored. Every call sets the end of file indicator for the first
and the third, and the error indicator for the others and where its mode denies
it a flush or the transfer itself.
-/

namespace Heartix.Stdio

variable {W : Type}

inductive Reply
  | endOfFile | refused | nothingTaken | notMoved
  deriving DecidableEq, Repr

/-- The kernel with a log of such replies. -/
def Kernel.recorded (K : Kernel W) : Kernel (W × List Reply) where
  write fd bytes w :=
    match K.write fd bytes w.1 with
    | (none, v) => (none, (v, w.2 ++ [.refused]))
    | (some n, v) => (some n, (v, if n.val = 0 then w.2 ++ [.nothingTaken] else w.2))
  read fd len w :=
    match K.read fd len w.1 with
    | (none, v) => (none, (v, w.2 ++ [.refused]))
    | (some bytes, v) =>
        (some bytes, (v, if bytes.val = [] then w.2 ++ [.endOfFile] else w.2))
  lseek fd offset whence w :=
    match K.lseek fd offset whence w.1 with
    | (r, v) =>
        (r, (v, if whence = .seekSet ∧ r.bmod (2 ^ 32) < 0 then w.2 ++ [.notMoved] else w.2))
  tell fd w :=
    match K.tell fd w.1 with
    | (r, v) => (r, (v, w.2))
  close fd w :=
    match K.close fd w.1 with
    | (r, v) => (r, (v, w.2))
  openFile filename mode w :=
    match K.openFile filename mode w.1 with
    | (r, v) => (r, (v, w.2))
  malloc len w :=
    match K.malloc len w.1 with
    | (r, v) => (r, (v, w.2))
  free address w := (K.free address w.1, w.2)
  mutexInitialize w :=
    match K.mutexInitialize w.1 with
    | (r, v) => (r, (v, w.2))
  mutexTryAcquire := K.mutexTryAcquire

/-- The replies between two states, and the indicators after them. -/
structure Noted (s t : State (W × List Reply)) (replies : List Reply) (denied : Prop) : Prop where
  log : t.world.2 = s.world.2 ++ replies
  eof : t.stream.flagEof = true ↔
    s.stream.flagEof = true ∨ .endOfFile ∈ replies ∨ .nothingTaken ∈ replies
  error : t.stream.flagError = true ↔
    s.stream.flagError = true ∨ .refused ∈ replies ∨ .notMoved ∈ replies ∨ denied

section Noted

variable {s t u : State (W × List Reply)} {replies more : List Reply} {denied denied' : Prop}

theorem Noted.trans (h : Noted s t replies denied) (h' : Noted t u more denied') :
    Noted s u (replies ++ more) (denied ∨ denied') where
  log := by rw [h'.log, h.log, List.append_assoc]
  eof := by
    rw [h'.eof, h.eof, List.mem_append, List.mem_append]
    tauto
  error := by
    rw [h'.error, h.error, List.mem_append, List.mem_append]
    tauto

theorem Noted.of_iff (h : Noted s t replies denied) (hiff : denied ↔ denied') :
    Noted s t replies denied' :=
  ⟨h.log, h.eof, h.error.trans (by rw [hiff])⟩

/-- Nothing was replied that matters, and nothing denied. -/
abbrev Silent (s t : State (W × List Reply)) : Prop := Noted s t [] False

theorem silent_of_eq (hworld : t.world.2 = s.world.2)
    (heof : t.stream.flagEof = s.stream.flagEof)
    (herror : t.stream.flagError = s.stream.flagError) : Silent s t :=
  ⟨by rw [hworld, List.append_nil], by simp [heof], by simp [herror]⟩

theorem Noted.after_silent (h : Silent s t) (h' : Noted t u replies denied) :
    Noted s u replies denied := by
  have htrans := h.trans h'
  rw [List.nil_append] at htrans
  exact htrans.of_iff (by rw [false_or])

theorem Noted.before_silent (h : Noted s t replies denied) (h' : Silent t u) :
    Noted s u replies denied := by
  have htrans := h.trans h'
  rw [List.append_nil] at htrans
  exact htrans.of_iff (by rw [or_false])

/-- A denied call sets the error indicator. -/
theorem noted_setError (s : State (W × List Reply)) (hdenied : denied) :
    Noted s s.setError [] denied :=
  ⟨by simp [State.setError], by simp [State.setError], by simp [State.setError, hdenied]⟩

/-- So does a call that is refused, or a position that is not restored. -/
theorem noted_setError_of {reply : Reply} (hreply : reply = .refused ∨ reply = .notMoved)
    (hlog : t.world.2 = s.world.2 ++ [reply]) (heof : t.stream.flagEof = s.stream.flagEof) :
    Noted s t.setError [reply] False where
  log := hlog
  eof := by rcases hreply with rfl | rfl <;> simp [State.setError, heof]
  error := by rcases hreply with rfl | rfl <;> simp [State.setError]

theorem noted_setEof_of {reply : Reply} (hreply : reply = .endOfFile ∨ reply = .nothingTaken)
    (hlog : t.world.2 = s.world.2 ++ [reply])
    (herror : t.stream.flagError = s.stream.flagError) :
    Noted s t.setEof [reply] False where
  log := hlog
  eof := by rcases hreply with rfl | rfl <;> simp [State.setEof]
  error := by rcases hreply with rfl | rfl <;> simp [State.setEof, herror]

end Noted

section Flushes

variable (K : Kernel W) {s t : State (W × List Reply)} {r : ℤ}

theorem malloc_recorded (len : ℕ) (w : W × List Reply) :
    (K.recorded.malloc len w).2.2 = w.2 := rfl

theorem setvbufUnlocked_silent (s : State (W × List Reply)) :
    Silent s (setvbufUnlocked K.recorded none .iofbf BUFSIZ s).2 := by
  have hrelease : (releaseBuffer K.recorded s).world.2 = s.world.2 := by
    unfold releaseBuffer
    split
    · rfl
    · rfl
  have hmalloc := (malloc_recorded K BUFSIZ (releaseBuffer K.recorded s).world).trans hrelease
  rw [setvbufUnlocked_default_eq]
  generalize K.recorded.malloc BUFSIZ (releaseBuffer K.recorded s).world = result at hmalloc ⊢
  obtain ⟨_ | ⟨address, memory⟩, w⟩ := result
  · exact silent_of_eq hmalloc rfl rfl
  · exact silent_of_eq hmalloc rfl rfl

theorem ensureBuffer_silent (s : State (W × List Reply)) :
    Silent s (ensureBuffer K.recorded s).2 := by
  have hfirst := setvbufUnlocked_silent K s
  unfold ensureBuffer setdefbufUnlocked
  split
  · exact silent_of_eq rfl rfl rfl
  · generalize setvbufUnlocked K.recorded none .iofbf BUFSIZ s = result at hfirst ⊢
    obtain ⟨r, t⟩ := result
    have hsecond := setvbufUnlocked_silent K t
    dsimp only at hfirst ⊢
    split
    · exact hfirst
    · generalize setvbufUnlocked K.recorded none .iofbf BUFSIZ t = result at hsecond ⊢
      obtain ⟨r', u⟩ := result
      dsimp only at hsecond ⊢
      split
      · exact hfirst.after_silent hsecond
      · exact hfirst.after_silent hsecond

/-- The answers to a write. -/
theorem implWrite_recorded (done : ℕ) (bytes : List UInt8) (s : State (W × List Reply)) :
    (∃ t, implWrite K.recorded done bytes s = (none, t) ∧
      Noted s t.setError [.refused] False) ∨
    (∃ t, implWrite K.recorded done bytes s = (some 0, t) ∧
      Noted s t.setEof [.nothingTaken] False) ∨
    ∃ n t, implWrite K.recorded done bytes s = (some (n + 1), t) ∧ Silent s t := by
  unfold implWrite Kernel.recorded
  dsimp only
  rcases K.write s.stream.fileDescriptor bytes s.world.1 with ⟨_ | ⟨_ | n, hn⟩, w⟩
  · exact Or.inl ⟨_, rfl, noted_setError_of (Or.inl rfl) rfl rfl⟩
  · exact Or.inr (Or.inl ⟨_, rfl, noted_setEof_of (Or.inr rfl) rfl rfl⟩)
  · exact Or.inr (Or.inr ⟨n, _, rfl, silent_of_eq rfl rfl rfl⟩)

theorem implRead_recorded (len : ℕ) (s : State (W × List Reply)) :
    (∃ t, implRead K.recorded len s = (none, t) ∧ Noted s t.setError [.refused] False) ∨
    (∃ t, implRead K.recorded len s = (some [], t) ∧
      Noted s t.setEof [.endOfFile] False) ∨
    ∃ b bytes t, implRead K.recorded len s = (some (b :: bytes), t) ∧ Silent s t := by
  unfold implRead Kernel.recorded
  dsimp only
  rcases K.read s.stream.fileDescriptor len s.world.1 with ⟨_ | ⟨_ | ⟨b, bytes⟩, hlen⟩, w⟩
  · exact Or.inl ⟨_, rfl, noted_setError_of (Or.inl rfl) rfl rfl⟩
  · exact Or.inr (Or.inl ⟨_, rfl, noted_setEof_of (Or.inl rfl) rfl rfl⟩)
  · exact Or.inr (Or.inr ⟨b, bytes, _, rfl, silent_of_eq rfl rfl rfl⟩)

theorem writeLoop_noted (done : ℕ) (rest : List UInt8) (s : State (W × List Reply)) :
    ∃ replies, Noted s (writeLoop K.recorded done rest s).2.2 replies False ∧
      ((writeLoop K.recorded done rest s).1 = 0 → replies = []) := by
  induction hlen : rest.length using Nat.strong_induction_on generalizing done rest s with
  | h n ih =>
    subst hlen
    unfold writeLoop
    by_cases hrest : rest = []
    · rw [dif_pos hrest]
      exact ⟨[], silent_of_eq rfl rfl rfl, fun _ => rfl⟩
    · rw [dif_neg hrest]
      have hpos := List.length_pos_of_ne_nil hrest
      rcases implWrite_recorded K done rest s with
        ⟨t, hwrite, ht⟩ | ⟨t, hwrite, ht⟩ | ⟨n, t, hwrite, ht⟩
      · rw [hwrite]
        exact ⟨_, ht, fun hzero => absurd hzero.symm zero_ne_EOF⟩
      · rw [hwrite]
        exact ⟨_, ht, fun hzero => absurd hzero.symm zero_ne_EOF⟩
      · rw [hwrite]
        obtain ⟨replies, hnoted, hreplies⟩ := ih _ (by simp only [List.length_drop]; omega)
          (done + (n + 1)) (rest.drop (n + 1)) t rfl
        exact ⟨replies, ht.after_silent hnoted, hreplies⟩

/-- A write flush is denied, or it is a transfer. -/
theorem fflushWriteUnlocked_noted {s : State (W × List Reply)}
    (himpl : s.stream.implWrite = true) :
    ∃ replies, Noted s (fflushWriteUnlocked K.recorded s).2 replies
        (s.stream.flagDirectionWrite = true ∧ s.stream.mode.write = false) ∧
      ((fflushWriteUnlocked K.recorded s).1 = 0 → replies = []) := by
  unfold fflushWriteUnlocked
  by_cases hdir : s.stream.flagDirectionWrite = false
  · rw [if_pos hdir]
    exact ⟨[], (silent_of_eq rfl rfl rfl).of_iff (by simp [hdir]), fun _ => rfl⟩
  · rw [if_neg hdir]
    rw [Bool.not_eq_false] at hdir
    by_cases hmode : s.stream.mode.write = false
    · rw [if_pos hmode]
      exact ⟨[], noted_setError s ⟨hdir, hmode⟩, fun _ => rfl⟩
    · rw [if_neg hmode, if_neg (by simp [himpl])]
      obtain ⟨replies, hloop, hreplies⟩ := writeLoop_noted K 0 s.stream.pending s
      generalize writeLoop K.recorded 0 s.stream.pending s = result at hloop hreplies ⊢
      obtain ⟨res, rest, t⟩ := result
      refine ⟨replies, .of_iff (hloop.before_silent ?_) (by simp [hmode]), hreplies⟩
      exact silent_of_eq rfl rfl rfl

theorem implSeek_recorded (offset : ℤ) (whence : Whence) (s : State (W × List Reply)) :
    ∃ r t, implSeek K.recorded offset whence s = (r, t) ∧
      (r < 0 → whence = .seekSet → Noted s t.setError [.notMoved] False) ∧
      (¬ (whence = .seekSet ∧ r < 0) → Silent s t) := by
  refine ⟨_, _, rfl, fun hr hwhence => ?_, fun hnot => ?_⟩
  · exact noted_setError_of (Or.inr rfl) (if_pos ⟨hwhence, hr⟩) rfl
  · exact silent_of_eq (if_neg hnot) rfl rfl

theorem restorePosition_noted (current : ℤ) (s : State (W × List Reply)) :
    ∃ replies, Noted s (restorePosition K.recorded current s) replies False := by
  unfold restorePosition
  by_cases hcurrent : 0 ≤ current
  · rw [if_pos hcurrent]
    dsimp only
    generalize (if current < _ then (0 : ℤ) else _) = restored
    obtain ⟨r, t, hseek, hfailed, hdone⟩ := implSeek_recorded K restored .seekSet s
    rw [hseek]
    dsimp only
    by_cases hr : r < 0
    · rw [if_pos hr]
      exact ⟨_, hfailed hr rfl⟩
    · rw [if_neg hr]
      exact ⟨[], hdone fun h => hr h.2⟩
  · rw [if_neg hcurrent]
    exact ⟨[], silent_of_eq rfl rfl rfl⟩

theorem fflushReadUnlocked_noted (s : State (W × List Reply)) :
    ∃ replies, Noted s (fflushReadUnlocked K.recorded s).2 replies
      (s.stream.flagDirectionRead = true ∧ s.stream.mode.read = false) := by
  unfold fflushReadUnlocked
  by_cases hdir : s.stream.flagDirectionRead = false
  · rw [if_pos hdir]
    exact ⟨[], (silent_of_eq rfl rfl rfl).of_iff (by simp [hdir])⟩
  · rw [if_neg hdir]
    rw [Bool.not_eq_false] at hdir
    by_cases hmode : s.stream.mode.read = false
    · rw [if_pos hmode]
      exact ⟨[], noted_setError s ⟨hdir, hmode⟩⟩
    · rw [if_neg hmode]
      have hseek : Silent s (if s.stream.implSeek = true then implSeek K.recorded 0 .seekCur s
          else (-1, s)).2 := by
        split
        · exact silent_of_eq rfl rfl rfl
        · exact silent_of_eq rfl rfl rfl
      generalize (if s.stream.implSeek = true then implSeek K.recorded 0 .seekCur s
        else (-1, s)) = result at hseek ⊢
      obtain ⟨current, t⟩ := result
      obtain ⟨replies, hrestore⟩ := restorePosition_noted K current t
      refine ⟨replies, .of_iff ((hseek.after_silent hrestore).before_silent ?_) (by simp [hmode])⟩
      exact silent_of_eq rfl rfl rfl

end Flushes

/-- The stream would have to be flushed before it is read, and may not be. -/
def FILE.HeldToWrite (f : FILE) : Prop :=
  f.flagDirectionWrite = true ∧ f.mode.write = false

def FILE.HeldToRead (f : FILE) : Prop :=
  f.flagDirectionRead = true ∧ f.mode.read = false

section Reading

variable (K : Kernel W) {s t : State (W × List Reply)} {r : ℤ}

theorem fillBuffer_noted (s : State (W × List Reply)) :
    ∃ replies, Noted s (fillBuffer K.recorded s).2 replies False := by
  unfold fillBuffer
  dsimp only
  generalize s.stream.bufferSize - _ = len
  rcases implRead_recorded K len s with
    ⟨t, hread, ht⟩ | ⟨t, hread, ht⟩ | ⟨b, bytes, t, hread, ht⟩
  · rw [hread]
    exact ⟨_, ht⟩
  · rw [hread]
    exact ⟨_, ht⟩
  · rw [hread]
    refine ⟨[], ht.before_silent ?_⟩
    exact silent_of_eq rfl rfl rfl

theorem takeByte_silent (heq : takeByte s = some (r, t)) : Silent s t := by
  unfold takeByte at heq
  split at heq
  · cases heq
  · obtain ⟨-, rfl⟩ := Prod.mk.inj (Option.some.inj heq)
    exact silent_of_eq rfl rfl rfl

theorem readBuffered_noted (heq : readBuffered K.recorded s = some (r, t)) :
    ∃ replies, Noted s t replies False := by
  obtain ⟨replies, hfill⟩ := fillBuffer_noted K s
  unfold readBuffered at heq
  generalize fillBuffer K.recorded s = result at hfill heq
  obtain ⟨r', u⟩ := result
  split at heq
  · dsimp only at heq
    split at heq
    · obtain ⟨-, rfl⟩ := Prod.mk.inj (Option.some.inj heq)
      exact ⟨replies, hfill⟩
    · exact ⟨replies, hfill.before_silent (takeByte_silent heq)⟩
  · exact ⟨[], takeByte_silent heq⟩

/-- `fgetc` on a buffered stream leaves the write direction, or is stopped there. -/
theorem fgetcUnlocked_noted (hset : s.stream.flagBufferSet = true)
    (hmode : s.stream.bufferMode ≠ .ionbf) (himpl : s.stream.implWrite = true)
    (heq : fgetcUnlocked K.recorded s = some (r, t)) :
    (∃ replies, Noted s t replies s.stream.HeldToWrite) ∧
      (r ≠ EOF → t.stream.flagDirectionWrite = false) := by
  have hensure : ensureBuffer K.recorded s = (0, s) := if_pos hset
  obtain ⟨replies, hflush, _⟩ := fflushWriteUnlocked_noted K himpl
  unfold fgetcUnlocked at heq
  simp only [hensure, zero_ne_EOF, if_false, hmode] at heq
  rw [ite_fflushWriteUnlocked] at heq
  generalize fflushWriteUnlocked K.recorded s = result at hflush heq
  obtain ⟨r', u⟩ := result
  dsimp only at hflush heq
  split at heq
  · obtain ⟨rfl, rfl⟩ := Prod.mk.inj (Option.some.inj heq)
    exact ⟨⟨replies, hflush⟩, fun h => absurd rfl h⟩
  · obtain ⟨more, hread⟩ := readBuffered_noted K heq
    have hturned : Silent u { u with stream := { u.stream with
        flagDirectionWrite := false, flagDirectionRead := true } } := silent_of_eq rfl rfl rfl
    refine ⟨⟨_, (hflush.trans (hturned.after_silent hread)).of_iff (by rw [or_false]; rfl)⟩, ?_⟩
    exact fun _ => (readBuffered_directions heq).2

/-- What the calls on a buffered stream keep. -/
structure FILE.Buffered (f : FILE) : Prop where
  set : f.flagBufferSet = true
  mode : f.bufferMode ≠ .ionbf
  impl : f.implWrite = true

theorem freadLoop_noted {size nmemb left n : ℕ} {bytes stored : List UInt8}
    (hs : s.stream.Buffered)
    (heq : freadLoop K.recorded size nmemb left bytes s = some (n, stored, t)) :
    ∃ replies, Noted s t replies (left ≠ 0 ∧ s.stream.HeldToWrite) := by
  induction left generalizing bytes s with
  | zero =>
    obtain ⟨-, hrest⟩ := Prod.mk.inj (Option.some.inj heq)
    obtain ⟨-, rfl⟩ := Prod.mk.inj hrest
    exact ⟨[], (silent_of_eq rfl rfl rfl).of_iff (by simp)⟩
  | succ left ih =>
    unfold freadLoop at heq
    rcases hget : fgetcUnlocked K.recorded s with _ | ⟨c, u⟩
    · simp [hget] at heq
    · simp only [hget] at heq
      obtain ⟨⟨replies, hnoted⟩, hdir⟩ := fgetcUnlocked_noted K hs.set hs.mode hs.impl hget
      split at heq
      · obtain ⟨-, hrest⟩ := Prod.mk.inj (Option.some.inj heq)
        obtain ⟨-, rfl⟩ := Prod.mk.inj hrest
        exact ⟨replies, hnoted.of_iff (by simp)⟩
      · rename_i hc
        obtain ⟨hset', hmode'⟩ := (preserves_bufferMode K.recorded).fgetcUnlocked hget hs.set
        have himpl' : u.stream.implWrite = true := by
          rw [FILE.implWrite_eq (FILE.handle_of_record (fgetcUnlocked_record K.recorded hget))]
          exact hs.impl
        obtain ⟨more, hloop⟩ := ih ⟨hset', hmode' ▸ hs.mode, himpl'⟩ heq
        refine ⟨_, (hnoted.trans hloop).of_iff ?_⟩
        simp [FILE.HeldToWrite, hdir hc]

theorem readLoop_noted (left : ℕ) (s : State (W × List Reply)) :
    ∃ replies, Noted s (readLoop K.recorded left s).2 replies False := by
  induction left using Nat.strong_induction_on generalizing s with
  | h left ih =>
    unfold readLoop
    by_cases hleft : left = 0
    · rw [dif_pos hleft]
      exact ⟨[], silent_of_eq rfl rfl rfl⟩
    · rw [dif_neg hleft]
      rcases implRead_recorded K left s with
        ⟨t, hread, ht⟩ | ⟨t, hread, ht⟩ | ⟨b, bytes, t, hread, ht⟩
      · rw [hread]
        exact ⟨_, ht⟩
      · rw [hread]
        exact ⟨_, ht⟩
      · rw [hread]
        obtain ⟨replies, hloop⟩ := ih (left - (bytes.length + 1)) (by omega) t
        exact ⟨replies, ht.after_silent hloop⟩

/-- Without a buffer the end of file indicator is cleared first. -/
theorem freadUnbuffered_noted (size nmemb : ℕ) (himpl : s.stream.implRead = true) :
    ∃ replies, Noted (s.marked false s.stream.flagError)
      (freadUnbuffered K.recorded size nmemb s).2.2 replies False := by
  unfold freadUnbuffered
  rw [if_neg (by simp [himpl])]
  obtain ⟨replies, hloop⟩ := readLoop_noted K (size * nmemb)
    { s with stream := { s.stream with flagDirectionRead := true, flagEof := false } }
  refine ⟨replies, Noted.after_silent ?_ hloop⟩
  exact silent_of_eq rfl rfl rfl

/-- A byte is free before the unread ones, or at the end of the buffer. -/
def FILE.TakesBack (f : FILE) : Prop :=
  f.bufferedBytesReadOffset = 0 → f.bufferedBytesRead < f.bufferSize

theorem putBack_silent {c8 : UInt8} (heq : putBack c8 s = some (r, t)) :
    Silent s t ∧ r ≠ EOF := by
  unfold putBack at heq
  dsimp only at heq
  split at heq
  · obtain ⟨rfl, rfl⟩ := Prod.mk.inj (Option.some.inj heq)
    exact ⟨silent_of_eq rfl rfl rfl, toNat_ne_EOF c8⟩
  · cases heq

theorem unreadBuffered_silent {c8 : UInt8} (heq : unreadBuffered c8 s = some (r, t)) :
    Silent s t ∧ (s.stream.TakesBack → r ≠ EOF) := by
  unfold unreadBuffered at heq
  by_cases hoffset : s.stream.bufferedBytesReadOffset = 0
  · rw [if_pos hoffset] at heq
    split at heq
    · rename_i hfull
      obtain ⟨rfl, rfl⟩ := Prod.mk.inj (Option.some.inj heq)
      refine ⟨silent_of_eq rfl rfl rfl, fun htakes => ?_⟩
      have hlt := htakes hoffset
      omega
    · obtain ⟨hput, hr⟩ := putBack_silent heq
      refine ⟨Noted.after_silent ?_ hput, fun _ => hr⟩
      exact silent_of_eq rfl rfl rfl
  · rw [if_neg hoffset] at heq
    obtain ⟨hput, hr⟩ := putBack_silent heq
    exact ⟨hput, fun _ => hr⟩

/-- `ungetc` on a buffered stream is stopped by the flush, or clears the end of file
indicator whether it takes the byte or not. -/
theorem fungetcUnlocked_noted {c : ℤ} (hs : s.stream.Buffered)
    (heq : fungetcUnlocked K.recorded c s = some (r, t)) :
    (r = EOF ∧ ∃ replies, Noted s t replies s.stream.HeldToWrite) ∨
    (¬ s.stream.HeldToWrite ∧ Silent (s.marked false s.stream.flagError) t ∧
      (c ≠ EOF → s.stream.TakesBack → r ≠ EOF)) := by
  have hensure : ensureBuffer K.recorded s = (0, s) := if_pos hs.set
  obtain ⟨replies, hflush, hreplies⟩ := fflushWriteUnlocked_noted K hs.impl
  have hcases := fflushWriteUnlocked_cases K.recorded s
  unfold fungetcUnlocked at heq
  simp only [hensure, zero_ne_EOF, if_false, hs.mode] at heq
  rw [ite_fflushWriteUnlocked] at heq
  generalize fflushWriteUnlocked K.recorded s = result at hflush hreplies hcases heq
  obtain ⟨r', u⟩ := result
  dsimp only at hflush hreplies heq
  by_cases hr' : r' = EOF
  · rw [if_pos hr'] at heq
    obtain ⟨rfl, rfl⟩ := Prod.mk.inj (Option.some.inj heq)
    exact Or.inl ⟨rfl, replies, hflush⟩
  · right
    rw [if_neg hr'] at heq
    have hpassed : r' = 0 ∧ ¬ s.stream.HeldToWrite ∧
        (s.stream.TakesBack → u.stream.TakesBack) := by
      rcases hcases with ⟨hdir, hc⟩ | ⟨_, _, hc⟩ | ⟨_, hmode, _, left, calls, eof, error, w, hc, _⟩
      · obtain ⟨rfl, rfl⟩ := Prod.mk.inj hc
        exact ⟨rfl, by simp [FILE.HeldToWrite, hdir], id⟩
      · exact absurd (Prod.mk.inj hc).1 hr'
      · obtain ⟨rfl, hu⟩ := Prod.mk.inj hc
        have hleft : left = [] := by
          by_contra hne
          exact hr' (if_neg hne)
        refine ⟨if_pos hleft, by simp [FILE.HeldToWrite, hmode], fun htakes => ?_⟩
        rw [hu]
        exact htakes
    obtain ⟨hzero, hnot, htakes⟩ := hpassed
    obtain rfl := hreplies hzero
    have hsilent : Silent s u := hflush.of_iff (iff_false_intro hnot)
    have hcleared : Silent (s.marked false s.stream.flagError) { u with stream := { u.stream with
        flagDirectionRead := true, flagEof := false } } :=
      ⟨hsilent.log, by simp, hsilent.error⟩
    split at heq
    · rename_i hc
      obtain ⟨rfl, rfl⟩ := Prod.mk.inj (Option.some.inj heq)
      exact ⟨hnot, hcleared, fun hne => absurd hc hne⟩
    · obtain ⟨hput, hr⟩ := unreadBuffered_silent heq
      exact ⟨hnot, hcleared.after_silent hput, fun _ hs => hr (htakes hs)⟩

end Reading

section Writing

variable (K : Kernel W) {s t : State (W × List Reply)} {r : ℤ}

/-- The second half of making room: a full buffer is flushed. -/
theorem flushFull_noted (himpl : s.stream.implWrite = true) {result : ℤ × State (W × List Reply)}
    (heq : (if s.stream.bufferedBytesWrite = s.stream.bufferSize then
        match fflushWriteUnlocked K.recorded s with
        | (r, s) => if r = EOF then (EOF, s) else (0, s)
      else (0, s)) = result) :
    (∃ replies, Noted s result.2 replies
      (s.stream.bufferedBytesWrite = s.stream.bufferSize ∧ s.stream.HeldToWrite)) ∧
    (result.1 = EOF → s.stream.bufferedBytesWrite = s.stream.bufferSize ∧
      s.stream.HeldToWrite ∨ s.stream.mode.write = true) := by
  subst heq
  by_cases hfull : s.stream.bufferedBytesWrite = s.stream.bufferSize
  · rw [if_pos hfull]
    obtain ⟨replies, hflush, _⟩ := fflushWriteUnlocked_noted K himpl
    have hcases := fflushWriteUnlocked_cases K.recorded s
    generalize fflushWriteUnlocked K.recorded s = result at hflush hcases ⊢
    obtain ⟨r, t⟩ := result
    have hsame : (if r = EOF then (EOF, t) else ((0 : ℤ), t)).2 = t := by
      split
      · rfl
      · rfl
    dsimp only at hflush ⊢
    refine ⟨⟨replies, ?_⟩, fun hr => ?_⟩
    · rw [hsame]
      exact hflush.of_iff (by simp [hfull, FILE.HeldToWrite])
    · rcases hcases with ⟨_, hc⟩ | ⟨hdir, hdenied, _⟩ | ⟨_, hmode, _⟩
      · obtain ⟨rfl, -⟩ := Prod.mk.inj hc
        rw [if_neg zero_ne_EOF] at hr
        exact absurd hr zero_ne_EOF
      · rcases hdenied with hdenied | hdenied
        · exact Or.inl ⟨hfull, hdir, hdenied⟩
        · exact absurd himpl (by simp [hdenied])
      · exact Or.inr hmode
  · rw [if_neg hfull]
    refine ⟨⟨[], ?_⟩, fun hr => absurd hr zero_ne_EOF⟩
    exact (silent_of_eq rfl rfl rfl).of_iff (by simp [hfull])

/-- Room is made, or denied, or the kernel does not take what is in the way. -/
theorem makeRoom_noted (himpl : s.stream.implWrite = true) :
    (∃ replies, Noted s (makeRoom K.recorded s).2 replies (s.stream.HeldToRead ∨
      s.stream.bufferedBytesWrite = s.stream.bufferSize ∧ s.stream.HeldToWrite)) ∧
    ((makeRoom K.recorded s).1 = EOF → (s.stream.HeldToRead ∨
      s.stream.bufferedBytesWrite = s.stream.bufferSize ∧ s.stream.HeldToWrite) ∨
        s.stream.mode.write = true) := by
  obtain ⟨replies, hread⟩ := fflushReadUnlocked_noted K s
  have hcases := fflushReadUnlocked_cases K.recorded s
  unfold makeRoom
  rw [ite_fflushReadUnlocked]
  generalize fflushReadUnlocked K.recorded s = result at hread hcases ⊢
  obtain ⟨r, u⟩ := result
  dsimp only at hread ⊢
  rcases hcases with ⟨_, hc⟩ | ⟨hdir, hmode, hc⟩ | ⟨_, _, error, w, hc⟩
  · obtain ⟨rfl, rfl⟩ := Prod.mk.inj hc
    rw [if_neg zero_ne_EOF]
    obtain ⟨⟨more, hflush⟩, hfailed⟩ := flushFull_noted K himpl rfl
    exact ⟨⟨_, hread.trans hflush⟩, fun hr => (hfailed hr).imp_left Or.inr⟩
  · obtain ⟨rfl, rfl⟩ := Prod.mk.inj hc
    rw [if_pos rfl]
    have hheld : s.stream.HeldToRead := ⟨hdir, hmode⟩
    exact ⟨⟨replies, hread.of_iff (iff_of_true hheld (Or.inl hheld))⟩,
      fun _ => Or.inl (Or.inl hheld)⟩
  · obtain ⟨rfl, hu⟩ := Prod.mk.inj hc
    rw [if_neg zero_ne_EOF]
    have himpl' : u.stream.implWrite = true := by
      rw [hu]
      exact himpl
    -- Emptying the read buffer leaves what is pending, the mode and the write direction.
    have hfull : (u.stream.bufferedBytesWrite = u.stream.bufferSize ∧ u.stream.HeldToWrite ↔
        s.stream.bufferedBytesWrite = s.stream.bufferSize ∧ s.stream.HeldToWrite) := by
      rw [hu]
      rfl
    have hmode : u.stream.mode = s.stream.mode := by rw [hu]
    obtain ⟨⟨more, hflush⟩, hfailed⟩ := flushFull_noted K himpl' rfl
    rw [hfull, hmode] at hfailed
    exact ⟨⟨_, hread.trans (hflush.of_iff hfull)⟩, fun hr => (hfailed hr).imp_left Or.inr⟩

theorem storeByte_silent {c8 : UInt8} (heq : storeByte c8 s = some t) : Silent s t := by
  unfold storeByte at heq
  split at heq
  · obtain rfl := Option.some.inj heq
    exact silent_of_eq rfl rfl rfl
  · cases heq

theorem storeByte_turns {c8 : UInt8} (heq : storeByte c8 s = some t) :
    t.stream.flagDirectionRead = false ∧ t.stream.handle = s.stream.handle ∧
      t.stream.bufferMode = s.stream.bufferMode := by
  unfold storeByte at heq
  split at heq
  · obtain rfl := Option.some.inj heq
    exact ⟨rfl, rfl, rfl⟩
  · cases heq

/-- `fputc` on a buffered stream is held in one of the directions, or holds its own
newline. -/
def FILE.DeniesByte (c8 : UInt8) (f : FILE) : Prop :=
  f.HeldToRead ∨ f.bufferedBytesWrite = f.bufferSize ∧ f.HeldToWrite ∨
    f.bufferMode = .iolbf ∧ c8 = newline ∧ f.mode.write = false

theorem fputcUnlocked_noted {c : ℤ} (hs : s.stream.Buffered)
    (heq : fputcUnlocked K.recorded c s = some (r, t)) :
    (∃ replies, Noted s t replies (s.stream.DeniesByte (toByte c))) ∧
      (r ≠ EOF → t.stream.flagDirectionRead = false) := by
  have hensure : ensureBuffer K.recorded s = (0, s) := if_pos hs.set
  obtain ⟨⟨replies, hroom⟩, hfailed⟩ := makeRoom_noted K hs.impl
  have hframe := (preserves_frame K.recorded).makeRoom s
  unfold fputcUnlocked at heq
  simp only [hensure, zero_ne_EOF, if_false, hs.mode] at heq
  generalize makeRoom K.recorded s = result at hroom hfailed hframe heq
  obtain ⟨r₁, u⟩ := result
  dsimp only at hroom hfailed hframe heq
  have hhandle := FILE.handle_of_record (FILE.record_of_frame hframe)
  have hline : u.stream.bufferMode = s.stream.bufferMode := (congrArg FILE.bufferMode hframe :)
  by_cases hr₁ : r₁ = EOF
  · rw [if_pos hr₁] at heq
    obtain ⟨rfl, rfl⟩ := Prod.mk.inj (Option.some.inj heq)
    refine ⟨⟨replies, hroom.of_iff ?_⟩, fun h => absurd rfl h⟩
    unfold FILE.DeniesByte
    rcases hfailed hr₁ with hheld | hmode
    · exact iff_of_true hheld (or_assoc.mp (Or.inl hheld))
    · simp [hmode]
  · rw [if_neg hr₁] at heq
    rcases hstore : storeByte (toByte c) u with _ | v
    · simp [hstore] at heq
    · simp only [hstore] at heq
      have hstored := hroom.before_silent (storeByte_silent hstore)
      obtain ⟨hturned, hvhandle, hvline⟩ := storeByte_turns hstore
      have hmode : v.stream.mode = s.stream.mode := FILE.mode_eq (hvhandle.trans hhandle)
      have himpl : v.stream.implWrite = true :=
        (FILE.implWrite_eq (hvhandle.trans hhandle)).trans hs.impl
      rw [hvline, hline] at heq
      by_cases hflushes : s.stream.bufferMode = .iolbf ∧ toByte c = newline
      · rw [if_pos hflushes] at heq
        obtain ⟨more, hflush, _⟩ := fflushWriteUnlocked_noted K himpl
        have hcases := fflushWriteUnlocked_cases K.recorded v
        generalize fflushWriteUnlocked K.recorded v = result at hflush hcases heq
        obtain ⟨r₂, w⟩ := result
        dsimp only at hflush heq
        have ht : t = w := by
          split at heq
          · exact (Prod.mk.inj (Option.some.inj heq)).2.symm
          · exact (Prod.mk.inj (Option.some.inj heq)).2.symm
        subst ht
        refine ⟨⟨_, (hstored.trans hflush).of_iff ?_⟩, fun _ => ?_⟩
        · rw [storeByte_writing hstore, hmode]
          simp [FILE.DeniesByte, hflushes, or_assoc]
        · rcases hcases with ⟨_, hc⟩ | ⟨_, _, hc⟩ | ⟨_, _, _, left, calls, eof, error, x, hc, _⟩
          · rw [(Prod.mk.inj hc).2]
            exact hturned
          · rw [(Prod.mk.inj hc).2]
            exact hturned
          · rw [(Prod.mk.inj hc).2]
            exact hturned
      · rw [if_neg hflushes] at heq
        obtain ⟨-, rfl⟩ := Prod.mk.inj (Option.some.inj heq)
        refine ⟨⟨replies, hstored.of_iff ?_⟩, fun _ => hturned⟩
        have hnot : ¬ (s.stream.bufferMode = .iolbf ∧ toByte c = newline ∧
            s.stream.mode.write = false) := fun h => hflushes ⟨h.1, h.2.1⟩
        simp only [FILE.DeniesByte, hnot, or_false]

theorem fwriteLoop_noted {size nmemb done n : ℕ} {ptr : List UInt8} (hs : s.stream.Buffered)
    (hmode : s.stream.mode.write = true)
    (heq : fwriteLoop K.recorded size nmemb done ptr s = some (n, t)) :
    ∃ replies, Noted s t replies (ptr ≠ [] ∧ s.stream.HeldToRead) := by
  induction ptr generalizing done s with
  | nil =>
    obtain ⟨-, rfl⟩ := Prod.mk.inj (Option.some.inj heq)
    exact ⟨[], (silent_of_eq rfl rfl rfl).of_iff (by simp)⟩
  | cons b ptr ih =>
    unfold fwriteLoop at heq
    rcases hput : fputcUnlocked K.recorded b.toNat s with _ | ⟨c, u⟩
    · simp [hput] at heq
    · simp only [hput] at heq
      obtain ⟨⟨replies, hnoted⟩, hdir⟩ := fputcUnlocked_noted K hs hput
      have hdenies : s.stream.DeniesByte b ↔ s.stream.HeldToRead := by
        simp [FILE.DeniesByte, FILE.HeldToWrite, hmode]
      rw [toByte_toNat] at hnoted
      split at heq
      · obtain ⟨-, rfl⟩ := Prod.mk.inj (Option.some.inj heq)
        exact ⟨replies, hnoted.of_iff (by simp [hdenies])⟩
      · rename_i hc
        obtain ⟨hset', hmode'⟩ := (preserves_bufferMode K.recorded).fputcUnlocked hput hs.set
        have hhandle := fputcUnlocked_handle K.recorded hput
        have hbuffered : u.stream.Buffered :=
          ⟨hset', hmode' ▸ hs.mode, (FILE.implWrite_eq hhandle).trans hs.impl⟩
        obtain ⟨more, hloop⟩ := ih hbuffered ((FILE.mode_eq hhandle) ▸ hmode) heq
        refine ⟨_, (hnoted.trans hloop).of_iff ?_⟩
        simp [hdenies, FILE.HeldToRead, hdir hc]

theorem fwriteUnbuffered_noted (ptr : List UInt8) (size : ℕ)
    (himpl : s.stream.implWrite = true) :
    ∃ replies, Noted (s.marked false s.stream.flagError)
      (fwriteUnbuffered K.recorded ptr size s).2 replies False := by
  unfold fwriteUnbuffered
  rw [if_neg (by simp [himpl])]
  obtain ⟨replies, hloop, _⟩ := writeLoop_noted K 0 ptr
    { s with stream := { s.stream with flagDirectionWrite := true, flagEof := false } }
  have hturned : Silent (s.marked false s.stream.flagError) { s with stream := { s.stream with
      flagDirectionWrite := true, flagEof := false } } := silent_of_eq rfl rfl rfl
  generalize writeLoop K.recorded 0 ptr _ = result at hloop ⊢
  obtain ⟨r, left, t⟩ := result
  dsimp only at hloop ⊢
  split
  · exact ⟨replies, hturned.after_silent hloop⟩
  · exact ⟨replies, hturned.after_silent hloop⟩

/-- A flush is denied where one of its two parts is. -/
theorem fflushUnlocked_noted (himpl : s.stream.implWrite = true) :
    ∃ replies, Noted s (fflushUnlocked K.recorded s).2 replies
      (s.stream.HeldToRead ∨ s.stream.HeldToWrite) := by
  obtain ⟨replies, hread⟩ := fflushReadUnlocked_noted K s
  have hcases := fflushReadUnlocked_cases K.recorded s
  unfold fflushUnlocked
  rw [ite_fflushReadUnlocked]
  generalize fflushReadUnlocked K.recorded s = result at hread hcases ⊢
  obtain ⟨r, u⟩ := result
  dsimp only at hread ⊢
  have hpassed : r = EOF ∧ s.stream.HeldToRead ∨ r ≠ EOF ∧ u.stream.implWrite = true ∧
      (u.stream.HeldToWrite ↔ s.stream.HeldToWrite) := by
    rcases hcases with ⟨_, hc⟩ | ⟨hdir, hmode, hc⟩ | ⟨_, _, error, w, hc⟩
    · obtain ⟨rfl, rfl⟩ := Prod.mk.inj hc
      exact Or.inr ⟨zero_ne_EOF, himpl, Iff.rfl⟩
    · exact Or.inl ⟨(Prod.mk.inj hc).1, hdir, hmode⟩
    · obtain ⟨rfl, rfl⟩ := Prod.mk.inj hc
      exact Or.inr ⟨zero_ne_EOF, himpl, Iff.rfl⟩
  rcases hpassed with ⟨hr, hheld⟩ | ⟨hr, himpl', hheld⟩
  · rw [if_pos hr]
    exact ⟨replies, hread.of_iff (iff_of_true hheld (Or.inl hheld))⟩
  · obtain ⟨more, hflush, _⟩ := fflushWriteUnlocked_noted K himpl'
    rw [if_neg hr, ite_fflushWriteUnlocked]
    generalize fflushWriteUnlocked K.recorded u = result at hflush ⊢
    obtain ⟨r', v⟩ := result
    have hboth := hread.trans (hflush.of_iff hheld)
    dsimp only
    split
    · exact ⟨_, hboth⟩
    · exact ⟨_, hboth⟩

end Writing

end Heartix.Stdio
