import Heartix.Stdio.BufferBounds

/-!
Delivery of buffered output. As long as `impl_write` accepts something at every
call, the accepted bytes and the pending ones are together the bytes stored, in
order, and the pending bytes are marked for the next flush. A refused call ends
this: the flush takes the direction away, so the next flush submits nothing
although bytes are pending, and after a partial write the buffer is not moved,
so that what is pending afterwards is its front and not its rest.
-/

namespace Heartix.Stdio

open PartialTransfer Overwrite Runs

variable {W : Type}

/-- A kernel whose writes accept everything. -/
def acceptingKernel : Kernel Unit where
  write _ bytes _ := (some (Fin.last bytes.length), ())
  read _ _ _ := (some ⟨[], Nat.zero_le _⟩, ())
  lseek _ _ _ _ := (0, ())
  tell _ _ := (0, ())
  close _ _ := (0, ())
  openFile _ _ _ := (3, ())
  malloc len _ := (some (4096, Vector.replicate len 0), ())
  free _ _ := ()
  mutexInitialize _ := (1, ())
  mutexTryAcquire _ := true

namespace FILE

/-- The bytes the next `fflush` submits: what it transfers if nothing is refused. -/
def nextFlush (f : FILE) : List UInt8 :=
  takenOf ((fflushUnlocked acceptingKernel ⟨f, ()⟩).2.stream.writes.drop f.writes.length)

/-- The accepted bytes followed by those of the next flush are the bytes stored. -/
def Delivered (f : FILE) : Prop := f.accepted ++ f.nextFlush = f.stored

/-- A stream opened with `mode` on which no write has been refused so far. -/
structure Live (mode : ModeFlags) (f : FILE) : Prop where
  held : f.accepted ++ f.pending = f.stored
  marked : f.bufferedBytesWrite ≠ 0 → f.flagDirectionWrite = true
  oneWay : f.flagDirectionWrite = true → f.flagDirectionRead = false
  accepting : Accepted f.writes
  mode_eq : f.mode = mode
  impl : f.implWrite = true

/-- A write has been refused; what is still missing will not be submitted. -/
structure Stalled (f : FILE) : Prop where
  refused : ¬ Accepted f.writes
  unmarked : f.flagDirectionWrite = false
  missing : f.accepted ≠ f.stored

theorem accepted_of_writes {f g : FILE} {calls : List (Attempt UInt8)}
    (h : g.writes = f.writes ++ calls) : g.accepted = f.accepted ++ takenOf calls := by
  simp [accepted, h]

theorem pending_eq_nil {f : FILE} (h : f.bufferedBytesWrite = 0) : f.pending = [] := by
  simp [pending, h]

theorem Live.empty {mode : ModeFlags} {f : FILE} (h : f.Live mode)
    (hdir : f.flagDirectionWrite = false) : f.bufferedBytesWrite = 0 := by
  by_contra hne
  have hmark := h.marked hne
  simp [hdir] at hmark

/-- Without a direction nothing is pending and all that was stored is accepted;
this holds for whatever is in the buffer then. -/
theorem Live.of_empty {mode : ModeFlags} {f g : FILE} (h : f.Live mode)
    (hdir : f.flagDirectionWrite = false) (hdir' : g.flagDirectionWrite = false)
    (hwrite : g.bufferedBytesWrite = f.bufferedBytesWrite) (hwrites : g.writes = f.writes)
    (hstored : g.stored = f.stored) (hmode : g.mode = f.mode)
    (himpl : g.implWrite = f.implWrite) : g.Live mode where
  held := by
    have hzero := h.empty hdir
    have heq := h.held
    rw [pending_eq_nil hzero] at heq
    rw [pending_eq_nil (hwrite.trans hzero), accepted, hwrites, hstored]
    exact heq
  marked hne := absurd (hwrite.trans (h.empty hdir)) hne
  oneWay hc := by simp [hdir'] at hc
  accepting := by rw [hwrites]; exact h.accepting
  mode_eq := hmode.trans h.mode_eq
  impl := himpl.trans h.impl

/-- Fields a write does not depend on may change. -/
theorem Live.of_eq {mode : ModeFlags} {f g : FILE} (h : f.Live mode)
    (hbuffer : g.buffer = f.buffer) (hwrite : g.bufferedBytesWrite = f.bufferedBytesWrite)
    (hdir : g.flagDirectionWrite = f.flagDirectionWrite)
    (hread : f.flagDirectionRead = false → g.flagDirectionRead = false)
    (hwrites : g.writes = f.writes) (hstored : g.stored = f.stored) (hmode : g.mode = f.mode)
    (himpl : g.implWrite = f.implWrite) : g.Live mode where
  held := by
    have heq := h.held
    unfold accepted pending at *
    rwa [hbuffer, hwrite, hwrites, hstored]
  marked := by rw [hwrite, hdir]; exact h.marked
  oneWay := by rw [hdir]; exact fun hw => hread (h.oneWay hw)
  accepting := by rw [hwrites]; exact h.accepting
  mode_eq := hmode.trans h.mode_eq
  impl := himpl.trans h.impl

end FILE

theorem ensureBuffer_live (K : Kernel W) {mode : ModeFlags} {s t : State W} {r : ℤ}
    (hs : s.stream.Sound) (h : s.stream.Live mode) (heq : ensureBuffer K s = (r, t)) :
    t.stream.Live mode := by
  rcases ensureBuffer_cases K s with
    ⟨_, hcase⟩ | ⟨_, w, hcase⟩ | ⟨hset, address, memory, w, _, hcase⟩
  · obtain ⟨-, rfl⟩ := Prod.mk.inj (hcase.symm.trans heq)
    exact h
  · obtain ⟨-, rfl⟩ := Prod.mk.inj (hcase.symm.trans heq)
    exact h
  · obtain ⟨-, rfl⟩ := Prod.mk.inj (hcase.symm.trans heq)
    obtain ⟨hwrite, _, _, hdir⟩ := hs.unused hset
    exact h.of_empty hdir hdir hwrite.symm rfl rfl rfl rfl

/-- A write flush ends with nothing missing, or stalls the stream. -/
theorem fflushWriteUnlocked_live (K : Kernel W) {mode : ModeFlags} {s t : State W} {r : ℤ}
    (h : s.stream.Live mode) (heq : fflushWriteUnlocked K s = (r, t)) :
    t.stream.Live mode ∨ r = EOF ∧ t.stream.Stalled := by
  rcases fflushWriteUnlocked_cases K s with
    ⟨_, hcase⟩ | ⟨_, _, hcase⟩ | ⟨_, _, _, left, calls, eof, error, w, hcase, htransfer⟩
  · obtain ⟨-, rfl⟩ := Prod.mk.inj (hcase.symm.trans heq)
    exact Or.inl h
  · obtain ⟨-, rfl⟩ := Prod.mk.inj (hcase.symm.trans heq)
    exact Or.inl (h.of_eq rfl rfl rfl id rfl rfl rfl rfl)
  · obtain ⟨hr, rfl⟩ := Prod.mk.inj (hcase.symm.trans heq)
    have hall : s.stream.accepted ++ takenOf calls ++ left = s.stream.stored := by
      rw [List.append_assoc, htransfer.taken_append_left]
      exact h.held
    by_cases hnil : left = []
    · left
      subst hnil
      exact {
        held := by
          rw [FILE.accepted_of_writes rfl, FILE.pending_eq_nil rfl]
          exact hall
        marked := fun hne => absurd rfl hne
        oneWay := fun hc => by cases hc
        accepting := accepted_append.mpr ⟨h.accepting, htransfer.left_eq_nil_iff.mp rfl⟩
        mode_eq := h.mode_eq
        impl := h.impl }
    · right
      refine ⟨by simpa [hnil] using hr.symm, ?_, rfl, ?_⟩
      · intro hacc
        exact hnil (htransfer.left_eq_nil_iff.mpr (accepted_append.mp hacc).2)
      · intro hmissing
        rw [FILE.accepted_of_writes rfl] at hmissing
        rw [hmissing] at hall
        exact hnil (List.append_right_eq_self.mp hall)

theorem fflushReadUnlocked_live (K : Kernel W) {mode : ModeFlags} {s t : State W} {r : ℤ}
    (h : s.stream.Live mode) (heq : fflushReadUnlocked K s = (r, t)) :
    t.stream.Live mode := by
  rcases fflushReadUnlocked_cases K s with
    ⟨_, hcase⟩ | ⟨_, _, hcase⟩ | ⟨_, _, error, w, hcase⟩
  · obtain ⟨-, rfl⟩ := Prod.mk.inj (hcase.symm.trans heq)
    exact h
  · obtain ⟨-, rfl⟩ := Prod.mk.inj (hcase.symm.trans heq)
    exact h.of_eq rfl rfl rfl id rfl rfl rfl rfl
  · obtain ⟨-, rfl⟩ := Prod.mk.inj (hcase.symm.trans heq)
    exact h.of_eq rfl rfl rfl (fun _ => rfl) rfl rfl rfl rfl

theorem MakingRoom.live {K : Kernel W} {mode : ModeFlags} {s t : State W} {r : ℤ}
    (h : s.stream.Live mode) (hroom : MakingRoom K s r t) :
    t.stream.Live mode ∨ r = EOF ∧ t.stream.Stalled := by
  cases hroom with
  | denied hread => exact Or.inl (fflushReadUnlocked_live K h hread)
  | free hread _ => exact Or.inl (fflushReadUnlocked_live K h hread)
  | flushed hread _ hwrite =>
    exact fflushWriteUnlocked_live K (fflushReadUnlocked_live K h hread) hwrite

theorem storeByte_live {mode : ModeFlags} {s t : State W} (h : s.stream.Live mode)
    {c8 : UInt8} (heq : storeByte c8 s = some t) :
    t.stream.Live mode := by
  unfold storeByte at heq
  split at heq
  · rename_i hroom
    obtain rfl := Option.some.inj heq
    have hpending : (s.stream.buffer.set s.stream.bufferedBytesWrite c8).take
        (s.stream.bufferedBytesWrite + 1) = s.stream.pending ++ [c8] := by
      rw [set_eq_overwrite hroom]
      exact take_overwrite_end (Nat.le_of_lt hroom) [c8]
    exact {
      held := by
        have hheld := h.held
        simp only [FILE.accepted, FILE.pending] at hheld ⊢
        rw [hpending, ← List.append_assoc, FILE.pending, hheld]
      marked := fun _ => rfl
      oneWay := fun _ => rfl
      accepting := h.accepting
      mode_eq := h.mode_eq
      impl := h.impl }
  · cases heq

theorem FILE.Live.not_overruns {mode : ModeFlags} {f : FILE} (h : f.Live mode)
    (hs : f.Sound) : ¬ f.Overruns := by
  rintro ⟨hset, hfull, hdir, _⟩
  have hpos := (hs.buffered hset).2
  have hzero := h.empty hdir
  omega

/-- A failing call of `fputc` may stall the stream, a successful one does not. -/
theorem fputcUnlocked_live (K : Kernel W) {mode : ModeFlags} {c : ℤ} {s t : State W} {r : ℤ}
    (hs : s.stream.Sound) (h : s.stream.Live mode) (heq : fputcUnlocked K c s = some (r, t)) :
    t.stream.Live mode ∨ r = EOF ∧ t.stream.Stalled := by
  have hroomLive : ∀ {s₁ s₂ : State W}, ensureBuffer K s = (0, s₁) →
      MakingRoom K s₁ 0 s₂ → s₂.stream.Live mode := by
    intro s₁ s₂ hensure hroom
    have hlive := hroom.live (ensureBuffer_live K hs h hensure)
    exact hlive.resolve_right fun hst => zero_ne_EOF hst.1
  cases fputcUnlocked_putting K (fun hset => (hs.buffered hset).1) heq with
  | noBuffer hensure => exact Or.inl (ensureBuffer_live K hs h hensure)
  | noRoom hensure hroom => exact hroom.live (ensureBuffer_live K hs h hensure)
  | stored hensure hroom hstore => exact Or.inl (storeByte_live (hroomLive hensure hroom) hstore)
  | flushed hensure hroom hstore hflush =>
    have hlive := storeByte_live (hroomLive hensure hroom) hstore
    rcases fflushWriteUnlocked_live K hlive hflush with hlive' | ⟨rfl, hst⟩
    · exact Or.inl hlive'
    · exact Or.inr ⟨if_pos rfl, hst⟩

theorem fwriteLoop_live (K : Kernel W) {mode : ModeFlags} (size nmemb : ℕ)
    {ptr : List UInt8} {done n : ℕ} {s t : State W} (hs : s.stream.Sound)
    (h : s.stream.Live mode) (heq : fwriteLoop K size nmemb done ptr s = some (n, t)) :
    t.stream.Live mode ∨ t.stream.Stalled := by
  induction ptr generalizing done s with
  | nil =>
    obtain ⟨-, rfl⟩ := Prod.mk.inj (Option.some.inj heq)
    exact Or.inl h
  | cons b ptr ih =>
    obtain ⟨r, u, hput, hu, _⟩ := fputcUnlocked_sound K b.toNat hs (h.not_overruns hs)
    have hlive := fputcUnlocked_live K hs h hput
    unfold fwriteLoop at heq
    simp only [hput] at heq
    by_cases hr : r = EOF
    · rw [if_pos hr] at heq
      obtain ⟨-, rfl⟩ := Prod.mk.inj (Option.some.inj heq)
      exact hlive.imp_right And.right
    · rw [if_neg hr] at heq
      exact ih hu (hlive.resolve_right fun hst => hr hst.1) heq

theorem fwriteUnlocked_live (K : Kernel W) {mode : ModeFlags} {ptr : List UInt8}
    {size nmemb n : ℕ} {s t : State W} (hs : s.stream.Sound) (h : s.stream.Live mode)
    (heq : fwriteUnlocked K ptr size nmemb s = some (n, t)) :
    t.stream.Live mode ∨ t.stream.Stalled := by
  unfold fwriteUnlocked at heq
  by_cases hzero : size = 0 ∨ nmemb = 0
  · rw [if_pos hzero] at heq
    obtain ⟨-, rfl⟩ := Prod.mk.inj (Option.some.inj heq)
    exact Or.inl h
  · rw [if_neg hzero] at heq
    by_cases hmode : s.stream.mode.write = false
    · rw [if_pos hmode] at heq
      obtain ⟨-, rfl⟩ := Prod.mk.inj (Option.some.inj heq)
      exact Or.inl (h.of_eq rfl rfl rfl id rfl rfl rfl rfl)
    · rw [if_neg hmode] at heq
      obtain ⟨r, u, hensure, hu, hres⟩ := ensureBuffer_sound K hs
      have hlive := ensureBuffer_live K hs h hensure
      simp only [hensure] at heq
      rcases hres with ⟨rfl, _, _⟩ | ⟨rfl, hset, _, _⟩
      · rw [if_pos rfl] at heq
        obtain ⟨-, rfl⟩ := Prod.mk.inj (Option.some.inj heq)
        exact Or.inl hlive
      · rw [if_neg zero_ne_EOF, if_neg (hu.buffered hset).1] at heq
        exact fwriteLoop_live K size nmemb hu hlive heq

theorem fillBuffer_live (K : Kernel W) {mode : ModeFlags} {s : State W}
    (h : s.stream.Live mode) (hdir : s.stream.flagDirectionWrite = false) :
    (fillBuffer K s).2.stream.Live mode ∧
      (fillBuffer K s).2.stream.flagDirectionWrite = false := by
  unfold fillBuffer implRead
  dsimp only
  generalize (if ungetPreservedSpace ≥ s.stream.bufferSize then 0
    else ungetPreservedSpace) = unget
  rcases K.read s.stream.fileDescriptor (s.stream.bufferSize - unget) s.world with
    ⟨_ | ⟨_ | ⟨b, bytes⟩, hlen⟩, w⟩
  · exact ⟨h.of_empty hdir hdir rfl rfl rfl rfl rfl, hdir⟩
  · exact ⟨h.of_empty hdir hdir rfl rfl rfl rfl rfl, hdir⟩
  · exact ⟨h.of_empty hdir hdir rfl rfl rfl rfl rfl, hdir⟩

theorem takeByte_live {mode : ModeFlags} {s t : State W} {r : ℤ}
    (h : s.stream.Live mode) (hdir : s.stream.flagDirectionWrite = false)
    (heq : takeByte s = some (r, t)) : t.stream.Live mode := by
  unfold takeByte at heq
  split at heq
  · cases heq
  · obtain ⟨-, rfl⟩ := Prod.mk.inj (Option.some.inj heq)
    exact h.of_empty hdir hdir rfl rfl rfl rfl rfl

/-- Refilling the buffer overwrites nothing that is still to be written. -/
theorem readBuffered_live (K : Kernel W) {mode : ModeFlags} {s t : State W} {r : ℤ}
    (h : s.stream.Live mode) (hdir : s.stream.flagDirectionWrite = false)
    (heq : readBuffered K s = some (r, t)) : t.stream.Live mode := by
  unfold readBuffered at heq
  split at heq
  · obtain ⟨hfill, hdirFill⟩ := fillBuffer_live K h hdir
    rcases hcall : fillBuffer K s with ⟨r', u⟩
    rw [hcall] at hfill hdirFill
    simp only [hcall] at heq
    by_cases hr : r' = EOF
    · rw [if_pos hr] at heq
      obtain ⟨-, rfl⟩ := Prod.mk.inj (Option.some.inj heq)
      exact hfill
    · rw [if_neg hr] at heq
      exact takeByte_live hfill hdirFill heq
  · exact takeByte_live h hdir heq

theorem putBack_live {mode : ModeFlags} {s t : State W} {c8 : UInt8} {r : ℤ}
    (heq : putBack c8 s = some (r, t)) (h : s.stream.Live mode)
    (hdir : s.stream.flagDirectionWrite = false) : t.stream.Live mode := by
  unfold putBack at heq
  dsimp only at heq
  split at heq
  · obtain ⟨-, rfl⟩ := Prod.mk.inj (Option.some.inj heq)
    exact h.of_empty hdir hdir rfl rfl rfl rfl rfl
  · cases heq

theorem unreadBuffered_live {mode : ModeFlags} {s t : State W} {c8 : UInt8} {r : ℤ}
    (heq : unreadBuffered c8 s = some (r, t)) (h : s.stream.Live mode)
    (hdir : s.stream.flagDirectionWrite = false) : t.stream.Live mode := by
  unfold unreadBuffered at heq
  split at heq
  · split at heq
    · obtain ⟨-, rfl⟩ := Prod.mk.inj (Option.some.inj heq)
      exact h
    · have hshift : (shiftRight s.stream).Live mode :=
        h.of_empty hdir hdir rfl rfl rfl rfl rfl
      exact putBack_live heq hshift hdir
  · exact putBack_live heq h hdir

/-- What `fgetc` and `ungetc` begin with: a buffer, and no bytes to write. -/
theorem readAccess_live (K : Kernel W) {mode : ModeFlags} {s s₁ s₂ : State W} {r : ℤ}
    (hs : s.stream.Sound) (h : s.stream.Live mode) (hensure : ensureBuffer K s = (0, s₁))
    (hflush : fflushWriteUnlocked K s₁ = (r, s₂)) :
    r = EOF ∧ (s₂.stream.Live mode ∨ s₂.stream.Stalled) ∨
      r = 0 ∧ s₂.stream.Live mode ∧ s₂.stream.flagDirectionWrite = false := by
  have hlive := fflushWriteUnlocked_live K (ensureBuffer_live K hs h hensure) hflush
  obtain ⟨_, _, hensure', hs₁, _⟩ := ensureBuffer_sound K hs
  obtain ⟨-, rfl⟩ := Prod.mk.inj (hensure.symm.trans hensure')
  obtain ⟨_, _, hflush', _, _, _, _, _, hres⟩ := fflushWriteUnlocked_sound K hs₁
  obtain ⟨rfl, rfl⟩ := Prod.mk.inj (hflush.symm.trans hflush')
  rcases hres with hr | ⟨hr, hdir, _⟩
  · exact Or.inl ⟨hr, hlive.imp_right And.right⟩
  · refine Or.inr ⟨hr, hlive.resolve_right fun hst => ?_, hdir⟩
    exact zero_ne_EOF (hr.symm.trans hst.1)

theorem fgetcUnlocked_live (K : Kernel W) {mode : ModeFlags} {s t : State W} {r : ℤ}
    (hs : s.stream.Sound) (h : s.stream.Live mode) (heq : fgetcUnlocked K s = some (r, t)) :
    t.stream.Live mode ∨ r = EOF ∧ t.stream.Stalled := by
  unfold fgetcUnlocked at heq
  rcases hensure : ensureBuffer K s with ⟨r₁, s₁⟩
  simp only [hensure] at heq
  rcases ensureBuffer_result K hensure with rfl | rfl
  · rw [if_neg zero_ne_EOF,
      if_neg (ensureBuffer_buffered K (fun hset => (hs.buffered hset).1) hensure),
      ite_fflushWriteUnlocked] at heq
    rcases hflush : fflushWriteUnlocked K s₁ with ⟨r₂, s₂⟩
    simp only [hflush] at heq
    rcases readAccess_live K hs h hensure hflush with ⟨rfl, hlive⟩ | ⟨rfl, hlive, hdir⟩
    · rw [if_pos rfl] at heq
      obtain ⟨rfl, rfl⟩ := Prod.mk.inj (Option.some.inj heq)
      exact hlive.imp_right fun hst => ⟨rfl, hst⟩
    · rw [if_neg zero_ne_EOF] at heq
      have hstart : ({ s₂.stream with
          flagDirectionWrite := false, flagDirectionRead := true } : FILE).Live mode :=
        hlive.of_empty hdir rfl rfl rfl rfl rfl rfl
      exact Or.inl (readBuffered_live K hstart rfl heq)
  · rw [if_pos rfl] at heq
    obtain ⟨-, rfl⟩ := Prod.mk.inj (Option.some.inj heq)
    exact Or.inl (ensureBuffer_live K hs h hensure)

theorem fungetcUnlocked_live (K : Kernel W) {mode : ModeFlags} {c r : ℤ} {s t : State W}
    (hs : s.stream.Sound) (h : s.stream.Live mode)
    (heq : fungetcUnlocked K c s = some (r, t)) :
    t.stream.Live mode ∨ t.stream.Stalled := by
  unfold fungetcUnlocked at heq
  rcases hensure : ensureBuffer K s with ⟨r₁, s₁⟩
  simp only [hensure] at heq
  rcases ensureBuffer_result K hensure with rfl | rfl
  · rw [if_neg zero_ne_EOF,
      if_neg (ensureBuffer_buffered K (fun hset => (hs.buffered hset).1) hensure),
      ite_fflushWriteUnlocked] at heq
    rcases hflush : fflushWriteUnlocked K s₁ with ⟨r₂, s₂⟩
    simp only [hflush] at heq
    rcases readAccess_live K hs h hensure hflush with ⟨rfl, hlive⟩ | ⟨rfl, hlive, hdir⟩
    · rw [if_pos rfl] at heq
      obtain ⟨-, rfl⟩ := Prod.mk.inj (Option.some.inj heq)
      exact hlive
    · rw [if_neg zero_ne_EOF] at heq
      have hstart : ({ s₂.stream with
          flagDirectionRead := true, flagEof := false } : FILE).Live mode :=
        hlive.of_empty hdir hdir rfl rfl rfl rfl rfl
      left
      by_cases hc : c = EOF
      · rw [if_pos hc] at heq
        obtain ⟨-, rfl⟩ := Prod.mk.inj (Option.some.inj heq)
        exact hstart
      · rw [if_neg hc] at heq
        exact unreadBuffered_live heq hstart hdir
  · rw [if_pos rfl] at heq
    obtain ⟨-, rfl⟩ := Prod.mk.inj (Option.some.inj heq)
    exact Or.inl (ensureBuffer_live K hs h hensure)

theorem freadLoop_live (K : Kernel W) {mode : ModeFlags} (size nmemb : ℕ) {left n : ℕ}
    {bytes stored : List UInt8} {s t : State W} (hs : s.stream.Sound)
    (h : s.stream.Live mode)
    (heq : freadLoop K size nmemb left bytes s = some (n, stored, t)) :
    t.stream.Live mode ∨ t.stream.Stalled := by
  induction left generalizing bytes s with
  | zero =>
    obtain ⟨-, -, rfl⟩ := by simpa [freadLoop] using heq
    exact Or.inl h
  | succ left ih =>
    obtain ⟨c, u, hget, hu⟩ := fgetcUnlocked_sound K hs
    have hlive := fgetcUnlocked_live K hs h hget
    unfold freadLoop at heq
    simp only [hget] at heq
    by_cases hc : c = EOF
    · rw [if_pos hc] at heq
      obtain ⟨-, -, rfl⟩ := by simpa using heq
      exact hlive.imp_right And.right
    · rw [if_neg hc] at heq
      exact ih hu (hlive.resolve_right fun hst => hc hst.1) heq

theorem freadUnlocked_live (K : Kernel W) {mode : ModeFlags} {size nmemb n : ℕ}
    {stored : List UInt8} {s t : State W} (hs : s.stream.Sound) (h : s.stream.Live mode)
    (heq : freadUnlocked K size nmemb s = some (n, stored, t)) :
    t.stream.Live mode ∨ t.stream.Stalled := by
  unfold freadUnlocked at heq
  split at heq
  · obtain ⟨-, -, rfl⟩ := by simpa using heq
    exact Or.inl h
  · split at heq
    · obtain ⟨-, -, rfl⟩ := by simpa using heq
      exact Or.inl (h.of_eq rfl rfl rfl id rfl rfl rfl rfl)
    · obtain ⟨r, u, hensure, hu, hres⟩ := ensureBuffer_sound K hs
      have hlive := ensureBuffer_live K hs h hensure
      simp only [hensure] at heq
      rcases hres with ⟨rfl, _, _⟩ | ⟨rfl, hset, _, _⟩
      · obtain ⟨-, -, rfl⟩ := by simpa using heq
        exact Or.inl hlive
      · rw [if_neg zero_ne_EOF, if_neg (hu.buffered hset).1] at heq
        exact freadLoop_live K size nmemb hu hlive heq

theorem fflushUnlocked_live (K : Kernel W) {mode : ModeFlags} {s : State W}
    (h : s.stream.Live mode) :
    (fflushUnlocked K s).2.stream.Live mode ∨ (fflushUnlocked K s).2.stream.Stalled := by
  have ht := fflushReadUnlocked_live K h rfl
  rcases fflushUnlocked_cases K s with hflush | hflush
  · rw [hflush]
    exact Or.inl ht
  · rw [hflush]
    exact (fflushWriteUnlocked_live K ht rfl).imp_right And.right

/-- Step lemma: an operation on a live stream is defined, keeps the stream
sound, and leaves it live or stalled. -/
theorem step_live (K : Kernel W) {mode : ModeFlags} {s : State W} (op : Op)
    (hs : s.stream.Sound) (h : s.stream.Live mode) :
    ∃ t, step K s op = some t ∧ t.stream.Sound ∧ (t.stream.Live mode ∨ t.stream.Stalled) := by
  have hno := h.not_overruns hs
  obtain ⟨t, ht, hsound⟩ := step_sound K op hs fun hbad => hno hbad.2
  refine ⟨t, ht, hsound, ?_⟩
  unfold step at ht
  obtain ⟨⟨ret, u⟩, hexec, rfl⟩ := Option.map_eq_some_iff.mp ht
  cases op with
  | fgetc =>
    obtain ⟨⟨c, v⟩, hcall, hv⟩ := Option.map_eq_some_iff.mp hexec
    obtain ⟨-, rfl⟩ := Prod.mk.inj hv
    exact (fgetcUnlocked_live K hs h hcall).imp_right And.right
  | fread size nmemb =>
    obtain ⟨⟨n, stored, v⟩, hcall, hv⟩ := Option.map_eq_some_iff.mp hexec
    obtain ⟨-, rfl⟩ := Prod.mk.inj hv
    exact freadUnlocked_live K hs h hcall
  | ungetc c =>
    obtain ⟨⟨r, v⟩, hcall, hv⟩ := Option.map_eq_some_iff.mp hexec
    obtain ⟨-, rfl⟩ := Prod.mk.inj hv
    exact fungetcUnlocked_live K hs h hcall
  | fputc c =>
    obtain ⟨⟨r, v⟩, hcall, hv⟩ := Option.map_eq_some_iff.mp hexec
    obtain ⟨-, rfl⟩ := Prod.mk.inj hv
    exact (fputcUnlocked_live K hs h hcall).imp_right And.right
  | fwrite size nmemb ptr =>
    obtain ⟨⟨n, v⟩, hcall, hv⟩ := Option.map_eq_some_iff.mp hexec
    obtain ⟨-, rfl⟩ := Prod.mk.inj hv
    exact fwriteUnlocked_live K hs h hcall
  | fflush =>
    obtain ⟨-, rfl⟩ := Prod.mk.inj (Option.some.inj hexec)
    exact fflushUnlocked_live K h

/-- Offered to a sink that accepts everything, a queue is gone after one call. -/
theorem writeLoop_accepting (done : ℕ) (rest : List UInt8) (s : State Unit) :
    (writeLoop acceptingKernel done rest s).2.2.stream.writes =
      s.stream.writes ++ if rest = [] then [] else [⟨done, rest⟩] := by
  by_cases hrest : rest = []
  · rw [writeLoop, dif_pos hrest]
    simp [hrest]
  · obtain ⟨b, bytes, rfl⟩ := List.exists_cons_of_ne_nil hrest
    rw [writeLoop, dif_neg hrest]
    simp only [implWrite, acceptingKernel, List.length_cons, Fin.last]
    rw [writeLoop, dif_pos (by simp)]
    simp

theorem fflushUnlocked_unmarked (K : Kernel W) {s : State W}
    (hdir : s.stream.flagDirectionWrite = false) :
    (fflushUnlocked K s).2.stream.writes = s.stream.writes := by
  rw [fflushUnlocked_notWriting K hdir]
  rcases fflushReadUnlocked_cases K s with
    ⟨_, hcase⟩ | ⟨_, _, hcase⟩ | ⟨_, _, error, w, hcase⟩
  · rw [hcase]
  · rw [hcase]
    rfl
  · rw [hcase]

namespace FILE

theorem nextFlush_of_unmarked {f : FILE} (hdir : f.flagDirectionWrite = false) :
    f.nextFlush = [] := by
  unfold nextFlush
  have hwrites : (fflushUnlocked acceptingKernel ⟨f, ()⟩).2.stream.writes = f.writes :=
    fflushUnlocked_unmarked acceptingKernel hdir
  rw [hwrites]
  simp

/-- The next flush of a stream that is being written submits what is pending. -/
theorem nextFlush_of_marked {f : FILE} (hdir : f.flagDirectionWrite = true)
    (hread : f.flagDirectionRead = false) (hmode : f.mode.write = true)
    (himpl : f.implWrite = true) : f.nextFlush = f.pending := by
  have hflush : (fflushUnlocked acceptingKernel ⟨f, ()⟩).2.stream.writes =
      (writeLoop acceptingKernel 0 f.pending ⟨f, ()⟩).2.2.stream.writes := by
    unfold fflushUnlocked
    simp only [hread, hdir, Bool.false_eq_true, if_false, zero_ne_EOF, if_true]
    simp only [fflushWriteUnlocked, hdir, hmode, himpl, Bool.true_eq_false, if_false]
    split <;> rfl
  unfold nextFlush
  rw [hflush, writeLoop_accepting]
  by_cases hnil : f.pending = []
  · simp [hnil]
  · simp [hnil]

theorem Live.delivered {mode : ModeFlags} {f : FILE} (h : f.Live mode)
    (hmode : mode.write = true) : f.Delivered := by
  unfold Delivered
  cases hdir : f.flagDirectionWrite with
  | true =>
    rw [nextFlush_of_marked hdir (h.oneWay hdir) (h.mode_eq ▸ hmode) h.impl]
    exact h.held
  | false =>
    have hheld := h.held
    rw [pending_eq_nil (h.empty hdir)] at hheld
    rw [nextFlush_of_unmarked hdir]
    exact hheld

theorem Stalled.not_delivered {f : FILE} (h : f.Stalled) : ¬ f.Delivered := by
  intro hdelivered
  unfold Delivered at hdelivered
  rw [nextFlush_of_unmarked h.unmarked, List.append_nil] at hdelivered
  exact h.missing hdelivered

/-- A stream opened for writing on which nothing has happened yet. -/
structure FreshOutput (f : FILE) : Prop extends Fresh f where
  writable : f.mode.write = true
  impl : f.implWrite = true
  stored_nil : f.stored = []
  writes_nil : f.writes = []

theorem FreshOutput.live {f : FILE} (h : f.FreshOutput) : f.Live f.mode where
  held := by
    rw [accepted, h.writes_nil, pending_eq_nil h.write_zero, h.stored_nil]
    rfl
  marked hne := absurd h.write_zero hne
  oneWay _ := h.notReading
  accepting := by
    rw [h.writes_nil]
    intro a ha
    cases ha
  mode_eq := rfl
  impl := h.impl

end FILE

/-- No call of `impl_write` in the run answers 0 or -1. -/
def EveryWriteAccepted (K : Kernel W) (ops : List Op) (s : State W) : Prop :=
  Guarded (step K) (fun s op => ∀ t, step K s op = some t → Accepted t.stream.writes) ops s

/-- Accepted bytes and the next flush make up the stored bytes at every moment
of a run exactly when no write of the run is refused. -/
theorem delivery_iff (K : Kernel W) (ops : List Op) (s : State W)
    (hs : s.stream.FreshOutput) :
    Along (step K) (fun s => s.stream.Delivered) ops s ↔ EveryWriteAccepted K ops s := by
  apply along_iff_guarded
    (I := fun t => t.stream.Sound ∧ t.stream.Live s.stream.mode)
    (fun t h => h.2.delivered hs.writable)
  · intro t op h hguard
    obtain ⟨u, hu, hsound, hlive | hst⟩ := step_live K op h.1 h.2
    · exact ⟨u, hu, hsound, hlive⟩
    · exact absurd (hguard u hu) hst.refused
  · intro t op h hbad u hu hdelivered
    apply hbad
    intro v hv
    obtain rfl := Option.some.inj (hu.symm.trans hv)
    obtain ⟨w, hw, _, hlive | hst⟩ := step_live K op h.1 h.2
    · obtain rfl := Option.some.inj (hu.symm.trans hw)
      exact hlive.accepting
    · obtain rfl := Option.some.inj (hu.symm.trans hw)
      exact absurd hdelivered hst.not_delivered
  · exact ⟨hs.toFresh.sound, hs.live⟩

theorem openedStream_freshOutput {mode : ModeFlags} (hwrite : mode.write = true)
    {memory : List UInt8} {bufferMode : BufferMode} (hmode : bufferMode ≠ .ionbf)
    (hpos : 0 < memory.length) : (openedStream mode memory bufferMode).FreshOutput :=
  { openedStream_fresh mode hmode hpos with
    writable := hwrite, impl := rfl, stored_nil := rfl, writes_nil := rfl }

theorem delivery_iff_twoBytes :
    Along (step scriptedKernel) (fun s : State _ => s.stream.Delivered)
        [.fputc 97, .fputc 98, .fputc 99, .fflush]
        ⟨openedStream writeFlags [0, 0] .iolbf, [some 1]⟩ ↔
      EveryWriteAccepted scriptedKernel [.fputc 97, .fputc 98, .fputc 99, .fflush]
        ⟨openedStream writeFlags [0, 0] .iolbf, [some 1]⟩ :=
  delivery_iff scriptedKernel _ _
    (openedStream_freshOutput (by decide) (by decide) (by decide))

/-- Of `abc` one byte is accepted before the flush fails. The retry submits the
front of the buffer again: `a` arrives twice and `c` never. -/
theorem delivery_partial_write :
    (openedStream writeFlags [0, 0, 0, 0] .iofbf).FreshOutput ∧
    (([.fputc 97, .fputc 98, .fputc 99, .fflush, .fputc 100, .fflush] : List Op).foldlM
        (step scriptedKernel)
        ⟨openedStream writeFlags [0, 0, 0, 0] .iofbf, [some 1, none]⟩).map
      (fun t => (t.stream.accepted, t.stream.stored)) =
      some ([97, 97, 98, 100], [97, 98, 99, 100]) ∧
    ¬ Along (step scriptedKernel) (fun s : State _ => s.stream.Delivered)
      [.fputc 97, .fputc 98, .fputc 99, .fflush, .fputc 100, .fflush]
      ⟨openedStream writeFlags [0, 0, 0, 0] .iofbf, [some 1, none]⟩ := by
  have hrun : (([.fputc 97, .fputc 98, .fputc 99, .fflush, .fputc 100, .fflush] :
      List Op).foldlM (step scriptedKernel)
        ⟨openedStream writeFlags [0, 0, 0, 0] .iofbf, [some 1, none]⟩).map
      (fun t => (t.stream.accepted, t.stream.stored)) =
      some ([97, 97, 98, 100], [97, 98, 99, 100]) := by
    decide +kernel
  refine ⟨openedStream_freshOutput (by decide) (by decide) (by decide), hrun, ?_⟩
  intro h
  obtain ⟨t, ht, hdelivered⟩ := h.foldlM
  rw [ht] at hrun
  obtain ⟨haccepted, hstored⟩ := Prod.mk.inj (Option.some.inj hrun)
  unfold FILE.Delivered at hdelivered
  rw [haccepted, hstored] at hdelivered
  simp at hdelivered

end Heartix.Stdio
