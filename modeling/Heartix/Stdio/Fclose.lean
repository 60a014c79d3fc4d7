import Heartix.Stdio.Delivery
import Heartix.Stdio.OpenFileList
import Heartix.Stdio.Stored

/-!
What `fclose` says about the bytes written before. It ignores the result of the
flush it makes, so a refused write at the end of a stream goes unreported, and a
flush refused earlier may have left bytes behind that no later flush submits.
Where neither happens, a successful `fclose` means that every byte written with
success has been accepted.
-/

namespace Heartix.Stdio

open PartialTransfer Overwrite

variable {W : Type}

/-- The calls of a program that only writes. -/
def Op.Writes : Op → Prop
  | .fputc _ => True
  | .fwrite _ _ _ => True
  | .fflush => True
  | _ => False

/-- A stream and the bytes its user believes to have written. -/
structure Session (W : Type) where
  state : State W
  written : List UInt8

def Session.step (K : Kernel W) (s : Session W) (op : Op) : Option (Session W) :=
  match op.exec K s.state with
  | none => none
  | some (ret, t) => some ⟨t, s.written ++ op.written ret⟩

/-- Every refused call was the first of its flush. -/
def RefusedFirst (writes : List (Attempt UInt8)) : Prop :=
  ∀ a ∈ writes, a.taken = [] → a.position = 0

instance (writes : List (Attempt UInt8)) : Decidable (RefusedFirst writes) := by
  unfold RefusedFirst
  infer_instance

instance (writes : List (Attempt UInt8)) : Decidable (Accepted writes) := by
  unfold Accepted
  infer_instance

instance (K : Kernel W) (s : State W) : Decidable (CloseSucceeds K s) := by
  unfold CloseSucceeds
  infer_instance

/-- The calls of `impl_write` made by the flush at closing. -/
def finalWrites (K : Kernel W) (s : State W) : List (Attempt UInt8) :=
  (fflushUnlocked K s).2.stream.writes.drop s.stream.writes.length

/-- The stream has been set unbuffered, so that `fwrite` goes to the kernel. -/
def FILE.Unbuffered (f : FILE) : Prop := f.flagBufferSet = true ∧ f.bufferMode = .ionbf

instance (f : FILE) : Decidable f.Unbuffered := by
  unfold FILE.Unbuffered
  infer_instance

/-- Closing fails, or nothing can get lost: no flush of the buffer was refused
after it had written a part, what is pending is marked for writing, and the
flush at closing is refused nothing. -/
def ClosesCleanly (K : Kernel W) (s : State W) : Prop :=
  CloseSucceeds K s →
    (¬ s.stream.Unbuffered → RefusedFirst s.stream.writes) ∧
    (s.stream.bufferedBytesWrite = 0 ∨ s.stream.flagDirectionWrite = true) ∧
    Accepted (finalWrites K s)

instance (K : Kernel W) (s : State W) : Decidable (ClosesCleanly K s) := by
  unfold ClosesCleanly
  infer_instance

namespace FILE

/-- A buffered output stream, whose buffer holds what is not accepted unless a
flush was refused half way. -/
structure Kept (f : FILE) : Prop where
  notReading : f.flagDirectionRead = false
  writable : f.mode.write = true
  impl : f.implWrite = true
  held : RefusedFirst f.writes → f.accepted ++ f.pending = f.stored

/-- An unbuffered output stream. -/
structure Direct (f : FILE) : Prop where
  notReading : f.flagDirectionRead = false
  writable : f.mode.write = true
  impl : f.implWrite = true
  set : f.flagBufferSet = true
  unbuffered : f.bufferMode = .ionbf
  empty : f.bufferedBytesWrite = 0

/-- An unbuffered stream on which nothing has happened yet. -/
structure FreshUnbuffered (f : FILE) : Prop extends Direct f where
  writes_nil : f.writes = []

theorem FreshOutput.kept {f : FILE} (h : f.FreshOutput) : f.Kept :=
  ⟨h.notReading, h.writable, h.impl, fun _ => h.live.held⟩

end FILE

theorem refusedFirst_append {as bs : List (Attempt UInt8)} (h : RefusedFirst (as ++ bs)) :
    RefusedFirst as ∧ RefusedFirst bs :=
  ⟨fun a ha => h a (List.mem_append_left bs ha), fun b hb => h b (List.mem_append_right as hb)⟩

theorem ensureBuffer_kept (K : Kernel W) {s t : State W} {r : ℤ} (hs : s.stream.Sound)
    (h : s.stream.Kept) (heq : ensureBuffer K s = (r, t)) : t.stream.Kept := by
  rcases ensureBuffer_cases K s with
    ⟨_, hcase⟩ | ⟨_, w, hcase⟩ | ⟨hset, address, memory, w, _, hcase⟩
  · obtain ⟨-, rfl⟩ := Prod.mk.inj (hcase.symm.trans heq)
    exact h
  · obtain ⟨-, rfl⟩ := Prod.mk.inj (hcase.symm.trans heq)
    exact h
  · obtain ⟨-, rfl⟩ := Prod.mk.inj (hcase.symm.trans heq)
    refine ⟨h.notReading, h.writable, h.impl, fun hfirst => ?_⟩
    have hheld := h.held hfirst
    rw [FILE.pending_eq_nil (hs.unused hset).1] at hheld
    exact hheld

/-- A flush refused at its first call leaves the pending bytes as they are. -/
theorem fflushWriteUnlocked_kept (K : Kernel W) {s t : State W} {r : ℤ} (h : s.stream.Kept)
    (heq : fflushWriteUnlocked K s = (r, t)) : t.stream.Kept := by
  rcases fflushWriteUnlocked_cases K s with
    ⟨_, hcase⟩ | ⟨_, _, hcase⟩ | ⟨_, _, _, left, calls, eof, error, w, hcase, htransfer⟩
  · obtain ⟨-, rfl⟩ := Prod.mk.inj (hcase.symm.trans heq)
    exact h
  · obtain ⟨-, rfl⟩ := Prod.mk.inj (hcase.symm.trans heq)
    exact ⟨h.notReading, h.writable, h.impl, h.held⟩
  · obtain ⟨-, rfl⟩ := Prod.mk.inj (hcase.symm.trans heq)
    refine ⟨h.notReading, h.writable, h.impl, fun hfirst => ?_⟩
    obtain ⟨hbefore, hcalls⟩ := refusedFirst_append hfirst
    have hall : s.stream.accepted ++ takenOf calls ++ left = s.stream.stored := by
      rw [List.append_assoc, htransfer.taken_append_left]
      exact h.held hbefore
    have hpending : s.stream.buffer.take left.length = left := by
      by_cases hnil : left = []
      · simp [hnil]
      · obtain ⟨_, hleft⟩ := htransfer.left_eq_queue hcalls hnil
        rw [hleft]
        simp [FILE.pending]
    rw [FILE.accepted_of_writes rfl]
    show s.stream.accepted ++ takenOf calls ++ s.stream.buffer.take left.length = _
    rw [hpending]
    exact hall

theorem MakingRoom.kept {K : Kernel W} {s t : State W} {r : ℤ} (h : s.stream.Kept)
    (hroom : MakingRoom K s r t) : t.stream.Kept := by
  have hskip := fflushReadUnlocked_notReading K h.notReading
  cases hroom with
  | denied hread =>
    obtain ⟨-, rfl⟩ := Prod.mk.inj (hskip.symm.trans hread)
    exact h
  | free hread _ =>
    obtain ⟨-, rfl⟩ := Prod.mk.inj (hskip.symm.trans hread)
    exact h
  | flushed hread _ hwrite =>
    obtain ⟨-, rfl⟩ := Prod.mk.inj (hskip.symm.trans hread)
    exact fflushWriteUnlocked_kept K h hwrite

theorem storeByte_kept {s t : State W} {c8 : UInt8} (h : s.stream.Kept)
    (heq : storeByte c8 s = some t) : t.stream.Kept := by
  have hpending := storeByte_pending heq
  unfold storeByte at heq
  split at heq
  · obtain rfl := Option.some.inj heq
    refine ⟨rfl, h.writable, h.impl, fun hfirst => ?_⟩
    rw [hpending, ← List.append_assoc]
    exact congrArg (· ++ [c8]) (h.held hfirst)
  · cases heq

theorem fputcUnlocked_kept (K : Kernel W) {c r : ℤ} {s t : State W} (hs : s.stream.Sound)
    (h : s.stream.Kept) (heq : fputcUnlocked K c s = some (r, t)) : t.stream.Kept := by
  cases fputcUnlocked_putting K (fun hset => (hs.buffered hset).1) heq with
  | noBuffer hensure => exact ensureBuffer_kept K hs h hensure
  | noRoom hensure hroom => exact hroom.kept (ensureBuffer_kept K hs h hensure)
  | stored hensure hroom hstore =>
    exact storeByte_kept (hroom.kept (ensureBuffer_kept K hs h hensure)) hstore
  | flushed hensure hroom hstore hflush =>
    have hkept := storeByte_kept (hroom.kept (ensureBuffer_kept K hs h hensure)) hstore
    exact fflushWriteUnlocked_kept K hkept hflush

theorem fwriteLoop_kept (K : Kernel W) {size nmemb done n : ℕ} {ptr : List UInt8}
    {s t : State W} (hs : s.stream.Sound) (h : s.stream.Kept)
    (heq : fwriteLoop K size nmemb done ptr s = some (n, t)) : t.stream.Kept := by
  induction ptr generalizing done s with
  | nil =>
    obtain ⟨-, rfl⟩ := Prod.mk.inj (Option.some.inj heq)
    exact h
  | cons b ptr ih =>
    unfold fwriteLoop at heq
    rcases hput : fputcUnlocked K b.toNat s with _ | ⟨r, u⟩
    · simp [hput] at heq
    · simp only [hput] at heq
      have hkept := fputcUnlocked_kept K hs h hput
      by_cases hr : r = EOF
      · rw [if_pos hr] at heq
        obtain ⟨-, rfl⟩ := Prod.mk.inj (Option.some.inj heq)
        exact hkept
      · rw [if_neg hr] at heq
        exact ih (fputcUnlocked_sound_of_some K hs hput) hkept heq

theorem fwriteUnlocked_kept (K : Kernel W) {size nmemb n : ℕ} {ptr : List UInt8}
    {s t : State W} (hs : s.stream.Sound) (h : s.stream.Kept)
    (heq : fwriteUnlocked K ptr size nmemb s = some (n, t)) : t.stream.Kept := by
  unfold fwriteUnlocked at heq
  by_cases hzero : size = 0 ∨ nmemb = 0
  · rw [if_pos hzero] at heq
    obtain ⟨-, rfl⟩ := Prod.mk.inj (Option.some.inj heq)
    exact h
  · have hwritable : ¬ s.stream.mode.write = false := by simp [h.writable]
    rw [if_neg hzero, if_neg hwritable] at heq
    obtain ⟨r, u, hensure, hu, hres⟩ := ensureBuffer_sound K hs
    have hkept := ensureBuffer_kept K hs h hensure
    simp only [hensure] at heq
    rcases hres with ⟨rfl, _, _⟩ | ⟨rfl, hset, _, _⟩
    · rw [if_pos rfl] at heq
      obtain ⟨-, rfl⟩ := Prod.mk.inj (Option.some.inj heq)
      exact hkept
    · rw [if_neg zero_ne_EOF, if_neg (hu.buffered hset).1] at heq
      exact fwriteLoop_kept K hu hkept heq

/-- The loop around `impl_write` on an unbuffered stream. -/
theorem fwriteUnbuffered_direct (K : Kernel W) {size n : ℕ} {ptr : List UInt8}
    {s t : State W} (h : s.stream.Direct) (heq : fwriteUnbuffered K ptr size s = (n, t)) :
    t.stream.Direct ∧ ∃ l, t.stream.accepted = s.stream.accepted ++ l ∧
      (n = SIZE_MAX ∨ l = ptr) := by
  unfold fwriteUnbuffered at heq
  rw [if_neg (by simp [h.impl])] at heq
  obtain ⟨left, calls, eof, error, w, hloop, htransfer⟩ := writeLoop_eq K 0 ptr
    { s with stream := { s.stream with flagDirectionWrite := true, flagEof := false } }
  rw [hloop] at heq
  by_cases hnil : left = []
  · have hcalls : takenOf calls = ptr := by
      have htaken := htransfer.taken_append_left
      rwa [hnil, List.append_nil] at htaken
    simp only [hnil, if_true, zero_ne_EOF, if_false] at heq
    obtain ⟨-, rfl⟩ := Prod.mk.inj heq
    exact ⟨⟨h.notReading, h.writable, h.impl, h.set, h.unbuffered, h.empty⟩, takenOf calls,
      FILE.accepted_of_writes rfl, Or.inr hcalls⟩
  · simp only [hnil, if_false, if_true] at heq
    obtain ⟨rfl, rfl⟩ := Prod.mk.inj heq
    exact ⟨⟨h.notReading, h.writable, h.impl, h.set, h.unbuffered, h.empty⟩, takenOf calls,
      FILE.accepted_of_writes rfl, Or.inl rfl⟩

theorem fflushUnlocked_direct (K : Kernel W) {s : State W} (h : s.stream.Direct) :
    (fflushUnlocked K s).2.stream.Direct ∧
      ∃ l, (fflushUnlocked K s).2.stream.accepted = s.stream.accepted ++ l := by
  rw [fflushUnlocked_notReading K h.notReading]
  rcases fflushWriteUnlocked_cases K s with
    ⟨_, hcase⟩ | ⟨_, _, hcase⟩ | ⟨_, _, _, left, calls, eof, error, w, hcase, htransfer⟩
  · rw [hcase]
    exact ⟨h, [], by simp⟩
  · rw [hcase]
    exact ⟨⟨h.notReading, h.writable, h.impl, h.set, h.unbuffered, h.empty⟩, [],
      (List.append_nil _).symm⟩
  · rw [hcase]
    refine ⟨⟨h.notReading, h.writable, h.impl, h.set, h.unbuffered, ?_⟩, takenOf calls,
      FILE.accepted_of_writes rfl⟩
    have hlen := congrArg List.length htransfer.taken_append_left
    rw [FILE.pending_eq_nil h.empty, List.length_append, List.length_nil] at hlen
    show left.length = 0
    omega

/-- What its user believes to have written is in a buffered stream or accepted,
and accepted by an unbuffered one. -/
inductive Session.Keeps (s : Session W) : Prop
  | buffered (hsound : s.state.stream.Sound) (hkept : s.state.stream.Kept)
      (hwritten : s.written.Sublist s.state.stream.stored)
  | unbuffered (hdirect : s.state.stream.Direct)
      (hwritten : s.written.Sublist s.state.stream.accepted)

/-- Step lemma for buffered streams. -/
theorem Session.step_buffered (K : Kernel W) {s t : Session W} {op : Op} (hop : op.Writes)
    (hsound : s.state.stream.Sound) (hkept : s.state.stream.Kept)
    (hwritten : s.written.Sublist s.state.stream.stored)
    (hstep : Session.step K s op = some t) : t.Keeps := by
  unfold Session.step at hstep
  rcases hexec : op.exec K s.state with _ | ⟨ret, u⟩
  · simp [hexec] at hstep
  · simp only [hexec] at hstep
    obtain rfl := Option.some.inj hstep
    obtain ⟨l, hstored, hl⟩ := Op.exec_stored K hsound hexec
    have hwritten' : (s.written ++ op.written ret).Sublist u.stream.stored := by
      rw [hstored]
      exact hwritten.append hl
    cases op with
    | fgetc => exact hop.elim
    | fread size nmemb => exact hop.elim
    | ungetc c => exact hop.elim
    | fputc c =>
      obtain ⟨⟨r, v⟩, hput, hpair⟩ := Option.map_eq_some_iff.mp hexec
      obtain ⟨-, rfl⟩ := Prod.mk.inj hpair
      exact .buffered (fputcUnlocked_sound_of_some K hsound hput)
        (fputcUnlocked_kept K hsound hkept hput) hwritten'
    | fwrite size nmemb ptr =>
      obtain ⟨⟨n, v⟩, hput, hpair⟩ := Option.map_eq_some_iff.mp hexec
      obtain ⟨-, rfl⟩ := Prod.mk.inj hpair
      exact .buffered (fwriteUnlocked_stored K (by simp) hsound hput).1
        (fwriteUnlocked_kept K hsound hkept hput) hwritten'
    | fflush =>
      obtain ⟨-, rfl⟩ := Prod.mk.inj (Option.some.inj hexec)
      have hkept' : (fflushUnlocked K s.state).2.stream.Kept := by
        rw [fflushUnlocked_notReading K hkept.notReading]
        exact fflushWriteUnlocked_kept K hkept rfl
      exact .buffered (fflushUnlocked_sound K hsound) hkept' hwritten'

theorem ensureBuffer_direct (K : Kernel W) {s : State W} (h : s.stream.Direct) :
    ensureBuffer K s = (0, s) := by
  simp [ensureBuffer, h.set]

/-- Step lemma for unbuffered streams. -/
theorem Session.step_unbuffered (K : Kernel W) {s t : Session W} {op : Op} (hop : op.Writes)
    (hdirect : s.state.stream.Direct) (hwritten : s.written.Sublist s.state.stream.accepted)
    (hstep : Session.step K s op = some t) : t.Keeps := by
  have hensure := ensureBuffer_direct K hdirect
  have hwritable : ¬ s.state.stream.mode.write = false := by simp [hdirect.writable]
  cases op with
  | fgetc => exact hop.elim
  | fread size nmemb => exact hop.elim
  | ungetc c => exact hop.elim
  | fputc c =>
    rcases hput : fwriteUnbuffered K [toByte c] 1 s.state with ⟨n, u⟩
    obtain ⟨hdirect', l, haccepted, hl⟩ := fwriteUnbuffered_direct K hdirect hput
    have hcall : fputcUnlocked K c s.state =
        some (if n ≠ 1 then EOF else ((toByte c).toNat : ℤ), u) := by
      simp only [fputcUnlocked, hensure, zero_ne_EOF, if_false, hdirect.unbuffered, if_true,
        if_neg hwritable, hput]
      by_cases hn : n = 1
      · simp [hn]
      · simp [hn]
    obtain rfl := by simpa only [Session.step, Op.exec, hcall, Option.map_some,
      Option.some.injEq] using hstep.symm
    refine .unbuffered hdirect' ?_
    show (s.written ++ _).Sublist u.stream.accepted
    rw [haccepted]
    refine hwritten.append ?_
    by_cases hn : n = 1
    · have hl' : l = [toByte c] := hl.resolve_left (by rw [hn]; decide)
      simp [Op.written, hn, hl', toNat_ne_EOF]
    · simp [Op.written, hn]
  | fwrite size nmemb ptr =>
    by_cases hzero : size = 0 ∨ nmemb = 0
    · have hcall : fwriteUnlocked K ptr.toList size nmemb s.state = some (0, s.state) :=
        if_pos hzero
      obtain rfl := by simpa [Session.step, Op.exec, hcall, Op.written] using hstep
      exact .unbuffered hdirect hwritten
    · rcases hput : fwriteUnbuffered K ptr.toList size s.state with ⟨n, u⟩
      obtain ⟨hdirect', l, haccepted, hl⟩ := fwriteUnbuffered_direct K hdirect hput
      have hcall : fwriteUnlocked K ptr.toList size nmemb s.state = some (n, u) := by
        simp [fwriteUnlocked, hzero, hwritable, hensure, hdirect.unbuffered, hput]
      obtain rfl := by simpa [Session.step, Op.exec, hcall] using hstep
      refine .unbuffered hdirect' ?_
      rw [haccepted]
      refine hwritten.append ?_
      by_cases hn : (n : ℤ) = SIZE_MAX
      · simp [Op.written, hn]
      · have hn' : n ≠ SIZE_MAX := fun heq => hn (by rw [heq])
        rw [hl.resolve_left hn']
        simp only [Op.written, if_neg hn]
        exact List.take_sublist _ _
  | fflush =>
    obtain rfl := by simpa [Session.step, Op.exec] using hstep
    obtain ⟨hdirect', l, haccepted⟩ := fflushUnlocked_direct K hdirect
    refine .unbuffered hdirect' ?_
    rw [haccepted]
    exact hwritten.append (List.nil_sublist l)

theorem Session.keeps_of_run (K : Kernel W) {ops : List Op} (hops : ∀ op ∈ ops, op.Writes)
    {s t : Session W} (hs : s.Keeps) (hrun : ops.foldlM (Session.step K) s = some t) :
    t.Keeps := by
  induction ops generalizing s with
  | nil =>
    obtain rfl := Option.some.inj hrun
    exact hs
  | cons op ops ih =>
    rw [List.foldlM_cons] at hrun
    obtain ⟨u, hu, hrest⟩ := Option.bind_eq_some_iff.mp hrun
    refine ih (fun o ho => hops o (List.mem_cons_of_mem op ho)) ?_ hrest
    have hop := hops op List.mem_cons_self
    cases hs with
    | buffered hsound hkept hwritten => exact step_buffered K hop hsound hkept hwritten hu
    | unbuffered hdirect hwritten => exact step_unbuffered K hop hdirect hwritten hu

/-- After a flush at closing that is refused nothing, everything is accepted. -/
theorem Session.Keeps.delivered (K : Kernel W) {s : Session W} (h : s.Keeps)
    (hfirst : ¬ s.state.stream.Unbuffered → RefusedFirst s.state.stream.writes)
    (hpending : s.state.stream.bufferedBytesWrite = 0 ∨
      s.state.stream.flagDirectionWrite = true)
    (hfinal : Accepted (finalWrites K s.state)) :
    (fflushUnlocked K s.state).1 = 0 ∧
      s.written.Sublist (fflushUnlocked K s.state).2.stream.accepted := by
  have hstream : s.state.stream.flagDirectionRead = false ∧
      s.state.stream.mode.write = true ∧ s.state.stream.implWrite = true := by
    cases h with
    | buffered _ hkept _ => exact ⟨hkept.notReading, hkept.writable, hkept.impl⟩
    | unbuffered hdirect _ => exact ⟨hdirect.notReading, hdirect.writable, hdirect.impl⟩
  obtain ⟨hread, hwritable, himpl⟩ := hstream
  have hall : s.written.Sublist (s.state.stream.accepted ++ s.state.stream.pending) := by
    cases h with
    | buffered hsound hkept hwritten =>
      have hbuffered : ¬ s.state.stream.Unbuffered := fun hun =>
        (hsound.buffered hun.1).1 hun.2
      rw [hkept.held (hfirst hbuffered)]
      exact hwritten
    | unbuffered hdirect hwritten => exact hwritten.trans (List.sublist_append_left _ _)
  unfold finalWrites at hfinal
  rw [fflushUnlocked_notReading K hread] at hfinal ⊢
  rcases fflushWriteUnlocked_cases K s.state with
    ⟨hdir, hcase⟩ | ⟨_, hnot, _⟩ | ⟨_, _, _, left, calls, eof, error, w, hcase, htransfer⟩
  · rw [hcase]
    have hzero := hpending.resolve_right (by simp [hdir])
    rw [FILE.pending_eq_nil hzero, List.append_nil] at hall
    exact ⟨rfl, hall⟩
  · simp [hwritable, himpl] at hnot
  · rw [hcase] at hfinal ⊢
    have hleft : left = [] := by
      rw [htransfer.left_eq_nil_iff]
      simpa using hfinal
    have htaken := htransfer.taken_append_left
    rw [hleft, List.append_nil] at htaken
    refine ⟨by simp [hleft], ?_⟩
    rw [FILE.accepted_of_writes rfl, htaken]
    exact hall

/-- Closing adds nothing to the bytes accepted by its flush. -/
theorem closeStream_accepted (K : Kernel W) (s : State W) :
    (closeStream K s).2.stream.accepted = (fflushUnlocked K s).2.stream.accepted := by
  unfold closeStream
  dsimp only
  have hstream : (implClose K (fflushUnlocked K s).2).2.stream =
      (fflushUnlocked K s).2.stream := rfl
  split
  · rw [hstream]
  · rfl

/-- `fclose` returns what closing the stream returns. -/
theorem fclose_result (K : Kernel W) {l : Libc W} {p : ℕ} {f : FILE} (hp : p ≠ 0)
    (hf : l.files p = some f) :
    ∃ u, fclose K p l = some ((closeStream K ⟨f, l.world⟩).1, u) := by
  unfold fclose
  rcases fcloseStaticUnlocked_cases K hf with
    ⟨hfail, g, w, _, heq⟩ | ⟨hclose, g, t, heq, _⟩
  · rcases closeStream_cases K ⟨f, l.world⟩ with ⟨_, t, hcase, _⟩ | ⟨hsucc, _⟩
    · exact ⟨{ l.put p (some g) with world := w }, by simp [hp, heq, hcase]⟩
    · exact absurd hsucc hfail
  · rcases closeStream_cases K ⟨f, l.world⟩ with ⟨hnot, _⟩ | ⟨_, t', hcase, _⟩
    · exact absurd hclose hnot
    · exact ⟨t.put p none, by simp [hp, heq, hcase]⟩

/-- Whatever was written before, on a stream that closes cleanly `fclose`
returns 0 only if every byte written with success has been accepted, and EOF if
the last flush fails. -/
theorem fclose_reports_loss (K : Kernel W) (ops : List Op) (hops : ∀ op ∈ ops, op.Writes)
    (s : State W) (hs : s.stream.FreshOutput ∨ s.stream.FreshUnbuffered) (t : Session W)
    (hrun : ops.foldlM (Session.step K) ⟨s, []⟩ = some t) (hclean : ClosesCleanly K t.state)
    (l : Libc W) (p : ℕ) (hp : p ≠ 0) (hfile : l.files p = some t.state.stream)
    (hworld : l.world = t.state.world) :
    ∃ r u, fclose K p l = some (r, u) ∧
      (r = 0 → t.written.Sublist (closeStream K t.state).2.stream.accepted) ∧
      ((fflushUnlocked K t.state).1 = EOF → r = EOF) := by
  have hkeeps : t.Keeps := by
    refine Session.keeps_of_run K hops ?_ hrun
    rcases hs with hbuffered | hdirect
    · exact .buffered hbuffered.sound hbuffered.kept (List.nil_sublist _)
    · exact .unbuffered hdirect.toDirect (List.nil_sublist _)
  obtain ⟨u, hclose⟩ := fclose_result K hp hfile
  rw [hworld] at hclose
  refine ⟨_, u, hclose, ?_⟩
  rw [closeStream_accepted]
  rcases closeStream_cases K t.state with ⟨_, v, hcase, _⟩ | ⟨hsucc, _⟩
  · rw [hcase]
    exact ⟨fun hr => absurd hr.symm zero_ne_EOF, fun _ => rfl⟩
  · obtain ⟨hfirst, hpending, hfinal⟩ := hclean hsucc
    obtain ⟨hzero, hsub⟩ := hkeeps.delivered K hfirst hpending hfinal
    exact ⟨fun _ => hsub, fun hfail => absurd (hzero.symm.trans hfail) zero_ne_EOF⟩

/-- A program's memory that holds one stream. -/
def memoryWith (p : ℕ) (s : State W) : Libc W :=
  ⟨fun q => if q = p then some s.stream else none, p, s.world, {p}⟩

theorem fclose_reports_loss_threeBytes :
    ∃ t : Session (List (Option ℕ)),
      ([.fputc 97, .fflush, .fwrite 1 2 ⟨#[98, 99], rfl⟩] : List Op).foldlM
        (Session.step scriptedKernel)
        ⟨⟨openedStream writeFlags [0, 0, 0, 0] .iofbf, [none]⟩, []⟩ = some t ∧
      ∃ r u, fclose scriptedKernel 8 (memoryWith 8 t.state) = some (r, u) ∧
        (r = 0 → t.written.Sublist (closeStream scriptedKernel t.state).2.stream.accepted) ∧
        ((fflushUnlocked scriptedKernel t.state).1 = EOF → r = EOF) := by
  have hclean : (([.fputc 97, .fflush, .fwrite 1 2 ⟨#[98, 99], rfl⟩] : List Op).foldlM
      (Session.step scriptedKernel)
      ⟨⟨openedStream writeFlags [0, 0, 0, 0] .iofbf, [none]⟩, []⟩).map
      (fun t => decide (ClosesCleanly scriptedKernel t.state)) = some true := by
    decide +kernel
  obtain ⟨t, ht, hcleanT⟩ := Option.map_eq_some_iff.mp hclean
  refine ⟨t, ht, fclose_reports_loss scriptedKernel _ (by simp [Op.Writes]) _
    (Or.inl (openedStream_freshOutput (by decide) (by decide) (by decide))) t ht
    (of_decide_eq_true hcleanT) (memoryWith 8 t.state) 8 (by decide) rfl rfl⟩

/-- The flush at closing is refused, `fclose` returns 0, and the byte written
with success is lost. -/
theorem fclose_hides_loss :
    ([.fputc 97] : List Op).foldlM (Session.step scriptedKernel)
        ⟨⟨openedStream writeFlags [0, 0, 0, 0] .iofbf, [none]⟩, []⟩ ≠ none ∧
    ¬ ∀ t : Session (List (Option ℕ)),
      ([.fputc 97] : List Op).foldlM (Session.step scriptedKernel)
        ⟨⟨openedStream writeFlags [0, 0, 0, 0] .iofbf, [none]⟩, []⟩ = some t →
      ∃ r u, fclose scriptedKernel 8 (memoryWith 8 t.state) = some (r, u) ∧
        (r = 0 → t.written.Sublist (closeStream scriptedKernel t.state).2.stream.accepted) ∧
        ((fflushUnlocked scriptedKernel t.state).1 = EOF → r = EOF) := by
  have hrun : (([.fputc 97] : List Op).foldlM (Session.step scriptedKernel)
      ⟨⟨openedStream writeFlags [0, 0, 0, 0] .iofbf, [none]⟩, []⟩).map
      (fun t => (t.written, (closeStream scriptedKernel t.state).2.stream.accepted,
        (fclose scriptedKernel 8 (memoryWith 8 t.state)).map Prod.fst)) =
      some ([97], [], some 0) := by
    decide +kernel
  obtain ⟨t, ht, hfacts⟩ := Option.map_eq_some_iff.mp hrun
  obtain ⟨hwritten, hfacts'⟩ := Prod.mk.inj hfacts
  obtain ⟨haccepted, hresult⟩ := Prod.mk.inj hfacts'
  refine ⟨by simp [ht], fun hall => ?_⟩
  obtain ⟨r, u, hclose, hsub, _⟩ := hall t ht
  rw [hclose] at hresult
  have hlost := hsub (Option.some.inj hresult)
  rw [hwritten, haccepted] at hlost
  cases hlost

end Heartix.Stdio
