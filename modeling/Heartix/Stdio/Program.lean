import Heartix.Stdio.Finaliser
import Heartix.Stdio.Seek
import Heartix.Stdio.Unbuffered

/-!
Programs that use the library: the calls that open and close streams, and the
operations on them. Along with the library's state goes what the program has
written to each stream, by the values the calls returned. As long as no write is
refused, this is among the bytes accepted and the ones still in the buffer.
-/

namespace Heartix.Stdio

open Relation Runs PartialTransfer

variable {W : Type}

/-- The addresses of the three static structures and of their buffers. -/
def stdinFile : ℕ := 16
def stdoutFile : ℕ := 32
def stderrFile : ℕ := 48
def stdinBuf : ℕ := 64
def stdoutBuf : ℕ := 2048
def stderrBuf : ℕ := 4096
def defaultBufsize : ℕ := 1024

/-- One of the three paragraphs of `__init_stdio`. -/
def initStream (K : Kernel W) (file : ℕ) (fd : ℤ) (mode : String) (buf : ℕ)
    (bufferMode : BufferMode) (s : Libc W) : Option (Libc W) := do
  let (_, t) ← fdopenStatic K fd mode file (s.put file (some default))
  let (_, u) ← t.onStream file (setvbufUnlocked K
    (some (buf, List.replicate defaultBufsize 0)) bufferMode defaultBufsize)
  return u

/-- `__init_stdio`. -/
def initStdio (K : Kernel W) (world : W) : Option (Libc W) := do
  let s := noStreams (K.mutexInitialize world).2
  let s ← initStream K stdinFile 0 "r" stdinBuf .iolbf s
  let s ← initStream K stdoutFile 1 "w" stdoutBuf .iolbf s
  initStream K stderrFile 2 "w" stderrBuf .ionbf s

/-- `__fini_stdio`. -/
def finiStdio (K : Kernel W) (fuel : ℕ) (s : Libc W) : Option (List ℕ × Libc W) :=
  finiStdioList K fuel s.openFileList s

/-- A call that opens or closes streams, with the stream it opens, 0 if none. -/
def Call.exec (K : Kernel W) (s : Libc W) : Call → Option (ℕ × Libc W)
  | .fopen file filename mode => Stdio.fopen K file filename mode s
  | .fdopen file fd mode => Stdio.fdopen K file fd mode s
  | .fclose stream => (Stdio.fclose K stream s).map fun (_, t) => (0, t)
  | .freopen none mode stream =>
      (Stdio.freopen K none mode stream s).map fun (_, t) => (0, t)
  | .freopen (some filename) mode stream => Stdio.freopen K (some filename) mode stream s

/-- The operations that only ask for the position or change it. -/
def FileOp.Moves : FileOp → Prop
  | .fseek _ _ => True
  | .fseeko _ _ => True
  | .rewind => True
  | .ftell => True
  | .ftello => True
  | .fgetpos => True
  | .fsetpos _ => True
  | _ => False

/-- A program: the library, and the bytes written to each stream. -/
structure Program (W : Type) where
  libc : Libc W
  written : ℕ → List UInt8

/-- What a program does next; `flushAll` is `fflush(NULL)`, whose loop ends
within the given number of rounds. -/
inductive Action
  | call (call : Call)
  | stream (p : ℕ) (op : Op)
  | position (p : ℕ) (op : FileOp)
  | setvbuf (p : ℕ) (buf : Option (ℕ × List UInt8)) (mode : BufferMode) (size : ℕ)
  | flushAll (fuel : ℕ)

def Action.step (K : Kernel W) (s : Program W) : Action → Option (Program W)
  | .call c => do
      let (p, t) ← c.exec K s.libc
      return ⟨t, if p = 0 then s.written else Function.update s.written p []⟩
  | .stream p op => do
      let f ← s.libc.files p
      let (ret, t) ← op.exec K ⟨f, s.libc.world⟩
      return ⟨{ s.libc.put p (some t.stream) with world := t.world },
        Function.update s.written p (s.written p ++ op.written ret)⟩
  | .position p op => do
      let f ← s.libc.files p
      let (_, t) ← op.exec K ⟨f, s.libc.world⟩
      return { s with libc := { s.libc.put p (some t.stream) with world := t.world } }
  | .setvbuf p buf mode size => do
      let (_, t) ← s.libc.onStream p (setvbufUnlocked K buf mode size)
      return { s with libc := t }
  | .flushAll fuel => do
      let (_, _, t) ← fflushList K fuel s.libc.openFileList 0 s.libc
      return { s with libc := t }

/-- Nothing has been done with the stream since it was opened. -/
structure FILE.Untouched (f : FILE) : Prop where
  stored_nil : f.stored = []
  writes_nil : f.writes = []
  notReading : f.flagDirectionRead = false
  notWriting : f.flagDirectionWrite = false

/-- What the program promises: it uses open streams only, and `setvbuf` comes
before every other operation and with a buffer that is not empty. -/
def Action.Proper (s : Program W) : Action → Prop
  | .call c => c.Proper s.libc
  | .stream p _ => p ∈ s.libc.opened
  | .position p op => p ∈ s.libc.opened ∧ op.Moves
  | .setvbuf p buf mode _ =>
      p ∈ s.libc.opened ∧ s.written p = [] ∧
      (∀ f, s.libc.files p = some f → f.Untouched) ∧
      (mode ≠ .ionbf → ∀ address memory, buf = some (address, memory) → memory ≠ [])
  | .flushAll _ => True

/-- No write to a stream that is open has been refused. -/
def Libc.NoRefusal (s : Libc W) : Prop :=
  ∀ p ∈ s.opened, ∀ f, s.files p = some f → Accepted f.writes

/-- What was written to a buffered stream is among the bytes stored, which are
the accepted and the pending ones. -/
inductive FILE.Holds (f : FILE) (written : List UInt8) : Prop
  | buffered (hsound : f.Sound) (hlive : f.Live f.mode) (hwritten : written.Sublist f.stored)
  | unbuffered (himpl : f.implWrite = true) (hunbuffered : f.Unbuffered)

/-- The open streams are in memory and hold what was written to them. -/
def Program.Holding (s : Program W) : Prop :=
  ∀ p ∈ s.libc.opened, p ≠ 0 ∧ ∃ f, s.libc.files p = some f ∧ f.Holds (s.written p)

/-- The structure without its links. -/
def FILE.unlinked (f : FILE) : FILE := { f with prev := 0, next := 0 }

theorem FILE.eq_of_unlinked {f g : FILE} (h : g.unlinked = f.unlinked) :
    g = { f with prev := g.prev, next := g.next } := by
  cases f
  cases g
  simp only [unlinked, FILE.mk.injEq, true_and] at h ⊢
  exact h

namespace FILE.Holds

variable {f g : FILE} {written : List UInt8}

/-- The links, the mode and the error indicator do not matter. -/
theorem relinked (h : f.Holds written) (mode : ModeFlags) (error : Bool) (next prev : ℕ) :
    { f with
      mode := mode
      flagError := error
      next := next
      prev := prev : FILE }.Holds written := by
  cases h with
  | buffered hsound hlive hwritten =>
    exact .buffered ⟨⟨hsound.write_le, hsound.offset_le, hsound.read_le⟩, hsound.buffered,
      hsound.unused⟩ ⟨hlive.held, hlive.marked, hlive.oneWay, hlive.accepting, rfl,
      hlive.impl⟩ hwritten
  | unbuffered himpl hunbuffered => exact .unbuffered himpl hunbuffered

theorem of_unlinked (h : f.Holds written) (heq : g.unlinked = f.unlinked) :
    g.Holds written := by
  rw [FILE.eq_of_unlinked heq]
  exact h.relinked f.mode f.flagError g.next g.prev

theorem of_live {mode : ModeFlags} (hsound : f.Sound) (hlive : f.Live mode)
    (hwritten : written.Sublist f.stored) : f.Holds written := by
  obtain rfl := hlive.mode_eq
  exact .buffered hsound hlive hwritten

/-- The mode and the error indicator may change. -/
theorem of_mode (h : f.Holds written) (mode : ModeFlags) (error : Bool) :
    { f with mode := mode, flagError := error : FILE }.Holds written :=
  h.relinked mode error f.next f.prev

/-- A stream with an empty buffer that has just been opened. -/
theorem opened (hwrite : f.bufferedBytesWrite = 0) (hread : f.bufferedBytesRead = 0)
    (hoffset : f.bufferedBytesReadOffset = 0) (fd : ℤ) (lock : ℕ) (mode : ModeFlags) :
    (f.opened fd lock mode).Holds [] := by
  refine .buffered ⟨⟨?_, ?_, ?_⟩, (by intro hc; cases hc), fun _ => ⟨hwrite, hread, rfl, rfl⟩⟩
    ⟨?_, ?_, (by intro hc; cases hc), (by intro a ha; cases ha), rfl, rfl⟩
    (List.Sublist.refl [])
  · show f.bufferedBytesWrite ≤ f.buffer.length
    omega
  · show f.bufferedBytesReadOffset ≤ f.bufferedBytesRead
    omega
  · show f.bufferedBytesRead ≤ f.buffer.length
    omega
  · show [] ++ f.buffer.take f.bufferedBytesWrite = []
    rw [hwrite]
    rfl
  · intro hne
    exact absurd hwrite hne

/-- An operation on a stream to which no write is refused. -/
theorem exec (K : Kernel W) {s t : State W} {op : Op} {ret : Ret}
    (h : s.stream.Holds written) (hexec : op.exec K s = some (ret, t))
    (haccepted : Accepted t.stream.writes) :
    t.stream.Holds (written ++ op.written ret) := by
  have hstep : step K s op = some t := by
    unfold step
    rw [hexec]
    rfl
  cases h with
  | buffered hsound hlive hwritten =>
    obtain ⟨u, hu, hsound', hlive'⟩ := step_live K op hsound hlive
    obtain rfl := Option.some.inj (hu.symm.trans hstep)
    obtain ⟨l, hstored, hl⟩ := Op.exec_stored K hsound hexec
    have hlive'' := hlive'.resolve_right fun hst => hst.refused haccepted
    refine of_live hsound' hlive'' ?_
    rw [hstored]
    exact hwritten.append hl
  | unbuffered himpl hunbuffered =>
    refine .unbuffered ?_ (step_unbuffered K hunbuffered hstep)
    rw [FILE.implWrite_eq (step_handle K hstep)]
    exact himpl

theorem fflush (K : Kernel W) (h : f.Holds written) (w : W)
    (haccepted : Accepted (fflushUnlocked K ⟨f, w⟩).2.stream.writes) :
    (fflushUnlocked K ⟨f, w⟩).2.stream.Holds written := by
  have hexec : Op.exec K ⟨f, w⟩ .fflush =
      some (⟨(fflushUnlocked K ⟨f, w⟩).1, []⟩, (fflushUnlocked K ⟨f, w⟩).2) := rfl
  have hnothing : written ++ Op.written ⟨(fflushUnlocked K ⟨f, w⟩).1, []⟩ .fflush = written :=
    List.append_nil written
  have hholds := exec K (s := ⟨f, w⟩) h hexec haccepted
  rwa [hnothing] at hholds

/-- `setvbuf` on a stream with which nothing has been done. -/
theorem setvbuf (K : Kernel W) (h : f.Holds []) (huntouched : f.Untouched) (w : W)
    (buf : Option (ℕ × List UInt8)) (mode : BufferMode) (size : ℕ)
    (hbuf : mode ≠ .ionbf → ∀ address memory, buf = some (address, memory) → memory ≠ []) :
    (setvbufUnlocked K buf mode size ⟨f, w⟩).2.stream.Holds [] := by
  have himpl : f.implWrite = true := by
    cases h with
    | buffered _ hlive _ => exact hlive.impl
    | unbuffered himpl _ => exact himpl
  have hattach : ∀ address (memory : List UInt8) library,
      (mode ≠ .ionbf → memory ≠ []) → (attachBuffer address memory mode library f).Holds [] := by
    intro address memory library hmemory
    by_cases hmode : mode = .ionbf
    · exact .unbuffered himpl ⟨rfl, hmode⟩
    · have hpos := List.length_pos_of_ne_nil (hmemory hmode)
      refine .buffered ⟨⟨Nat.zero_le _, Nat.le_refl _, Nat.zero_le _⟩,
        fun _ => ⟨hmode, hpos⟩, (by intro hc; cases hc)⟩
        ⟨?_, fun hne => absurd rfl hne, ?_, ?_, rfl, himpl⟩ (List.nil_sublist _)
      · show takenOf f.writes ++ memory.take 0 = f.stored
        rw [huntouched.writes_nil, huntouched.stored_nil]
        rfl
      · intro hc
        have hdir : f.flagDirectionWrite = true := hc
        simp [huntouched.notWriting] at hdir
      · show Accepted f.writes
        rw [huntouched.writes_nil]
        intro a ha
        cases ha
  unfold setvbufUnlocked
  dsimp only
  cases buf with
  | none =>
    generalize hsize : (if size = 0 then BUFSIZ
      else if size < BUFSIZMIN then BUFSIZMIN else size) = len
    have hpos : 0 < len := by
      rw [← hsize]
      split
      · decide
      · split
        · decide
        · omega
    dsimp only
    rcases K.malloc len (releaseBuffer K ⟨f, w⟩).world with ⟨_ | ⟨address, memory⟩, w'⟩
    · rw [releaseBuffer_stream]
      exact h
    · rw [releaseBuffer_stream]
      apply hattach
      intro _ hnil
      have hlen := congrArg List.length hnil
      rw [Vector.length_toList, List.length_nil] at hlen
      omega
  | some memory =>
    obtain ⟨address, memory⟩ := memory
    show (attachBuffer address memory mode false (releaseBuffer K ⟨f, w⟩).stream).Holds []
    rw [releaseBuffer_stream]
    exact hattach address memory false fun hmode => hbuf hmode address memory rfl

end FILE.Holds

/-- The structures are the same up to their links. -/
def Libc.SameBodies (s t : Libc W) : Prop :=
  ∀ q, (t.files q).map FILE.unlinked = (s.files q).map FILE.unlinked

theorem Libc.SameBodies.trans {s t u : Libc W} (hst : s.SameBodies t) (htu : t.SameBodies u) :
    s.SameBodies u := fun q => (htu q).trans (hst q)

theorem modify_sameBodies {s t : Libc W} {p : ℕ} {change : FILE → FILE}
    (h : s.modify p change = some t) (hchange : ∀ f, (change f).unlinked = f.unlinked) :
    s.SameBodies t ∧ t.opened = s.opened := by
  unfold Libc.modify at h
  rcases hf : s.files p with _ | f
  · simp [hf] at h
  · simp only [hf] at h
    obtain rfl := Option.some.inj h
    refine ⟨fun q => ?_, rfl⟩
    by_cases hq : q = p
    · subst hq
      rw [Libc.put_self, hf, Option.map_some, Option.map_some, hchange]
    · rw [Libc.put_of_ne s hq]

/-- Putting a stream into the list touches links only. -/
theorem openFileListAdd_sameBodies {s t : Libc W} {p : ℕ} (h : openFileListAdd p s = some t) :
    s.SameBodies t ∧ t.opened = s.opened := by
  unfold openFileListAdd at h
  split at h
  · obtain ⟨u, hu, h⟩ := Option.bind_eq_some_iff.mp h
    obtain ⟨v, hv, h⟩ := Option.bind_eq_some_iff.mp h
    obtain rfl := Option.some.inj h
    obtain ⟨hsame, hopened⟩ := modify_sameBodies hu fun _ => rfl
    obtain ⟨hsame', hopened'⟩ := modify_sameBodies hv fun _ => rfl
    exact ⟨hsame.trans hsame', hopened'.trans hopened⟩
  · obtain rfl := Option.some.inj h
    exact ⟨fun _ => rfl, rfl⟩

/-- `t` is `s` after the stream at `p` was opened. -/
def Libc.Opens (p : ℕ) (f : FILE) (s t : Libc W) : Prop :=
  ∃ fd lock flags, (s.put p (some (f.opened fd lock flags))).SameBodies t ∧
    t.opened = insert p s.opened

theorem fdopenStatic_opens (K : Kernel W) {fd r : ℤ} {mode : String} {p : ℕ} {s t : Libc W}
    (h : fdopenStatic K fd mode p s = some (r, t)) :
    r = EOF ∧ t = s ∧ parseModeFlags mode = none ∨
    r = 0 ∧ ∃ f, s.files p = some f ∧ Libc.Opens p f s t := by
  unfold fdopenStatic at h
  generalize parseModeFlags mode = parsed at h ⊢
  rcases parsed with _ | flags
  · obtain ⟨rfl, rfl⟩ := Prod.mk.inj (Option.some.inj h)
    exact Or.inl ⟨rfl, rfl, rfl⟩
  · right
    generalize K.mutexInitialize s.world = result at h
    obtain ⟨lock, w⟩ := result
    dsimp only at h
    obtain ⟨u, hu, h⟩ := Option.bind_eq_some_iff.mp h
    obtain ⟨v, hv, h⟩ := Option.bind_eq_some_iff.mp h
    obtain ⟨rfl, rfl⟩ := Prod.mk.inj (Option.some.inj h)
    obtain ⟨hsame, hopened⟩ := openFileListAdd_sameBodies hv
    rcases hf : s.files p with _ | f
    · simp [Libc.modify, hf] at hu
    · obtain rfl := by simpa [Libc.modify, hf] using hu
      refine ⟨rfl, f, rfl, fd, lock, flags, hsame, ?_⟩
      show insert p v.opened = _
      rw [hopened]
      rfl

theorem fopenStatic_opens (K : Kernel W) {filename mode : String} {p res : ℕ}
    {s t : Libc W} (h : fopenStatic K filename mode p s = some (res, t)) :
    res = 0 ∧ t.files = s.files ∧ t.opened = s.opened ∨
    res = p ∧ ∃ f, s.files p = some f ∧ Libc.Opens p f s t := by
  unfold fopenStatic at h
  generalize parseModeFlags mode = parsed at h
  rcases parsed with _ | flags
  · obtain ⟨rfl, rfl⟩ := Prod.mk.inj (Option.some.inj h)
    exact Or.inl ⟨rfl, rfl, rfl⟩
  · rcases hcall : K.openFile filename flags s.world with ⟨fd, w⟩
    simp only [hcall] at h
    by_cases hfd : fd = -1
    · rw [if_pos hfd] at h
      obtain ⟨rfl, rfl⟩ := Prod.mk.inj (Option.some.inj h)
      exact Or.inl ⟨rfl, rfl, rfl⟩
    · rw [if_neg hfd] at h
      obtain ⟨⟨r, u⟩, hopen, h⟩ := Option.bind_eq_some_iff.mp h
      dsimp only at h
      rcases fdopenStatic_opens K hopen with ⟨rfl, rfl, _⟩ | ⟨rfl, f, hf, hopens⟩
      · rw [if_neg (Ne.symm zero_ne_EOF)] at h
        obtain ⟨rfl, rfl⟩ := Prod.mk.inj (Option.some.inj h)
        exact Or.inl ⟨rfl, rfl, rfl⟩
      · rw [if_pos rfl] at h
        obtain ⟨rfl, rfl⟩ := Prod.mk.inj (Option.some.inj h)
        exact Or.inr ⟨rfl, f, hf, hopens⟩

/-- Closing flushes the stream, and takes it from the open ones if `impl_close`
succeeds. -/
theorem fcloseStaticUnlocked_closes (K : Kernel W) {s t : Libc W} {p : ℕ} {f : FILE} {r : ℤ}
    (hf : s.files p = some f) (h : fcloseStaticUnlocked K p s = some (r, t)) :
    ∃ g, t.files = (s.put p (some g)).files ∧
      (r = EOF ∧ t.opened = s.opened ∧ g = (fflushUnlocked K ⟨f, s.world⟩).2.stream ∨
       r = 0 ∧ t.opened = s.opened.erase p ∧
        g = (fflushUnlocked K ⟨f, s.world⟩).2.stream.zeroed) := by
  refine ⟨_, (fcloseStaticUnlocked_eq K hf h).1, ?_⟩
  rcases fcloseStaticUnlocked_cases K hf with
    ⟨hfail, g, w, _, heq⟩ | ⟨hclose, g, u, heq, _, _, _, hunlink⟩
  · obtain ⟨rfl, rfl⟩ := Prod.mk.inj (Option.some.inj (h.symm.trans heq))
    rcases closeStream_stream K ⟨f, s.world⟩ with ⟨_, hstream⟩ | ⟨hsucc, _⟩
    · exact Or.inl ⟨rfl, rfl, hstream⟩
    · exact absurd hsucc hfail
  · obtain ⟨rfl, rfl⟩ := Prod.mk.inj (Option.some.inj (h.symm.trans heq))
    rcases closeStream_stream K ⟨f, s.world⟩ with ⟨hfail, _⟩ | ⟨_, hstream⟩
    · exact absurd hclose hfail
    · exact Or.inr ⟨rfl, hunlink.opened, hstream⟩

/-- A call that touches no open stream but `p` keeps what the others hold. -/
theorem Program.Holding.update {s t : Program W} {p : ℕ} (h : s.Holding)
    (hopened : ∀ q ∈ t.libc.opened, q ≠ p → q ∈ s.libc.opened)
    (hbody : ∀ q, q ≠ p →
      (t.libc.files q).map FILE.unlinked = (s.libc.files q).map FILE.unlinked)
    (hwritten : ∀ q, q ≠ p → t.written q = s.written q)
    (hp : p ∈ t.libc.opened →
      p ≠ 0 ∧ ∃ f, t.libc.files p = some f ∧ f.Holds (t.written p)) : t.Holding := by
  intro q hq
  by_cases hqp : q = p
  · subst hqp
    exact hp hq
  · obtain ⟨hq0, f, hf, hholds⟩ := h q (hopened q hq hqp)
    have hsame := hbody q hqp
    rw [hf, Option.map_some] at hsame
    obtain ⟨g, hg, heq⟩ := Option.map_eq_some_iff.mp hsame
    refine ⟨hq0, g, hg, ?_⟩
    rw [hwritten q hqp]
    exact hholds.of_unlinked heq

/-- Opening a stream starts a new history. -/
theorem Program.Holding.opens {s : Program W} (h : s.Holding) {p : ℕ} {f : FILE}
    {u t : Libc W} (hp : p ≠ 0) (hopens : Libc.Opens p f u t)
    (hwrite : f.bufferedBytesWrite = 0) (hread : f.bufferedBytesRead = 0)
    (hoffset : f.bufferedBytesReadOffset = 0)
    (hfiles : ∀ q, q ≠ p → u.files q = s.libc.files q)
    (hopened : ∀ q ∈ u.opened, q ≠ p → q ∈ s.libc.opened) :
    Program.Holding ⟨t, Function.update s.written p []⟩ := by
  obtain ⟨fd, lock, flags, hsame, hinsert⟩ := hopens
  refine h.update (p := p) ?_ ?_ ?_ ?_
  · intro q hq hqp
    have hmem : q ∈ insert p u.opened := hinsert ▸ hq
    exact hopened q ((Finset.mem_insert.mp hmem).resolve_left hqp) hqp
  · intro q hqp
    rw [← hfiles q hqp, ← Libc.put_of_ne u hqp (some (f.opened fd lock flags))]
    exact hsame q
  · intro q hqp
    exact Function.update_of_ne hqp _ _
  · intro _
    have hbody := hsame p
    rw [Libc.put_self, Option.map_some] at hbody
    obtain ⟨g, hg, heq⟩ := Option.map_eq_some_iff.mp hbody
    refine ⟨hp, g, hg, ?_⟩
    have hnew : Function.update s.written p [] p = [] := Function.update_self ..
    show g.Holds (Function.update s.written p [] p)
    rw [hnew]
    exact (FILE.Holds.opened hwrite hread hoffset fd lock flags).of_unlinked heq

/-- The stream at `p` gets another structure that holds as much. -/
theorem Program.Holding.put {s : Program W} (h : s.Holding) {p : ℕ} {g : FILE} {t : Libc W}
    {written : ℕ → List UInt8} (hfiles : t.files = (s.libc.put p (some g)).files)
    (hopened : t.opened = s.libc.opened)
    (hwritten : ∀ q, q ≠ p → written q = s.written q)
    (hg : p ∈ s.libc.opened → g.Holds (written p)) : Program.Holding ⟨t, written⟩ := by
  refine h.update (p := p) (fun q hq _ => hopened ▸ hq) (fun q hqp => ?_) hwritten fun hp => ?_
  · show (t.files q).map FILE.unlinked = _
    rw [hfiles, Libc.put_of_ne s.libc hqp]
  · have hp' : p ∈ s.libc.opened := hopened ▸ hp
    refine ⟨(h p hp').1, g, ?_, hg hp'⟩
    show t.files p = some g
    rw [hfiles]
    exact Libc.put_self _ _ _

/-- Closing a stream. -/
theorem Program.Holding.closes (K : Kernel W) {s : Program W} (h : s.Holding) {p : ℕ}
    {f : FILE} {r : ℤ} {t : Libc W} (hf : s.libc.files p = some f)
    (hclose : fcloseStaticUnlocked K p s.libc = some (r, t)) (hrefuse : r ≠ 0 → t.NoRefusal) :
    Program.Holding ⟨t, s.written⟩ ∧ (r = 0 → p ∉ t.opened ∧
      ∃ e : FILE, t.files p = some e.zeroed) := by
  obtain ⟨g, hfiles, hcase⟩ := fcloseStaticUnlocked_closes K hf hclose
  have hgp : t.files p = some g := by
    rw [hfiles]
    exact Libc.put_self _ _ _
  rcases hcase with ⟨rfl, hopened, rfl⟩ | ⟨rfl, hopened, rfl⟩
  · refine ⟨h.put hfiles hopened (fun _ _ => rfl) fun hp => ?_, fun hr => ?_⟩
    · obtain ⟨_, f', hf', hholds⟩ := h p hp
      obtain rfl := Option.some.inj (hf.symm.trans hf')
      exact hholds.fflush K _ (hrefuse (Ne.symm zero_ne_EOF) p (hopened ▸ hp) _ hgp)
    · exact absurd hr.symm zero_ne_EOF
  · have hnot : p ∉ t.opened := by
      rw [hopened]
      exact Finset.notMem_erase p _
    refine ⟨h.update (p := p) (fun q hq hqp => ?_) (fun q hqp => ?_) (fun _ _ => rfl)
      (fun hp => absurd hp hnot), fun _ => ⟨hnot, _, hgp⟩⟩
    · have hmem : q ∈ s.libc.opened.erase p := hopened ▸ hq
      exact Finset.mem_of_mem_erase hmem
    · show (t.files q).map FILE.unlinked = _
      rw [hfiles, Libc.put_of_ne s.libc hqp]

theorem Program.Holding.notOpen {s : Program W} (h : s.Holding) {p : ℕ}
    (hp : s.libc.files p = none) : p ∉ s.libc.opened := by
  intro hmem
  obtain ⟨_, f, hf, _⟩ := h p hmem
  rw [hp] at hf
  cases hf

/-- Memory that no open stream is in does not matter. -/
theorem Program.Holding.of_others {s : Program W} (h : s.Holding) {p : ℕ} {t : Libc W}
    (hp : p ∉ s.libc.opened) (hfiles : ∀ q, q ≠ p → t.files q = s.libc.files q)
    (hopened : t.opened = s.libc.opened) : Program.Holding ⟨t, s.written⟩ := by
  refine h.update (p := p) (fun q hq _ => hopened ▸ hq) (fun q hqp => ?_) (fun _ _ => rfl)
    fun hmem => ?_
  · show (t.files q).map FILE.unlinked = _
    rw [hfiles q hqp]
  · exact absurd (hopened ▸ hmem) hp

/-- A stream opened in the memory that was put for it. -/
theorem Program.Holding.opens_put {s : Program W} (h : s.Holding) {p : ℕ} {f : FILE} {t : Libc W}
    (hp : p ≠ 0) (hf : (s.libc.put p (some default)).files p = some f)
    (hopens : Libc.Opens p f (s.libc.put p (some default)) t) :
    Program.Holding ⟨t, if p = 0 then s.written else Function.update s.written p []⟩ := by
  rw [Libc.put_self] at hf
  obtain rfl := Option.some.inj hf
  rw [if_neg hp]
  exact h.opens hp hopens rfl rfl rfl (fun q hq => Libc.put_of_ne s.libc hq _)
    (fun q hq _ => hq)

/-- A stream put into fresh memory and opened, or not. -/
theorem fopen_holding (K : Kernel W) {s : Program W} (h : s.Holding) {file p : ℕ}
    {filename mode : String} {t : Libc W} (hproper : file = 0 ∨ s.libc.files file = none)
    (hcall : fopen K file filename mode s.libc = some (p, t)) :
    Program.Holding ⟨t, if p = 0 then s.written else Function.update s.written p []⟩ := by
  unfold fopen at hcall
  by_cases hfile : file = 0
  · rw [if_pos hfile] at hcall
    obtain ⟨rfl, rfl⟩ := Prod.mk.inj (Option.some.inj hcall)
    exact h
  · have hnot := h.notOpen (hproper.resolve_left hfile)
    rw [if_neg hfile] at hcall
    obtain ⟨⟨res, u⟩, hopen, hcall⟩ := Option.bind_eq_some_iff.mp hcall
    dsimp only at hcall
    rcases fopenStatic_opens K hopen with ⟨rfl, hfiles, hopened⟩ | ⟨rfl, f, hf, hopens⟩
    · rw [if_pos rfl] at hcall
      obtain ⟨rfl, rfl⟩ := Prod.mk.inj (Option.some.inj hcall)
      refine h.of_others hnot (fun q hq => ?_) hopened
      rw [Libc.put_of_ne u hq, hfiles, Libc.put_of_ne s.libc hq]
    · rw [if_neg hfile] at hcall
      obtain ⟨rfl, rfl⟩ := Prod.mk.inj (Option.some.inj hcall)
      exact h.opens_put hfile hf hopens

theorem fdopen_holding (K : Kernel W) {s : Program W} (h : s.Holding) {file p : ℕ} {fd : ℤ}
    {mode : String} {t : Libc W} (hproper : file = 0 ∨ s.libc.files file = none)
    (hcall : fdopen K file fd mode s.libc = some (p, t)) :
    Program.Holding ⟨t, if p = 0 then s.written else Function.update s.written p []⟩ := by
  unfold fdopen at hcall
  by_cases hfile : file = 0
  · rw [if_pos hfile] at hcall
    obtain ⟨rfl, rfl⟩ := Prod.mk.inj (Option.some.inj hcall)
    exact h
  · have hnot := h.notOpen (hproper.resolve_left hfile)
    rw [if_neg hfile] at hcall
    obtain ⟨⟨r, u⟩, hopen, hcall⟩ := Option.bind_eq_some_iff.mp hcall
    dsimp only at hcall
    rcases fdopenStatic_opens K hopen with ⟨rfl, rfl, _⟩ | ⟨rfl, f, hf, hopens⟩
    · rw [if_pos rfl] at hcall
      obtain ⟨rfl, rfl⟩ := Prod.mk.inj (Option.some.inj hcall)
      exact h.of_others hnot (fun q hq => Libc.put_of_ne s.libc hq _) rfl
    · rw [if_neg zero_ne_EOF] at hcall
      obtain ⟨rfl, rfl⟩ := Prod.mk.inj (Option.some.inj hcall)
      exact h.opens_put hfile hf hopens

theorem fclose_holding (K : Kernel W) {s : Program W} (h : s.Holding) {p : ℕ} {r : ℤ}
    {t : Libc W} (hproper : p ∈ s.libc.opened) (hcall : fclose K p s.libc = some (r, t))
    (hrefuse : t.NoRefusal) : Program.Holding ⟨t, s.written⟩ := by
  obtain ⟨hp, f, hf, _⟩ := h p hproper
  unfold fclose at hcall
  rw [if_neg hp] at hcall
  obtain ⟨⟨res, u⟩, hclose, hcall⟩ := Option.bind_eq_some_iff.mp hcall
  dsimp only at hcall
  by_cases hres : res = 0
  · rw [if_neg (not_not.mpr hres)] at hcall
    obtain ⟨-, rfl⟩ := Prod.mk.inj (Option.some.inj hcall)
    obtain ⟨hu, hclosed⟩ := h.closes K hf hclose fun hne => absurd hres hne
    exact hu.of_others (hclosed hres).1 (fun q hq => Libc.put_of_ne u hq none) rfl
  · rw [if_pos hres] at hcall
    obtain ⟨-, rfl⟩ := Prod.mk.inj (Option.some.inj hcall)
    exact (h.closes K hf hclose fun _ => hrefuse).1

theorem freopen_holding (K : Kernel W) {s : Program W} (h : s.Holding) {p res : ℕ}
    {filename : Option String} {mode : String} {t : Libc W} (hproper : p ∈ s.libc.opened)
    (hcall : freopen K filename mode p s.libc = some (res, t)) (hrefuse : t.NoRefusal) :
    Program.Holding ⟨t, if res = 0 ∨ filename = none then s.written
      else Function.update s.written res []⟩ := by
  obtain ⟨hp, f, hf, hholds⟩ := h p hproper
  unfold freopen at hcall
  simp only [hf, Option.bind_eq_bind, Option.bind_some] at hcall
  by_cases himpl : f.implReopen = true
  · rw [if_pos himpl] at hcall
    unfold implReopen at hcall
    cases filename with
    | none =>
      rw [if_pos (Or.inr rfl)]
      generalize parseModeFlags mode = parsed at hcall
      rcases parsed with _ | flags
      · obtain ⟨-, rfl⟩ := Prod.mk.inj (Option.some.inj hcall)
        exact h
      · dsimp only at hcall
        rw [Libc.modify_of_files hf] at hcall
        obtain ⟨-, rfl⟩ := Prod.mk.inj (Option.some.inj hcall)
        exact h.put rfl rfl (fun _ _ => rfl) fun _ => hholds.of_mode flags f.flagError
    | some filename =>
      dsimp only at hcall
      obtain ⟨⟨r, u⟩, hclose, hcall⟩ := Option.bind_eq_some_iff.mp hcall
      dsimp only at hcall
      by_cases hr : r = 0
      · rw [if_neg (not_not.mpr hr)] at hcall
        obtain ⟨hu, hclosed⟩ := h.closes K hf hclose fun hne => absurd hr hne
        obtain ⟨hnot, e, he⟩ := hclosed hr
        rcases fopenStatic_opens K hcall with ⟨rfl, hfiles, hopened⟩ | ⟨rfl, g, hg, hopens⟩
        · rw [if_pos (Or.inl rfl)]
          exact hu.of_others hnot (fun q _ => congrFun hfiles q) hopened
        · obtain rfl := Option.some.inj (he.symm.trans hg)
          rw [if_neg (by simp [hp])]
          exact hu.opens hp hopens rfl rfl rfl (fun _ _ => rfl) (fun _ hq _ => hq)
      · rw [if_pos hr] at hcall
        obtain ⟨rfl, rfl⟩ := Prod.mk.inj (Option.some.inj hcall)
        exact (h.closes K hf hclose fun _ => hrefuse).1
  · rw [if_neg himpl] at hcall
    obtain ⟨rfl, rfl⟩ := Prod.mk.inj (Option.some.inj hcall)
    exact h

theorem Call.exec_holding (K : Kernel W) {s : Program W} (h : s.Holding) {call : Call} {p : ℕ}
    {t : Libc W} (hproper : call.Proper s.libc) (hcall : call.exec K s.libc = some (p, t))
    (hrefuse : t.NoRefusal) :
    Program.Holding ⟨t, if p = 0 then s.written else Function.update s.written p []⟩ := by
  cases call with
  | fopen file filename mode => exact fopen_holding K h hproper hcall
  | fdopen file fd mode => exact fdopen_holding K h hproper hcall
  | fclose stream =>
    obtain ⟨⟨r, u⟩, hclose, hpair⟩ := Option.map_eq_some_iff.mp hcall
    obtain ⟨rfl, rfl⟩ := Prod.mk.inj hpair
    exact fclose_holding K h hproper hclose hrefuse
  | freopen filename mode stream =>
    cases filename with
    | none =>
      obtain ⟨⟨res, u⟩, hreopen, hpair⟩ := Option.map_eq_some_iff.mp hcall
      obtain ⟨rfl, rfl⟩ := Prod.mk.inj hpair
      have hholding := freopen_holding K h hproper hreopen hrefuse
      rwa [if_pos (Or.inr rfl)] at hholding
    | some filename =>
      have hholding := freopen_holding K h hproper hcall hrefuse
      simpa using hholding

/-- Asking for the position and changing it leave the buffer alone. -/
theorem FileOp.Moves.exec_stream (K : Kernel W) {op : FileOp} (hop : op.Moves) {s t : State W}
    {a : Answer} (h : op.exec K s = some (a, t)) :
    ∃ error, t.stream = { s.stream with flagError := error } := by
  have hseek : ∀ offset whence, (Stdio.fseeko K offset whence s).2.stream = s.stream := by
    intro offset whence
    unfold Stdio.fseeko fseekoUnlocked implSeek
    split
    · rfl
    · rfl
  have htell : (ftelloUnlocked K s).2.stream = s.stream := by
    unfold ftelloUnlocked implTell
    split
    · rfl
    · rfl
  cases op with
  | fseek offset whence =>
    obtain ⟨-, rfl⟩ := Prod.mk.inj (Option.some.inj h)
    exact ⟨s.stream.flagError, hseek offset whence⟩
  | fseeko offset whence =>
    obtain ⟨-, rfl⟩ := Prod.mk.inj (Option.some.inj h)
    exact ⟨s.stream.flagError, hseek offset whence⟩
  | rewind =>
    obtain ⟨-, rfl⟩ := Prod.mk.inj (Option.some.inj h)
    have hstream := hseek 0 .seekSet
    show ∃ error, (clearerrUnlocked (Stdio.fseeko K 0 .seekSet s).2).stream = _
    unfold clearerrUnlocked
    split
    · exact ⟨false, by rw [hstream]⟩
    · exact ⟨s.stream.flagError, hstream⟩
  | ftell =>
    obtain ⟨-, rfl⟩ := Prod.mk.inj (Option.some.inj h)
    exact ⟨s.stream.flagError, htell⟩
  | ftello =>
    obtain ⟨-, rfl⟩ := Prod.mk.inj (Option.some.inj h)
    exact ⟨s.stream.flagError, htell⟩
  | fgetpos =>
    obtain ⟨-, rfl⟩ := Prod.mk.inj (Option.some.inj h)
    exact ⟨s.stream.flagError, htell⟩
  | fsetpos pos =>
    obtain ⟨-, rfl⟩ := Prod.mk.inj (Option.some.inj h)
    exact ⟨s.stream.flagError, hseek pos .seekSet⟩
  | _ => exact absurd hop id

/-- A stream as `fflush(NULL)` leaves it. -/
def Flushing (K : Kernel W) (f g : FILE) : Prop :=
  ∃ w, (fflushUnlocked K ⟨f, w⟩).2.stream = g

theorem flushings_holds {K : Kernel W} {f g : FILE} {written : List UInt8}
    (hflush : ReflTransGen (Flushing K) f g) (h : f.Holds written)
    (haccepted : Accepted g.writes) : g.Holds written := by
  induction hflush with
  | refl => exact h
  | @tail e g _ hstep ih =>
    obtain ⟨w, rfl⟩ := hstep
    obtain ⟨calls, hcalls⟩ := fflushUnlocked_writes K ⟨e, w⟩
    have hbefore := haccepted
    rw [hcalls] at hbefore
    exact (ih (accepted_append.mp hbefore).1).fflush K w haccepted

/-- `fflush(NULL)` does nothing but flush, and opens and closes nothing. -/
theorem fflushList_files (K : Kernel W) {fuel p : ℕ} {ret r' : ℤ} {s t : Libc W}
    {visited : List ℕ} (h : fflushList K fuel p ret s = some (r', visited, t)) :
    t.opened = s.opened ∧ ∀ q f, s.files q = some f →
      ∃ g, t.files q = some g ∧ ReflTransGen (Flushing K) f g := by
  induction fuel generalizing p ret r' s visited with
  | zero => cases h
  | succ fuel ih =>
    unfold fflushList at h
    by_cases hp : p = 0
    · rw [if_pos hp] at h
      obtain ⟨-, hpair⟩ := Prod.mk.inj (Option.some.inj h)
      obtain ⟨-, rfl⟩ := Prod.mk.inj hpair
      exact ⟨rfl, fun q f hf => ⟨f, hf, .refl⟩⟩
    · rw [if_neg hp] at h
      obtain ⟨⟨r, u⟩, hcall, h⟩ := Option.bind_eq_some_iff.mp h
      obtain ⟨e, he, h⟩ := Option.bind_eq_some_iff.mp h
      obtain ⟨⟨ret'', rest, v⟩, hrest, h⟩ := Option.bind_eq_some_iff.mp h
      obtain ⟨-, hpair⟩ := Prod.mk.inj (Option.some.inj h)
      obtain ⟨-, rfl⟩ := Prod.mk.inj hpair
      obtain ⟨hopened, hfiles⟩ := ih hrest
      unfold Libc.onStream at hcall
      rcases hf : s.files p with _ | f
      · simp [hf] at hcall
      · simp only [hf] at hcall
        obtain ⟨-, rfl⟩ := Prod.mk.inj (Option.some.inj hcall)
        refine ⟨hopened, fun q g hg => ?_⟩
        by_cases hqp : q = p
        · subst hqp
          obtain rfl := Option.some.inj (hf.symm.trans hg)
          obtain ⟨k, hk, hchain⟩ := hfiles q _ (Libc.put_self s q _)
          exact ⟨k, hk, .head ⟨s.world, rfl⟩ hchain⟩
        · exact hfiles q g ((Libc.put_of_ne s hqp _).trans hg)

/-- Step lemma: what a program has written stays in the streams or accepted, as
long as no write is refused. -/
theorem Action.step_holding (K : Kernel W) {s t : Program W} {action : Action}
    (h : s.Holding) (hproper : action.Proper s) (hstep : action.step K s = some t)
    (hrefuse : t.libc.NoRefusal) : t.Holding := by
  cases action with
  | call c =>
    obtain ⟨⟨p, u⟩, hcall, hstep⟩ := Option.bind_eq_some_iff.mp hstep
    obtain rfl := Option.some.inj hstep
    exact Call.exec_holding K h hproper hcall hrefuse
  | stream p op =>
    obtain ⟨f, hf, hstep⟩ := Option.bind_eq_some_iff.mp hstep
    obtain ⟨⟨ret, u⟩, hexec, hstep⟩ := Option.bind_eq_some_iff.mp hstep
    obtain rfl := Option.some.inj hstep
    refine h.put rfl rfl (fun q hq => Function.update_of_ne hq _ _) fun hp => ?_
    obtain ⟨_, f', hf', hholds⟩ := h p hp
    obtain rfl := Option.some.inj (hf.symm.trans hf')
    rw [Function.update_self]
    exact FILE.Holds.exec K (s := ⟨f, s.libc.world⟩) hholds hexec
      (hrefuse p hp u.stream (Libc.put_self s.libc p _))
  | position p op =>
    obtain ⟨f, hf, hstep⟩ := Option.bind_eq_some_iff.mp hstep
    obtain ⟨⟨a, u⟩, hexec, hstep⟩ := Option.bind_eq_some_iff.mp hstep
    obtain rfl := Option.some.inj hstep
    refine h.put rfl rfl (fun _ _ => rfl) fun hp => ?_
    obtain ⟨_, f', hf', hholds⟩ := h p hp
    obtain rfl := Option.some.inj (hf.symm.trans hf')
    obtain ⟨error, heq⟩ := hproper.2.exec_stream K hexec
    rw [heq]
    exact hholds.of_mode f.mode error
  | setvbuf p buf mode size =>
    obtain ⟨⟨r, u⟩, hcall, hstep⟩ := Option.bind_eq_some_iff.mp hstep
    obtain rfl := Option.some.inj hstep
    obtain ⟨hp, hwritten, huntouched, hbuf⟩ := hproper
    obtain ⟨_, f, hf, hholds⟩ := h p hp
    unfold Libc.onStream at hcall
    simp only [hf] at hcall
    obtain ⟨-, rfl⟩ := Prod.mk.inj (Option.some.inj hcall)
    refine h.put rfl rfl (fun _ _ => rfl) fun _ => ?_
    rw [hwritten] at hholds ⊢
    exact hholds.setvbuf K (huntouched f hf) s.libc.world buf mode size hbuf
  | flushAll fuel =>
    obtain ⟨⟨r, visited, u⟩, hcall, hstep⟩ := Option.bind_eq_some_iff.mp hstep
    obtain rfl := Option.some.inj hstep
    obtain ⟨hopened, hfiles⟩ := fflushList_files K hcall
    intro p hp
    obtain ⟨hp0, f, hf, hholds⟩ := h p (hopened ▸ hp)
    obtain ⟨g, hg, hchain⟩ := hfiles p f hf
    exact ⟨hp0, g, hg, flushings_holds hchain hholds (hrefuse p hp g hg)⟩

end Heartix.Stdio
