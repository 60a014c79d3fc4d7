import Heartix.Lib.Runs
import Heartix.Stdio.Unbuffered
import Heartix.Stdio.Unread

/-!
Reading a byte source through a stream. What the source delivers in one call is
up to the kernel; what `fgetc` and `fread` return depends on the bytes of the
source only, whether the stream has a buffer or not. Both kinds of streams
follow the same machine, which reads from a list.
-/

namespace Heartix.Stdio

open Runs

variable {W W' : Type}

/-- A finite source of bytes behind a descriptor: a read delivers the next ones,
at least one of them until the source ends. -/
structure ByteSource (K : Kernel W) (fd : ℤ) where
  rest : W → List UInt8
  read_spec : ∀ len w, 0 < len → ∃ bytes w', K.read fd len w = (some bytes, w') ∧
    bytes.val ++ rest w' = rest w ∧ (rest w ≠ [] → bytes.val ≠ [])

/-- The next byte of a list. -/
def nextByte : List UInt8 → ℤ × List UInt8
  | [] => (EOF, [])
  | b :: source => (b.toNat, source)

/-- Reading from a list: the value returned, the bytes stored, and the rest. -/
def Op.fromList : Op → List UInt8 → Ret × List UInt8
  | .fgetc, source => (⟨(nextByte source).1, []⟩, (nextByte source).2)
  | .fread size nmemb, source =>
      (⟨(source.take (size * nmemb)).length / size, source.take (size * nmemb)⟩,
        source.drop (size * nmemb))
  | _, source => (⟨0, []⟩, source)

/-- The calls of a program that only reads. -/
def Op.Reads : Op → Prop
  | .fgetc => True
  | .fread _ _ => True
  | _ => False

/-- The number of bytes an operation asks for. -/
def Op.requested : Op → ℕ
  | .fgetc => 1
  | .fread size nmemb => size * nmemb
  | _ => 0

/-- The bytes an operation delivers, by what it returns and stores. -/
def Op.delivered (ret : Ret) : Op → List UInt8
  | .fgetc => if ret.value = EOF then [] else [toByte ret.value]
  | .fread _ _ => ret.bytes
  | _ => []

/-- All the bytes a run delivers, by its answers. -/
def deliveredBytes (ops : List Op) (rets : List Ret) : List UInt8 :=
  (List.zipWith (fun op ret => Op.delivered ret op) ops rets).flatten

/-- The list machine delivers the first bytes of the list in order, as many as
were asked for. -/
theorem deliveredBytes_predictions (ops : List Op) (hops : ∀ op ∈ ops, op.Reads)
    (source : List UInt8) :
    deliveredBytes ops (predictions Op.fromList ops source) =
      source.take (ops.map Op.requested).sum := by
  induction ops generalizing source with
  | nil => simp [deliveredBytes, predictions]
  | cons op ops ih =>
    have hop := hops op List.mem_cons_self
    have hrest := ih (fun o ho => hops o (List.mem_cons_of_mem op ho))
    have hstep : Op.delivered (op.fromList source).1 op = source.take op.requested ∧
        (op.fromList source).2 = source.drop op.requested := by
      cases op with
      | fgetc =>
        cases source with
        | nil => exact ⟨rfl, rfl⟩
        | cons b source =>
          refine ⟨?_, rfl⟩
          show (if (b.toNat : ℤ) = EOF then [] else [toByte b.toNat]) = [b]
          rw [if_neg (toNat_ne_EOF b), toByte_toNat]
      | fread size nmemb => exact ⟨rfl, rfl⟩
      | _ => exact absurd hop id
    obtain ⟨hdelivered, hleft⟩ := hstep
    have hsplit : deliveredBytes (op :: ops) (predictions Op.fromList (op :: ops) source) =
        Op.delivered (op.fromList source).1 op ++
          deliveredBytes ops (predictions Op.fromList ops (op.fromList source).2) := rfl
    rw [hsplit, hdelivered, hleft, hrest, List.map_cons, List.sum_cons, List.take_add]

/-- A request for nothing is answered without the stream. -/
theorem Op.exec_nothing {K : Kernel W} {s : State W} {size nmemb : ℕ}
    (hzero : size = 0 ∨ nmemb = 0) : (Op.fread size nmemb).exec K s = some (⟨0, []⟩, s) := by
  have hread : freadUnlocked K size nmemb s = some (0, [], s) := if_pos hzero
  simp [Op.exec, hread]

theorem Op.fromList_nothing {size nmemb : ℕ} {source : List UInt8}
    (hzero : size = 0 ∨ nmemb = 0) :
    (Op.fread size nmemb).fromList source = (⟨0, []⟩, source) := by
  have hmul : size * nmemb = 0 := Nat.mul_eq_zero.mpr hzero
  simp [Op.fromList, hmul]

section Buffered

/-- The unread bytes and the rest of the source are the bytes still to come. -/
structure FromBuffer {K : Kernel W} {fd : ℤ} (S : ByteSource K fd) (s : State W)
    (source : List UInt8) : Prop where
  fd_eq : s.stream.fileDescriptor = fd
  readable : s.stream.mode.read = true
  set : s.stream.flagBufferSet = true
  notWriting : s.stream.flagDirectionWrite = false
  sound : s.stream.Sound
  source_eq : s.stream.unread ++ S.rest s.world = source

variable {K : Kernel W} {fd : ℤ} {S : ByteSource K fd} {s : State W} {source : List UInt8}

theorem FromBuffer.takeByte (h : FromBuffer S s source) {b : UInt8} {ahead : List UInt8}
    (hcons : s.stream.unread = b :: ahead) :
    ∃ t, takeByte s = some ((nextByte source).1, t) ∧ FromBuffer S t (nextByte source).2 := by
  have hmore : s.stream.bufferedBytesReadOffset < s.stream.bufferedBytesRead := by
    by_contra hle
    have hnil := (FILE.unread_eq_nil_iff h.sound.toBounds).mpr (Nat.le_of_not_lt hle)
    rw [hcons] at hnil
    cases hnil
  obtain ⟨htake, hahead⟩ := takeByte_cons hcons
  obtain ⟨_, t, htake', hsound⟩ := takeByte_sound h.sound h.set hmore
  obtain ⟨-, rfl⟩ := Prod.mk.inj (Option.some.inj (htake.symm.trans htake'))
  have hsource := h.source_eq
  rw [hcons, List.cons_append] at hsource
  rw [← hsource]
  refine ⟨_, htake, h.fd_eq, h.readable, h.set, h.notWriting, hsound, ?_⟩
  show ({ s.stream with bufferedBytesReadOffset := s.stream.bufferedBytesReadOffset + 1 } :
    FILE).unread ++ S.rest s.world = ahead ++ S.rest s.world
  rw [hahead]

theorem FromBuffer.readBuffered (h : FromBuffer S s source) :
    ∃ t, readBuffered K s = some ((nextByte source).1, t) ∧
      FromBuffer S t (nextByte source).2 := by
  have hbounds := h.sound.toBounds
  unfold Stdio.readBuffered
  by_cases hempty : s.stream.bufferedBytesReadOffset ≥ s.stream.bufferedBytesRead
  · rw [if_pos hempty]
    have hnil := (FILE.unread_eq_nil_iff hbounds).mpr hempty
    have hsource := h.source_eq
    rw [hnil, List.nil_append] at hsource
    obtain ⟨len, hlen, hcases⟩ := fillBuffer_cases K h.sound h.set
    obtain ⟨bytes, w, hread, hrest, hsome⟩ := S.read_spec len s.world hlen
    rw [h.fd_eq, hread] at hcases
    rcases hcases with ⟨_, hnone, _⟩ | ⟨bytes', w', hpair, hend, hfill⟩ |
      ⟨bytes', w', buffer, stop, offset, hne, hpair, hfill, hahead, hlength, hle, hstop⟩
    · cases (Prod.mk.inj hnone).1
    · obtain ⟨hbytes, rfl⟩ := Prod.mk.inj hpair
      obtain rfl := Option.some.inj hbytes
      have hdone : source = [] := by
        by_contra hne
        rw [← hsource] at hne
        exact hsome hne hend
      rw [hfill, hdone]
      rw [hend, hsource, hdone] at hrest
      refine ⟨_, rfl, h.fd_eq, h.readable, h.set, h.notWriting, ?_, ?_⟩
      · exact ⟨⟨h.sound.write_le, h.sound.offset_le, h.sound.read_le⟩, h.sound.buffered,
          h.sound.unused⟩
      · show s.stream.unread ++ S.rest w = []
        rw [hnil]
        exact hrest
    · obtain ⟨hbytes, rfl⟩ := Prod.mk.inj hpair
      obtain rfl := Option.some.inj hbytes
      obtain ⟨b, ahead, hcons⟩ := List.exists_cons_of_ne_nil hne
      rw [hfill]
      dsimp only
      rw [if_neg zero_ne_EOF]
      have hfilled : FromBuffer S ⟨{ s.stream with
          buffer := buffer
          bufferedBytesRead := stop
          bufferedBytesReadOffset := offset }, w⟩ source := by
        refine ⟨h.fd_eq, h.readable, h.set, h.notWriting,
          h.sound.refilled h.set hlength hle hstop, ?_⟩
        show (buffer.take stop).drop offset ++ S.rest w = source
        rw [hahead, hrest, hsource]
      exact hfilled.takeByte (hahead.trans hcons)
  · rw [if_neg hempty]
    have hne : s.stream.unread ≠ [] := fun hnil =>
      hempty ((FILE.unread_eq_nil_iff hbounds).mp hnil)
    obtain ⟨b, ahead, hcons⟩ := List.exists_cons_of_ne_nil hne
    exact h.takeByte hcons

theorem FromBuffer.fgetc (h : FromBuffer S s source) :
    ∃ t, fgetcUnlocked K s = some ((nextByte source).1, t) ∧
      FromBuffer S t (nextByte source).2 := by
  have hensure : ensureBuffer K s = (0, s) := if_pos h.set
  have hflush : fflushWriteUnlocked K s = (0, s) := if_pos h.notWriting
  unfold fgetcUnlocked
  simp only [hensure, zero_ne_EOF, if_false, (h.sound.buffered h.set).1]
  rw [ite_fflushWriteUnlocked, hflush]
  simp only [zero_ne_EOF, if_false]
  have hturned : FromBuffer S { s with stream := { s.stream with
      flagDirectionWrite := false, flagDirectionRead := true } } source := by
    refine ⟨h.fd_eq, h.readable, h.set, rfl, ⟨⟨h.sound.write_le, h.sound.offset_le,
      h.sound.read_le⟩, h.sound.buffered, fun hunset => ?_⟩, h.source_eq⟩
    rw [h.set] at hunset
    cases hunset
  exact hturned.readBuffered

/-- The loop of `fread` stops when the source ends. -/
theorem FromBuffer.freadLoop (h : FromBuffer S s source) {size nmemb left : ℕ} (hsize : 0 < size)
    {bytes : List UInt8} (htotal : bytes.length + left = size * nmemb) :
    ∃ t, freadLoop K size nmemb left bytes s =
        some ((bytes ++ source.take left).length / size, bytes ++ source.take left, t) ∧
      FromBuffer S t (source.drop left) := by
  induction left generalizing bytes s source with
  | zero =>
    refine ⟨s, ?_, h⟩
    have hall : bytes.length / size = nmemb := by
      rw [Nat.add_zero] at htotal
      rw [htotal, Nat.mul_div_cancel_left _ hsize]
    simp [Stdio.freadLoop, hall]
  | succ left ih =>
    obtain ⟨t, hgetc, ht⟩ := h.fgetc
    unfold Stdio.freadLoop
    simp only [hgetc]
    cases source with
    | nil =>
      refine ⟨t, ?_, ht⟩
      simp [nextByte]
    | cons b source =>
      have hlength : (bytes ++ [b]).length + left = size * nmemb := by
        rw [List.length_append, List.length_singleton]
        omega
      obtain ⟨u, hloop, hu⟩ := ih ht hlength
      refine ⟨u, ?_, hu⟩
      simp only [nextByte, toNat_ne_EOF, if_false, toByte_toNat]
      rw [hloop, List.append_assoc]
      rfl

/-- Step lemma for buffered streams. -/
theorem FromBuffer.exec (h : FromBuffer S s source) {op : Op} (hop : op.Reads) :
    ∃ ret t, op.exec K s = some (ret, t) ∧ ret = (op.fromList source).1 ∧
      FromBuffer S t (op.fromList source).2 := by
  cases op with
  | fgetc =>
    obtain ⟨t, hgetc, ht⟩ := h.fgetc
    refine ⟨⟨(nextByte source).1, []⟩, t, ?_, rfl, ht⟩
    simp [Op.exec, hgetc]
  | fread size nmemb =>
    by_cases hzero : size = 0 ∨ nmemb = 0
    · rw [Op.fromList_nothing hzero]
      exact ⟨⟨0, []⟩, s, Op.exec_nothing hzero, rfl, h⟩
    · have hensure : ensureBuffer K s = (0, s) := if_pos h.set
      have htotal : ([] : List UInt8).length + size * nmemb = size * nmemb := Nat.zero_add _
      obtain ⟨t, hloop, ht⟩ := h.freadLoop (by omega) htotal
      have hread : freadUnlocked K size nmemb s =
          some ((source.take (size * nmemb)).length / size, source.take (size * nmemb), t) := by
        unfold freadUnlocked
        rw [if_neg hzero, if_neg (by simp [h.readable])]
        simp only [hensure, zero_ne_EOF, if_false, (h.sound.buffered h.set).1]
        exact hloop
      refine ⟨_, t, ?_, rfl, ht⟩
      show (freadUnlocked K size nmemb s).map _ = _
      rw [hread]
      rfl
  | _ => exact absurd hop id

end Buffered

section Unbuffered

/-- Nothing is held back by the stream. -/
structure Direct {K : Kernel W} {fd : ℤ} (S : ByteSource K fd) (s : State W)
    (source : List UInt8) : Prop where
  fd_eq : s.stream.fileDescriptor = fd
  readable : s.stream.mode.read = true
  impl : s.stream.implRead = true
  unbuffered : s.stream.Unbuffered
  source_eq : S.rest s.world = source

variable {K : Kernel W} {fd : ℤ} {S : ByteSource K fd} {s : State W} {source : List UInt8}

/-- The loop around `impl_read` stops when the source ends. -/
theorem Direct.readLoop (h : Direct S s source) (left : ℕ) :
    ∃ t, readLoop K left s = (source.take left, t) ∧ Direct S t (source.drop left) := by
  induction left using Nat.strong_induction_on generalizing s source with
  | h left ih =>
    unfold Stdio.readLoop
    by_cases hleft : left = 0
    · subst hleft
      exact ⟨s, rfl, h⟩
    · rw [dif_neg hleft]
      obtain ⟨⟨bytes, hlen⟩, w, hread, hrest, hsome⟩ := S.read_spec left s.world (by omega)
      have hsource := h.source_eq
      unfold implRead
      rw [h.fd_eq, hread]
      dsimp only at hrest hsome
      cases bytes with
      | nil =>
        have hdone : source = [] := by
          by_contra hne
          rw [← hsource] at hne
          exact hsome hne rfl
        rw [List.nil_append, hsource] at hrest
        rw [hdone, List.take_nil, List.drop_nil]
        refine ⟨_, rfl, h.fd_eq, h.readable, h.impl, h.unbuffered, ?_⟩
        show S.rest w = []
        rw [hrest, hdone]
      | cons b bytes =>
        have hnext : Direct S { s with world := w } (S.rest w) :=
          ⟨h.fd_eq, h.readable, h.impl, h.unbuffered, rfl⟩
        rw [List.length_cons] at hlen
        obtain ⟨t, hloop, ht⟩ := ih (left - (bytes.length + 1)) (by omega) hnext
        have hsplit : left = (b :: bytes).length + (left - (bytes.length + 1)) := by
          rw [List.length_cons]
          omega
        refine ⟨t, ?_, ?_⟩
        · simp only [hloop]
          rw [← hsource, ← hrest]
          conv_rhs => rw [hsplit, List.take_length_add_append]
        · rw [← hsource, ← hrest]
          rw [hsplit, List.drop_length_add_append]
          exact ht

theorem Direct.freadUnbuffered (h : Direct S s source) (size nmemb : ℕ) :
    ∃ t, freadUnbuffered K size nmemb s =
        ((source.take (size * nmemb)).length / size, source.take (size * nmemb), t) ∧
      Direct S t (source.drop (size * nmemb)) := by
  have hturned : Direct S { s with stream := { s.stream with
      flagDirectionRead := true, flagEof := false } } source :=
    ⟨h.fd_eq, h.readable, h.impl, h.unbuffered, h.source_eq⟩
  obtain ⟨t, hloop, ht⟩ := hturned.readLoop (size * nmemb)
  refine ⟨t, ?_, ht⟩
  unfold Stdio.freadUnbuffered
  rw [if_neg (by simp [h.impl]), hloop]

/-- Step lemma for unbuffered streams. -/
theorem Direct.exec (h : Direct S s source) {op : Op} (hop : op.Reads) :
    ∃ ret t, op.exec K s = some (ret, t) ∧ ret = (op.fromList source).1 ∧
      Direct S t (op.fromList source).2 := by
  have hensure : ensureBuffer K s = (0, s) := if_pos h.unbuffered.1
  have hreadable : ¬ s.stream.mode.read = false := by
    rw [h.readable]
    decide
  cases op with
  | fgetc =>
    obtain ⟨t, hread, ht⟩ := h.freadUnbuffered 1 1
    refine ⟨⟨(nextByte source).1, []⟩, t, ?_, rfl, ?_⟩
    · have hgetc : fgetcUnlocked K s = some ((nextByte source).1, t) := by
        unfold fgetcUnlocked
        simp only [hensure, zero_ne_EOF, if_false, h.unbuffered.2, if_true, if_neg hreadable,
          hread]
        cases source with
        | nil => rfl
        | cons b source => simp [nextByte]
      show (fgetcUnlocked K s).map _ = _
      rw [hgetc]
      rfl
    · cases source with
      | nil => exact ht
      | cons b source => exact ht
  | fread size nmemb =>
    by_cases hzero : size = 0 ∨ nmemb = 0
    · rw [Op.fromList_nothing hzero]
      exact ⟨⟨0, []⟩, s, Op.exec_nothing hzero, rfl, h⟩
    · obtain ⟨t, hread, ht⟩ := h.freadUnbuffered size nmemb
      refine ⟨_, t, ?_, rfl, ht⟩
      show (freadUnlocked K size nmemb s).map _ = _
      unfold freadUnlocked
      rw [if_neg hzero, if_neg hreadable]
      simp only [hensure, zero_ne_EOF, if_false, h.unbuffered.2, if_true, hread]
      rfl
  | _ => exact absurd hop id

end Unbuffered

/-- A run of reads follows the machine that reads from a list. -/
theorem follows_fromList {K : Kernel W} {R : State W → List UInt8 → Prop}
    (hexec : ∀ {s source op}, R s source → Op.Reads op → ∃ ret t, op.exec K s = some (ret, t) ∧
      ret = (op.fromList source).1 ∧ R t (op.fromList source).2)
    {ops : List Op} (hops : ∀ op ∈ ops, op.Reads) {s : State W} {source : List UInt8}
    (hs : R s source) :
    answers (Op.exec K) ops s = some (predictions Op.fromList ops source) := by
  have hfollows : Follows (Op.exec K) (fun _ => Op.fromList) (fun _ a b => a = b) R ops s
      source := by
    induction ops generalizing s source with
    | nil => exact hs
    | cons op ops ih =>
      obtain ⟨ret, t, heq, hret, ht⟩ := hexec hs (hops op List.mem_cons_self)
      exact ⟨ret, t, heq, hret, ih (fun o ho => hops o (List.mem_cons_of_mem op ho)) ht⟩
  exact hfollows.answers_eq

/-- A readable stream over a descriptor with nothing in its buffer, which
`setvbuf` has set. -/
structure FILE.Reader (f : FILE) (fd : ℤ) : Prop where
  fd_eq : f.fileDescriptor = fd
  readable : f.mode.read = true
  impl : f.implRead = true
  set : f.flagBufferSet = true
  notWriting : f.flagDirectionWrite = false
  write_zero : f.bufferedBytesWrite = 0
  read_zero : f.bufferedBytesRead = 0
  offset_zero : f.bufferedBytesReadOffset = 0

theorem FILE.Reader.fromBuffer {K : Kernel W} {fd : ℤ} {s : State W} (hs : s.stream.Reader fd)
    (S : ByteSource K fd) (hmode : s.stream.bufferMode ≠ .ionbf)
    (hsize : 1 ≤ s.stream.bufferSize) : FromBuffer S s (S.rest s.world) := by
  refine ⟨hs.fd_eq, hs.readable, hs.set, hs.notWriting, ?_, ?_⟩
  · constructor
    · constructor
      · rw [hs.write_zero]
        exact Nat.zero_le _
      · rw [hs.offset_zero]
        exact Nat.zero_le _
      · rw [hs.read_zero]
        exact Nat.zero_le _
    · exact fun _ => ⟨hmode, hsize⟩
    · intro hunset
      rw [hs.set] at hunset
      cases hunset
  · unfold FILE.unread
    rw [hs.read_zero, List.take_zero, List.drop_nil, List.nil_append]

/-- A buffered stream and an unbuffered one over the same bytes return and store
the same, however their kernels split the bytes, and what they deliver are the
bytes of the source in order. -/
theorem buffered_reads_as_unbuffered {K : Kernel W} {K' : Kernel W'} {fd fd' : ℤ}
    (S : ByteSource K fd) (S' : ByteSource K' fd') (ops : List Op)
    (hops : ∀ op ∈ ops, op.Reads) (s : State W) (s' : State W') (hs : s.stream.Reader fd)
    (hs' : s'.stream.Reader fd')
    (hmode : s.stream.bufferMode = .iofbf ∨ s.stream.bufferMode = .iolbf)
    (hsize : 1 ≤ s.stream.bufferSize) (hmode' : s'.stream.bufferMode = .ionbf)
    (hsame : S.rest s.world = S'.rest s'.world) :
    answers (Op.exec K) ops s = answers (Op.exec K') ops s' ∧
      ∃ rets, answers (Op.exec K) ops s = some rets ∧
        deliveredBytes ops rets = (S.rest s.world).take (ops.map Op.requested).sum := by
  have hnot : s.stream.bufferMode ≠ .ionbf := by
    rcases hmode with hmode | hmode
    · rw [hmode]
      decide
    · rw [hmode]
      decide
  have hbuffered := hs.fromBuffer S hnot hsize
  have hdirect : Direct S' s' (S.rest s.world) :=
    ⟨hs'.fd_eq, hs'.readable, hs'.impl, ⟨hs'.set, hmode'⟩, hsame.symm⟩
  have hanswers := follows_fromList (fun h hop => FromBuffer.exec h hop) hops hbuffered
  have hanswers' := follows_fromList (fun h hop => Direct.exec h hop) hops hdirect
  refine ⟨hanswers.trans hanswers'.symm, _, hanswers, ?_⟩
  exact deliveredBytes_predictions ops hops _

/-- A kernel that delivers a list of bytes behind every descriptor, at most
`chunk + 1` in a call. -/
def sourceKernel (chunk : ℕ) : Kernel (List UInt8) where
  write _ bytes w := (some (Fin.last bytes.length), w)
  read _ len w :=
    (some ⟨w.take (min (chunk + 1) len), by
      rw [List.length_take]
      omega⟩, w.drop (min (chunk + 1) len))
  lseek _ _ _ w := (-1, w)
  tell _ w := (-1, w)
  close _ w := (0, w)
  openFile _ _ w := (3, w)
  malloc len w := (some (4096, Vector.replicate len 0), w)
  free _ w := w
  mutexInitialize w := (1, w)
  mutexTryAcquire _ := true

def sourceKernel_source (chunk : ℕ) (fd : ℤ) : ByteSource (sourceKernel chunk) fd where
  rest w := w
  read_spec len w hlen := by
    refine ⟨_, _, rfl, List.take_append_drop _ _, fun hne hnil => ?_⟩
    rcases List.take_eq_nil_iff.mp hnil with hzero | hempty
    · omega
    · exact hne hempty

def readFlags : ModeFlags := { (default : ModeFlags) with read := true }

theorem openedStream_reader (memory : List UInt8) (bufferMode : BufferMode) :
    (openedStream readFlags memory bufferMode).Reader 3 :=
  ⟨rfl, rfl, rfl, rfl, rfl, rfl, rfl, rfl⟩

/-- Two bytes in a buffer of one byte, and in chunks of three without a buffer. -/
theorem buffered_reads_as_unbuffered_twoBytes :
    answers (Op.exec (sourceKernel 0)) [.fgetc, .fread 2 2, .fgetc]
        ⟨openedStream readFlags [0] .iofbf, [255, 98]⟩ =
      answers (Op.exec (sourceKernel 2)) [.fgetc, .fread 2 2, .fgetc]
        ⟨openedStream readFlags [] .ionbf, [255, 98]⟩ ∧
    ∃ rets, answers (Op.exec (sourceKernel 0)) [.fgetc, .fread 2 2, .fgetc]
        ⟨openedStream readFlags [0] .iofbf, [255, 98]⟩ = some rets ∧
      deliveredBytes [.fgetc, .fread 2 2, .fgetc] rets =
        ([255, 98] : List UInt8).take
          (([.fgetc, .fread 2 2, .fgetc] : List Op).map Op.requested).sum :=
  buffered_reads_as_unbuffered (sourceKernel_source 0 3) (sourceKernel_source 2 3)
    [.fgetc, .fread 2 2, .fgetc] (by simp [Op.Reads]) _ _ (openedStream_reader _ _)
    (openedStream_reader _ _) (Or.inl rfl) (by decide) rfl rfl

end Heartix.Stdio
