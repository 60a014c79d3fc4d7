import Heartix.Stdio.CursorSteps
import Heartix.Stdio.Reading
import Heartix.Strings.Memmove

/-!
Pushing bytes back. A stream that is only read from and pushed back to is a
stack in front of the kernel: what it does is determined by the bytes waiting in
its buffer, wherever they lie there, and by the world. The stack machine is the
specification; a byte pushed on it and taken off again leaves no trace.
-/

namespace Heartix.Stdio

open Overwrite Runs Strings

variable {W : Type}

/-- Reading and pushing back. -/
def Op.TakesInput : Op → Prop
  | .fgetc => True
  | .fread _ _ => True
  | .ungetc _ => True
  | _ => False

/-- The bytes that wait to be read, and what lies behind them. -/
structure Input (W : Type) where
  unread : List UInt8
  world : W

namespace Input

/-- The bytes a refill leaves free in a buffer of that length. -/
def reserve (len : ℕ) : ℕ := if ungetPreservedSpace ≥ len then 0 else ungetPreservedSpace

/-- What the kernel answers when an empty buffer is filled. -/
def refill (K : Kernel W) (fd : ℤ) (len : ℕ) (w : W) : Option (List UInt8) × W :=
  match K.read fd (len - reserve len) w with
  | (none, w) => (none, w)
  | (some bytes, w) => (some bytes.val, w)

/-- The next byte waiting, or the first one of what the kernel delivers. -/
def getc (K : Kernel W) (fd : ℤ) (len : ℕ) (a : Input W) : ℤ × Input W :=
  match a.unread with
  | b :: unread => (b.toNat, { a with unread := unread })
  | [] =>
      match refill K fd len a.world with
      | (some (b :: unread), w) => (b.toNat, ⟨unread, w⟩)
      | (_, w) => (EOF, ⟨[], w⟩)

/-- A byte goes in front of the others while they are fewer than `len`. -/
def ungetc (len : ℕ) (c : ℤ) (a : Input W) : ℤ × Input W :=
  if c = EOF ∨ a.unread.length = len then (EOF, a)
  else ((toByte c).toNat, { a with unread := toByte c :: a.unread })

def getBytes (K : Kernel W) (fd : ℤ) (len : ℕ) :
    (left : ℕ) → (bytes : List UInt8) → Input W → List UInt8 × Input W
  | 0, bytes, a => (bytes, a)
  | left + 1, bytes, a =>
      if (a.getc K fd len).1 = EOF then (bytes, (a.getc K fd len).2)
      else getBytes K fd len left (bytes ++ [toByte (a.getc K fd len).1]) (a.getc K fd len).2

def exec (K : Kernel W) (fd : ℤ) (len : ℕ) (op : Op) (a : Input W) : Ret × Input W :=
  match op with
  | .fgetc => (⟨(a.getc K fd len).1, []⟩, (a.getc K fd len).2)
  | .fread size nmemb =>
      if size = 0 ∨ nmemb = 0 then (⟨0, []⟩, a)
      else
        (⟨(a.getBytes K fd len (size * nmemb) []).1.length / size,
          (a.getBytes K fd len (size * nmemb) []).1⟩,
          (a.getBytes K fd len (size * nmemb) []).2)
  | .ungetc c => (⟨(a.ungetc len c).1, []⟩, (a.ungetc len c).2)
  | _ => (⟨0, []⟩, a)

theorem refill_fits {K : Kernel W} {fd : ℤ} {len : ℕ} {w w' : W} {bytes : List UInt8}
    (h : refill K fd len w = (some bytes, w')) : reserve len + bytes.length ≤ len := by
  have hreserve : reserve len ≤ len := by
    unfold reserve
    split <;> omega
  unfold refill at h
  rcases hread : K.read fd (len - reserve len) w with ⟨_ | ⟨delivered, hlen⟩, _⟩
  · rw [hread] at h
    cases (Prod.mk.inj h).1
  · rw [hread] at h
    obtain rfl : delivered = bytes := Option.some.inj (Prod.mk.inj h).1
    omega

theorem ungetc_full {len : ℕ} {a : Input W} (h : a.unread.length = len) (c : ℤ) :
    a.ungetc len c = (EOF, a) := if_pos (Or.inr h)

theorem ungetc_free {len : ℕ} {a : Input W} (h : a.unread.length ≠ len) (b : UInt8) :
    a.ungetc len b.toNat = ((b.toNat : ℤ), { a with unread := b :: a.unread }) := by
  unfold ungetc
  rw [if_neg (not_or.2 ⟨toNat_ne_EOF b, h⟩), toByte_toNat]

theorem getc_nil {K : Kernel W} {fd : ℤ} {len : ℕ} {a : Input W} (h : a.unread = []) :
    a.getc K fd len = match refill K fd len a.world with
      | (some (b :: unread), w) => ((b.toNat : ℤ), ⟨unread, w⟩)
      | (_, w) => (EOF, ⟨[], w⟩) := by
  unfold getc
  rw [h]

/-- What is on the stack comes off it first, and what lies under it is untouched. -/
theorem predictions_fgetc (K : Kernel W) (fd : ℤ) (len : ℕ) (bytes : List UInt8) (ops : List Op)
    (a : Input W) :
    predictions (exec K fd len) (List.replicate bytes.length .fgetc ++ ops)
        { a with unread := bytes ++ a.unread } =
      bytes.map (fun b => ⟨b.toNat, []⟩) ++ predictions (exec K fd len) ops a := by
  induction bytes with
  | nil => rfl
  | cons b bytes ih =>
    rw [List.length_cons, List.replicate_succ]
    exact congrArg (⟨b.toNat, []⟩ :: ·) ih

end Input

section Buffer

variable {f : FILE}

/-- The shift is a call of `memmove`, which stays in the buffer. -/
theorem shiftRight_memmove (h : f.Bounds) (hoffset : f.bufferedBytesReadOffset = 0) :
    memmove (f.bufferSize - f.bufferedBytesRead) 0 f.bufferedBytesRead f.buffer =
      some (shiftRight f).buffer := by
  have hread := h.read_le
  unfold FILE.bufferSize at hread
  rw [memmove_eq (by unfold FILE.bufferSize; omega) (by omega), List.drop_zero]
  unfold shiftRight
  rw [hoffset, Nat.sub_zero]

theorem length_shiftRight (h : f.Bounds) : (shiftRight f).buffer.length = f.buffer.length := by
  have hread := h.read_le
  unfold FILE.bufferSize at hread
  apply length_overwrite
  unfold FILE.bufferSize
  rw [List.length_take]
  omega

theorem FILE.Bounds.shiftRight (h : f.Bounds) : (Stdio.shiftRight f).Bounds := by
  have hread := h.read_le
  have hlength := length_shiftRight h
  constructor
  · exact h.write_le.trans hlength.ge
  · exact Nat.le_add_right _ _
  · show f.bufferSize - (f.bufferedBytesRead - f.bufferedBytesReadOffset) +
      (f.bufferedBytesRead - f.bufferedBytesReadOffset) ≤ (Stdio.shiftRight f).buffer.length
    rw [hlength]
    unfold FILE.bufferSize at hread ⊢
    omega

end Buffer

theorem fillBuffer_refill (K : Kernel W) (s : State W) :
    fillBuffer K s =
      match Input.refill K s.stream.fileDescriptor s.stream.bufferSize s.world with
      | (some [], w) => (EOF, ({ s with world := w } : State W).setEof)
      | (none, w) => (EOF, ({ s with world := w } : State W).setError)
      | (some bytes, w) =>
          (0, ⟨{ s.stream with
            buffer := overwrite s.stream.buffer (Input.reserve s.stream.bufferSize) bytes
            bufferedBytesRead := Input.reserve s.stream.bufferSize + bytes.length
            bufferedBytesReadOffset := Input.reserve s.stream.bufferSize }, w⟩) := by
  unfold fillBuffer implRead Input.refill Input.reserve
  dsimp only
  rcases K.read s.stream.fileDescriptor (s.stream.bufferSize -
    (if ungetPreservedSpace ≥ s.stream.bufferSize then 0 else ungetPreservedSpace)) s.world with
    ⟨_ | ⟨_ | ⟨b, bytes⟩, hlen⟩, w⟩
  · rfl
  · rfl
  · rfl

section Holding

/-- The stream has a buffer and is not written, and its input is the one given. -/
structure Holding (fd : ℤ) (len : ℕ) (s : State W) (a : Input W) : Prop where
  set : s.stream.flagBufferSet = true
  buffered : s.stream.bufferMode ≠ .ionbf
  notWriting : s.stream.flagDirectionWrite = false
  readable : s.stream.mode.read = true
  bounds : s.stream.Bounds
  fd_eq : s.stream.fileDescriptor = fd
  size_eq : s.stream.bufferSize = len
  unread_eq : s.stream.unread = a.unread
  world_eq : s.world = a.world

variable {K : Kernel W} {fd : ℤ} {len : ℕ} {s : State W} {a : Input W}

theorem Holding.ensure (h : Holding fd len s a) : ensureBuffer K s = (0, s) := if_pos h.set

theorem Holding.length_unread (h : Holding fd len s a) :
    a.unread.length = s.stream.bufferedBytesRead - s.stream.bufferedBytesReadOffset := by
  rw [← h.unread_eq, FILE.length_unread h.bounds]

theorem Holding.takeByte (h : Holding fd len s a) {b : UInt8} {rest : List UInt8}
    (hcons : a.unread = b :: rest) :
    ∃ t, takeByte s = some ((b.toNat : ℤ), t) ∧ Holding fd len t { a with unread := rest } := by
  obtain ⟨htake, hrest⟩ := takeByte_cons (h.unread_eq.trans hcons)
  have hlength := h.length_unread
  rw [hcons, List.length_cons] at hlength
  refine ⟨_, htake, h.set, h.buffered, h.notWriting, h.readable,
    ⟨h.bounds.write_le, ?_, h.bounds.read_le⟩, h.fd_eq, h.size_eq, hrest, h.world_eq⟩
  show s.stream.bufferedBytesReadOffset + 1 ≤ s.stream.bufferedBytesRead
  omega

/-- A refill of the empty buffer: what the kernel delivers waits behind the
reserve. -/
theorem Holding.fillBuffer (h : Holding fd len s a) (hnil : a.unread = []) :
    (∃ t, fillBuffer K s = (EOF, t) ∧ a.getc K fd len = (EOF, ⟨[], t.world⟩) ∧
      Holding fd len t ⟨[], t.world⟩) ∨
    ∃ b rest t, fillBuffer K s = (0, t) ∧ a.getc K fd len = (b.toNat, ⟨rest, t.world⟩) ∧
      Holding fd len t ⟨b :: rest, t.world⟩ := by
  have hempty : s.stream.unread = [] := h.unread_eq.trans hnil
  rw [fillBuffer_refill, h.fd_eq, h.size_eq, h.world_eq, Input.getc_nil hnil]
  rcases hrefill : Input.refill K fd len a.world with ⟨_ | _ | ⟨b, rest⟩, w⟩
  · left
    exact ⟨_, rfl, rfl, h.set, h.buffered, h.notWriting, h.readable,
      ⟨h.bounds.write_le, h.bounds.offset_le, h.bounds.read_le⟩, h.fd_eq, h.size_eq, hempty, rfl⟩
  · left
    exact ⟨_, rfl, rfl, h.set, h.buffered, h.notWriting, h.readable,
      ⟨h.bounds.write_le, h.bounds.offset_le, h.bounds.read_le⟩, h.fd_eq, h.size_eq, hempty, rfl⟩
  · right
    have hfit : Input.reserve len + (b :: rest).length ≤ s.stream.buffer.length :=
      (Input.refill_fits hrefill).trans h.size_eq.ge
    have hlength := length_overwrite hfit
    refine ⟨b, rest, _, rfl, rfl, h.set, h.buffered, h.notWriting, h.readable,
      ⟨?_, Nat.le_add_right _ _, ?_⟩, h.fd_eq, hlength.trans h.size_eq, ?_, rfl⟩
    · exact h.bounds.write_le.trans hlength.ge
    · exact hfit.trans hlength.ge
    · exact drop_take_overwrite ((Nat.le_add_right _ _).trans hfit) _

/-- A byte of the buffer, which is filled if necessary. -/
theorem Holding.readBuffered (h : Holding fd len s a) :
    ∃ t, readBuffered K s = some ((a.getc K fd len).1, t) ∧
      Holding fd len t (a.getc K fd len).2 := by
  have hlength := h.length_unread
  unfold Stdio.readBuffered
  rcases hunread : a.unread with _ | ⟨b, rest⟩
  · rw [hunread, List.length_nil] at hlength
    rw [if_pos (by omega)]
    rcases h.fillBuffer (K := K) hunread with ⟨t, hfill, hgetc, ht⟩ | ⟨b, rest, t, hfill, hgetc, ht⟩
    · rw [hfill, hgetc]
      exact ⟨t, if_pos rfl, ht⟩
    · obtain ⟨u, htake, hu⟩ := ht.takeByte rfl
      rw [hfill, hgetc]
      exact ⟨u, htake, hu⟩
  · rw [hunread, List.length_cons] at hlength
    have hgetc : a.getc K fd len = ((b.toNat : ℤ), { a with unread := rest }) := by
      unfold Input.getc
      rw [hunread]
    rw [if_neg (by omega), hgetc]
    exact h.takeByte hunread

theorem Holding.turn (h : Holding fd len s a) {direction : Bool} (hdirection : direction = false)
    (eof : Bool) : Holding fd len { s with stream := { s.stream with
      flagDirectionWrite := direction, flagDirectionRead := true, flagEof := eof } } a :=
  ⟨h.set, h.buffered, hdirection, h.readable,
    ⟨h.bounds.write_le, h.bounds.offset_le, h.bounds.read_le⟩, h.fd_eq, h.size_eq, h.unread_eq,
    h.world_eq⟩

theorem Holding.flushWrite (h : Holding fd len s a) : fflushWriteUnlocked K s = (0, s) :=
  if_pos h.notWriting

theorem Holding.fgetc (h : Holding fd len s a) :
    ∃ t, fgetcUnlocked K s = some ((a.getc K fd len).1, t) ∧
      Holding fd len t (a.getc K fd len).2 := by
  unfold fgetcUnlocked
  simp only [h.ensure, zero_ne_EOF, if_false, h.buffered]
  rw [ite_fflushWriteUnlocked, h.flushWrite]
  simp only [zero_ne_EOF, if_false]
  exact (h.turn rfl s.stream.flagEof).readBuffered

/-- The loop of `fread` is the loop of the stack machine. -/
theorem Holding.freadLoop (h : Holding fd len s a) {size nmemb left : ℕ} (hsize : 0 < size)
    {bytes : List UInt8} (htotal : bytes.length + left = size * nmemb) :
    ∃ t, freadLoop K size nmemb left bytes s =
        some ((a.getBytes K fd len left bytes).1.length / size,
          (a.getBytes K fd len left bytes).1, t) ∧
      Holding fd len t (a.getBytes K fd len left bytes).2 := by
  induction left generalizing bytes s a with
  | zero =>
    rw [Nat.add_zero] at htotal
    refine ⟨s, ?_, h⟩
    show some (nmemb, bytes, s) = some (bytes.length / size, bytes, s)
    rw [htotal, Nat.mul_div_cancel_left nmemb hsize]
  | succ left ih =>
    obtain ⟨t, hgetc, ht⟩ := h.fgetc (K := K)
    unfold Stdio.freadLoop Input.getBytes
    simp only [hgetc]
    by_cases hend : (a.getc K fd len).1 = EOF
    · rw [if_pos hend, if_pos hend]
      exact ⟨t, rfl, ht⟩
    · rw [if_neg hend, if_neg hend]
      apply ih ht
      rw [List.length_append, List.length_singleton]
      omega

theorem Holding.putBack (h : Holding fd len s a)
    (hoffset : s.stream.bufferedBytesReadOffset ≠ 0) (b : UInt8) :
    ∃ t, putBack b s = some ((b.toNat : ℤ), t) ∧
      Holding fd len t { a with unread := b :: a.unread } := by
  have hle := h.bounds.offset_le
  have hread := h.bounds.read_le
  have hunread := FILE.unread_putBack h.bounds hoffset b
  rw [h.unread_eq] at hunread
  have hlength : (s.stream.buffer.set (s.stream.bufferedBytesReadOffset - 1) b).length =
      s.stream.buffer.length := List.length_set
  refine ⟨_, if_pos (by omega), h.set, h.buffered, h.notWriting, h.readable, ⟨?_, ?_, ?_⟩,
    h.fd_eq, hlength.trans h.size_eq, hunread, h.world_eq⟩
  · exact h.bounds.write_le.trans hlength.ge
  · exact (Nat.sub_le _ _).trans hle
  · exact hread.trans hlength.ge

/-- Moving the waiting bytes to the end of the buffer changes nothing. -/
theorem Holding.shiftRight (h : Holding fd len s a)
    (hoffset : s.stream.bufferedBytesReadOffset = 0) :
    Holding fd len { s with stream := shiftRight s.stream } a := by
  have hlength : (Stdio.shiftRight s.stream).buffer.length = s.stream.buffer.length :=
    length_shiftRight h.bounds
  exact ⟨h.set, h.buffered, h.notWriting, h.readable, h.bounds.shiftRight, h.fd_eq,
    hlength.trans h.size_eq, (FILE.unread_shiftRight h.bounds hoffset).trans h.unread_eq,
    h.world_eq⟩

/-- A byte is refused only where the buffer is full of waiting ones. -/
theorem Holding.unreadBuffered (h : Holding fd len s a) (b : UInt8) :
    if a.unread.length = len then unreadBuffered b s = some (EOF, s)
    else ∃ t, unreadBuffered b s = some ((b.toNat : ℤ), t) ∧
      Holding fd len t { a with unread := b :: a.unread } := by
  have hlength := h.length_unread
  have hle := h.bounds.offset_le
  have hread := h.bounds.read_le
  have hsize := h.size_eq
  unfold Stdio.unreadBuffered
  by_cases hoffset : s.stream.bufferedBytesReadOffset = 0
  · rw [if_pos hoffset]
    by_cases hfull : a.unread.length = len
    · rw [if_pos hfull, if_pos (by omega)]
    · rw [if_neg hfull, if_neg (by omega)]
      apply (h.shiftRight hoffset).putBack
      show s.stream.bufferSize -
        (s.stream.bufferedBytesRead - s.stream.bufferedBytesReadOffset) ≠ 0
      omega
  · rw [if_neg hoffset, if_neg (by omega)]
    exact h.putBack hoffset b

theorem Holding.ungetc (h : Holding fd len s a) (c : ℤ) :
    ∃ t, fungetcUnlocked K c s = some ((a.ungetc len c).1, t) ∧
      Holding fd len t (a.ungetc len c).2 := by
  have hturned := h.turn h.notWriting false
  unfold fungetcUnlocked Input.ungetc
  simp only [h.ensure, zero_ne_EOF, if_false, h.buffered]
  rw [ite_fflushWriteUnlocked, h.flushWrite]
  simp only [zero_ne_EOF, if_false]
  by_cases hc : c = EOF
  · rw [if_pos hc, if_pos (Or.inl hc)]
    exact ⟨_, rfl, hturned⟩
  · have hunread := hturned.unreadBuffered (toByte c)
    rw [if_neg hc]
    by_cases hfull : a.unread.length = len
    · rw [if_pos hfull] at hunread
      rw [if_pos (Or.inr hfull)]
      exact ⟨_, hunread, hturned⟩
    · rw [if_neg hfull] at hunread
      rw [if_neg (not_or.2 ⟨hc, hfull⟩)]
      exact hunread

/-- Every operation that takes input is the one of the stack machine. -/
theorem Holding.exec (h : Holding fd len s a) {op : Op} (hop : op.TakesInput) :
    ∃ t, op.exec K s = some ((a.exec K fd len op).1, t) ∧
      Holding fd len t (a.exec K fd len op).2 := by
  cases op with
  | fgetc =>
    obtain ⟨t, hgetc, ht⟩ := h.fgetc (K := K)
    exact ⟨t, by simp [Op.exec, hgetc, Input.exec], ht⟩
  | ungetc c =>
    obtain ⟨t, hungetc, ht⟩ := h.ungetc (K := K) c
    exact ⟨t, by simp [Op.exec, hungetc, Input.exec], ht⟩
  | fread size nmemb =>
    unfold Op.exec Input.exec freadUnlocked
    dsimp only
    by_cases hzero : size = 0 ∨ nmemb = 0
    · rw [if_pos hzero, if_pos hzero]
      exact ⟨s, rfl, h⟩
    · have htotal : ([] : List UInt8).length + size * nmemb = size * nmemb := Nat.zero_add _
      obtain ⟨t, hloop, ht⟩ := h.freadLoop (K := K) (by omega) htotal
      rw [if_neg hzero, if_neg hzero, if_neg (by simp [h.readable])]
      simp only [h.ensure, zero_ne_EOF, if_false, h.buffered]
      rw [hloop]
      exact ⟨t, rfl, ht⟩
  | _ => exact absurd hop id

end Holding

section Runs

variable {K : Kernel W} {fd : ℤ} {len : ℕ} {s : State W} {a : Input W}

/-- The stream holds the input once it has been given a buffer. -/
def Continues (K : Kernel W) (fd : ℤ) (len : ℕ) (s : State W) (a : Input W) : Prop :=
  ∃ t, ensureBuffer K s = (0, t) ∧ Holding fd len t a

theorem Holding.continues (h : Holding fd len s a) : Continues K fd len s a := ⟨s, h.ensure, h⟩

/-- Every call but an empty request begins with the buffer check. -/
theorem exec_ensured {t : State W} (hensure : ensureBuffer K s = (0, t))
    (hset : t.stream.flagBufferSet = true) (hs : s.stream.mode.read = true)
    (ht : t.stream.mode.read = true) {op : Op} (hop : op.TakesInput) :
    op.exec K s = op.exec K t ∨ ∃ size nmemb, op = .fread size nmemb ∧ (size = 0 ∨ nmemb = 0) := by
  have hagain : ensureBuffer K t = (0, t) := if_pos hset
  cases op with
  | fgetc =>
    left
    unfold Op.exec fgetcUnlocked
    rw [hensure, hagain]
  | ungetc c =>
    left
    unfold Op.exec fungetcUnlocked
    rw [hensure, hagain]
  | fread size nmemb =>
    by_cases hzero : size = 0 ∨ nmemb = 0
    · exact Or.inr ⟨size, nmemb, rfl, hzero⟩
    · left
      unfold Op.exec freadUnlocked
      dsimp only
      rw [hensure, hagain, hs, ht, if_neg hzero, if_neg hzero]
      rfl
  | _ => exact absurd hop id

/-- Without a buffer every call fails, but for an empty request. -/
theorem exec_denied {w : W} (hensure : ensureBuffer K s = (EOF, { s with world := w }))
    (hs : s.stream.mode.read = true) {op : Op} (hop : op.TakesInput) :
    ∃ ret t, op.exec K s = some (ret, t) ∧ t.stream = s.stream := by
  cases op with
  | fgetc =>
    unfold Op.exec fgetcUnlocked
    rw [hensure]
    exact ⟨_, _, rfl, rfl⟩
  | ungetc c =>
    unfold Op.exec fungetcUnlocked
    rw [hensure]
    exact ⟨_, _, rfl, rfl⟩
  | fread size nmemb =>
    unfold Op.exec freadUnlocked
    dsimp only
    rw [hensure, hs]
    by_cases hzero : size = 0 ∨ nmemb = 0
    · rw [if_pos hzero]
      exact ⟨_, _, rfl, rfl⟩
    · rw [if_neg hzero]
      exact ⟨_, _, rfl, rfl⟩
  | _ => exact absurd hop id

theorem Input.exec_nothing {size nmemb : ℕ} (hzero : size = 0 ∨ nmemb = 0) :
    a.exec K fd len (.fread size nmemb) = (⟨0, []⟩, a) := if_pos hzero

theorem Continues.exec (h : Continues K fd len s a) (hs : s.stream.mode.read = true) {op : Op}
    (hop : op.TakesInput) :
    ∃ t, op.exec K s = some ((a.exec K fd len op).1, t) ∧ t.stream.mode.read = true ∧
      Continues K fd len t (a.exec K fd len op).2 := by
  obtain ⟨u, hensure, hu⟩ := h
  rcases exec_ensured hensure hu.set hs hu.readable hop with heq | ⟨size, nmemb, rfl, hzero⟩
  · obtain ⟨t, hexec, ht⟩ := hu.exec (K := K) hop
    exact ⟨t, heq.trans hexec, ht.readable, ht.continues⟩
  · rw [Input.exec_nothing hzero]
    exact ⟨s, Op.exec_nothing hzero, hs, u, hensure, hu⟩

/-- A run answers as the stack machine does. -/
theorem Continues.answers (h : Continues K fd len s a) (hs : s.stream.mode.read = true)
    {ops : List Op} (hops : ∀ op ∈ ops, op.TakesInput) :
    answers (Op.exec K) ops s = some (predictions (Input.exec K fd len) ops a) := by
  have hfollows : Follows (Op.exec K) (fun _ op a => a.exec K fd len op) (fun _ a b => a = b)
      (fun _ _ => True) ops s a := by
    apply Guarded.follows (R := fun s a => s.stream.mode.read = true ∧ Continues K fd len s a)
      (G := fun _ op => op.TakesInput)
    · rintro s op a ⟨hread, hs⟩ hop
      obtain ⟨t, hexec, ht⟩ := hs.exec hread hop
      exact ⟨_, t, hexec, rfl, ht⟩
    · exact fun _ _ _ => trivial
    · exact ⟨hs, h⟩
    · exact Guarded.of_forall hops s
  exact hfollows.answers_eq

end Runs

section Stack

variable {K : Kernel W} {s t : State W}

/-- A stream opened for reading that has not been used; `setvbuf` may have given it
a buffer, of any size. -/
structure FILE.OpenedToRead (f : FILE) : Prop where
  notWriting : f.flagDirectionWrite = false
  readable : f.mode.read = true
  write_zero : f.bufferedBytesWrite = 0
  read_zero : f.bufferedBytesRead = 0
  offset_zero : f.bufferedBytesReadOffset = 0
  buffered : f.flagBufferSet = true → f.bufferMode ≠ .ionbf
  unset : f.flagBufferSet = false → f.buffer = []

/-- A buffered stream that may be read from, after any reads and push-backs. -/
def ReachedByInput (K : Kernel W) (s : State W) : Prop :=
  ∃ (s₀ : State W) (ops : List Op), s₀.stream.OpenedToRead ∧ (∀ op ∈ ops, op.TakesInput) ∧
    ops.foldlM (step K) s₀ = some s

/-- It has its buffer, or none yet. -/
def TakingInput (s : State W) : Prop :=
  (∃ fd len a, Holding fd len s a) ∨ s.stream.flagBufferSet = false ∧ s.stream.OpenedToRead

theorem FILE.OpenedToRead.unread_eq {f : FILE} (h : f.OpenedToRead) : f.unread = [] := by
  unfold FILE.unread
  rw [h.read_zero, List.take_zero, List.drop_nil]

theorem FILE.OpenedToRead.takingInput (h : s.stream.OpenedToRead) : TakingInput s := by
  cases hset : s.stream.flagBufferSet with
  | false => exact Or.inr ⟨hset, h⟩
  | true =>
    refine Or.inl ⟨_, _, ⟨[], s.world⟩, hset, h.buffered hset, h.notWriting, h.readable,
      ⟨?_, ?_, ?_⟩, rfl, rfl, h.unread_eq, rfl⟩
    · exact h.write_zero ▸ Nat.zero_le _
    · exact h.offset_zero ▸ Nat.zero_le _
    · exact h.read_zero ▸ Nat.zero_le _

theorem FILE.OpenedToRead.attached (h : s.stream.OpenedToRead) (address : ℕ)
    {memory : List UInt8} (hlen : memory.length = BUFSIZ) (w : W) :
    Holding s.stream.fileDescriptor BUFSIZ
      ⟨attachBuffer address memory .iofbf true s.stream, w⟩ ⟨[], w⟩ := by
  refine ⟨rfl, ?_, h.notWriting, h.readable, ⟨Nat.zero_le _, Nat.zero_le _, Nat.zero_le _⟩, rfl,
    hlen, rfl, rfl⟩
  show BufferMode.iofbf ≠ .ionbf
  decide

/-- Every call returns, and the stream goes on taking input. -/
theorem TakingInput.exec (h : TakingInput s) {op : Op} (hop : op.TakesInput) :
    ∃ ret t, op.exec K s = some (ret, t) ∧ TakingInput t := by
  rcases h with ⟨fd, len, a, h⟩ | ⟨hunset, h⟩
  · obtain ⟨t, hexec, ht⟩ := h.exec (K := K) hop
    exact ⟨_, t, hexec, Or.inl ⟨fd, len, _, ht⟩⟩
  · rcases ensureBuffer_cases K s with
      ⟨hset, _⟩ | ⟨_, w, hensure⟩ | ⟨_, address, memory, w, hlen, hensure⟩
    · exact absurd hset (by simp [hunset])
    · obtain ⟨ret, t, hexec, ht⟩ := exec_denied hensure h.readable hop
      exact ⟨ret, t, hexec, Or.inr (ht ▸ ⟨hunset, h⟩)⟩
    · have hu := h.attached address hlen w
      rcases exec_ensured hensure rfl h.readable h.readable hop with heq | ⟨size, nmemb, rfl, hzero⟩
      · obtain ⟨t, hexec, ht⟩ := hu.exec (K := K) hop
        exact ⟨_, t, heq.trans hexec, Or.inl ⟨_, _, _, ht⟩⟩
      · exact ⟨_, s, Op.exec_nothing hzero, Or.inr ⟨hunset, h⟩⟩

theorem ReachedByInput.takingInput (h : ReachedByInput K s) : TakingInput s := by
  obtain ⟨s₀, ops, hopened, hops, hrun⟩ := h
  have hguarded : Guarded (step K) (fun _ op => op.TakesInput) ops s₀ := Guarded.of_forall hops s₀
  have halong : Along (step K) TakingInput ops s₀ := by
    apply hguarded.along _ hopened.takingInput
    intro s op hs hop
    obtain ⟨ret, t, hexec, ht⟩ := hs.exec (K := K) hop
    exact ⟨t, by rw [step, hexec]; rfl, ht⟩
  obtain ⟨t, hfold, ht⟩ := halong.foldlM
  obtain rfl := Option.some.inj (hrun.symm.trans hfold)
  exact ht

/-- Pushing the bytes back one after the other, each with success. -/
def pushedBack (K : Kernel W) : List UInt8 → State W → Option (State W)
  | [], s => some s
  | b :: bytes, s =>
      match fungetcUnlocked K b.toNat s with
      | none => none
      | some (r, s) => if r = EOF then none else pushedBack K bytes s

theorem Continues.ungetc {fd : ℤ} {len : ℕ} {a : Input W} (h : Continues K fd len s a) (c : ℤ) :
    ∃ t, fungetcUnlocked K c s = some ((a.ungetc len c).1, t) ∧
      Holding fd len t (a.ungetc len c).2 := by
  obtain ⟨u, hensure, hu⟩ := h
  have heq : fungetcUnlocked K c s = fungetcUnlocked K c u := by
    unfold fungetcUnlocked
    rw [hensure, hu.ensure]
  rw [heq]
  exact hu.ungetc c

/-- Bytes pushed back wait in front of the others, the last one first. -/
theorem Continues.pushedBack {fd : ℤ} {len : ℕ} {a : Input W} (h : Continues K fd len s a)
    (hs : s.stream.mode.read = true) {bytes : List UInt8} (heq : pushedBack K bytes s = some t) :
    t.stream.mode.read = true ∧
      Continues K fd len t { a with unread := bytes.reverse ++ a.unread } := by
  induction bytes generalizing s a with
  | nil =>
    obtain rfl := Option.some.inj heq
    exact ⟨hs, h⟩
  | cons b bytes ih =>
    unfold Stdio.pushedBack at heq
    obtain ⟨u, hungetc, hu⟩ := h.ungetc b.toNat
    simp only [hungetc] at heq
    by_cases hfull : a.unread.length = len
    · rw [Input.ungetc_full hfull, if_pos rfl] at heq
      cases heq
    · rw [Input.ungetc_free hfull] at hu heq
      rw [if_neg (toNat_ne_EOF b)] at heq
      obtain ⟨hread, ht⟩ := ih hu.continues hu.readable heq
      refine ⟨hread, ?_⟩
      rw [List.reverse_cons, List.append_assoc]
      exact ht

theorem TakingInput.readable (h : TakingInput s) : s.stream.mode.read = true := by
  rcases h with ⟨_, _, _, h⟩ | ⟨_, h⟩
  · exact h.readable
  · exact h.readable

/-- Every run of reads and push-backs is defined. -/
theorem TakingInput.answers (h : TakingInput s) {ops : List Op}
    (hops : ∀ op ∈ ops, op.TakesInput) : ∃ rets, answers (Op.exec K) ops s = some rets := by
  induction ops generalizing s with
  | nil => exact ⟨[], rfl⟩
  | cons op ops ih =>
    obtain ⟨ret, t, hexec, ht⟩ := h.exec (K := K) (hops op List.mem_cons_self)
    obtain ⟨rets, hrets⟩ := ih ht fun o ho => hops o (List.mem_cons_of_mem op ho)
    refine ⟨ret :: rets, ?_⟩
    unfold Runs.answers
    rw [hexec]
    dsimp only
    rw [hrets]
    rfl

/-- The stream has its buffer or gets one, or there is none to be had. -/
theorem TakingInput.continues (h : TakingInput s) :
    (∃ fd len a, Continues K fd len s a) ∨
      s.stream.OpenedToRead ∧ ∃ w, ensureBuffer K s = (EOF, { s with world := w }) := by
  rcases h with ⟨fd, len, a, h⟩ | ⟨hunset, h⟩
  · exact Or.inl ⟨fd, len, a, h.continues⟩
  · rcases ensureBuffer_cases K s with
      ⟨hset, _⟩ | ⟨_, w, hensure⟩ | ⟨_, address, memory, w, hlen, hensure⟩
    · exact absurd hset (by simp [hunset])
    · exact Or.inr ⟨h, w, hensure⟩
    · exact Or.inl ⟨_, _, _, _, hensure, h.attached address hlen w⟩

/-- What `ungetc` answers, and what it leaves alone where it fails. -/
theorem TakingInput.ungetc (h : TakingInput s) (b : UInt8) :
    ∃ r t, fungetcUnlocked K b.toNat s = some (r, t) ∧ (r = EOF →
      s.stream.unread.length = s.stream.bufferSize ∧ t.stream.unread = s.stream.unread) := by
  rcases h with ⟨fd, len, a, h⟩ | ⟨hunset, h⟩
  · obtain ⟨t, hungetc, ht⟩ := h.ungetc (K := K) b.toNat
    refine ⟨_, t, hungetc, fun hr => ?_⟩
    by_cases hfull : a.unread.length = len
    · rw [Input.ungetc_full hfull] at ht
      rw [ht.unread_eq, h.unread_eq, h.size_eq]
      exact ⟨hfull, rfl⟩
    · rw [Input.ungetc_free hfull] at hr
      exact absurd hr (toNat_ne_EOF b)
  · rcases ensureBuffer_cases K s with
      ⟨hset, _⟩ | ⟨_, w, hensure⟩ | ⟨_, address, memory, w, hlen, hensure⟩
    · exact absurd hset (by simp [hunset])
    · refine ⟨EOF, { s with world := w }, ?_, fun _ => ⟨?_, rfl⟩⟩
      · unfold fungetcUnlocked
        rw [hensure]
        rfl
      · rw [h.unread_eq, FILE.bufferSize, h.unset hunset]
    · have hcontinues : Continues K s.stream.fileDescriptor BUFSIZ s ⟨[], w⟩ :=
        ⟨_, hensure, h.attached address hlen w⟩
      obtain ⟨t, hungetc, _⟩ := hcontinues.ungetc b.toNat
      have hfree : ([] : List UInt8).length ≠ BUFSIZ := by decide
      rw [Input.ungetc_free hfree] at hungetc
      exact ⟨_, t, hungetc, fun hr => absurd hr (toNat_ne_EOF b)⟩

/-- Pushing back is a stack, on every buffered stream that has only been read from
and pushed back to: what went on last comes off first, then everything goes on
as if nothing had been pushed, and only a buffer full of unread bytes refuses
another one. -/
theorem push_back_stack (K : Kernel W) (s : State W) (hs : ReachedByInput K s) :
    (∀ bytes t, pushedBack K bytes s = some t → ∀ ops, (∀ op ∈ ops, op.TakesInput) →
      ∃ rets, answers (Op.exec K) ops s = some rets ∧
        answers (Op.exec K) (List.replicate bytes.length .fgetc ++ ops) t =
          some (bytes.reverse.map (fun b => ⟨b.toNat, []⟩) ++ rets)) ∧
    ∀ b : UInt8, ∃ r t, fungetcUnlocked K b.toNat s = some (r, t) ∧ (r = EOF →
      s.stream.unread.length = s.stream.bufferSize ∧ t.stream.unread = s.stream.unread) := by
  have htaking := hs.takingInput
  refine ⟨fun bytes t heq ops hops => ?_, fun b => htaking.ungetc b⟩
  rcases htaking.continues (K := K) with ⟨fd, len, a, hcontinues⟩ | ⟨_, w, hensure⟩
  · obtain ⟨hread, ht⟩ := hcontinues.pushedBack htaking.readable heq
    have hall : ∀ op ∈ List.replicate bytes.length .fgetc ++ ops, Op.TakesInput op := by
      intro op hop
      rcases List.mem_append.1 hop with hop | hop
      · obtain rfl := List.eq_of_mem_replicate hop
        trivial
      · exact hops op hop
    refine ⟨_, hcontinues.answers htaking.readable hops, ?_⟩
    rw [ht.answers hread hall, ← Input.predictions_fgetc, List.length_reverse]
  · rcases bytes with _ | ⟨b, bytes⟩
    · obtain rfl := Option.some.inj heq
      obtain ⟨rets, hrets⟩ := htaking.answers (K := K) hops
      exact ⟨rets, hrets, hrets⟩
    · exfalso
      unfold pushedBack fungetcUnlocked at heq
      rw [hensure] at heq
      simp at heq

theorem openedStream_openedToRead (memory : List UInt8) {bufferMode : BufferMode}
    (hmode : bufferMode ≠ .ionbf) : (openedStream readFlags memory bufferMode).OpenedToRead :=
  ⟨rfl, rfl, rfl, rfl, rfl, fun _ => hmode, fun h => by cases h⟩

/-- After a read one byte of a buffer of two is free in front; the second byte pushed
back moves the first one. -/
theorem push_back_stack_two :
    ∃ s t, ReachedByInput (sourceKernel 0) s ∧ pushedBack (sourceKernel 0) [1, 2] s = some t ∧
      ∃ rets, answers (Op.exec (sourceKernel 0)) [.fread 1 2] s = some rets ∧
        answers (Op.exec (sourceKernel 0)) [.fgetc, .fgetc, .fread 1 2] t =
          some ([⟨2, []⟩, ⟨1, []⟩] ++ rets) := by
  obtain ⟨s, hs⟩ : ∃ s, ([.fgetc] : List Op).foldlM (step (sourceKernel 0))
      ⟨openedStream readFlags [0, 0] .iofbf, [255, 98, 99]⟩ = some s := ⟨_, rfl⟩
  have hreached : ReachedByInput (sourceKernel 0) s :=
    ⟨_, _, openedStream_openedToRead _ (by decide), by simp [Op.TakesInput], hs⟩
  obtain ⟨t, ht⟩ : ∃ t, pushedBack (sourceKernel 0) [1, 2] s = some t := by
    obtain rfl := Option.some.inj hs
    exact ⟨_, rfl⟩
  exact ⟨s, t, hreached, ht,
    (push_back_stack (sourceKernel 0) s hreached).1 [1, 2] t ht [.fread 1 2]
      (by simp [Op.TakesInput])⟩

end Stack

end Heartix.Stdio
