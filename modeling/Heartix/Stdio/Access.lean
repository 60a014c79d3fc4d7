import Heartix.Stdio.Flush
import Mathlib.Data.Vector.Defs

/-!
Reading, writing and pushing back bytes on a stream. An access to the buffer at
an index outside it has no result in C; the operation is then `none` here, so
that a defined result says that every index it used lies inside the buffer.
`fread` and `fwrite` on an unbuffered stream go to the kernel directly, and the
single byte operations use them there.
-/

namespace Heartix.Stdio

open PartialTransfer Overwrite

variable {W : Type}

/-- `(uint8_t) c`. -/
def toByte (c : ℤ) : UInt8 := UInt8.ofInt c

def newline : UInt8 := 10

/-- The loop around `impl_read` in `__fread_unlocked`; `left` is `total - done`.
It returns the bytes it stored to the caller's memory. -/
def readLoop (K : Kernel W) (left : ℕ) (s : State W) : List UInt8 × State W :=
  if _ : left = 0 then ([], s)
  else
    match implRead K left s with
    | (some [], s) => ([], s.setEof)
    | (none, s) => ([], s.setError)
    | (some (b :: bytes), s) =>
        match readLoop K (left - (bytes.length + 1)) s with
        | (more, s) => (b :: bytes ++ more, s)
termination_by left
decreasing_by omega

/-- `__fread_unlocked` from the point on where the stream is known to be
unbuffered. -/
def freadUnbuffered (K : Kernel W) (size nmemb : ℕ) (s : State W) :
    ℕ × List UInt8 × State W :=
  if s.stream.implRead = false then (SIZE_MAX, [], s.setError)
  else
    match readLoop K (size * nmemb)
        { s with stream := { s.stream with flagDirectionRead := true, flagEof := false } } with
    | (bytes, s) => (bytes.length / size, bytes, s)

/-- The refill of an empty read buffer in `__fgetc_unlocked`. -/
def fillBuffer (K : Kernel W) (s : State W) : ℤ × State W :=
  let ungetSpace :=
    if ungetPreservedSpace ≥ s.stream.bufferSize then 0 else ungetPreservedSpace
  match implRead K (s.stream.bufferSize - ungetSpace) s with
  | (some [], s) => (EOF, s.setEof)
  | (none, s) => (EOF, s.setError)
  | (some bytes, s) =>
      (0, { s with stream := { s.stream with
        buffer := overwrite s.stream.buffer ungetSpace bytes
        bufferedBytesRead := ungetSpace + bytes.length
        bufferedBytesReadOffset := ungetSpace } })

/-- `return stream->buffer[stream->buffered_bytes_read_offset++]`. -/
def takeByte (s : State W) : Option (ℤ × State W) :=
  match s.stream.buffer[s.stream.bufferedBytesReadOffset]? with
  | none => none
  | some b =>
      some (b.toNat, { s with stream := { s.stream with
        bufferedBytesReadOffset := s.stream.bufferedBytesReadOffset + 1 } })

/-- The end of `__fgetc_unlocked`: a byte of the buffer, filled if necessary. -/
def readBuffered (K : Kernel W) (s : State W) : Option (ℤ × State W) :=
  if s.stream.bufferedBytesReadOffset ≥ s.stream.bufferedBytesRead then
    match fillBuffer K s with
    | (r, s) => if r = EOF then some (EOF, s) else takeByte s
  else takeByte s

/-- `__fgetc_unlocked`. -/
def fgetcUnlocked (K : Kernel W) (s : State W) : Option (ℤ × State W) :=
  match ensureBuffer K s with
  | (r, s) =>
    if r = EOF then some (EOF, s)
    else if s.stream.bufferMode = .ionbf then
      if s.stream.mode.read = false then some (EOF, s.setError)
      else match freadUnbuffered K 1 1 s with
        | (n, bytes, s) =>
            if n ≠ 1 then some (EOF, s)
            else match bytes with
              | [] => none
              | b :: _ => some (b.toNat, s)
    else match (if s.stream.flagDirectionWrite = true then fflushWriteUnlocked K s
                else (0, s)) with
      | (r, s) =>
        if r = EOF then some (EOF, s)
        else readBuffered K { s with stream := { s.stream with
          flagDirectionWrite := false, flagDirectionRead := true } }

/-- The two loops over elements and their bytes in the buffered part of
`__fread_unlocked`. With `bytes` stored so far, the next one is byte
`bytes.length % size` of element `bytes.length / size`. -/
def freadLoop (K : Kernel W) (size nmemb : ℕ) :
    (left : ℕ) → (bytes : List UInt8) → State W → Option (ℕ × List UInt8 × State W)
  | 0, bytes, s => some (nmemb, bytes, s)
  | left + 1, bytes, s =>
      match fgetcUnlocked K s with
      | none => none
      | some (c, s) =>
          if c = EOF then some (bytes.length / size, bytes, s)
          else freadLoop K size nmemb left (bytes ++ [toByte c]) s

/-- `__fread_unlocked`: the element count and the bytes stored to `ptr`. -/
def freadUnlocked (K : Kernel W) (size nmemb : ℕ) (s : State W) :
    Option (ℕ × List UInt8 × State W) :=
  if size = 0 ∨ nmemb = 0 then some (0, [], s)
  else if s.stream.mode.read = false then some (SIZE_MAX, [], s.setError)
  else
    match ensureBuffer K s with
    | (r, s) =>
      if r = EOF then some (SIZE_MAX, [], s)
      else if s.stream.bufferMode = .ionbf then some (freadUnbuffered K size nmemb s)
      else freadLoop K size nmemb (size * nmemb) [] s

/-- `__fwrite_unlocked` from the point on where the stream is known to be
unbuffered; `ptr` is the memory of the `nmemb` elements. -/
def fwriteUnbuffered (K : Kernel W) (ptr : List UInt8) (size : ℕ) (s : State W) :
    ℕ × State W :=
  if s.stream.implWrite = false then (SIZE_MAX, s.setError)
  else
    match writeLoop K 0 ptr
        { s with stream := { s.stream with flagDirectionWrite := true, flagEof := false } } with
    | (r, _, s) => if r = EOF then (SIZE_MAX, s) else (ptr.length / size, s)

/-- The two flushes of `__fputc_unlocked` before a byte is stored. -/
def makeRoom (K : Kernel W) (s : State W) : ℤ × State W :=
  match (if s.stream.flagDirectionRead = true then fflushReadUnlocked K s else (0, s)) with
  | (r, s) =>
      if r = EOF then (EOF, s)
      else if s.stream.bufferedBytesWrite = s.stream.bufferSize then
        match fflushWriteUnlocked K s with
        | (r, s) => if r = EOF then (EOF, s) else (0, s)
      else (0, s)

/-- Setting the direction and `stream->buffer[stream->buffered_bytes_write++] = c8`. -/
def storeByte (c8 : UInt8) (s : State W) : Option (State W) :=
  if s.stream.bufferedBytesWrite < s.stream.bufferSize then
    some { s with stream := { s.stream with
      flagDirectionRead := false
      flagDirectionWrite := true
      buffer := s.stream.buffer.set s.stream.bufferedBytesWrite c8
      bufferedBytesWrite := s.stream.bufferedBytesWrite + 1
      stored := s.stream.stored ++ [c8] } }
  else none

/-- `__fputc_unlocked`. -/
def fputcUnlocked (K : Kernel W) (c : ℤ) (s : State W) : Option (ℤ × State W) :=
  let c8 := toByte c
  match ensureBuffer K s with
  | (r, s) =>
    if r = EOF then some (EOF, s)
    else if s.stream.bufferMode = .ionbf then
      if s.stream.mode.write = false then some (EOF, s.setError)
      else match fwriteUnbuffered K [c8] 1 s with
        | (n, s) => if n ≠ 1 then some (EOF, s) else some (c8.toNat, s)
    else match makeRoom K s with
      | (r, s) =>
        if r = EOF then some (EOF, s)
        else match storeByte c8 s with
          | none => none
          | some s =>
            if s.stream.bufferMode = .iolbf ∧ c8 = newline then
              match fflushWriteUnlocked K s with
              | (r, s) => if r = EOF then some (EOF, s) else some (c8.toNat, s)
            else some (c8.toNat, s)

/-- The two loops over elements and their bytes in the buffered part of
`__fwrite_unlocked`; byte `done % size` of element `done / size` comes next. -/
def fwriteLoop (K : Kernel W) (size nmemb : ℕ) :
    (done : ℕ) → List UInt8 → State W → Option (ℕ × State W)
  | _, [], s => some (nmemb, s)
  | done, b :: ptr, s =>
      match fputcUnlocked K b.toNat s with
      | none => none
      | some (r, s) =>
          if r = EOF then some (done / size, s) else fwriteLoop K size nmemb (done + 1) ptr s

/-- `__fwrite_unlocked`. -/
def fwriteUnlocked (K : Kernel W) (ptr : List UInt8) (size nmemb : ℕ) (s : State W) :
    Option (ℕ × State W) :=
  if size = 0 ∨ nmemb = 0 then some (0, s)
  else if s.stream.mode.write = false then some (SIZE_MAX, s.setError)
  else
    match ensureBuffer K s with
    | (r, s) =>
      if r = EOF then some (SIZE_MAX, s)
      else if s.stream.bufferMode = .ionbf then some (fwriteUnbuffered K ptr size s)
      else fwriteLoop K size nmemb 0 ptr s

/-- `memmove` to the right end of the buffer, to make room at its left end. -/
def shiftRight (f : FILE) : FILE :=
  let bufferedBytes := f.bufferedBytesRead - f.bufferedBytesReadOffset
  let bufferSpace := f.bufferSize - bufferedBytes
  { f with
    buffer := overwrite f.buffer bufferSpace (f.buffer.take bufferedBytes)
    bufferedBytesReadOffset := bufferSpace
    bufferedBytesRead := bufferSpace + bufferedBytes }

/-- `stream->buffer[--stream->buffered_bytes_read_offset] = c8`. -/
def putBack (c8 : UInt8) (s : State W) : Option (ℤ × State W) :=
  let offset := s.stream.bufferedBytesReadOffset - 1
  if offset < s.stream.bufferSize then
    some (c8.toNat, { s with stream := { s.stream with
      bufferedBytesReadOffset := offset
      buffer := s.stream.buffer.set offset c8 } })
  else none

/-- The end of `__fungetc_unlocked`: buffered bytes move if none is free before
them, which fails on a buffer full of unread bytes. -/
def unreadBuffered (c8 : UInt8) (s : State W) : Option (ℤ × State W) :=
  if s.stream.bufferedBytesReadOffset = 0 then
    if s.stream.bufferSize -
        (s.stream.bufferedBytesRead - s.stream.bufferedBytesReadOffset) = 0 then
      some (EOF, s)
    else putBack c8 { s with stream := shiftRight s.stream }
  else putBack c8 s

/-- `__fungetc_unlocked`. -/
def fungetcUnlocked (K : Kernel W) (c : ℤ) (s : State W) : Option (ℤ × State W) :=
  match ensureBuffer K s with
  | (r, s) =>
    if r = EOF then some (EOF, s)
    else if s.stream.bufferMode = .ionbf then some (EOF, s.setError)
    else match (if s.stream.flagDirectionWrite = true then fflushWriteUnlocked K s
                else (0, s)) with
      | (r, s) =>
        if r = EOF then some (EOF, s)
        else
          let s : State W := { s with stream := { s.stream with
            flagDirectionRead := true, flagEof := false } }
          if c = EOF then some (EOF, s) else unreadBuffered (toByte c) s

/-- The operations on an open stream; the memory passed to `fwrite` holds
`nmemb` elements of `size` bytes. -/
inductive Op
  | fgetc
  | fread (size nmemb : ℕ)
  | ungetc (c : ℤ)
  | fputc (c : ℤ)
  | fwrite (size nmemb : ℕ) (ptr : Vector UInt8 (size * nmemb))
  | fflush

/-- The value an operation returns and the bytes it stores to the caller. -/
structure Ret where
  value : ℤ
  bytes : List UInt8
  deriving DecidableEq, Repr

/-- One call of the public function. -/
def Op.exec (K : Kernel W) (s : State W) : Op → Option (Ret × State W)
  | .fgetc => (fgetcUnlocked K s).map fun (c, s) => (⟨c, []⟩, s)
  | .fread size nmemb =>
      (freadUnlocked K size nmemb s).map fun (n, bytes, s) => (⟨n, bytes⟩, s)
  | .ungetc c => (fungetcUnlocked K c s).map fun (r, s) => (⟨r, []⟩, s)
  | .fputc c => (fputcUnlocked K c s).map fun (r, s) => (⟨r, []⟩, s)
  | .fwrite size nmemb ptr =>
      (fwriteUnlocked K ptr.toList size nmemb s).map fun (n, s) => (⟨n, []⟩, s)
  | .fflush =>
      match fflushUnlocked K s with
      | (r, s) => some (⟨r, []⟩, s)

def step (K : Kernel W) (s : State W) (op : Op) : Option (State W) :=
  (op.exec K s).map Prod.snd

/-- The ways through `makeRoom`, by the flushes that are called. -/
inductive MakingRoom (K : Kernel W) (s : State W) : ℤ → State W → Prop
  | denied {t : State W} (hread : fflushReadUnlocked K s = (EOF, t)) :
      MakingRoom K s EOF t
  | free {t : State W} (hread : fflushReadUnlocked K s = (0, t))
      (hroom : t.stream.bufferedBytesWrite ≠ t.stream.bufferSize) : MakingRoom K s 0 t
  | flushed {r : ℤ} {s₁ t : State W} (hread : fflushReadUnlocked K s = (0, s₁))
      (hfull : s₁.stream.bufferedBytesWrite = s₁.stream.bufferSize)
      (hwrite : fflushWriteUnlocked K s₁ = (r, t)) : MakingRoom K s r t

theorem makeRoom_makingRoom (K : Kernel W) (s : State W) :
    MakingRoom K s (makeRoom K s).1 (makeRoom K s).2 := by
  unfold makeRoom
  rw [ite_fflushReadUnlocked]
  rcases hread : fflushReadUnlocked K s with ⟨r, t⟩
  rcases fflushReadUnlocked_result K hread with rfl | rfl
  · simp only [zero_ne_EOF, if_false]
    by_cases hfull : t.stream.bufferedBytesWrite = t.stream.bufferSize
    · rw [if_pos hfull]
      rcases hwrite : fflushWriteUnlocked K t with ⟨r', u⟩
      rcases fflushWriteUnlocked_result K hwrite with rfl | rfl
      · exact .flushed hread hfull hwrite
      · exact .flushed hread hfull hwrite
    · rw [if_neg hfull]
      exact .free hread hfull
  · exact .denied hread

/-- The ways through `fputc` on a buffered stream. The byte is stored in the
last two; in the last one the newline flush decides about the result. -/
inductive Putting (K : Kernel W) (c8 : UInt8) (s : State W) : ℤ → State W → Prop
  | noBuffer {t : State W} (hensure : ensureBuffer K s = (EOF, t)) : Putting K c8 s EOF t
  | noRoom {s₁ t : State W} (hensure : ensureBuffer K s = (0, s₁))
      (hroom : MakingRoom K s₁ EOF t) : Putting K c8 s EOF t
  | stored {s₁ s₂ t : State W} (hensure : ensureBuffer K s = (0, s₁))
      (hroom : MakingRoom K s₁ 0 s₂) (hstore : storeByte c8 s₂ = some t) :
      Putting K c8 s c8.toNat t
  | flushed {r : ℤ} {s₁ s₂ s₃ t : State W} (hensure : ensureBuffer K s = (0, s₁))
      (hroom : MakingRoom K s₁ 0 s₂) (hstore : storeByte c8 s₂ = some s₃)
      (hflush : fflushWriteUnlocked K s₃ = (r, t)) :
      Putting K c8 s (if r = EOF then EOF else c8.toNat) t

theorem ensureBuffer_result (K : Kernel W) {s t : State W} {r : ℤ}
    (heq : ensureBuffer K s = (r, t)) : r = 0 ∨ r = EOF := by
  rcases ensureBuffer_cases K s with ⟨_, hcase⟩ | ⟨_, _, hcase⟩ | ⟨_, _, _, _, _, hcase⟩
  · exact Or.inl (Prod.mk.inj (heq.symm.trans hcase)).1
  · exact Or.inr (Prod.mk.inj (heq.symm.trans hcase)).1
  · exact Or.inl (Prod.mk.inj (heq.symm.trans hcase)).1

/-- Setting the default buffer makes a stream buffered. -/
theorem ensureBuffer_buffered (K : Kernel W) {s t : State W}
    (hs : s.stream.flagBufferSet = true → s.stream.bufferMode ≠ .ionbf)
    (heq : ensureBuffer K s = (0, t)) : t.stream.bufferMode ≠ .ionbf := by
  rcases ensureBuffer_cases K s with
    ⟨hset, hcase⟩ | ⟨_, _, hcase⟩ | ⟨_, _, _, _, _, hcase⟩
  · obtain ⟨-, rfl⟩ := Prod.mk.inj (hcase.symm.trans heq)
    exact hs hset
  · have hr := (Prod.mk.inj (hcase.symm.trans heq)).1
    exact absurd hr.symm zero_ne_EOF
  · obtain ⟨-, rfl⟩ := Prod.mk.inj (hcase.symm.trans heq)
    simp [attachBuffer]

theorem fputcUnlocked_putting (K : Kernel W) {c : ℤ} {s t : State W} {r : ℤ}
    (hs : s.stream.flagBufferSet = true → s.stream.bufferMode ≠ .ionbf)
    (heq : fputcUnlocked K c s = some (r, t)) : Putting K (toByte c) s r t := by
  unfold fputcUnlocked at heq
  rcases hensure : ensureBuffer K s with ⟨r₁, s₁⟩
  simp only [hensure] at heq
  rcases ensureBuffer_result K hensure with rfl | rfl
  · rw [if_neg zero_ne_EOF, if_neg (ensureBuffer_buffered K hs hensure)] at heq
    have hroom := makeRoom_makingRoom K s₁
    rcases hmake : makeRoom K s₁ with ⟨r₂, s₂⟩
    simp only [hmake] at heq hroom
    by_cases hr₂ : r₂ = EOF
    · rw [if_pos hr₂] at heq
      obtain ⟨rfl, rfl⟩ := Prod.mk.inj (Option.some.inj heq)
      exact .noRoom hensure (hr₂ ▸ hroom)
    · rw [if_neg hr₂] at heq
      have hzero : r₂ = 0 := by
        cases hroom with
        | denied hread => exact absurd rfl hr₂
        | free hread hroom => rfl
        | flushed hread hfull hwrite =>
          exact (fflushWriteUnlocked_result K hwrite).resolve_right hr₂
      subst hzero
      rcases hstore : storeByte (toByte c) s₂ with _ | s₃
      · simp [hstore] at heq
      · simp only [hstore] at heq
        by_cases hline : s₃.stream.bufferMode = .iolbf ∧ toByte c = newline
        · rw [if_pos hline] at heq
          rcases hflush : fflushWriteUnlocked K s₃ with ⟨r₄, s₄⟩
          simp only [hflush] at heq
          have hput := Putting.flushed hensure hroom hstore hflush
          by_cases hr₄ : r₄ = EOF
          · rw [if_pos hr₄] at heq hput
            obtain ⟨rfl, rfl⟩ := Prod.mk.inj (Option.some.inj heq)
            exact hput
          · rw [if_neg hr₄] at heq hput
            obtain ⟨rfl, rfl⟩ := Prod.mk.inj (Option.some.inj heq)
            exact hput
        · rw [if_neg hline] at heq
          obtain ⟨rfl, rfl⟩ := Prod.mk.inj (Option.some.inj heq)
          exact .stored hensure hroom hstore
  · rw [if_pos rfl] at heq
    obtain ⟨rfl, rfl⟩ := Prod.mk.inj (Option.some.inj heq)
    exact .noBuffer hensure

/-- `buffer[e * size + b]` is passed to `fputc` as an int and comes back whole. -/
@[simp] theorem toByte_toNat (b : UInt8) : toByte b.toNat = b := by
  have hlt := b.toNat_lt
  have hmod : ((b.toNat : ℤ) % 2 ^ 8).toNat = b.toNat := by omega
  unfold toByte UInt8.ofInt
  rw [hmod, UInt8.ofNat_toNat]

theorem toNat_ne_EOF (b : UInt8) : (b.toNat : ℤ) ≠ EOF := by
  unfold EOF
  omega

/-- A stored byte is appended to the pending ones. -/
theorem storeByte_pending {s t : State W} {c8 : UInt8} (heq : storeByte c8 s = some t) :
    t.stream.pending = s.stream.pending ++ [c8] := by
  unfold storeByte at heq
  split at heq
  · rename_i hroom
    obtain rfl := Option.some.inj heq
    show (s.stream.buffer.set s.stream.bufferedBytesWrite c8).take
      (s.stream.bufferedBytesWrite + 1) = _
    rw [set_eq_overwrite hroom]
    exact take_overwrite_end (Nat.le_of_lt hroom) [c8]
  · cases heq

end Heartix.Stdio
