import Heartix.Lib.Overwrite
import Heartix.Lib.PartialTransfer
import Mathlib.Data.Int.Basic

/-!
The stream structure of the C library and the functions a stream reaches the
kernel through. Pointers are natural numbers with 0 for NULL, the flag word is
one Boolean a flag, and `buffer` is the memory the buffer pointer addresses, so
`buffer_size` is its length. Acquiring and releasing the mutex around a call
changes no result, so a stream holds its handle only; errno is set and restored
but never tested here and is left out. The last two fields are history: the
bytes ever put into the buffer and the calls of `impl_write`.
-/

namespace Heartix.Stdio

open PartialTransfer

abbrev EOF : ℤ := -1
@[simp] theorem zero_ne_EOF : (0 : ℤ) ≠ EOF := by decide

abbrev SIZE_MAX : ℕ := 2 ^ 64 - 1
abbrev BUFSIZ : ℕ := 0x2000
abbrev BUFSIZMIN : ℕ := 128
abbrev ungetPreservedSpace : ℕ := 4

/-- `zeroed` is the value a cleared structure holds, which names no mode. -/
inductive BufferMode
  | zeroed | iofbf | iolbf | ionbf
  deriving DecidableEq, Repr, Inhabited

inductive Whence
  | seekCur | seekEnd | seekSet
  deriving DecidableEq, Repr

/-- The `G_FILE_FLAG_MODE` range of the flag word. -/
structure ModeFlags where
  read : Bool
  write : Bool
  create : Bool
  truncate : Bool
  append : Bool
  textual : Bool
  binary : Bool
  deriving DecidableEq, Repr, Inhabited

/-- The default value is the structure `calloc` returns. -/
structure FILE where
  fileDescriptor : ℤ
  lock : ℕ
  bufferAddress : ℕ
  buffer : List UInt8
  bufferMode : BufferMode
  bufferedBytesWrite : ℕ
  bufferedBytesRead : ℕ
  bufferedBytesReadOffset : ℕ
  implRead : Bool
  implWrite : Bool
  implSeek : Bool
  implTell : Bool
  implReopen : Bool
  implClearerr : Bool
  mode : ModeFlags
  flagEof : Bool
  flagError : Bool
  flagBufferSet : Bool
  flagDirectionRead : Bool
  flagDirectionWrite : Bool
  flagOwnerLibrary : Bool
  prev : ℕ
  next : ℕ
  stored : List UInt8
  writes : List (Attempt UInt8)
  deriving DecidableEq, Repr, Inhabited

namespace FILE

def bufferSize (f : FILE) : ℕ := f.buffer.length

/-- The bytes `impl_write` has accepted so far. -/
def accepted (f : FILE) : List UInt8 := takenOf f.writes

/-- The bytes waiting in the buffer for a write flush. -/
def pending (f : FILE) : List UInt8 := f.buffer.take f.bufferedBytesWrite

/-- What `memset(stream, 0, sizeof(FILE))` leaves; the history is no part of
the structure in memory and stays. -/
def zeroed (f : FILE) : FILE :=
  { (default : FILE) with stored := f.stored, writes := f.writes }

/-- The assignments of `__fdopen_static`, which replace the whole flag word and
set no `impl_clearerr`. A new history begins. -/
def opened (f : FILE) (fd : ℤ) (lock : ℕ) (mode : ModeFlags) : FILE :=
  { f with
    lock := lock, fileDescriptor := fd, mode := mode
    flagEof := false, flagError := false, flagBufferSet := false
    flagDirectionRead := false, flagDirectionWrite := false, flagOwnerLibrary := false
    bufferMode := .ionbf
    implRead := true, implWrite := true, implSeek := true, implTell := true
    implReopen := true
    stored := [], writes := [] }

end FILE

/-- The kernel as the library sees it. The types say what the calls may answer:
a write accepts at most the bytes it is given and a read delivers at most the
bytes asked for, `none` being the result -1. -/
structure Kernel (W : Type) where
  write : ℤ → (bytes : List UInt8) → W → Option (Fin (bytes.length + 1)) × W
  read : ℤ → (len : ℕ) → W → Option { bytes : List UInt8 // bytes.length ≤ len } × W
  lseek : ℤ → ℤ → Whence → W → ℤ × W
  tell : ℤ → W → ℤ × W
  close : ℤ → W → ℤ × W
  openFile : String → ModeFlags → W → ℤ × W
  malloc : (len : ℕ) → W → Option (ℕ × Vector UInt8 len) × W
  free : ℕ → W → W
  mutexInitialize : W → ℕ × W
  mutexTryAcquire : ℕ → Bool

/-- A kernel that answers the writes from a list, accepting everything once the
list is used up; reads meet the end of the file and all else succeeds. -/
def scriptedKernel : Kernel (List (Option ℕ)) where
  write _ bytes w :=
    match w with
    | [] => (some (Fin.last _), [])
    | none :: w => (none, w)
    | some n :: w =>
        (some ⟨min n bytes.length, Nat.lt_succ_of_le (Nat.min_le_right _ _)⟩, w)
  read _ _ w := (some ⟨[], Nat.zero_le _⟩, w)
  lseek _ _ _ w := (0, w)
  tell _ w := (0, w)
  close _ w := (0, w)
  openFile _ _ w := (3, w)
  malloc len w := (some (4096, Vector.replicate len 0), w)
  free _ w := w
  mutexInitialize w := (1, w)
  mutexTryAcquire _ := true

/-- What an operation on one stream reads and changes. -/
structure State (W : Type) where
  stream : FILE
  world : W

variable {W : Type}

namespace State

def setEof (s : State W) : State W :=
  { s with stream := { s.stream with flagEof := true } }

def setError (s : State W) : State W :=
  { s with stream := { s.stream with flagError := true } }

end State

/-- A call of `stream->impl_write`, entered in the history. -/
def implWrite (K : Kernel W) (done : ℕ) (bytes : List UInt8) (s : State W) :
    Option ℕ × State W :=
  match K.write s.stream.fileDescriptor bytes s.world with
  | (none, w) =>
      (none, ⟨{ s.stream with writes := s.stream.writes ++ [⟨done, []⟩] }, w⟩)
  | (some n, w) =>
      (some n, ⟨{ s.stream with writes := s.stream.writes ++ [⟨done, bytes.take n⟩] }, w⟩)

def implRead (K : Kernel W) (len : ℕ) (s : State W) : Option (List UInt8) × State W :=
  match K.read s.stream.fileDescriptor len s.world with
  | (none, w) => (none, { s with world := w })
  | (some bytes, w) => (some bytes.val, { s with world := w })

/-- `impl_seek` returns an int, so the offset of the kernel is cut to 32 bits. -/
def implSeek (K : Kernel W) (offset : ℤ) (whence : Whence) (s : State W) : ℤ × State W :=
  match K.lseek s.stream.fileDescriptor offset whence s.world with
  | (result, w) => (result.bmod (2 ^ 32), { s with world := w })

def implTell (K : Kernel W) (s : State W) : ℤ × State W :=
  match K.tell s.stream.fileDescriptor s.world with
  | (result, w) => (result, { s with world := w })

def implClose (K : Kernel W) (s : State W) : ℤ × State W :=
  match K.close s.stream.fileDescriptor s.world with
  | (result, w) => (result, { s with world := w })

/-- The field assignments at the end of `__setvbuf_unlocked`. -/
def attachBuffer (address : ℕ) (memory : List UInt8) (mode : BufferMode) (library : Bool)
    (f : FILE) : FILE :=
  { f with
    flagOwnerLibrary := library
    bufferAddress := address
    buffer := memory
    bufferMode := mode
    bufferedBytesRead := 0
    bufferedBytesReadOffset := 0
    bufferedBytesWrite := 0
    flagBufferSet := true }

/-- Freeing the old buffer at the start of `__setvbuf_unlocked`. -/
def releaseBuffer (K : Kernel W) (s : State W) : State W :=
  if s.stream.bufferMode ≠ .ionbf ∧ s.stream.bufferAddress ≠ 0 ∧
      s.stream.flagOwnerLibrary = true then
    { s with world := K.free s.stream.bufferAddress s.world }
  else s

/-- `__setvbuf_unlocked`. A user buffer comes with its memory, whose length is
the size the caller passes; `size` is read for a NULL buffer only. -/
def setvbufUnlocked (K : Kernel W) (buf : Option (ℕ × List UInt8)) (mode : BufferMode)
    (size : ℕ) (s : State W) : ℤ × State W :=
  let s := releaseBuffer K s
  match buf with
  | none =>
      let size := if size = 0 then BUFSIZ else if size < BUFSIZMIN then BUFSIZMIN else size
      match K.malloc size s.world with
      | (none, w) => (-1, { s with world := w })
      | (some (address, memory), w) =>
          (0, ⟨attachBuffer address memory.toList mode true s.stream, w⟩)
  | some (address, memory) =>
      (0, { s with stream := attachBuffer address memory mode false s.stream })

/-- `__setdefbuf_unlocked`: the second attempt repeats the first. -/
def setdefbufUnlocked (K : Kernel W) (s : State W) : ℤ × State W :=
  match setvbufUnlocked K none .iofbf BUFSIZ s with
  | (r, s) =>
      if r = 0 then (0, s)
      else match setvbufUnlocked K none .iofbf BUFSIZ s with
        | (r, s) => if r = 0 then (0, s) else (EOF, s)

/-- A stream opened with the given flags and then given a buffer of the caller. -/
def openedStream (mode : ModeFlags) (memory : List UInt8) (bufferMode : BufferMode) : FILE :=
  attachBuffer 4096 memory bufferMode false ((default : FILE).opened 3 1 mode)

def writeFlags : ModeFlags := { (default : ModeFlags) with write := true }

def updateFlags : ModeFlags := { (default : ModeFlags) with read := true, write := true }

/-- The check most operations start with: a stream without buffer gets the
default one. -/
def ensureBuffer (K : Kernel W) (s : State W) : ℤ × State W :=
  if s.stream.flagBufferSet = true then (0, s) else setdefbufUnlocked K s

@[simp] theorem releaseBuffer_stream (K : Kernel W) (s : State W) :
    (releaseBuffer K s).stream = s.stream := by
  unfold releaseBuffer
  split <;> rfl

/-- Asking for the default buffer fails and leaves the stream alone, or
attaches a buffer of `BUFSIZ` bytes. -/
theorem setvbufUnlocked_default (K : Kernel W) (s : State W) :
    (∃ w, setvbufUnlocked K none .iofbf BUFSIZ s = (-1, { s with world := w })) ∨
    (∃ address memory w, memory.length = BUFSIZ ∧
      setvbufUnlocked K none .iofbf BUFSIZ s =
        (0, ⟨attachBuffer address memory .iofbf true s.stream, w⟩)) := by
  unfold setvbufUnlocked
  dsimp only
  generalize hsize : (if BUFSIZ = 0 then BUFSIZ
    else if BUFSIZ < BUFSIZMIN then BUFSIZMIN else BUFSIZ) = size
  have hlen : size = BUFSIZ := by
    rw [← hsize]
    decide
  rcases K.malloc size (releaseBuffer K s).world with ⟨_ | ⟨address, memory⟩, w⟩
  · exact Or.inl ⟨w, by simp⟩
  · exact Or.inr ⟨address, memory.toList, w, by simp [hlen], by simp⟩

theorem ensureBuffer_cases (K : Kernel W) (s : State W) :
    (s.stream.flagBufferSet = true ∧ ensureBuffer K s = (0, s)) ∨
    (s.stream.flagBufferSet = false ∧ ∃ w, ensureBuffer K s = (EOF, { s with world := w })) ∨
    (s.stream.flagBufferSet = false ∧ ∃ address memory w, memory.length = BUFSIZ ∧
      ensureBuffer K s = (0, ⟨attachBuffer address memory .iofbf true s.stream, w⟩)) := by
  unfold ensureBuffer
  cases hflag : s.stream.flagBufferSet with
  | true => exact Or.inl ⟨rfl, rfl⟩
  | false =>
    right
    simp only [Bool.false_eq_true, if_false, true_and]
    unfold setdefbufUnlocked
    rcases setvbufUnlocked_default K s with ⟨w, h⟩ | ⟨address, memory, w, hlen, h⟩
    · rcases setvbufUnlocked_default K { s with world := w } with
        ⟨w', h'⟩ | ⟨address, memory, w', hlen, h'⟩
      · exact Or.inl ⟨w', by simp [h, h']⟩
      · exact Or.inr ⟨address, memory, w', hlen, by simp [h, h']⟩
    · exact Or.inr ⟨address, memory, w, hlen, by simp [h]⟩

end Heartix.Stdio
