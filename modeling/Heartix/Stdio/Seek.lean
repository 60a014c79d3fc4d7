import Heartix.Stdio.Access

/-!
Asking for the position of a stream and changing it. Both go to the kernel
without a look at the buffer. `ftello` keeps the position in an int, and so does
`impl_seek`; `fseek` and `ftell` only convert their arguments.
-/

namespace Heartix.Stdio

variable {W : Type}

/-- `__fseeko_unlocked`. -/
def fseekoUnlocked (K : Kernel W) (offset : ℤ) (whence : Whence) (s : State W) : ℤ × State W :=
  if s.stream.implSeek = true then implSeek K offset whence s else (EOF, s)

/-- `__ftello_unlocked`. -/
def ftelloUnlocked (K : Kernel W) (s : State W) : ℤ × State W :=
  if s.stream.implTell = true then implTell K s else (EOF, s)

def fseeko (K : Kernel W) (offset : ℤ) (whence : Whence) (s : State W) : ℤ × State W :=
  fseekoUnlocked K offset whence s

def fseek (K : Kernel W) (offset : ℤ) (whence : Whence) (s : State W) : ℤ × State W :=
  fseeko K offset whence s

def ftello (K : Kernel W) (s : State W) : ℤ × State W :=
  match ftelloUnlocked K s with
  | (res, s) => (res.bmod (2 ^ 32), s)

def ftell (K : Kernel W) (s : State W) : ℤ × State W := ftello K s

/-- `__clearerr_unlocked` with `__stdio_impl_clearerr`. -/
def clearerrUnlocked (s : State W) : State W :=
  if s.stream.implClearerr = true then
    { s with stream := { s.stream with flagError := false } }
  else s

def rewind (K : Kernel W) (s : State W) : State W :=
  match fseekoUnlocked K 0 .seekSet s with
  | (_, s) => clearerrUnlocked s

/-- `fgetpos`: the result and the position stored to the caller. -/
def fgetpos (K : Kernel W) (s : State W) : ℤ × ℤ × State W :=
  match ftello K s with
  | (pos, s) => (if pos < 0 then -1 else 0, pos, s)

def fsetpos (K : Kernel W) (pos : ℤ) (s : State W) : ℤ × State W :=
  match fseeko K pos .seekSet s with
  | (res, s) => (if res < 0 then -1 else 0, s)

/-- The operations on a stream over a file. -/
inductive FileOp
  | fgetc
  | fread (size nmemb : ℕ)
  | ungetc (c : ℤ)
  | fputc (c : ℤ)
  | fflush
  | fseek (offset : ℤ) (whence : Whence)
  | fseeko (offset : ℤ) (whence : Whence)
  | rewind
  | ftell
  | ftello
  | fgetpos
  | fsetpos (pos : ℤ)

/-- The value an operation returns, the bytes and the position it stores. -/
structure Answer where
  value : ℤ
  bytes : List UInt8
  position : ℤ
  deriving DecidableEq, Repr

def FileOp.exec (K : Kernel W) (s : State W) : FileOp → Option (Answer × State W)
  | .fgetc => (fgetcUnlocked K s).map fun (c, s) => (⟨c, [], 0⟩, s)
  | .fread size nmemb =>
      (freadUnlocked K size nmemb s).map fun (n, bytes, s) => (⟨n, bytes, 0⟩, s)
  | .ungetc c => (fungetcUnlocked K c s).map fun (r, s) => (⟨r, [], 0⟩, s)
  | .fputc c => (fputcUnlocked K c s).map fun (r, s) => (⟨r, [], 0⟩, s)
  | .fflush =>
      match fflushUnlocked K s with
      | (r, s) => some (⟨r, [], 0⟩, s)
  | .fseek offset whence =>
      match Stdio.fseek K offset whence s with
      | (r, s) => some (⟨r, [], 0⟩, s)
  | .fseeko offset whence =>
      match Stdio.fseeko K offset whence s with
      | (r, s) => some (⟨r, [], 0⟩, s)
  | .rewind => some (⟨0, [], 0⟩, Stdio.rewind K s)
  | .ftell =>
      match Stdio.ftell K s with
      | (r, s) => some (⟨r, [], 0⟩, s)
  | .ftello =>
      match Stdio.ftello K s with
      | (r, s) => some (⟨r, [], 0⟩, s)
  | .fgetpos =>
      match Stdio.fgetpos K s with
      | (r, pos, s) => some (⟨r, [], pos⟩, s)
  | .fsetpos pos =>
      match Stdio.fsetpos K pos s with
      | (r, s) => some (⟨r, [], 0⟩, s)

end Heartix.Stdio
