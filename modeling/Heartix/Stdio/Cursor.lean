import Heartix.Lib.FlatFile
import Heartix.Stdio.Handle
import Heartix.Stdio.Seek
import Heartix.Stdio.Unread

/-!
A stream over a file as its user sees it: the file, one position in it, and the
bytes pushed back and not yet read again. The stream itself spreads this over
the file of the kernel, the kernel's offset and the buffer, which holds either
bytes pushed back and read ahead or bytes to be written.
-/

namespace Heartix.Stdio

open Overwrite

variable {W : Type}

/-- What the kernel promises about a regular file behind a descriptor: transfers
move at least one byte if there is one, and everything else succeeds. -/
structure SeekableFile (K : Kernel W) (fd : ℤ) where
  file : W → FlatFile UInt8
  offset : W → ℕ
  write_spec : ∀ bytes w, bytes ≠ [] → ∃ n w', K.write fd bytes w = (some n, w') ∧
    0 < n.val ∧ file w' = (file w).write (offset w) (bytes.take n) ∧
    offset w' = offset w + n
  read_spec : ∀ len w, 0 < len → ∃ n bytes w', K.read fd len w = (some bytes, w') ∧
    0 < n ∧ bytes.val = (file w).read (offset w) n ∧ file w' = file w ∧
    offset w' = offset w + bytes.val.length
  seek_set : ∀ target w, 0 ≤ target → ∃ w', K.lseek fd target .seekSet w = (target, w') ∧
    file w' = file w ∧ offset w' = target.toNat
  seek_cur : ∀ distance w, 0 ≤ (offset w : ℤ) + distance → ∃ w',
    K.lseek fd distance .seekCur w = ((offset w : ℤ) + distance, w') ∧
    file w' = file w ∧ offset w' = ((offset w : ℤ) + distance).toNat
  seek_end : ∀ distance w, 0 ≤ ((file w).size : ℤ) + distance → ∃ w',
    K.lseek fd distance .seekEnd w = (((file w).size : ℤ) + distance, w') ∧
    file w' = file w ∧ offset w' = (((file w).size : ℤ) + distance).toNat
  tell_spec : ∀ w, ∃ w', K.tell fd w = ((offset w : ℤ), w') ∧ file w' = file w ∧
    offset w' = offset w
  malloc_spec : ∀ len w, ∃ memory w', K.malloc len w = (some memory, w') ∧
    file w' = file w ∧ offset w' = offset w
  free_spec : ∀ address w, file (K.free address w) = file w ∧
    offset (K.free address w) = offset w

/-- The file, the logical position, and the bytes pushed back, last one first. -/
structure Cursor where
  file : FlatFile UInt8
  position : ℤ
  pushed : List UInt8

namespace Cursor

/-- The next byte: a byte pushed back, or else the byte of the file. -/
def getc (c : Cursor) : ℤ × Cursor :=
  match c.pushed with
  | b :: pushed => (b.toNat, { c with position := c.position + 1, pushed := pushed })
  | [] =>
      if c.position < c.file.size then
        ((c.file.cell c.position.toNat).toNat, { c with position := c.position + 1 })
      else (EOF, c)

def ungetc (b : UInt8) (c : Cursor) : Cursor :=
  { c with position := c.position - 1, pushed := b :: c.pushed }

/-- Forgetting the bytes pushed back; a position before the file becomes 0. -/
def settle (c : Cursor) : Cursor :=
  { c with position := max c.position 0, pushed := [] }

def putc (b : UInt8) (c : Cursor) : Cursor :=
  { file := c.file.write c.settle.position.toNat [b]
    position := c.settle.position + 1
    pushed := [] }

def moveTo (target : ℤ) (c : Cursor) : Cursor :=
  { c with position := target, pushed := [] }

/-- Reading `left` more bytes, until the file ends. -/
def getBytes : (left : ℕ) → (bytes : List UInt8) → Cursor → List UInt8 × Cursor
  | 0, bytes, c => (bytes, c)
  | left + 1, bytes, c =>
      if c.getc.1 = EOF then (bytes, c.getc.2)
      else getBytes left (bytes ++ [toByte c.getc.1]) c.getc.2

end Cursor

namespace FILE

/-- The buffer holds nothing but unread bytes, so that none can be pushed back. -/
def Full (f : FILE) : Prop := f.flagBufferSet = true ∧ f.unread.length = f.bufferSize

instance (f : FILE) : Decidable f.Full := by
  unfold Full
  infer_instance

end FILE

/-- The stream shows its user the cursor. -/
structure Shows {K : Kernel W} {fd : ℤ} (F : SeekableFile K fd) (s : State W) (c : Cursor) :
    Prop where
  sound : s.stream.Sound
  fd_eq : s.stream.fileDescriptor = fd
  readable : s.stream.mode.read = true
  canWrite : s.stream.implWrite = true
  canSeek : s.stream.implSeek = true
  canTell : s.stream.implTell = true
  file_eq : c.file = (F.file s.world).write (F.offset s.world) s.stream.pending
  position_eq : c.position =
    F.offset s.world + s.stream.pending.length - s.stream.unread.length
  ahead : ∃ ahead, s.stream.unread = c.pushed ++ ahead ∧ ahead.length ≤ F.offset s.world ∧
    (F.file s.world).read (F.offset s.world - ahead.length) ahead.length = ahead
  writing : s.stream.pending ≠ [] → s.stream.flagDirectionWrite = true
  reading : s.stream.unread ≠ [] → s.stream.flagDirectionRead = true
  oneWay : s.stream.flagDirectionWrite = true →
    s.stream.flagDirectionRead = false ∧ s.stream.mode.write = true

theorem FILE.pending_eq_nil_iff {f : FILE} (h : f.Bounds) :
    f.pending = [] ↔ f.bufferedBytesWrite = 0 := by
  rw [← List.length_eq_zero_iff, pending_length h]

namespace Shows

variable {K : Kernel W} {fd : ℤ} {F : SeekableFile K fd} {s : State W} {c : Cursor}

/-- Without unread bytes nothing is pushed back. -/
theorem pushed_eq_nil (h : Shows F s c) (hunread : s.stream.unread = []) : c.pushed = [] := by
  obtain ⟨ahead, heq, _⟩ := h.ahead
  rw [hunread] at heq
  exact (List.append_eq_nil_iff.mp heq.symm).1

theorem unread_eq_nil (h : Shows F s c) (hdir : s.stream.flagDirectionRead = false) :
    s.stream.unread = [] := by
  by_contra hne
  have hread := h.reading hne
  simp [hdir] at hread

theorem notWriting (h : Shows F s c) (hdir : s.stream.flagDirectionRead = true) :
    s.stream.flagDirectionWrite = false := by
  by_contra hne
  obtain ⟨hread, _⟩ := h.oneWay (by simpa using hne)
  simp [hdir] at hread

theorem pending_eq_nil (h : Shows F s c) (hdir : s.stream.flagDirectionWrite = false) :
    s.stream.pending = [] := by
  by_contra hne
  have hwrite := h.writing hne
  simp [hdir] at hwrite

/-- Without unread bytes the cursor has a position in the file. -/
theorem settle_eq (h : Shows F s c) (hunread : s.stream.unread = []) : c.settle = c := by
  have hpushed := h.pushed_eq_nil hunread
  have hposition := h.position_eq
  rw [hunread, List.length_nil] at hposition
  unfold Cursor.settle
  rw [max_eq_left (by omega), ← hpushed]

/-- The stream may change in what the cursor does not depend on, and the kernel
in everything but the file and the offset. -/
theorem of_eq (h : Shows F s c) {t : State W} (hsound : t.stream.Sound)
    (hhandle : t.stream.handle = s.stream.handle)
    (hpending : t.stream.pending = s.stream.pending)
    (hunread : t.stream.unread = s.stream.unread)
    (hwrite : t.stream.flagDirectionWrite = s.stream.flagDirectionWrite)
    (hread : t.stream.flagDirectionRead = s.stream.flagDirectionRead)
    (hfile : F.file t.world = F.file s.world) (hoffset : F.offset t.world = F.offset s.world) :
    Shows F t c where
  sound := hsound
  fd_eq := (FILE.fileDescriptor_eq hhandle).trans h.fd_eq
  readable := by rw [FILE.mode_eq hhandle]; exact h.readable
  canWrite := (FILE.implWrite_eq hhandle).trans h.canWrite
  canSeek := (FILE.implSeek_eq hhandle).trans h.canSeek
  canTell := (FILE.implTell_eq hhandle).trans h.canTell
  file_eq := by rw [hfile, hoffset, hpending]; exact h.file_eq
  position_eq := by rw [hoffset, hpending, hunread]; exact h.position_eq
  ahead := by rw [hfile, hoffset, hunread]; exact h.ahead
  writing := by rw [hpending, hwrite]; exact h.writing
  reading := by rw [hunread, hread]; exact h.reading
  oneWay := by rw [hwrite, hread, FILE.mode_eq hhandle]; exact h.oneWay

end Shows

end Heartix.Stdio
