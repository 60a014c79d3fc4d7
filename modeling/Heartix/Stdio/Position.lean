import Heartix.Lib.Runs
import Heartix.Stdio.CursorSteps
import Heartix.Stdio.FileKernel

/-!
The position law. Asked for its position a stream answers with the offset of the
kernel, cut to an int, and a seek goes to the kernel as if nothing were buffered.
Both are right as long as the buffer is empty, so a run follows the cursor when
it asks and seeks with an empty buffer only, and never reads ahead where the
offset does not fit in an int.
-/

namespace Heartix.Stdio

open Runs

variable {W : Type} {K : Kernel W} {fd : ℤ} {s : State W} {c : Cursor}

/-- Where a seek goes. -/
def Cursor.target (offset : ℤ) (c : Cursor) : Whence → ℤ
  | .seekSet => offset
  | .seekCur => c.position + offset
  | .seekEnd => c.file.size + offset

/-- What an operation does to a cursor; `full` says that no byte can be pushed
back. A seek forgets the bytes pushed back. -/
def FileOp.onCursor (full : Bool) (c : Cursor) : FileOp → Answer × Cursor
  | .fgetc => (⟨c.getc.1, [], 0⟩, c.getc.2)
  | .fread size nmemb =>
      match c.getBytes (size * nmemb) [] with
      | (bytes, c) => (⟨((bytes.length / size : ℕ) : ℤ), bytes, 0⟩, c)
  | .ungetc byte =>
      if byte = EOF ∨ full = true then (⟨EOF, [], 0⟩, c)
      else (⟨(toByte byte).toNat, [], 0⟩, c.ungetc (toByte byte))
  | .fputc byte => (⟨(toByte byte).toNat, [], 0⟩, c.putc (toByte byte))
  | .fflush => (⟨0, [], 0⟩, c.settle)
  | .fseek offset whence => (⟨0, [], 0⟩, c.moveTo (c.target offset whence))
  | .fseeko offset whence => (⟨0, [], 0⟩, c.moveTo (c.target offset whence))
  | .rewind => (⟨0, [], 0⟩, c.moveTo 0)
  | .ftell => (⟨c.position, [], 0⟩, c)
  | .ftello => (⟨c.position, [], 0⟩, c)
  | .fgetpos => (⟨0, [], c.position⟩, c)
  | .fsetpos pos => (⟨0, [], 0⟩, c.moveTo pos)

/-- The law says where a seek leads and not what it returns. -/
def FileOp.Agrees : FileOp → Answer → Answer → Prop
  | .fseek _ _, _, _ => True
  | .fseeko _ _, _, _ => True
  | .fsetpos _, _, _ => True
  | _, a, b => a = b

/-- The run answers as the cursor does, and the file is the one of the cursor
after a last flush. -/
def FollowsCursor (F : SeekableFile K fd) (ops : List FileOp) (s : State W) (c : Cursor) :
    Prop :=
  Follows (FileOp.exec K) (fun s op c => op.onCursor (decide s.stream.Full) c)
    FileOp.Agrees
    (fun s c => (fflushUnlocked K s).1 = 0 ∧ F.file (fflushUnlocked K s).2.world = c.file)
    ops s c

/-- The cursor of a stream that has nothing in its buffer. -/
def Cursor.start (F : SeekableFile K fd) (s : State W) : Cursor :=
  { file := F.file s.world, position := F.offset s.world, pushed := [] }

/-- A stream as `fopen` and `setvbuf` leave it, readable and over the descriptor. -/
structure FILE.FreshOver (fd : ℤ) (f : FILE) : Prop extends Fresh f where
  fd_eq : f.fileDescriptor = fd
  readable : f.mode.read = true
  canWrite : f.implWrite = true
  canSeek : f.implSeek = true
  canTell : f.implTell = true

theorem Shows.start (F : SeekableFile K fd) (hs : s.stream.FreshOver fd) :
    Shows F s (Cursor.start F s) := by
  have hsound := hs.toFresh.sound
  have hpending : s.stream.pending = [] :=
    (FILE.pending_eq_nil_iff hsound.toBounds).mpr hs.write_zero
  have hunread : s.stream.unread = [] :=
    (FILE.unread_eq_nil_iff hsound.toBounds).mpr (by rw [hs.read_zero, hs.offset_zero])
  exact {
    sound := hsound
    fd_eq := hs.fd_eq
    readable := hs.readable
    canWrite := hs.canWrite
    canSeek := hs.canSeek
    canTell := hs.canTell
    file_eq := by
      rw [hpending, FlatFile.write_nil]
      rfl
    position_eq := by
      rw [hpending, hunread]
      simp [Cursor.start]
    ahead := ⟨[], hunread, Nat.zero_le _, FlatFile.read_zero _ _⟩
    writing := fun hne => absurd hpending hne
    reading := fun hne => absurd hunread hne
    oneWay := fun hc => by simp [hs.notWriting] at hc }

/-- What the user of a stream promises: bytes are put only on a stream that is
open for writing, and no seek leads before the file. -/
def FileOp.Permitted (F : SeekableFile K fd) (s : State W) : FileOp → Prop
  | .fputc _ => s.stream.mode.write = true
  | .fseek offset whence => 0 ≤ Cursor.target offset (Cursor.start F s) whence
  | .fseeko offset whence => 0 ≤ Cursor.target offset (Cursor.start F s) whence
  | .fsetpos pos => 0 ≤ pos
  | _ => True

/-- The unread bytes are the ones of the file; none of them was pushed back. -/
def ReadAhead (F : SeekableFile K fd) (s : State W) : Prop :=
  s.stream.unread.length ≤ F.offset s.world ∧
    (F.file s.world).read (F.offset s.world - s.stream.unread.length)
      s.stream.unread.length = s.stream.unread

/-- The seek finds the buffer empty, or it is one that stays where it is and
has nothing to forget. -/
def Aligned (F : SeekableFile K fd) (s : State W) (offset : ℤ) (whence : Whence) : Prop :=
  s.stream.Emptied ∨ whence = .seekCur ∧ offset = 0 ∧ ReadAhead F s

/-- The position is asked for and changed with an empty buffer, the answer fits
in an int, and where a flush moves the offset back it can. -/
def FileOp.KeepsPosition (F : SeekableFile K fd) (s : State W) : FileOp → Prop
  | .fputc _ => Restorable F s
  | .fflush => Restorable F s
  | .fseek offset whence => Aligned F s offset whence
  | .fseeko offset whence => Aligned F s offset whence
  | .rewind => s.stream.Emptied
  | .fsetpos _ => s.stream.Emptied
  | .ftell => s.stream.Emptied ∧ F.offset s.world < 2 ^ 31
  | .ftello => s.stream.Emptied ∧ F.offset s.world < 2 ^ 31
  | .fgetpos => s.stream.Emptied ∧ F.offset s.world < 2 ^ 31
  | _ => True

variable {F : SeekableFile K fd}

/-- A seek with an empty buffer moves the cursor. -/
theorem Shows.fseeko (h : Shows F s c) (offset : ℤ) (whence : Whence)
    (hpermitted : 0 ≤ Cursor.target offset (Cursor.start F s) whence)
    (haligned : Aligned F s offset whence) :
    ∃ r t, Stdio.fseeko K offset whence s = (r, t) ∧
      Shows F t (c.moveTo (c.target offset whence)) := by
  have hseek : ∃ r w, Stdio.fseeko K offset whence s = (r, { s with world := w }) ∧
      F.file w = F.file s.world ∧
      F.offset w = (Cursor.target offset (Cursor.start F s) whence).toNat := by
    unfold Stdio.fseeko fseekoUnlocked
    rw [if_pos h.canSeek]
    unfold implSeek
    rw [h.fd_eq]
    cases whence with
    | seekSet =>
      obtain ⟨w, heq, hfile, hoffset⟩ := F.seek_set offset s.world hpermitted
      exact ⟨_, w, by rw [heq], hfile, hoffset⟩
    | seekCur =>
      obtain ⟨w, heq, hfile, hoffset⟩ := F.seek_cur offset s.world hpermitted
      exact ⟨_, w, by rw [heq], hfile, hoffset⟩
    | seekEnd =>
      obtain ⟨w, heq, hfile, hoffset⟩ := F.seek_end offset s.world hpermitted
      exact ⟨_, w, by rw [heq], hfile, hoffset⟩
  obtain ⟨r, w, heq, hfile, hoffset⟩ := hseek
  refine ⟨r, _, heq, ?_⟩
  rcases haligned with hempty | ⟨rfl, rfl, hle, hread⟩
  · have htarget : c.target offset whence =
        Cursor.target offset (Cursor.start F s) whence := by
      cases whence with
      | seekSet => rfl
      | seekCur =>
        show c.position + offset = F.offset s.world + offset
        rw [h.position_of_emptied hempty]
      | seekEnd =>
        show (c.file.size : ℤ) + offset = (F.file s.world).size + offset
        rw [h.file_of_emptied hempty]
    rw [htarget]
    exact h.moved hempty hpermitted hfile hoffset
  · have hsame : F.offset w = F.offset s.world := by
      rw [hoffset]
      show ((F.offset s.world : ℤ) + 0).toNat = _
      omega
    have hstay : Shows F ({ s with world := w } : State W) c :=
      h.of_eq h.sound rfl rfl rfl rfl rfl hfile hsame
    exact {
      sound := h.sound
      fd_eq := h.fd_eq
      readable := h.readable
      canWrite := h.canWrite
      canSeek := h.canSeek
      canTell := h.canTell
      file_eq := hstay.file_eq
      position_eq := by
        show c.position + 0 = _
        rw [Int.add_zero]
        exact hstay.position_eq
      ahead := by
        refine ⟨s.stream.unread, rfl, ?_, ?_⟩
        · show s.stream.unread.length ≤ F.offset w
          omega
        · show (F.file w).read (F.offset w - s.stream.unread.length) _ = _
          rw [hfile, hsame]
          exact hread
      writing := h.writing
      reading := h.reading
      oneWay := h.oneWay }

/-- With an empty buffer the kernel knows the position. -/
theorem Shows.ftello (h : Shows F s c) (hempty : s.stream.Emptied)
    (hsmall : F.offset s.world < 2 ^ 31) :
    ∃ t, Stdio.ftello K s = (c.position, t) ∧ Shows F t c := by
  obtain ⟨w, htell, hfile, hoffset⟩ := F.tell_spec s.world
  refine ⟨{ s with world := w }, ?_, h.of_eq h.sound rfl rfl rfl rfl rfl hfile hoffset⟩
  unfold Stdio.ftello ftelloUnlocked
  rw [if_pos h.canTell]
  unfold implTell
  rw [h.fd_eq, htell, h.position_of_emptied hempty]
  dsimp only
  rw [bmod_eq_self (by omega) (by omega)]

theorem Shows.clearerr (h : Shows F s c) : Shows F (clearerrUnlocked s) c := by
  unfold clearerrUnlocked
  split
  · exact h.of_eq ⟨⟨h.sound.write_le, h.sound.offset_le, h.sound.read_le⟩, h.sound.buffered,
      h.sound.unused⟩ rfl rfl rfl rfl rfl rfl rfl
  · exact h

/-- One step of a run: the operation answers as it does on the cursor. -/
theorem Shows.exec (h : Shows F s c) (op : FileOp) (hpermitted : op.Permitted F s)
    (hkeeps : op.KeepsPosition F s) :
    ∃ a t, op.exec K s = some (a, t) ∧
      op.Agrees a (op.onCursor (decide s.stream.Full) c).1 ∧
      Shows F t (op.onCursor (decide s.stream.Full) c).2 := by
  cases op with
  | fgetc =>
    obtain ⟨t, heq, ht⟩ := h.fgetc
    exact ⟨_, t, by rw [FileOp.exec, heq]; rfl, rfl, ht⟩
  | fread size nmemb =>
    obtain ⟨t, heq, ht⟩ := h.fread size nmemb
    exact ⟨_, t, by rw [FileOp.exec, heq]; rfl, rfl, ht⟩
  | ungetc byte =>
    obtain ⟨t, heq, ht⟩ := h.ungetc byte
    refine ⟨_, t, by rw [FileOp.exec, heq]; rfl, ?_⟩
    simp only [FileOp.onCursor, decide_eq_true_eq]
    by_cases hrefused : byte = EOF ∨ s.stream.Full
    · rw [if_pos hrefused] at ht
      rw [if_pos hrefused, if_pos hrefused]
      exact ⟨rfl, ht⟩
    · rw [if_neg hrefused] at ht
      rw [if_neg hrefused, if_neg hrefused]
      exact ⟨rfl, ht⟩
  | fputc byte =>
    obtain ⟨t, heq, ht⟩ := h.fputc hpermitted hkeeps byte
    exact ⟨_, t, by rw [FileOp.exec, heq]; rfl, rfl, ht⟩
  | fflush =>
    obtain ⟨t, heq, ht⟩ := h.fflush hkeeps
    exact ⟨_, t, by rw [FileOp.exec, heq]; rfl, rfl, ht⟩
  | fseek offset whence =>
    obtain ⟨r, t, heq, ht⟩ := h.fseeko offset whence hpermitted hkeeps
    exact ⟨_, t, by rw [FileOp.exec, Stdio.fseek, heq], trivial, ht⟩
  | fseeko offset whence =>
    obtain ⟨r, t, heq, ht⟩ := h.fseeko offset whence hpermitted hkeeps
    exact ⟨_, t, by rw [FileOp.exec, heq], trivial, ht⟩
  | rewind =>
    obtain ⟨r, t, heq, ht⟩ := h.fseeko 0 .seekSet (Int.le_refl 0) (Or.inl hkeeps)
    refine ⟨_, _, rfl, rfl, ?_⟩
    unfold Stdio.rewind
    rw [show fseekoUnlocked K 0 .seekSet s = (r, t) from heq]
    exact ht.clearerr
  | ftell =>
    obtain ⟨t, heq, ht⟩ := h.ftello hkeeps.1 hkeeps.2
    exact ⟨_, t, by rw [FileOp.exec, Stdio.ftell, heq]; rfl, rfl, ht⟩
  | ftello =>
    obtain ⟨t, heq, ht⟩ := h.ftello hkeeps.1 hkeeps.2
    exact ⟨_, t, by rw [FileOp.exec, heq]; rfl, rfl, ht⟩
  | fgetpos =>
    obtain ⟨t, heq, ht⟩ := h.ftello hkeeps.1 hkeeps.2
    have hposition := h.position_of_emptied hkeeps.1
    refine ⟨_, t, by rw [FileOp.exec, Stdio.fgetpos, heq], ?_, ht⟩
    show (⟨if c.position < 0 then -1 else 0, [], c.position⟩ : Answer) = ⟨0, [], c.position⟩
    rw [if_neg (by omega)]
  | fsetpos pos =>
    obtain ⟨r, t, heq, ht⟩ := h.fseeko pos .seekSet hpermitted (Or.inl hkeeps)
    exact ⟨_, t, by rw [FileOp.exec, Stdio.fsetpos, heq], trivial, ht⟩

def fileStep (K : Kernel W) (s : State W) (op : FileOp) : Option (State W) :=
  (op.exec K s).map Prod.snd

theorem Shows.follows (h : Shows F s c) {ops : List FileOp}
    (hpermitted : Guarded (fileStep K) (fun s op => op.Permitted F s) ops s)
    (hkeeps : Guarded (fileStep K) (fun s op => op.KeepsPosition F s) ops s) :
    FollowsCursor F ops s c :=
  Guarded.follows (fun _ op _ hs hguard => hs.exec op hguard.1 hguard.2)
    (fun _ _ hs => hs.fflush_file) h (hpermitted.and hkeeps)

/-- The position law: a run follows the cursor if the position is asked for and
changed with an empty buffer only and the offsets behind it fit in an int. -/
theorem position_law (F : SeekableFile K fd) (ops : List FileOp) (s : State W)
    (hs : s.stream.FreshOver fd)
    (hpermitted : Guarded (fileStep K) (fun s op => op.Permitted F s) ops s)
    (hkeeps : Guarded (fileStep K) (fun s op => op.KeepsPosition F s) ops s) :
    FollowsCursor F ops s (Cursor.start F s) :=
  (Shows.start F hs).follows hpermitted hkeeps

theorem fileStream_freshOver (bytes : List UInt8) {size : ℕ} (hsize : 0 < size) :
    (fileStream bytes size).stream.FreshOver 3 where
  toFresh := openedStream_fresh updateFlags (by decide) (by simpa using hsize)
  fd_eq := rfl
  readable := rfl
  canWrite := rfl
  canSeek := rfl
  canTell := rfl

/-- Seeking over a byte, reading the next one in a buffer of one byte, and asking. -/
theorem position_law_seekRead :
    FollowsCursor (fileKernel_seekable 0 3) [.fseeko 1 .seekSet, .fgetc, .ftell]
      (fileStream [97, 98, 99] 1)
      (Cursor.start (fileKernel_seekable 0 3) (fileStream [97, 98, 99] 1)) := by
  apply position_law (fileKernel_seekable 0 3) _ _ (fileStream_freshOver _ (by decide))
  · refine ⟨?_, fun _ _ => ⟨trivial, fun _ _ => ⟨trivial, fun _ _ => trivial⟩⟩⟩
    show (0 : ℤ) ≤ 1
    decide
  · refine ⟨Or.inl (by decide), fun s₁ h₁ => ⟨trivial, fun s₂ h₂ => ⟨?_, fun _ _ => trivial⟩⟩⟩
    obtain rfl := Option.some.inj h₁
    obtain rfl := Option.some.inj h₂
    show FILE.Emptied _ ∧ _ < 2 ^ 31
    exact ⟨by decide +kernel, by decide +kernel⟩

/-- After one byte of a file of two the kernel is at the end, and so is what
`ftell` returns. -/
theorem position_law_readAhead :
    (fileStream [97, 98] 8).stream.FreshOver 3 ∧
    Guarded (fileStep (fileKernel 7))
      (fun s op => op.Permitted (fileKernel_seekable 7 3) s) [.fgetc, .ftell]
      (fileStream [97, 98] 8) ∧
    ¬ FollowsCursor (fileKernel_seekable 7 3) [.fgetc, .ftell] (fileStream [97, 98] 8)
      (Cursor.start (fileKernel_seekable 7 3) (fileStream [97, 98] 8)) := by
  refine ⟨fileStream_freshOver _ (by decide),
    ⟨trivial, fun _ _ => ⟨trivial, fun _ _ => trivial⟩⟩, ?_⟩
  rintro ⟨a, s₁, h₁, _, b, s₂, h₂, hagree, _⟩
  have hvalue : ((FileOp.exec (fileKernel 7) (fileStream [97, 98] 8) .fgetc).bind fun p =>
      (FileOp.exec (fileKernel 7) p.2 .ftell).map fun q => q.1.value) = some 2 := by
    decide +kernel
  rw [h₁, Option.bind_some, h₂, Option.map_some] at hvalue
  have hb : b.value = 2 := Option.some.inj hvalue
  have hcursor : b = ⟨1, [], 0⟩ := hagree
  rw [hcursor] at hb
  cases hb

end Heartix.Stdio
