import Heartix.Stdio.Position

/-!
Switching between reading and writing. Without explicit seeks a stream open for
both follows the cursor through every interleaving of `fgetc`, `ungetc`, `fputc`
and `fflush`. The cursor is not the machine one might expect: bytes pushed back
at the start of the file take it below 0 until the next write or flush, a flush
forgets them, and a buffer full of unread bytes refuses another one.
-/

namespace Heartix.Stdio

open Runs

variable {W : Type} {K : Kernel W} {fd : ℤ}

/-- The operations that read, push back, write and flush single bytes. -/
def FileOp.Switches : FileOp → Prop
  | .fgetc => True
  | .ungetc _ => True
  | .fputc _ => True
  | .fflush => True
  | _ => False

theorem fileStep_handle (K : Kernel W) {s t : State W} {op : FileOp} (hop : op.Switches)
    (h : fileStep K s op = some t) : t.stream.handle = s.stream.handle := by
  unfold fileStep FileOp.exec at h
  cases op with
  | fgetc =>
    obtain ⟨⟨a, u⟩, heq, rfl⟩ := Option.map_eq_some_iff.mp h
    obtain ⟨⟨r, v⟩, heq', hpair⟩ := Option.map_eq_some_iff.mp heq
    obtain ⟨-, rfl⟩ := Prod.mk.inj hpair
    exact FILE.handle_of_record (fgetcUnlocked_record K heq')
  | ungetc byte =>
    obtain ⟨⟨a, u⟩, heq, rfl⟩ := Option.map_eq_some_iff.mp h
    obtain ⟨⟨r, v⟩, heq', hpair⟩ := Option.map_eq_some_iff.mp heq
    obtain ⟨-, rfl⟩ := Prod.mk.inj hpair
    exact FILE.handle_of_record (fungetcUnlocked_record K heq')
  | fputc byte =>
    obtain ⟨⟨a, u⟩, heq, rfl⟩ := Option.map_eq_some_iff.mp h
    obtain ⟨⟨r, v⟩, heq', hpair⟩ := Option.map_eq_some_iff.mp heq
    obtain ⟨-, rfl⟩ := Prod.mk.inj hpair
    exact fputcUnlocked_handle K heq'
  | fflush =>
    obtain rfl := Option.some.inj h
    exact FILE.handle_of_record (fflushUnlocked_record K s)
  | _ => exact absurd hop id

/-- Small offsets are all the condition of the position law that is left. -/
theorem guarded_switches (F : SeekableFile K fd) {ops : List FileOp} {s : State W}
    (hops : ∀ op ∈ ops, op.Switches) (hmode : s.stream.mode.write = true)
    (hsmall : Guarded (fileStep K) (fun s _ => F.offset s.world < 2 ^ 31) ops s) :
    Guarded (fileStep K) (fun s op => op.Permitted F s) ops s ∧
      Guarded (fileStep K) (fun s op => op.KeepsPosition F s) ops s := by
  induction ops generalizing s with
  | nil => exact ⟨trivial, trivial⟩
  | cons op ops ih =>
    obtain ⟨hop, hrest⟩ := List.forall_mem_cons.mp hops
    obtain ⟨hlt, hsmall⟩ := hsmall
    have hrestorable : Restorable F s := fun _ => Or.inl (by omega)
    have hnext : ∀ t, fileStep K s op = some t →
        Guarded (fileStep K) (fun s op => op.Permitted F s) ops t ∧
        Guarded (fileStep K) (fun s op => op.KeepsPosition F s) ops t := by
      intro t ht
      apply ih hrest _ (hsmall t ht)
      rw [FILE.mode_eq (fileStep_handle K hop ht)]
      exact hmode
    constructor
    · refine ⟨?_, fun t ht => (hnext t ht).1⟩
      cases op with
      | fputc byte => exact hmode
      | fgetc => trivial
      | ungetc byte => trivial
      | fflush => trivial
      | _ => exact absurd hop id
    · refine ⟨?_, fun t ht => (hnext t ht).2⟩
      cases op with
      | fputc byte => exact hrestorable
      | fflush => exact hrestorable
      | fgetc => trivial
      | ungetc byte => trivial
      | _ => exact absurd hop id

/-- Reading and writing may alternate freely: every run follows the cursor. -/
theorem read_write_follows (F : SeekableFile K fd) (ops : List FileOp) (s : State W)
    (hs : s.stream.FreshOver fd) (hmode : s.stream.mode.write = true)
    (hops : ∀ op ∈ ops, op.Switches)
    (hsmall : Guarded (fileStep K) (fun s _ => F.offset s.world < 2 ^ 31) ops s) :
    FollowsCursor F ops s (Cursor.start F s) := by
  obtain ⟨hpermitted, hkeeps⟩ := guarded_switches F hops hmode hsmall
  exact (Shows.start F hs).follows hpermitted hkeeps

/-- Reading, pushing back, overwriting and reading on, one byte a transfer. -/
theorem read_write_follows_switch :
    FollowsCursor (fileKernel_seekable 0 3) [.fgetc, .ungetc 120, .fputc 121, .fgetc]
      (fileStream [97, 98] 2)
      (Cursor.start (fileKernel_seekable 0 3) (fileStream [97, 98] 2)) := by
  apply read_write_follows (fileKernel_seekable 0 3) _ _ (fileStream_freshOver _ (by decide)) rfl
  · simp [FileOp.Switches]
  · refine ⟨by decide, fun s₁ h₁ => ⟨?_, fun s₂ h₂ => ⟨?_, fun s₃ h₃ => ⟨?_, fun _ _ => trivial⟩⟩⟩⟩
    · obtain rfl := Option.some.inj h₁
      decide +kernel
    · obtain rfl := Option.some.inj h₁
      obtain rfl := Option.some.inj h₂
      decide +kernel
    · obtain rfl := Option.some.inj h₁
      obtain rfl := Option.some.inj h₂
      obtain rfl := Option.some.inj h₃
      decide +kernel

/-- The machine whose position stops at 0 and that takes back every byte. -/
structure ClampedCursor where
  file : FlatFile UInt8
  position : ℕ
  pushed : List UInt8

namespace ClampedCursor

def getc (c : ClampedCursor) : ℤ × ClampedCursor :=
  match c.pushed with
  | b :: pushed => (b.toNat, { c with position := c.position + 1, pushed := pushed })
  | [] =>
      if c.position < c.file.size then
        ((c.file.cell c.position).toNat, { c with position := c.position + 1 })
      else (EOF, c)

/-- A flush has nothing to do here. -/
def exec (op : FileOp) (c : ClampedCursor) : Answer × ClampedCursor :=
  match op with
  | .fgetc => (⟨c.getc.1, [], 0⟩, c.getc.2)
  | .ungetc byte =>
      if byte = EOF then (⟨EOF, [], 0⟩, c)
      else (⟨(toByte byte).toNat, [], 0⟩,
        { c with position := c.position - 1, pushed := toByte byte :: c.pushed })
  | .fputc byte =>
      (⟨(toByte byte).toNat, [], 0⟩,
        { file := c.file.write c.position [toByte byte]
          position := c.position + 1
          pushed := [] })
  | _ => (⟨0, [], 0⟩, c)

def start (F : SeekableFile K fd) (s : State W) : ClampedCursor :=
  { file := F.file s.world, position := F.offset s.world, pushed := [] }

end ClampedCursor

/-- The run answers as the clamped machine does and ends with its file. -/
def FollowsClamped (F : SeekableFile K fd) (ops : List FileOp) (s : State W) : Prop :=
  Follows (FileOp.exec K) (fun _ op c => ClampedCursor.exec op c) (fun _ a b => a = b)
    (fun s c => (fflushUnlocked K s).1 = 0 ∧ F.file (fflushUnlocked K s).2.world = c.file)
    ops s (ClampedCursor.start F s)

/-- No stream follows the clamped machine: a buffer of one byte takes back one
byte only, a byte pushed back at the start of the file does not hide the first
one, and a flush forgets what was pushed back. -/
theorem read_write_clamped :
    (fileStream [97, 98] 1).stream.FreshOver 3 ∧ (fileStream [97, 98] 8).stream.FreshOver 3 ∧
    ¬ FollowsClamped (fileKernel_seekable 7 3) [.fgetc, .ungetc 120, .ungetc 121]
      (fileStream [97, 98] 1) ∧
    ¬ FollowsClamped (fileKernel_seekable 7 3) [.ungetc 120, .fgetc, .fgetc]
      (fileStream [97, 98] 8) ∧
    ¬ FollowsClamped (fileKernel_seekable 7 3) [.fgetc, .ungetc 120, .fflush, .fgetc]
      (fileStream [97, 98] 8) := by
  refine ⟨fileStream_freshOver _ (by decide), fileStream_freshOver _ (by decide), ?_, ?_, ?_⟩
  · intro h
    exact absurd h.answers_eq (by decide +kernel)
  · intro h
    exact absurd h.answers_eq (by decide +kernel)
  · intro h
    exact absurd h.answers_eq (by decide +kernel)

end Heartix.Stdio
