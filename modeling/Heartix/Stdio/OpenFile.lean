import Heartix.Stdio.Handle
import Mathlib.Data.Finset.Basic
import Mathlib.Data.Int.Bitwise

/-!
Opening and closing streams. The library keeps its streams in memory and chains
the open ones through `prev` and `next`; here the memory maps an address to the
structure stored there, and an access to an address that holds none has no
result. `opened` is history: the streams opened and not yet closed.
-/

namespace Heartix.Stdio

variable {W : Type}

structure Libc (W : Type) where
  files : ℕ → Option FILE
  openFileList : ℕ
  world : W
  opened : Finset ℕ

namespace Libc

def put (s : Libc W) (p : ℕ) (f : Option FILE) : Libc W :=
  { s with files := Function.update s.files p f }

/-- An assignment to fields of `*p`. -/
def modify (p : ℕ) (change : FILE → FILE) (s : Libc W) : Option (Libc W) :=
  match s.files p with
  | none => none
  | some f => some (s.put p (some (change f)))

/-- A function of one stream, called with `p`. -/
def onStream {α : Type} (p : ℕ) (call : State W → α × State W) (s : Libc W) :
    Option (α × Libc W) :=
  match s.files p with
  | none => none
  | some f =>
      match call ⟨f, s.world⟩ with
      | (a, t) => some (a, { s.put p (some t.stream) with world := t.world })

end Libc

/-- The loop of `__parse_mode_flags` over the characters after the first. -/
def parseModeSuffix : List Char → ModeFlags → Option ModeFlags
  | [], flags => some flags
  | '+' :: mode, flags => parseModeSuffix mode { flags with read := true, write := true }
  | 't' :: mode, flags => parseModeSuffix mode { flags with binary := false, textual := true }
  | 'b' :: mode, flags => parseModeSuffix mode { flags with textual := false, binary := true }
  | _ :: _, _ => none

/-- `__parse_mode_flags`; `none` is EOF. -/
def parseModeFlags (mode : String) : Option ModeFlags :=
  match mode.toList with
  | 'r' :: mode => parseModeSuffix mode { (default : ModeFlags) with read := true }
  | 'w' :: mode =>
      parseModeSuffix mode
        { (default : ModeFlags) with write := true, create := true, truncate := true }
  | 'a' :: mode =>
      parseModeSuffix mode
        { (default : ModeFlags) with write := true, create := true, append := true }
  | _ => none

/-- `__open_file_list_add`. -/
def openFileListAdd (file : ℕ) (s : Libc W) : Option (Libc W) :=
  if s.openFileList ≠ 0 then do
    let t ← s.modify s.openFileList fun f => { f with prev := file }
    let u ← t.modify file fun f => { f with next := t.openFileList }
    return { u with openFileList := file }
  else some { s with openFileList := file }

/-- `__open_file_list_remove`. -/
def openFileListRemove (file : ℕ) (s : Libc W) : Option (Libc W) := do
  let f ← s.files file
  let s₁ : Libc W := if file = s.openFileList then { s with openFileList := f.next } else s
  let s₂ ← if f.prev ≠ 0 then s₁.modify f.prev fun g => { g with next := f.next } else some s₁
  let g ← s₂.files file
  if g.next ≠ 0 then s₂.modify g.next fun h => { h with prev := g.prev } else some s₂

/-- `__fdopen_static`. -/
def fdopenStatic (K : Kernel W) (fd : ℤ) (mode : String) (file : ℕ) (s : Libc W) :
    Option (ℤ × Libc W) :=
  match parseModeFlags mode with
  | none => some (EOF, s)
  | some flags =>
      match K.mutexInitialize s.world with
      | (lock, w) => do
          let t ← { s with world := w }.modify file fun f => f.opened fd lock flags
          let u ← openFileListAdd file t
          return (0, { u with opened := insert file u.opened })

/-- `__fopen_static`: the stream, or 0 for NULL. -/
def fopenStatic (K : Kernel W) (filename mode : String) (file : ℕ) (s : Libc W) :
    Option (ℕ × Libc W) :=
  match parseModeFlags mode with
  | none => some (0, s)
  | some flags =>
      match K.openFile filename flags s.world with
      | (fd, w) =>
          if fd = -1 then some (0, { s with world := w })
          else do
            let (r, t) ← fdopenStatic K fd mode file { s with world := w }
            if r = 0 then return (file, t)
            else return (0, { t with world := (K.close fd t.world).2 })

/-- `fopen`; `file` is what `calloc` returns. -/
def fopen (K : Kernel W) (file : ℕ) (filename mode : String) (s : Libc W) :
    Option (ℕ × Libc W) :=
  if file = 0 then some (0, s)
  else do
    let (res, t) ← fopenStatic K filename mode file (s.put file (some default))
    if res = 0 then return (0, t.put file none) else return (res, t)

/-- `fdopen`, which keeps the memory when it fails. -/
def fdopen (K : Kernel W) (file : ℕ) (fd : ℤ) (mode : String) (s : Libc W) :
    Option (ℕ × Libc W) :=
  if file = 0 then some (0, s)
  else do
    let (r, t) ← fdopenStatic K fd mode file (s.put file (some default))
    if r = EOF then return (0, t) else return (file, t)

/-- `__fclose_static_unlocked` up to the clearing of the structure. -/
def closeStream (K : Kernel W) (s : State W) : ℤ × State W :=
  match fflushUnlocked K s with
  | (_, s) =>
      match implClose K s with
      | (r, s) =>
          if r ≠ 0 then (EOF, s)
          else
            let world :=
              if s.stream.flagBufferSet = true ∧ s.stream.bufferAddress ≠ 0 ∧
                  s.stream.flagOwnerLibrary = true then K.free s.stream.bufferAddress s.world
              else s.world
            (0, ⟨s.stream.zeroed, world⟩)

/-- `__fclose_static_unlocked`. -/
def fcloseStaticUnlocked (K : Kernel W) (stream : ℕ) (s : Libc W) : Option (ℤ × Libc W) := do
  let (r, t) ← s.onStream stream (closeStream K)
  if r ≠ 0 then return (EOF, t)
  else do
    let u ← openFileListRemove stream t
    return (0, { u with opened := u.opened.erase stream })

/-- `fclose`; `__fclose_static` adds the lock only. -/
def fclose (K : Kernel W) (stream : ℕ) (s : Libc W) : Option (ℤ × Libc W) :=
  if stream = 0 then some (EOF, s)
  else do
    let (res, t) ← fcloseStaticUnlocked K stream s
    if res ≠ 0 then return (EOF, t) else return (0, t.put stream none)

/-- `__stdio_impl_reopen`. -/
def implReopen (K : Kernel W) (filename : Option String) (mode : String) (stream : ℕ)
    (s : Libc W) : Option (ℕ × Libc W) :=
  match filename with
  | none =>
      match parseModeFlags mode with
      | none => some (0, s)
      | some flags => do
          let t ← s.modify stream fun f => { f with mode := flags }
          return (stream, t)
  | some filename => do
      let (close, t) ← fcloseStaticUnlocked K stream s
      if close ≠ 0 then return (0, t) else fopenStatic K filename mode stream t

/-- `freopen`. -/
def freopen (K : Kernel W) (filename : Option String) (mode : String) (stream : ℕ)
    (s : Libc W) : Option (ℕ × Libc W) := do
  let f ← s.files stream
  if f.implReopen = true then implReopen K filename mode stream s else return (0, s)

/-- The loop of `fflush(NULL)` from `ns` on: the value returned, the streams
visited and the state reached. -/
def fflushList (K : Kernel W) : (fuel ns : ℕ) → (ret : ℤ) → Libc W →
    Option (ℤ × List ℕ × Libc W)
  | 0, _, _, _ => none
  | fuel + 1, ns, ret, s =>
      if ns = 0 then some (ret, [], s)
      else do
        let (r, t) ← s.onStream ns (fflushUnlocked K)
        let f ← t.files ns
        let (ret, visited, u) ← fflushList K fuel f.next (Int.lor ret r) t
        return (ret, ns :: visited, u)

/-- One round of the loop in `__fini_stdio`. It closes the stream, except for
the standard ones and those whose lock is taken. -/
def finiStream (K : Kernel W) (f : ℕ) (file : FILE) (s : Libc W) : Option (Libc W) :=
  if file.fileDescriptor > 2 ∧ K.mutexTryAcquire file.lock = true then
    (fcloseStaticUnlocked K f s).map Prod.snd
  else some s

/-- The loop of `__fini_stdio` from `f` on, and the streams visited. -/
def finiStdioList (K : Kernel W) : (fuel f : ℕ) → Libc W → Option (List ℕ × Libc W)
  | 0, _, _ => none
  | fuel + 1, f, s =>
      if f = 0 then some ([], s)
      else do
        let file ← s.files f
        let t ← finiStream K f file s
        let (visited, u) ← finiStdioList K fuel file.next t
        return (f :: visited, u)

/-- The calls that open and close streams. The address given to an opening call
is the one `calloc` answers it with. -/
inductive Call
  | fopen (file : ℕ) (filename mode : String)
  | fdopen (file : ℕ) (fd : ℤ) (mode : String)
  | fclose (stream : ℕ)
  | freopen (filename : Option String) (mode : String) (stream : ℕ)

/-- A call with the state it leads to. -/
def Call.step (K : Kernel W) (s : Libc W) : Call → Option (Libc W)
  | .fopen file filename mode => (Stdio.fopen K file filename mode s).map Prod.snd
  | .fdopen file fd mode => (Stdio.fdopen K file fd mode s).map Prod.snd
  | .fclose stream => (Stdio.fclose K stream s).map Prod.snd
  | .freopen filename mode stream => (Stdio.freopen K filename mode stream s).map Prod.snd

/-- What the caller and the allocator promise: new memory is NULL or not in
use, and only open streams are closed or reopened. -/
def Call.Proper (s : Libc W) : Call → Prop
  | .fopen file _ _ => file = 0 ∨ s.files file = none
  | .fdopen file _ _ => file = 0 ∨ s.files file = none
  | .fclose stream => stream ∈ s.opened
  | .freopen _ _ stream => stream ∈ s.opened

end Heartix.Stdio
