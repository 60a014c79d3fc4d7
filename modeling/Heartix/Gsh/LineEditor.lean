import Mathlib.Data.List.DropRight
import Heartix.Terminal.Client
import Heartix.Terminal.FbScreen

/-!
The line editor of the shell, on the framebuffer screen. The shell keeps the line
and the caret; the screen is behind the terminal server, which decodes what the
shell writes and answers on the shell's standard input, after the keys that have
been typed in the meantime.
-/

namespace Heartix.Gsh

open Terminal

def G_TERMINAL_MODE_RAW : ℤ := 1
def G_TERMKEY_LEFT : ℤ := 0x104
def G_TERMKEY_RIGHT : ℤ := 0x105
def G_TERMKEY_BACKSPACE : ℤ := 0x107
def G_TERMKEY_STAB : ℤ := 0x154
def G_TERMKEY_ENTER : ℤ := 0x157

/-- A name as `readdir` returns it. -/
structure FileName where
  chars : List UInt8
  short : chars.length < 256

/-- The working directory, and the names in a directory that can be opened. -/
structure Files where
  cwdbuf : List UInt8
  opendir : List UInt8 → Option (List FileName)

def slash : UInt8 := '/'.toUInt8

/-- The text up to the last slash and the text after it. -/
def splitAtLastSlash (text : List UInt8) : List UInt8 × List UInt8 :=
  let rest := text.rtakeWhile (· ≠ slash)
  (text.take (text.length - rest.length - 1), rest)

def gshAutocomplete (files : Files) (toComplete : List UInt8) : List (List UInt8) :=
  let (folder, name) := splitAtLastSlash toComplete
  let startDir :=
    if toComplete.head? = some slash then folder
    else if slash ∈ toComplete then files.cwdbuf ++ slash :: folder
    else files.cwdbuf
  let prepend := if slash ∈ toComplete then folder ++ [slash] else []
  match files.opendir startDir with
  | none => []
  | some names => (names.filter fun entname => name.isPrefixOf entname.chars).map fun entname =>
      prepend ++ entname.chars ++
        if (files.opendir (startDir ++ slash :: entname.chars)).isSome then [slash] else []

/-- The shell with its line, the decoder and the screen of the server, and the
input side of the client library. -/
structure Session where
  line : List UInt8
  caret : ℕ
  finished : Bool
  status : StreamControlStatus
  server : Server FbScreen
  client : Client

namespace Session

/-- Bytes on the standard output, decoded by the server. -/
def print (bytes : List UInt8) (s : Session) : Option Session :=
  (bytes.foldlM (ghshProcessOutput fbScreen false) (s.status, s.server)).map
    fun (status, server) => { s with
      status := status
      server := server }

def command (op : Operation) (s : Session) : Option Session := s.print op.encode

/-- The position, row before column. The given keys are typed before the server
answers. -/
def getCursor (typed : List Key) (s : Session) : Option ((ℤ × ℤ) × Session) :=
  match s.print (terminalCommand "[6n" []) with
  | none => none
  | some s =>
      (((s.client.arrive typed).receive s.server.shellStdin).getCursor).map
        fun (pos, client) => (pos, { s with
          server := { s.server with shellStdin := [] }
          client := client })

def removes : ℕ → Session → Option Session
  | 0, s => some s
  | n + 1, s =>
      match s.command .remove with
      | none => none
      | some s => removes n s

def backspace (typed : List Key) (s : Session) : Option Session :=
  if 0 < s.line.length ∧ 0 < s.caret then do
    let deleted := s.line.getD (s.caret - 1) 0
    let afterCaret := s.line.drop s.caret
    let n := if deleted = '\t'.toUInt8 then 4 else 1
    let (pos, s) ← s.getCursor typed
    let s ← { s with
      line := s.line.take (s.caret - 1) ++ afterCaret
      caret := s.caret - 1 }.command (.setCursor (pos.2 - n) pos.1)
    let s ← s.print afterCaret
    let s ← s.removes n
    s.command (.setCursor (pos.2 - n) pos.1)
  else some s

/-- What is completed: the text after the last blank in front of the caret. -/
def toComplete (s : Session) : List UInt8 :=
  (s.line.take s.caret).rtakeWhile (· ≠ ' '.toUInt8)

def complete (files : Files) (typed : List Key) (s : Session) : Option Session :=
  match gshAutocomplete files s.toComplete with
  | [completion] => do
      let afterCaret := s.line.drop s.caret
      let length := s.toComplete.length
      let caret := s.caret - length
      let s ← { s with
        line := s.line.take caret ++ completion ++ afterCaret
        caret := caret }.command (.moveCursorBack length)
      let (pos, s) ← s.getCursor typed
      let s ← { s with caret := caret + completion.length }.print (completion ++ afterCaret)
      s.command (.setCursor (pos.2 + completion.length) pos.1)
  | _ => some s

def left (s : Session) : Option Session :=
  if 0 < s.caret then
    let beforeCaret := s.line.getD (s.caret - 1) 0
    { s with caret := s.caret - 1 }.command
      (.moveCursorBack (if beforeCaret = '\t'.toUInt8 then 4 else 1))
  else some s

def right (s : Session) : Option Session :=
  if s.caret < s.line.length then
    let atCaret := s.line.getD s.caret 0
    { s with caret := s.caret + 1 }.command
      (.moveCursorForward (if atCaret = '\t'.toUInt8 then 4 else 1))
  else some s

def insert (c : UInt8) (typed : List Key) (s : Session) : Option Session := do
  let (pos, s) ← s.getCursor typed
  let s ← s.print [c]
  let afterCaret := s.line.drop s.caret
  let s ← { s with
    line := s.line.take s.caret ++ c :: afterCaret
    caret := s.caret + 1 }.command (.setCursor (pos.2 + 1) pos.1)
  let s ← s.print afterCaret
  s.command (.setCursor (pos.2 + 1) pos.1)

/-- The body of the loop for a key. -/
def handle (files : Files) (c : ℤ) (typed : List Key) (s : Session) : Option Session :=
  if c = -1 then some { s with finished := true }
  else if c = G_TERMKEY_BACKSPACE then s.backspace typed
  else if c = 9 ∨ c = G_TERMKEY_STAB then s.complete files typed
  else if c = G_TERMKEY_ENTER then
    (s.print ['\n'.toUInt8]).map fun s => { s with finished := true }
  else if c = G_TERMKEY_LEFT then s.left
  else if c = G_TERMKEY_RIGHT then s.right
  else if c < 0x100 then s.insert (UInt8.ofInt c) typed
  else some s

end Session

/-- A key is typed, or the loop handles the next key, while more are typed. -/
inductive LineEvent where
  | key (k : Key)
  | handle (typed : List Key)

/-- One event. The loop waits where there is no key. -/
def Session.exec (files : Files) : Session → LineEvent → Option Session
  | s, .key k => some { s with client := s.client.arrive [k] }
  | s, .handle typed =>
      if s.finished then some s
      else
        match s.client.getChar with
        | none => some s
        | some (c, client) => { s with client := client }.handle files c typed

end Heartix.Gsh
