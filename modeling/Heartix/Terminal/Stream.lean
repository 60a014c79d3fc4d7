import Mathlib.Tactic.IntervalCases
import Heartix.Lib.Decimal
import Heartix.Lib.Runs
import Heartix.Terminal.Screen

/-!
The servers' decoder of control sequences, byte by byte. The decoder keeps a
fixed number of parameters. An access to any other one is undefined, so a run
that is defined has stayed inside the array.
-/

namespace Heartix.Terminal

open Runs

def TERMINAL_STREAM_CONTROL_MAX_PARAMETERS : ℕ := 4

theorem first_lt : 0 < TERMINAL_STREAM_CONTROL_MAX_PARAMETERS := by decide

theorem second_lt : 1 < TERMINAL_STREAM_CONTROL_MAX_PARAMETERS := by decide

theorem current_lt {parameterCount : ℕ}
    (h : 1 ≤ max 1 parameterCount ∧ max 1 parameterCount ≤ TERMINAL_STREAM_CONTROL_MAX_PARAMETERS) :
    max 1 parameterCount - 1 < TERMINAL_STREAM_CONTROL_MAX_PARAMETERS := by omega

def G_TERMKEY_ESC : UInt8 := 27

inductive StreamStatus where
  | text
  | lastWasEsc
  | withinVt100
  | withinGhostterm
  deriving DecidableEq, Repr

structure StreamControlStatus where
  status : StreamStatus
  parameterCount : ℤ
  parameters : Vector ℤ TERMINAL_STREAM_CONTROL_MAX_PARAMETERS
  controlCharacter : UInt8
  deriving DecidableEq, Repr

/-- A decoder as it is constructed. The two members without an initialiser hold
what was in the memory. -/
def StreamControlStatus.construct
    (parameters : Vector ℤ TERMINAL_STREAM_CONTROL_MAX_PARAMETERS)
    (controlCharacter : UInt8) : StreamControlStatus where
  status := .text
  parameterCount := 0
  parameters := parameters
  controlCharacter := controlCharacter

/-- The parameter at an index, undefined outside the array. -/
def StreamControlStatus.parameter (status : StreamControlStatus) (i : ℤ) : Option ℤ :=
  if 0 ≤ i then status.parameters[i.toNat]? else none

def StreamControlStatus.setParameter (status : StreamControlStatus) (i value : ℤ) :
    Option StreamControlStatus :=
  if h : 0 ≤ i ∧ i < TERMINAL_STREAM_CONTROL_MAX_PARAMETERS then
    some { status with
      parameters := status.parameters.set i.toNat value (by omega) }
  else none

/-- A server: its screen, the settings of its input and what it has written to
the shell. -/
structure Server (σ : Type*) where
  screen : σ
  inputMode : ℤ
  inputEcho : Bool
  controlProcess : ℤ
  shellStdin : List UInt8

variable {σ : Type*}

def Server.onScreen (f : σ → σ) (t : Server σ) : Server σ := { t with screen := f t.screen }

def Server.writeToShell (bytes : List UInt8) (t : Server σ) : Server σ :=
  { t with shellStdin := t.shellStdin ++ bytes }

/-- Moving the cursor by an amount, in `int` arithmetic. -/
def Screen.moveCursor (S : Screen σ) (dx dy : ℤ) (s : σ) : σ :=
  S.flush (S.setCursor ((S.getCursorX s + dx).bmod (2 ^ 32))
    ((S.getCursorY s + dy).bmod (2 ^ 32)) s)

/-- What one parameter of a mode sequence sets. -/
def Screen.setMode (S : Screen σ) (param : ℤ) (s : σ) : σ :=
  if param = 0 then S.setColorForeground SC_WHITE (S.setColorBackground SC_BLACK s)
  else if 30 ≤ param ∧ param < 40 then
    S.setColorForeground (terminalColorFromVt100 (param - 30)) s
  else if 40 ≤ param ∧ param < 50 then
    S.setColorBackground (terminalColorFromVt100 (param - 40)) s
  else s

/-- The loop of a mode sequence: `n` parameters from index `i` on. -/
def Screen.setModes (S : Screen σ) (status : StreamControlStatus) : ℕ → ℕ → σ → Option σ
  | _, 0, s => some s
  | i, n + 1, s =>
      match status.parameter i with
      | none => none
      | some param => S.setModes status (i + 1) n (S.setMode param s)

/-- The answer to a query: two numbers between the two ends of a sequence. -/
def response (opening : Char) (first second : ℤ) (ending : Char) : List UInt8 :=
  G_TERMKEY_ESC :: opening.toUInt8 :: (Decimal.signedText first ++
    ';'.toUInt8 :: (Decimal.signedText second ++ [ending.toUInt8]))

def processSequenceVt100 (S : Screen σ) (status : StreamControlStatus) (t : Server σ) :
    Option (Server σ) :=
  let parameters := status.parameters
  match Char.ofUInt8 status.controlCharacter with
  | 'A' => some (t.onScreen (S.moveCursor 0 (-parameters[0])))
  | 'B' => some (t.onScreen (S.moveCursor 0 parameters[0]))
  | 'C' => some (t.onScreen (S.moveCursor parameters[0] 0))
  | 'D' => some (t.onScreen (S.moveCursor (-parameters[0]) 0))
  | 'm' => (S.setModes status 0 status.parameterCount.toNat t.screen).map
      fun s => { t with screen := s }
  | 'J' =>
      if status.parameterCount = 1 ∧ parameters[0] = 2 then some (t.onScreen S.clean)
      else some t
  | 'f' => some (t.onScreen (S.setCursor parameters[1] parameters[0]))
  | 'n' =>
      if parameters[0] = 6 then
        some (t.writeToShell
          (response '[' (S.getCursorY t.screen) (S.getCursorX t.screen) 'R'))
      else some t
  | 'r' =>
      if status.parameterCount = 0 then some (t.onScreen S.setScrollAreaScreen)
      else some (t.onScreen (S.setScrollArea parameters[0] parameters[1]))
  | 'S' => some (t.onScreen (S.scroll parameters[0]))
  | 'T' => some (t.onScreen (S.scroll ((-parameters[0]).bmod (2 ^ 32))))
  | _ => some t

def processSequenceGhostterm (S : Screen σ) (status : StreamControlStatus) (t : Server σ) :
    Server σ :=
  let parameters := status.parameters
  match Char.ofUInt8 status.controlCharacter with
  | 'm' => { t with inputMode := parameters[0] }
  | 'e' => { t with inputEcho := decide (parameters[0] = 1) }
  | 'i' => t.writeToShell (response '\x7b' (S.getColumns t.screen) (S.getRows t.screen) 'i')
  | 'p' => t.onScreen (S.write (UInt8.ofInt parameters[0]))
  | 'x' => t.onScreen S.remove
  | 'c' => { t with controlProcess := parameters[0] }
  | 'C' =>
      if parameters[0] = 0 then t.onScreen (S.setCursorVisible (decide (parameters[1] ≠ 0)))
      else t
  | _ => t

/-- A character outside every sequence, in red on the standard error. -/
def Screen.writeText (S : Screen σ) (isStderr : Bool) (c : UInt8) (s : σ) : σ :=
  if isStderr then
    S.setColorForeground (S.getColorForeground s) (S.write c (S.setColorForeground SC_RED s))
  else S.write c s

def Screen.writeTab (S : Screen σ) (s : σ) : σ :=
  S.write ' '.toUInt8 (S.write ' '.toUInt8 (S.write ' '.toUInt8 (S.write ' '.toUInt8 s)))

/-- The branch for plain text. -/
def processText (S : Screen σ) (isStderr : Bool) (status : StreamControlStatus)
    (t : Server σ) (c : UInt8) : StreamControlStatus × Server σ :=
  if c = '\r'.toUInt8 then (status, t)
  else if c = '\t'.toUInt8 then (status, t.onScreen S.writeTab)
  else if c = G_TERMKEY_ESC then ({ status with status := .lastWasEsc }, t)
  else (status, t.onScreen (S.writeText isStderr c))

/-- The branch after the escape character. -/
def processEsc (status : StreamControlStatus) (c : UInt8) : StreamControlStatus :=
  if c = '['.toUInt8 then { status with status := .withinVt100 }
  else if c = '\x7b'.toUInt8 then { status with status := .withinGhostterm }
  else { status with status := .text }

def isDigit (c : UInt8) : Bool := '0'.toUInt8 ≤ c ∧ c ≤ '9'.toUInt8

/-- A digit is appended to the current parameter. Parameters past the maximum
are skipped. -/
def processDigit (status : StreamControlStatus) (c : UInt8) : Option StreamControlStatus :=
  let status := if status.parameterCount = 0 then { status with parameterCount := 1 } else status
  if status.parameterCount ≤ TERMINAL_STREAM_CONTROL_MAX_PARAMETERS then
    match status.parameter (status.parameterCount - 1) with
    | none => none
    | some p => status.setParameter (status.parameterCount - 1)
        (((p * 10).bmod (2 ^ 32) + (c.toNat - 48)).bmod (2 ^ 32))
  else some status

/-- The decoder between two sequences. -/
def StreamControlStatus.reset (status : StreamControlStatus) : StreamControlStatus :=
  { status with
    status := .text
    parameterCount := 0
    parameters := Vector.replicate _ 0 }

/-- The finish character of a sequence: the sequence is performed, and the
decoder reset. -/
def processFinish (S : Screen σ) (status : StreamControlStatus) (t : Server σ) (c : UInt8) :
    Option (StreamControlStatus × Server σ) :=
  let status := { status with controlCharacter := c }
  if status.status = .withinVt100 then
    (processSequenceVt100 S status t).map fun t => (status.reset, t)
  else some (status.reset, processSequenceGhostterm S status t)

def processWithin (S : Screen σ) (status : StreamControlStatus) (t : Server σ) (c : UInt8) :
    Option (StreamControlStatus × Server σ) :=
  if isDigit c then (processDigit status c).map fun status => (status, t)
  else if c = ';'.toUInt8 then
    some ({ status with
      parameterCount := (status.parameterCount + 1).bmod (2 ^ 32) }, t)
  else processFinish S status t c

/-- One byte of a program's output. -/
def processOutput (S : Screen σ) (isStderr : Bool) :
    StreamControlStatus × Server σ → UInt8 → Option (StreamControlStatus × Server σ)
  | (status, t), c =>
      match status.status with
      | .text => some (processText S isStderr status t c)
      | .lastWasEsc => some (processEsc status c, t)
      | .withinVt100 => processWithin S status t c
      | .withinGhostterm => processWithin S status t c

def terminalProcessOutput (S : Screen σ) (isStderr : Bool) :
    StreamControlStatus × Server σ → UInt8 → Option (StreamControlStatus × Server σ) :=
  processOutput S isStderr

def ghshProcessOutput (S : Screen σ) (isStderr : Bool) :
    StreamControlStatus × Server σ → UInt8 → Option (StreamControlStatus × Server σ) :=
  processOutput S isStderr

end Heartix.Terminal
