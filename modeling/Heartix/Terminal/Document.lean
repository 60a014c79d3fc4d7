import Mathlib.Data.Int.Basic
import Mathlib.Logic.Function.Basic
import Heartix.Lib.DoublyLinked
import Heartix.Lib.Pieces
import Heartix.Lib.Runs
import Mathlib.Tactic.Ring

/-!
The document of the terminal window: lines in a doubly linked list, entered at
the last one. A line is an allocated buffer and a length. An access outside the
buffer or the length, and a copy of a negative length, are undefined.
-/

namespace Heartix.Terminal

open DoublyLinked

/-- A line. The last member counts the removals since the buffer was allocated,
which the source does not. -/
structure TerminalLine where
  buffer : List UInt8
  length : ℕ
  previous : ℕ
  next : ℕ
  removals : ℕ
  deriving DecidableEq, Repr

/-- A line as it is constructed, with null pointers. -/
def TerminalLine.construct : TerminalLine where
  buffer := []
  length := 0
  previous := 0
  next := 0
  removals := 0

/-- Undefined where `position + 1` is no `int`, and at negative positions. -/
def TerminalLine.insert (position : ℤ) (c : UInt8) (line : TerminalLine) :
    Option TerminalLine :=
  if line.length ≤ position then
    if position + 1 < 2 ^ 31 then
      some { line with
        buffer := line.buffer.take line.length ++
          List.replicate (position.toNat - line.length) 0 ++ [c]
        length := position.toNat + 1
        removals := 0 }
    else none
  else if 0 ≤ position then some { line with buffer := line.buffer.set position.toNat c }
  else none

/-- Undefined where the copied range leaves the line. -/
def TerminalLine.remove (position : ℤ) (line : TerminalLine) : Option TerminalLine :=
  if 0 < line.length then
    if 0 ≤ position ∧ position < line.length then
      some { line with
        buffer := line.buffer.take position.toNat ++
          ((line.buffer.take line.length).drop (position.toNat + 1) ++
            line.buffer.drop (line.length - 1))
        length := line.length - 1
        removals := line.removals + 1 }
    else none
  else some line

/-- The lines in memory, and the entry of the list. Addresses from `fresh` on
have not been allocated yet. -/
structure Document where
  memory : ℕ → Option TerminalLine
  lines : ℕ
  fresh : ℕ

def Document.construct : Document where
  memory := Function.update (fun _ => none) 1 (some TerminalLine.construct)
  lines := 1
  fresh := 2

def Document.put (p : ℕ) (line : Option TerminalLine) (d : Document) : Document :=
  { d with memory := Function.update d.memory p line }

/-- Changing the line at an address, undefined where there is none. -/
def Document.modify (p : ℕ) (change : TerminalLine → Option TerminalLine) (d : Document) :
    Option Document :=
  match d.memory p with
  | none => none
  | some line => (change line).map fun line => d.put p (some line)

/-- `while(offsetY-- && current) current = current->previous`, with the number of
times the counter is not zero. -/
def Document.walk (d : Document) : ℕ → ℕ → Option ℕ
  | 0, p => some p
  | n + 1, p =>
      if p = 0 then some 0
      else
        match d.memory p with
        | none => none
        | some line => d.walk n line.previous

/-- How often a counter of type `int` is decremented before it is zero. -/
def countdown (offsetY : ℤ) : ℕ := (offsetY % 2 ^ 32).toNat

def Document.getLine (offsetY : ℤ) (d : Document) : Option ℕ := d.walk (countdown offsetY) d.lines

/-- The branch of `insert` for a newline: a new line after `current`. -/
def Document.insertLine (current : ℕ) (d : Document) : Option Document :=
  let newLine := d.fresh
  match d.memory current with
  | none => none
  | some line =>
      let d := { d with fresh := d.fresh + 1 }.put newLine
        (some { TerminalLine.construct with
          previous := current
          next := line.next })
      let linked :=
        if line.next ≠ 0 then
          d.modify line.next fun next => some { next with previous := newLine }
        else some { d with lines := newLine }
      linked.bind fun d => d.modify current fun current => some { current with next := newLine }

def Document.insert (x offsetY : ℤ) (c : UInt8) (d : Document) : Option Document :=
  match d.getLine offsetY with
  | none => none
  | some 0 => some d
  | some current =>
      if c = '\n'.toUInt8 then d.insertLine current
      else d.modify current fun line => line.insert x c

def Document.remove (x offsetY : ℤ) (d : Document) : Option Document :=
  match d.getLine offsetY with
  | none => none
  | some 0 => some d
  | some current => d.modify current fun line => line.remove x

/-- The loop that deletes the lines of the old list. -/
def Document.deleteLines : ℕ → ℕ → Document → Option Document
  | fuel, p, d =>
      if p = 0 then some d
      else
        match fuel, d.memory p with
        | _, none => none
        | 0, some _ => none
        | fuel + 1, some line => deleteLines fuel line.previous (d.put p none)

def Document.clear (d : Document) : Option Document :=
  let new := { d with
    lines := d.fresh
    fresh := d.fresh + 1 }.put d.fresh (some TerminalLine.construct)
  new.deleteLines new.fresh d.lines

/-- A row: a pointer into the buffer of a line, null if there is none, and the
number of characters. -/
structure Row where
  start : Option (ℕ × ℕ)
  length : ℕ
  deriving DecidableEq, Repr

def nullRow : Row := ⟨none, 0⟩

/-- One step back from the row of the line `p` that ends at `rem`. -/
def Document.stepBack (d : Document) (columns p rem : ℕ) : Option (ℕ × ℕ) :=
  match d.memory p with
  | none => none
  | some line =>
      let rem := if rem = 0 then line.length else rem
      if columns < rem then
        if rem % columns = 0 then some (p, rem - columns)
        else some (p, rem - rem % columns)
      else if line.previous = 0 then some (0, rem)
      else (d.memory line.previous).map fun previous => (line.previous, previous.length)

def Document.rowWalk (d : Document) (columns : ℕ) : ℕ → ℕ → ℕ → Option (ℕ × ℕ)
  | 0, p, rem => some (p, rem)
  | n + 1, p, rem =>
      if p = 0 then some (0, rem)
      else (d.stepBack columns p rem).bind fun (p, rem) => d.rowWalk columns n p rem

/-- The row of the line `p` that ends at `rem`. -/
def Document.rowEnding (d : Document) (columns p rem : ℕ) : Option Row :=
  match d.memory p with
  | none => none
  | some line =>
      let start := if rem = 0 then 0 else if rem % columns = 0 then rem - columns
        else rem - rem % columns
      let length := if rem = 0 then 0 else if rem % columns = 0 then columns else rem % columns
      if line.buffer = [] then some ⟨none, length⟩ else some ⟨some (p, start), length⟩

def Document.acquireRow (offsetY : ℤ) (columns : ℕ) (d : Document) : Option Row :=
  match d.memory d.lines with
  | none => none
  | some line =>
      match d.rowWalk columns (countdown offsetY) d.lines line.length with
      | none => none
      | some (0, _) => some nullRow
      | some (p, rem) => d.rowEnding columns p rem

/-- The characters of a row. -/
def Document.rowText (d : Document) (row : Row) : Option (List UInt8) :=
  match row.start with
  | none => if row.length = 0 then some [] else none
  | some (p, start) => (d.memory p).map fun line => (line.buffer.drop start).take row.length

/-- The loop that adds up the rows of each line, in `int` arithmetic. -/
def Document.rowCountLoop (d : Document) (columns : ℕ) : ℕ → ℕ → ℤ → Option ℤ
  | fuel, p, rows =>
      if p = 0 then some rows
      else
        match fuel, d.memory p with
        | _, none => none
        | 0, some _ => none
        | fuel + 1, some line =>
            let added := line.length / columns +
              if line.length ≠ 0 ∧ line.length % columns = 0 then 0 else 1
            d.rowCountLoop columns fuel line.previous ((rows + added).bmod (2 ^ 32))

def Document.getRowCount (columns : ℕ) (d : Document) : Option ℤ :=
  if columns = 0 then some 0 else d.rowCountLoop columns d.fresh d.lines 0

end Heartix.Terminal
