import Mathlib.Data.List.Basic
import Mathlib.Data.Int.Basic
import Mathlib.Tactic.Ring

/-!
The directives of a format: how one is read, with the arguments it takes, and
what it passes to the callback. A site is one call of the callback, with the
amount that the engine then adds to its count.
-/

namespace Heartix.Printf

structure Flags where
  flagLeftJustify : Bool
  flagAlwaysPrependSign : Bool
  flagAlwaysPrependSpacePlussign : Bool
  flagForce0xOrDec : Bool
  flagLeftPadZeroes : Bool

def noFlags : Flags := ⟨false, false, false, false, false⟩

inductive Length where
  | default | hh | h | l | ll | j | z | t | L

structure Spec where
  flags : Flags
  width : ℤ
  precision : ℤ
  explicitPrecision : Bool
  length : Length
  specifier : Char

/-- The arguments: the machine words of the call, and which one is next. -/
structure VaList where
  words : ℕ → BitVec 64
  position : ℕ

def VaList.next (args : VaList) : BitVec 64 := args.words args.position

def VaList.rest (args : VaList) : VaList := { args with position := args.position + 1 }

/-- The next argument as an `int`. -/
def VaList.nextInt (args : VaList) : ℤ := (args.next.setWidth 32).toInt

/-- One character on. Undefined where the format ends. -/
def step : List UInt8 → Option (List UInt8)
  | _ :: c :: rest => some (c :: rest)
  | _ => none

def Flags.set (flags : Flags) (c : UInt8) : Option Flags :=
  match Char.ofUInt8 c with
  | '-' => some { flags with flagLeftJustify := true }
  | '+' => some { flags with flagAlwaysPrependSign := true }
  | ' ' => some { flags with flagAlwaysPrependSpacePlussign := true }
  | '#' => some { flags with flagForce0xOrDec := true }
  | '0' => some { flags with flagLeftPadZeroes := true }
  | _ => none

def readFlags (flags : Flags) : List UInt8 → Option (Flags × List UInt8)
  | [] => some (flags, [])
  | c :: rest =>
      match flags.set c with
      | none => some (flags, c :: rest)
      | some flags => if rest = [] then none else readFlags flags rest

def isDigit (c : UInt8) : Bool := '0'.toUInt8 ≤ c ∧ c ≤ '9'.toUInt8

def getNumber (res : ℤ) : List UInt8 → ℤ × List UInt8
  | [] => (res, [])
  | c :: rest =>
      if isDigit c then
        getNumber (((res * 10).bmod (2 ^ 32) + (c.toNat - 48)).bmod (2 ^ 32)) rest
      else (res, c :: rest)

/-- A number from the arguments or from the format. -/
def readNumber (missing : ℤ) (s : List UInt8) (args : VaList) :
    Option (ℤ × List UInt8 × VaList) :=
  match s with
  | [] => some (missing, [], args)
  | c :: rest =>
      if c = '*'.toUInt8 then (step (c :: rest)).map fun s => (args.nextInt, s, args.rest)
      else if isDigit c then
        match getNumber 0 (c :: rest) with
        | (n, s) => some (n, s, args)
      else some (missing, c :: rest, args)

def readWidth (s : List UInt8) (args : VaList) : Option (ℤ × List UInt8 × VaList) :=
  readNumber 0 s args

/-- The precision, and whether there is one. -/
def readPrecision (s : List UInt8) (args : VaList) : Option ((ℤ × Bool) × List UInt8 × VaList) :=
  if s.head? = some '.'.toUInt8 then
    match step s with
    | none => none
    | some s => (readNumber 6 s args).map fun (n, rest) => ((n, true), rest)
  else some ((6, false), s, args)

def readLength (s : List UInt8) : Option (Length × List UInt8) :=
  match s with
  | [] => some (.default, [])
  | c :: _ =>
      match Char.ofUInt8 c with
      | 'h' =>
          match step s with
          | none => none
          | some s =>
              if s.head? = some 'h'.toUInt8 then (step s).map fun s => (.hh, s)
              else some (.h, s)
      | 'l' =>
          match step s with
          | none => none
          | some s =>
              if s.head? = some 'l'.toUInt8 then (step s).map fun s => (.ll, s)
              else some (.l, s)
      | 'j' => (step s).map fun s => (.j, s)
      | 'z' => (step s).map fun s => (.z, s)
      | 't' => (step s).map fun s => (.t, s)
      | 'L' => (step s).map fun s => (.L, s)
      | _ => some (.default, s)

/-- What follows `%`, up to the specifier. Undefined where the format ends. -/
def readSpec (s : List UInt8) (args : VaList) : Option (Spec × List UInt8 × VaList) :=
  match readFlags noFlags s with
  | none => none
  | some (flags, s) =>
      match readWidth s args with
      | none => none
      | some (width, s, args) =>
          match readPrecision s args with
          | none => none
          | some ((precision, explicitPrecision), s, args) =>
              match readLength s with
              | none => none
              | some (length, s) =>
                  let specifier := Char.ofUInt8 (s.headD 0)
                  some (⟨flags, width, precision, explicitPrecision, length, specifier⟩, s, args)

structure Site where
  chunk : List UInt8
  added : ℤ

/-- A single character. -/
def char (c : Char) : Site := ⟨[c.toUInt8], 1⟩

def repeated (n : ℕ) (c : Char) : List Site := List.replicate n (char c)

/-- An `int` or `ssize_t` as `size_t`. -/
def sizeT (n : ℤ) : ℕ := (n % 2 ^ 64).toNat

/-- The rounds of a loop that counts an `int` up to a `size_t`. -/
def rounds (bound : ℕ) : ℕ := min bound (2 ^ 31) + (bound - (2 ^ 64 - 2 ^ 31))

/-- How many digits a value has. The first number bounds the rounds. -/
def countDigits (base : ℕ) : ℕ → ℕ → ℕ → ℕ
  | 0, _, count => count
  | fuel + 1, temp, count =>
      if base ≤ temp then countDigits base fuel (temp / base) (count + 1) else count

/-- The last `count` digits of a value. -/
def fillDigits (base : ℕ) (digits : List UInt8) : ℕ → ℕ → List UInt8
  | 0, _ => []
  | count + 1, value =>
      fillDigits base digits count (value / base) ++ [digits.getD (value % base) 0]

def integerToString (value base : ℕ) (digits : List UInt8) : List UInt8 :=
  fillDigits base digits (countDigits base 64 value 1) value

/-- The value of a signed conversion, as `uintmax_t`. -/
def signedArgument : Length → BitVec 64 → Option (BitVec 64)
  | .default, word => some ((word.setWidth 32).signExtend 64)
  | .hh, word => some ((word.setWidth 8).signExtend 64)
  | .h, word => some ((word.setWidth 16).signExtend 64)
  | .l, word | .ll, word | .j, word | .z, word | .t, word => some word
  | .L, _ => none

def unsignedArgument : Length → BitVec 64 → Option (BitVec 64)
  | .default, word => some ((word.setWidth 32).setWidth 64)
  | .hh, word => some ((word.setWidth 8).setWidth 64)
  | .h, word => some ((word.setWidth 16).setWidth 64)
  | .l, word | .ll, word | .j, word | .z, word | .t, word => some word
  | .L, _ => none

def isSigned (specifier : Char) : Bool := specifier = 'd' ∨ specifier = 'i'

/-- The base and the digits of a specifier. -/
def baseDigits (specifier : Char) : ℕ × List UInt8 :=
  match specifier with
  | 'x' => (16, "0123456789abcdef".toList.map Char.toUInt8)
  | 'X' => (16, "0123456789ABCDEF".toList.map Char.toUInt8)
  | 'o' => (8, "012345678".toList.map Char.toUInt8)
  | _ => (10, "0123456789".toList.map Char.toUInt8)

def signSites (flags : Flags) (isnegative : Bool) : List Site :=
  if isnegative then [char '-']
  else if flags.flagAlwaysPrependSign then [char '+']
  else if flags.flagAlwaysPrependSpacePlussign then [char ' ']
  else []

def additionalSites (force : Bool) (specifier : Char) : List Site :=
  if force ∧ (specifier = 'x' ∨ specifier = 'X') then
    [char '0', if specifier = 'x' then char 'x' else char 'X']
  else if force ∧ specifier = 'o' then [char '0']
  else []

def integerSites (spec : Spec) (value : BitVec 64) : List Site :=
  let isnegative := isSigned spec.specifier && value.msb
  let specifier := if spec.specifier = 'p' then 'x' else spec.specifier
  let force := spec.specifier = 'p' || spec.flags.flagForce0xOrDec
  let number := integerToString (if isnegative then -value else value).toNat
    (baseDigits specifier).1 (baseDigits specifier).2
  let len : ℤ := number.length
  let additionalslen : ℤ :=
    (if spec.flags.flagAlwaysPrependSign || spec.flags.flagAlwaysPrependSpacePlussign ||
      isnegative then 1 else 0) +
    (if force ∧ (specifier = 'x' ∨ specifier = 'X') then 2 else 0) +
    (if force ∧ specifier = 'o' then 1 else 0)
  let width := if spec.width < len + additionalslen then len + additionalslen else spec.width
  let padding := (width - len - additionalslen).toNat
  (if !spec.flags.flagLeftJustify && !spec.flags.flagLeftPadZeroes then repeated padding ' '
    else []) ++
  signSites spec.flags isnegative ++
  (if !spec.flags.flagLeftJustify && spec.flags.flagLeftPadZeroes then repeated padding '0'
    else []) ++
  additionalSites force specifier ++
  [⟨number, len⟩] ++
  (if spec.flags.flagLeftJustify then repeated padding ' ' else [])

def characterSites (spec : Spec) (value : UInt8) : List Site :=
  let padding := ((spec.width - 1).bmod (2 ^ 32)).toNat
  (if !spec.flags.flagLeftJustify then repeated padding ' ' else []) ++
  [⟨[value], 1⟩] ++
  (if spec.flags.flagLeftJustify then repeated padding ' ' else [])

def stringSites (spec : Spec) (value : List UInt8) : List Site :=
  let precision := sizeT spec.precision
  let width := sizeT
    (if sizeT spec.width < value.length then (value.length : ℤ).bmod (2 ^ 32) else spec.width)
  let len := if spec.explicitPrecision ∧ precision < value.length then precision
    else value.length
  (if !spec.flags.flagLeftJustify then repeated (rounds (sizeT (width - value.length))) ' '
    else []) ++
  [⟨value.take len, len⟩] ++
  (if spec.explicitPrecision ∧ len < precision then repeated (rounds (precision - len)) ' '
    else []) ++
  (if spec.flags.flagLeftJustify then repeated (rounds (sizeT (width - len))) ' ' else [])

/-- What a directive asks for: the end of the output, an error, a conversion of
a floating point number, calls of the callback, or the count so far. -/
inductive Action where
  | ended
  | invalid
  | floating
  | sites (sites : List Site)
  | count (address : BitVec 64)

/-- A conversion, where `strings` gives the characters of the string at an
address. -/
def convert (strings : BitVec 64 → List UInt8) (spec : Spec) (args : VaList) : Action × VaList :=
  match spec.specifier with
  | 'u' | 'o' | 'x' | 'X' | 'd' | 'i' | 'p' =>
      match (if isSigned spec.specifier then signedArgument else unsignedArgument) spec.length
          args.next with
      | none => (.invalid, args)
      | some value => (.sites (integerSites spec value), args.rest)
  | 'f' | 'F' | 'e' | 'E' | 'g' | 'G' | 'a' | 'A' =>
      match spec.length with
      | .default | .L => (.floating, args.rest)
      | _ => (.invalid, args)
  | 'c' =>
      match spec.length with
      | .default | .l =>
          (.sites (characterSites spec (UInt8.ofBitVec (args.next.setWidth 8))), args.rest)
      | _ => (.invalid, args)
  | 's' =>
      match spec.length with
      | .default | .l => (.sites (stringSites spec (strings args.next)), args.rest)
      | _ => (.invalid, args)
  | 'n' => (.count args.next, args.rest)
  | _ => (.invalid, args)

/-- One round of the loop over the format, with the place of the last character
that it reads. -/
def directive (strings : BitVec 64 → List UInt8) (s : List UInt8) (args : VaList) :
    Action × List UInt8 × VaList :=
  match s with
  | [] => (.ended, [], args)
  | c :: rest =>
      if c = '%'.toUInt8 then
        match step (c :: rest) with
        | none => (.ended, [], args)
        | some s =>
            if s.head? = some '%'.toUInt8 then (.sites [char '%'], s, args)
            else
              match readSpec s args with
              | none => (.ended, [], args)
              | some (spec, s, args) =>
                  match convert strings spec args with
                  | (action, args) => (action, s, args)
      else (.sites [⟨[c], 1⟩], c :: rest, args)

end Heartix.Printf
