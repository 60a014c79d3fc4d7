import Heartix.Strings.Characters
import Mathlib.Data.List.Forall2
import Mathlib.Tactic.Ring

/-!
`getopt`, and the options that a scan of the arguments as POSIX describes it
finds. An argument is the piece of memory with its characters and the NUL behind
them; a call that would read outside of an argument or of the option string has
no result.
-/

namespace Heartix.Unistd

open Strings

def colon : UInt8 := ':'.toUInt8
def hyphen : UInt8 := '-'.toUInt8
def questionMark : UInt8 := '?'.toUInt8

/-- A pointer into an argument. -/
structure CharPtr where
  word : ℕ
  offset : ℕ
  deriving DecidableEq, Repr

/-- `optarg`, `optind`, `optopt` and the static `optpos`. -/
structure Getopt where
  optarg : Option CharPtr
  optind : ℕ
  optopt : ℤ
  optpos : ℕ
  deriving DecidableEq, Repr

def Getopt.initial : Getopt := ⟨none, 1, 0, 1⟩

/-- What an argument is where its first character has not been passed. -/
inductive Begin
  | options
  | operand
  | terminator
  deriving DecidableEq, Repr

/-- The tests of `getopt` at the beginning of an argument. -/
def beginOf (arg : List UInt8) : Option Begin :=
  match arg[0]? with
  | none => none
  | some first =>
      if first ≠ hyphen then some .operand
      else
        match arg[1]? with
        | none => none
        | some second =>
            if second = 0 then some .operand
            else
              (strcmp arg [hyphen, hyphen, 0]).map fun r => if r = 0 then .terminator else .options

/-- `++optpos`, and the next argument where this one is at its end. -/
def nextChar (arg : List UInt8) (s : Getopt) : Option Getopt :=
  match arg[s.optpos + 1]? with
  | none => none
  | some b =>
      if b = 0 then some { s with optpos := 1, optind := s.optind + 1 }
      else some { s with optpos := s.optpos + 1 }

/-- The rest of the argument becomes the option argument. -/
def restAsArgument (s : Getopt) : Getopt :=
  { s with optarg := some ⟨s.optind, s.optpos + 1⟩, optind := s.optind + 1, optpos := 1 }

/-- An option with two colons behind it. -/
def optionalArgument (arg : List UInt8) (opt : ℤ) (s : Getopt) : Option (ℤ × Getopt) :=
  match arg[s.optpos + 1]? with
  | none => none
  | some b =>
      if b ≠ 0 then some (opt, restAsArgument s)
      else (nextChar arg { s with optarg := none }).map fun s => (opt, s)

/-- An option with one colon behind it. -/
def requiredArgument (argc : ℕ) (arg optstring : List UInt8) (opt : ℤ) (s : Getopt) :
    Option (ℤ × Getopt) :=
  match arg[s.optpos + 1]? with
  | none => none
  | some b =>
      if b ≠ 0 then some (opt, restAsArgument s)
      else if s.optind + 1 < argc then
        some (opt, { s with optarg := some ⟨s.optind + 1, 0⟩, optind := s.optind + 2, optpos := 1 })
      else
        match optstring[0]? with
        | none => none
        | some first =>
            some (charValue (if first = colon then colon else questionMark),
              { s with optopt := opt, optpos := 1, optind := s.optind + 1 })

/-- `getopt` from the option character on. -/
def getoptChar (argc : ℕ) (arg optstring : List UInt8) (s : Getopt) : Option (ℤ × Getopt) :=
  match arg[s.optpos]? with
  | none => none
  | some b =>
      let opt := charValue b
      match strchr optstring opt with
      | none => none
      | some none =>
          (nextChar arg { s with optopt := opt }).map fun s => (charValue questionMark, s)
      | some (some spec) =>
          match optstring[spec + 1]? with
          | none => none
          | some c =>
              if c = colon then
                match optstring[spec + 2]? with
                | none => none
                | some c =>
                    if c = colon then optionalArgument arg opt s
                    else requiredArgument argc arg optstring opt s
              else (nextChar arg { s with optarg := none }).map fun s => (opt, s)

/-- `getopt`, where `argv` has a NULL pointer behind its last argument. -/
def getopt (argv : List (List UInt8)) (optstring : List UInt8) (s : Getopt) :
    Option (ℤ × Getopt) :=
  match argv[s.optind]? with
  | none => some (-1, s)
  | some arg =>
      if s.optpos = 1 then
        match beginOf arg with
        | none => none
        | some .operand => some (-1, s)
        | some .terminator => some (-1, { s with optind := s.optind + 1 })
        | some .options => getoptChar argv.length arg optstring s
      else getoptChar argv.length arg optstring s

/-- Calls until one returns -1: what the others returned with the variables after
each of them, and the variables at the end. -/
def getoptLoop (argv : List (List UInt8)) (optstring : List UInt8) :
    ℕ → Getopt → Option (List (ℤ × Getopt) × Getopt)
  | 0, _ => none
  | n + 1, s =>
      match getopt argv optstring s with
      | none => none
      | some (r, s) =>
          if r = -1 then some ([], s)
          else (getoptLoop argv optstring n s).map fun rest => ((r, s) :: rest.1, rest.2)

section Reference

/-- How an option character is declared. -/
inductive Kind
  | unknown
  | flag
  | required
  | optional
  deriving DecidableEq, Repr

/-- The declaration that begins behind a character. -/
def declared (following : List UInt8) : Kind :=
  if following.head? = some colon then
    if following.tail.head? = some colon then .optional else .required
  else .flag

/-- The declaration of a character at its first place in the option string. -/
def kindOf (optstring : List UInt8) (c : UInt8) : Kind :=
  if c ∈ optstring then declared (optstring.drop (optstring.idxOf c + 1)) else .unknown

/-- The declaration of an option. The colon is none. -/
def optionKind (optstring : List UInt8) (c : UInt8) : Kind :=
  if c = colon then .unknown else kindOf optstring c

/-- An option character that the scan meets, with what follows it in its argument
and the arguments behind. -/
structure Met where
  char : UInt8
  rest : List UInt8
  words : List (List UInt8)
  deriving DecidableEq, Repr

/-- What is left to scan: the rest of an argument with options, and the arguments
behind it. -/
structure Scan where
  cluster : List UInt8
  words : List (List UInt8)
  deriving DecidableEq, Repr

/-- The next option character. Operands and the argument `--` end the scan. -/
def Scan.next (scan : Scan) : Option Met :=
  match scan with
  | ⟨c :: rest, words⟩ => some ⟨c, rest, words⟩
  | ⟨[], (first :: c :: rest) :: words⟩ =>
      if first = hyphen ∧ c :: rest ≠ [hyphen] then some ⟨c, rest, words⟩ else none
  | _ => none

/-- What a call for an option character tells. -/
inductive Event
  | option (c : UInt8) (argument : Option (List UInt8))
  | unknown (c : UInt8)
  | missing (c : UInt8)
  deriving DecidableEq, Repr

/-- The event at an option character that is declared in some way. -/
def Met.event (m : Met) : Kind → Event
  | .unknown => .unknown m.char
  | .flag => .option m.char none
  | .optional => .option m.char (if m.rest = [] then none else some m.rest)
  | .required =>
      if m.rest = [] then
        match m.words with
        | [] => .missing m.char
        | word :: _ => .option m.char (some word)
      else .option m.char (some m.rest)

/-- What is left to scan behind it. -/
def Met.after (m : Met) : Kind → Scan
  | .unknown => ⟨m.rest, m.words⟩
  | .flag => ⟨m.rest, m.words⟩
  | .optional => ⟨[], m.words⟩
  | .required => ⟨[], if m.rest = [] then m.words.tail else m.words⟩

def Scan.size (scan : Scan) : ℕ :=
  scan.cluster.length + (scan.words.map fun word => word.length + 1).sum

theorem Scan.next_cases {scan : Scan} {m : Met} (h : scan.next = some m) :
    (scan.cluster = m.char :: m.rest ∧ scan.words = m.words) ∨
      (scan.cluster = [] ∧ scan.words = (hyphen :: m.char :: m.rest) :: m.words ∧
        m.char :: m.rest ≠ [hyphen]) := by
  obtain ⟨cluster, words⟩ := scan
  rcases cluster with _ | ⟨c, rest⟩
  · rcases words with _ | ⟨_ | ⟨first, _ | ⟨c, rest⟩⟩, words⟩
    · exact absurd h (by simp [Scan.next])
    · exact absurd h (by simp [Scan.next])
    · exact absurd h (by simp [Scan.next])
    · simp only [Scan.next] at h
      by_cases hfirst : first = hyphen ∧ c :: rest ≠ [hyphen]
      · rw [if_pos hfirst] at h
        obtain rfl := Option.some.inj h
        exact Or.inr ⟨rfl, by rw [hfirst.1], hfirst.2⟩
      · rw [if_neg hfirst] at h
        exact absurd h (by simp)
  · obtain rfl := Option.some.inj h
    exact Or.inl ⟨rfl, rfl⟩

theorem Met.size_after_le (m : Met) (kind : Kind) :
    (m.after kind).size ≤ (⟨m.rest, m.words⟩ : Scan).size := by
  cases kind with
  | unknown => exact Nat.le_refl _
  | flag => exact Nat.le_refl _
  | optional => exact Nat.add_le_add_right (Nat.zero_le _) _
  | required =>
    simp only [Met.after, Scan.size, List.length_nil]
    split
    · cases m.words with
      | nil => exact Nat.add_le_add_right (Nat.zero_le _) _
      | cons word words =>
        simp only [List.tail_cons, List.map_cons, List.sum_cons]
        omega
    · omega

theorem Scan.size_next {scan : Scan} {m : Met} (h : scan.next = some m) (kind : Kind) :
    (m.after kind).size < scan.size := by
  have hafter := m.size_after_le kind
  have hnext : (⟨m.rest, m.words⟩ : Scan).size < scan.size := by
    simp only [Scan.size]
    rcases Scan.next_cases h with ⟨hcluster, hwords⟩ | ⟨hcluster, hwords, _⟩
    · rw [hcluster, hwords, List.length_cons]
      omega
    · rw [hcluster, hwords, List.map_cons, List.sum_cons, List.length_cons, List.length_cons]
      omega
  omega

/-- The option characters of the whole scan. -/
def Scan.met (optstring : List UInt8) (scan : Scan) : List Met :=
  match _ : scan.next with
  | none => []
  | some m => m :: (m.after (optionKind optstring m.char)).met optstring
termination_by scan.size
decreasing_by exact Scan.size_next ‹_› _

/-- The operands at the end of the scan. -/
def Scan.operands (optstring : List UInt8) (scan : Scan) : List (List UInt8) :=
  match _ : scan.next with
  | none => if scan.words.head? = some [hyphen, hyphen] then scan.words.tail else scan.words
  | some m => (m.after (optionKind optstring m.char)).operands optstring
termination_by scan.size
decreasing_by exact Scan.size_next ‹_› _

end Reference

end Heartix.Unistd
