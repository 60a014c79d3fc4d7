import Mathlib.Logic.Function.Basic
import Heartix.Unistd.Getopt

/-!
`getopt_long`, and the long options that a scan of the arguments meets. The scanner
shares `optind` with `getopt` and leaves the place inside an argument to it, so the
reference scan goes through the characters of an argument as `getopt` does. A NULL
table of options is the empty one.
-/

namespace Heartix.Unistd

open Strings

def equalsSign : UInt8 := '='.toUInt8

def no_argument : ℤ := 0
def required_argument : ℤ := 1
def optional_argument : ℤ := 2

/-- `struct option`, with the memory of its name and the address of its flag. -/
structure LongOption where
  name : List UInt8
  hasArg : ℤ
  flag : Option ℕ
  val : ℤ
  deriving DecidableEq, Repr

/-- The variables of `getopt`, what the pointer `longindex` points to if it is not
NULL, and the flags. -/
structure GetoptLong where
  getopt : Getopt
  longindex : Option ℤ
  flags : ℕ → ℤ

/-- The length of a name, which ends at the first `=` or at the terminator. -/
def nameLength (name : List UInt8) : Option ℕ → Option ℕ
  | some nameEnd => some nameEnd
  | none => strlen name

/-- The loop over the table, from its entry `i` on. -/
def matchIndex (name : List UInt8) (nameLen : ℕ) :
    ℕ → List LongOption → Option (Option (LongOption × ℕ))
  | _, [] => some none
  | i, opt :: longopts =>
      match strlen opt.name with
      | none => none
      | some len =>
          if len = nameLen then
            match strncmp opt.name name nameLen with
            | none => none
            | some r =>
                if r = 0 then some (some (opt, i)) else matchIndex name nameLen (i + 1) longopts
          else matchIndex name nameLen (i + 1) longopts

/-- The end of a call for an option of the table. -/
def LongOption.answer (opt : LongOption) (s : GetoptLong) : ℤ × GetoptLong :=
  match opt.flag with
  | none => (opt.val, s)
  | some address => (0, { s with flags := Function.update s.flags address opt.val })

namespace GetoptLong

def initial (longindex : Option ℤ) (flags : ℕ → ℤ) : GetoptLong :=
  ⟨Getopt.initial, longindex, flags⟩

/-- The call is handed to `getopt`. -/
def handOver (argv : List (List UInt8)) (optstring : List UInt8) (s : GetoptLong) :
    Option (ℤ × GetoptLong) :=
  (Unistd.getopt argv optstring s.getopt).map fun (r, t) => (r, { s with getopt := t })

/-- A call for an option of the table. The pointer is behind the first `=`. -/
def option (argc : ℕ) (optstring : List UInt8) (opt : LongOption) (matchIndex : ℕ)
    (value : Option CharPtr) (s : GetoptLong) : Option (ℤ × GetoptLong) :=
  let s := { s with longindex := s.longindex.map fun _ => (matchIndex : ℤ) }
  let next := s.getopt.optind + 1
  if opt.hasArg = required_argument then
    match value with
    | some value =>
        some (opt.answer { s with
          getopt := { s.getopt with optarg := some value, optind := next } })
    | none =>
        if next < argc then
          some (opt.answer { s with
            getopt := { s.getopt with optarg := some ⟨next, 0⟩, optind := next + 1 } })
        else
          match optstring[0]? with
          | none => none
          | some first =>
              some (charValue (if first = colon then colon else questionMark), { s with
                getopt := { s.getopt with optarg := none, optopt := opt.val, optind := next } })
  else if opt.hasArg = optional_argument then
    some (opt.answer { s with getopt := { s.getopt with optarg := value, optind := next } })
  else some (opt.answer { s with getopt := { s.getopt with optarg := none, optind := next } })

/-- A call for an argument whose name begins behind one or two hyphens. -/
def longName (argv : List (List UInt8)) (optstring : List UInt8) (longopts : List LongOption)
    (arg : List UInt8) (name : ℕ) (second : UInt8) (s : GetoptLong) :
    Option (ℤ × GetoptLong) := do
  let first ← arg[name]?
  if first = 0 then s.handOver argv optstring
  else
    let nameEnd ← strchr (arg.drop name) (charValue equalsSign)
    let nameLen ← nameLength (arg.drop name) nameEnd
    match ← matchIndex (arg.drop name) nameLen 0 longopts with
    | some (opt, i) =>
        s.option argv.length optstring opt i
          (nameEnd.map fun nameEnd => ⟨s.getopt.optind, name + nameEnd + 1⟩)
    | none =>
        if second = hyphen then
          some (charValue questionMark, { s with
            getopt := { s.getopt with optopt := 0, optind := s.getopt.optind + 1 } })
        else s.handOver argv optstring

end GetoptLong

/-- `getopt_long_internal`, where `argv` has a NULL pointer behind its last argument. -/
def getoptLongInternal (argv : List (List UInt8)) (optstring : List UInt8)
    (longopts : List LongOption) (longOnly : Bool) (s : GetoptLong) :
    Option (ℤ × GetoptLong) :=
  match argv[s.getopt.optind]? with
  | none => some (-1, s)
  | some arg =>
      match beginOf arg with
      | none => none
      | some .operand => some (-1, s)
      | some .terminator =>
          some (-1, { s with getopt := { s.getopt with optind := s.getopt.optind + 1 } })
      | some .options => do
          let second ← arg[1]?
          let single ←
            if longOnly ∧ second ≠ hyphen then do
              let third ← arg[2]?
              if third = 0 then (strchr optstring (charValue second)).map Option.isSome
              else some false
            else some false
          if single then s.handOver argv optstring
          else if second = hyphen ∨ longOnly then
            s.longName argv optstring longopts arg (if second = hyphen then 2 else 1) second
          else s.handOver argv optstring

def getoptLong (argv : List (List UInt8)) (optstring : List UInt8)
    (longopts : List LongOption) (s : GetoptLong) : Option (ℤ × GetoptLong) :=
  getoptLongInternal argv optstring longopts false s

/-- A call with the variables before and after it. -/
structure Call (σ : Type*) where
  before : σ
  result : ℤ
  after : σ

def Call.map {σ τ : Type*} (f : σ → τ) (call : Call σ) : Call τ :=
  ⟨f call.before, call.result, f call.after⟩

/-- The calls up to the first one that returns -1. -/
def callsUntilEnd {σ : Type*} (step : σ → Option (ℤ × σ)) : ℕ → σ → Option (List (Call σ))
  | 0, _ => none
  | n + 1, s =>
      match step s with
      | none => none
      | some (r, t) =>
          if r = -1 then some [⟨s, r, t⟩]
          else (callsUntilEnd step n t).map (⟨s, r, t⟩ :: ·)

section Reference

/-- A word of the arguments behind its two hyphens, with the arguments behind it. -/
structure LongWord where
  text : List UInt8
  words : List (List UInt8)
  deriving DecidableEq, Repr

namespace LongWord

def name (w : LongWord) : List UInt8 := w.text.takeWhile (· ≠ equalsSign)

def value (w : LongWord) : Option (List UInt8) := (w.text.dropWhile (· ≠ equalsSign)).tail?

/-- The first entry of the table with this name, and its index. -/
def entry (longopts : List LongOption) (w : LongWord) : Option (LongOption × ℕ) :=
  longopts.zipIdx.find? fun p => p.1.name = w.name

/-- Where the word is in an argument vector of some length. -/
def position (argc : ℕ) (w : LongWord) : ℕ := argc - (w.words.length + 1)

end LongWord

/-- What a call for a long word tells. -/
inductive LongEvent
  | selected (opt : LongOption) (index : ℕ) (argument : Option (List UInt8))
  | unknown
  | missing (opt : LongOption) (index : ℕ)
  | refused (opt : LongOption) (index : ℕ)
  deriving DecidableEq, Repr

def LongWord.event (longopts : List LongOption) (w : LongWord) : LongEvent :=
  match w.entry longopts with
  | none => .unknown
  | some (opt, i) =>
      if opt.hasArg = required_argument then
        match w.value, w.words with
        | some value, _ => .selected opt i (some value)
        | none, word :: _ => .selected opt i (some word)
        | none, [] => .missing opt i
      else if opt.hasArg = optional_argument then .selected opt i w.value
      else if w.value = none then .selected opt i none
      else .refused opt i

/-- The arguments behind the word, less the one that it takes as its own. -/
def LongWord.after (longopts : List LongOption) (w : LongWord) : List (List UInt8) :=
  match w.entry longopts with
  | none => w.words
  | some (opt, _) =>
      if opt.hasArg = required_argument ∧ w.value = none then w.words.tail else w.words

/-- What the scan meets: an option character or a long word. -/
inductive Encounter
  | short (m : Met)
  | long (w : LongWord)
  deriving DecidableEq, Repr

def Scan.encounter (scan : Scan) : Option Encounter :=
  match scan with
  | ⟨[], (first :: second :: c :: text) :: words⟩ =>
      if first = hyphen ∧ second = hyphen then some (.long ⟨c :: text, words⟩)
      else scan.next.map .short
  | scan => scan.next.map .short

/-- What is left to scan behind it. An option character is one as `getopt` takes it. -/
def Encounter.after (optstring : List UInt8) (longopts : List LongOption) : Encounter → Scan
  | .short m => m.after (kindOf optstring m.char)
  | .long w => ⟨[], w.after longopts⟩

/-- The arguments behind the one with the encounter. -/
def Encounter.words : Encounter → List (List UInt8)
  | .short m => m.words
  | .long w => w.words

def Encounter.longWord : Encounter → Option LongWord
  | .short _ => none
  | .long w => some w

theorem Scan.encounter_cases {scan : Scan} {e : Encounter} (h : scan.encounter = some e) :
    (∃ m, e = .short m ∧ scan.next = some m) ∨
      ∃ w, e = .long w ∧ scan.cluster = [] ∧ w.text ≠ [] ∧
        scan.words = (hyphen :: hyphen :: w.text) :: w.words := by
  unfold encounter at h
  split at h
  · split at h
    · rename_i first second c text words hlong
      obtain rfl := Option.some.inj h
      obtain ⟨rfl, rfl⟩ := hlong
      exact Or.inr ⟨_, rfl, rfl, List.cons_ne_nil _ _, rfl⟩
    · obtain ⟨m, hm, rfl⟩ := Option.map_eq_some_iff.mp h
      exact Or.inl ⟨m, rfl, hm⟩
  · obtain ⟨m, hm, rfl⟩ := Option.map_eq_some_iff.mp h
    exact Or.inl ⟨m, rfl, hm⟩

theorem LongWord.length_after_le (longopts : List LongOption) (w : LongWord) :
    (w.after longopts).length ≤ w.words.length := by
  unfold after
  split
  · exact le_refl _
  · split
    · rw [List.length_tail]
      exact Nat.sub_le _ _
    · exact le_refl _

theorem LongWord.sum_after_le (longopts : List LongOption) (w : LongWord) :
    ((w.after longopts).map fun word => word.length + 1).sum ≤
      (w.words.map fun word => word.length + 1).sum := by
  unfold after
  split
  · exact le_refl _
  · split
    · cases w.words with
      | nil => exact le_refl _
      | cons word words => exact Nat.le_add_left _ _
    · exact le_refl _

theorem Scan.size_encounter {scan : Scan} {e : Encounter} (h : scan.encounter = some e)
    (optstring : List UInt8) (longopts : List LongOption) :
    (e.after optstring longopts).size < scan.size := by
  rcases encounter_cases h with ⟨m, rfl, hm⟩ | ⟨w, rfl, hcluster, _, hwords⟩
  · exact size_next hm _
  · have hle := w.sum_after_le longopts
    simp only [Encounter.after, size, hcluster, hwords, List.map_cons, List.sum_cons,
      List.length_nil, List.length_cons]
    omega

/-- All that the scan meets before the first operand or the argument `--`. -/
def Scan.encounters (optstring : List UInt8) (longopts : List LongOption) (scan : Scan) :
    List Encounter :=
  match _ : scan.encounter with
  | none => []
  | some e => e :: (e.after optstring longopts).encounters optstring longopts
termination_by scan.size
decreasing_by exact Scan.size_encounter ‹_› _ _

def Scan.longWords (optstring : List UInt8) (longopts : List LongOption) (scan : Scan) :
    List LongWord :=
  (scan.encounters optstring longopts).filterMap Encounter.longWord

end Reference

end Heartix.Unistd
