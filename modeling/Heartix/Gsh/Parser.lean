import Mathlib.Data.Nat.Basic
import Mathlib.Data.UInt

/-!
The parser of the shell. It reads the input one `char` ahead; the value -1 marks
the end of the input, and as a `char` that is the byte 255.
-/

namespace Heartix.Gsh

abbrev endOfInput : UInt8 := 255
abbrev pipe : UInt8 := 124
abbrev space : UInt8 := 32
abbrev backslash : UInt8 := 92
abbrev quotationMark : UInt8 := 34

def isspace (c : UInt8) : Bool :=
  c == 32 || c == 12 || c == 10 || c == 13 || c == 9 || c == 11

structure Parser where
  input : List UInt8
  position : ℕ
  current : UInt8
  deriving DecidableEq, Repr

structure ProgramCall where
  program : List UInt8
  arguments : List (List UInt8)
  deriving DecidableEq, Repr

/-- The messages of the parser with the value each one prints. -/
inductive ParseError
  | unexpectedCharacter (current : UInt8)
  | expectedProgramCall (position : ℕ)
  deriving DecidableEq, Repr

namespace Parser

def step (p : Parser) : Parser :=
  match p.input[p.position]? with
  | some c => { p with position := p.position + 1, current := c }
  | none => { p with current := endOfInput }

/-- `parser_t::parser_t`. -/
def new (input : List UInt8) : Parser := step ⟨input, 0, endOfInput⟩

/-- An upper bound for the steps still possible. -/
def remaining (p : Parser) : ℕ :=
  (p.input.length - p.position) + (if p.current = endOfInput then 0 else 1)

theorem step_remaining_lt {p : Parser} (h : p.current ≠ endOfInput) :
    p.step.remaining < p.remaining := by
  unfold step remaining
  rcases hget : p.input[p.position]? with _ | c
  · simp [h]
  · have hlt := (List.getElem?_eq_some_iff.mp hget).1
    simp only [h, if_false]
    split <;> omega

theorem ne_endOfInput_of_isspace {c : UInt8} (h : isspace c = true) : c ≠ endOfInput := by
  rintro rfl
  exact absurd h (by decide)

def skipWhitespace (p : Parser) : Parser :=
  if h : isspace p.current = true then skipWhitespace p.step else p
termination_by p.remaining
decreasing_by exact step_remaining_lt (ne_endOfInput_of_isspace h)

/-- The loop of `argument`. -/
def argumentLoop (arg : List UInt8) (instr escaped : Bool) (p : Parser) : List UInt8 × Parser :=
  if _ : p.current = endOfInput then (arg, p)
  else if escaped = false ∧ p.current = backslash then argumentLoop arg instr true p.step
  else if instr = true then
    if p.current = quotationMark ∧ escaped = false then argumentLoop arg false false p.step
    else argumentLoop (arg ++ [p.current]) true false p.step
  else if escaped = false ∧ (p.current = pipe ∨ p.current = space) then (arg, p)
  else if p.current = quotationMark ∧ escaped = false then argumentLoop arg true false p.step
  else argumentLoop (arg ++ [p.current]) false false p.step
termination_by p.remaining
decreasing_by all_goals exact step_remaining_lt ‹_›

/-- `parser_t::argument`. -/
def argument (p : Parser) : Option (List UInt8) × Parser :=
  let p := p.skipWhitespace
  if p.current = endOfInput then (none, p)
  else if p.current = pipe then (none, p)
  else
    match argumentLoop [] false false p with
    | (arg, p) => (some arg, p)

theorem skipWhitespace_remaining_le (p : Parser) :
    p.skipWhitespace.remaining ≤ p.remaining := by
  induction p using skipWhitespace.induct with
  | case1 p h ih =>
    rw [skipWhitespace, dif_pos h]
    exact Nat.le_trans ih (Nat.le_of_lt (step_remaining_lt (ne_endOfInput_of_isspace h)))
  | case2 p h =>
    rw [skipWhitespace, dif_neg h]

theorem skipWhitespace_not_isspace (p : Parser) : isspace p.skipWhitespace.current = false := by
  induction p using skipWhitespace.induct with
  | case1 p h ih => rwa [skipWhitespace, dif_pos h]
  | case2 p h =>
    rw [skipWhitespace, dif_neg h]
    simpa using h

theorem argumentLoop_remaining_le (arg : List UInt8) (instr escaped : Bool) (p : Parser) :
    (argumentLoop arg instr escaped p).2.remaining ≤ p.remaining := by
  fun_induction argumentLoop arg instr escaped p with
  | case1 | case5 => exact Nat.le_refl _
  | case2 _ _ _ p h _ ih | case3 _ _ p h _ _ ih | case4 _ _ p h _ _ ih
  | case6 _ _ _ p h _ _ _ _ ih | case7 _ _ _ p h _ _ _ _ ih =>
    exact Nat.le_trans ih (Nat.le_of_lt (step_remaining_lt h))

/-- An argument takes at least one character. -/
theorem argument_remaining_lt {p q : Parser} {arg : List UInt8}
    (h : p.argument = (some arg, q)) : q.remaining < p.remaining := by
  have hskip := skipWhitespace_remaining_le p
  have hspace := skipWhitespace_not_isspace p
  unfold argument at h
  dsimp only at h
  generalize p.skipWhitespace = r at h hskip hspace
  have hne : r.current ≠ space := by
    intro heq
    rw [heq] at hspace
    exact absurd hspace (by decide)
  by_cases hend : r.current = endOfInput
  · simp [hend] at h
  · by_cases hpipe : r.current = pipe
    · simp [hpipe] at h
    · rw [if_neg hend, if_neg hpipe] at h
      have hle : (argumentLoop [] false false r).2.remaining ≤ r.step.remaining := by
        unfold argumentLoop
        rw [dif_neg hend]
        split
        · exact argumentLoop_remaining_le ..
        · simp only [Bool.false_eq_true, if_false, hpipe, hne, or_self, and_false]
          split
          · exact argumentLoop_remaining_le ..
          · exact argumentLoop_remaining_le ..
      have hq : (argumentLoop [] false false r).2 = q := (Prod.mk.inj h).2
      rw [hq] at hle
      have hlt := step_remaining_lt hend
      omega

/-- The loop of `program_call` over the program name. -/
def programLoop (program : List UInt8) (p : Parser) : List UInt8 × Parser :=
  if h : p.current ≠ endOfInput ∧ p.current ≠ pipe ∧ isspace p.current = false then
    programLoop (program ++ [p.current]) p.step
  else (program, p)
termination_by p.remaining
decreasing_by exact step_remaining_lt h.1

/-- The loop of `program_call` over the arguments. -/
def argumentsLoop (arguments : List (List UInt8)) (p : Parser) : List (List UInt8) × Parser :=
  match h : p.argument with
  | (none, q) => (arguments, q)
  | (some arg, q) => argumentsLoop (arguments ++ [arg]) q
termination_by p.remaining
decreasing_by exact argument_remaining_lt h

/-- `parser_t::program_call`. -/
def programCall (p : Parser) : Option ProgramCall × Parser :=
  match programLoop [] p with
  | (program, p) =>
      if program = [] then (none, p)
      else
        match argumentsLoop [] p with
        | (arguments, p) => (some ⟨program, arguments⟩, p)

theorem argument_remaining_le (p : Parser) : p.argument.2.remaining ≤ p.remaining := by
  have hskip := skipWhitespace_remaining_le p
  unfold argument
  dsimp only
  split
  · exact hskip
  · split
    · exact hskip
    · exact Nat.le_trans (argumentLoop_remaining_le ..) hskip

theorem programLoop_remaining_le (program : List UInt8) (p : Parser) :
    (programLoop program p).2.remaining ≤ p.remaining := by
  fun_induction programLoop program p with
  | case1 _ p h ih => exact Nat.le_trans ih (Nat.le_of_lt (step_remaining_lt h.1))
  | case2 => exact Nat.le_refl _

theorem argumentsLoop_remaining_le (arguments : List (List UInt8)) (p : Parser) :
    (argumentsLoop arguments p).2.remaining ≤ p.remaining := by
  fun_induction argumentsLoop arguments p with
  | case1 _ p q h =>
    have hle := argument_remaining_le p
    rwa [h] at hle
  | case2 _ p arg q h ih => exact Nat.le_trans ih (Nat.le_of_lt (argument_remaining_lt h))

theorem programCall_remaining_le (p : Parser) : p.programCall.2.remaining ≤ p.remaining := by
  have hprogram := programLoop_remaining_le [] p
  unfold programCall
  generalize programLoop [] p = result at hprogram ⊢
  obtain ⟨program, q⟩ := result
  dsimp only at hprogram ⊢
  split
  · exact hprogram
  · exact Nat.le_trans (argumentsLoop_remaining_le [] q) hprogram

/-- The loop of `pipe_expression`. -/
def pipeExpressionLoop (calls : List ProgramCall) (p : Parser) :
    Except ParseError (List ProgramCall) :=
  match h : p.skipWhitespace.programCall with
  | (none, q) => .error (.expectedProgramCall q.position)
  | (some call, q) =>
      if hpipe : q.skipWhitespace.current = pipe then
        pipeExpressionLoop (calls ++ [call]) q.skipWhitespace.step
      else if q.skipWhitespace.current = endOfInput then .ok (calls ++ [call])
      else .error (.unexpectedCharacter q.skipWhitespace.current)
termination_by p.remaining
decreasing_by
  have hcall := programCall_remaining_le p.skipWhitespace
  rw [h] at hcall
  have hne : q.skipWhitespace.current ≠ endOfInput := by
    rw [hpipe]
    decide
  have hstep := step_remaining_lt hne
  have hskip := skipWhitespace_remaining_le p
  have hskip' := skipWhitespace_remaining_le q
  dsimp only at hcall
  omega

/-- `parser_t::pipe_expression`. -/
def pipeExpression (p : Parser) : Except ParseError (List ProgramCall) :=
  pipeExpressionLoop [] p

end Parser

end Heartix.Gsh
