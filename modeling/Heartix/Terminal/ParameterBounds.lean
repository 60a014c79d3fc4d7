import Heartix.Terminal.Stream

/-!
Which output keeps the decoder inside its parameters. Every separator advances
the parameter count without a limit. The digits are guarded against a count
above the maximum, but not against one that has wrapped below zero, and the
loop of the mode sequence uses the count as its bound.
-/

namespace Heartix.Terminal

open Runs

variable {σ : Type*}

theorem parameter_isSome_iff (status : StreamControlStatus) (i : ℤ) :
    (status.parameter i).isSome ↔ 0 ≤ i ∧ i < TERMINAL_STREAM_CONTROL_MAX_PARAMETERS := by
  unfold StreamControlStatus.parameter
  by_cases hi : 0 ≤ i
  · rw [if_pos hi]
    by_cases hlt : i.toNat < TERMINAL_STREAM_CONTROL_MAX_PARAMETERS
    · rw [getElem?_pos status.parameters i.toNat hlt]
      simp only [Option.isSome_some, true_iff]
      omega
    · rw [getElem?_neg status.parameters i.toNat hlt]
      simp only [Option.isSome_none, Bool.false_eq_true, false_iff]
      omega
  · rw [if_neg hi]
    simp [hi]

theorem setParameter_isSome_iff {status : StreamControlStatus} {i value : ℤ} :
    (status.setParameter i value).isSome ↔
      0 ≤ i ∧ i < TERMINAL_STREAM_CONTROL_MAX_PARAMETERS := by
  unfold StreamControlStatus.setParameter
  split <;> simp_all

theorem setModes_isSome_iff (S : Screen σ) (status : StreamControlStatus) (i n : ℕ) (s : σ) :
    (S.setModes status i n s).isSome ↔
      n = 0 ∨ i + n ≤ TERMINAL_STREAM_CONTROL_MAX_PARAMETERS := by
  induction n generalizing i s with
  | zero => simp [Screen.setModes]
  | succ n ih =>
    unfold Screen.setModes
    have hparam := parameter_isSome_iff status i
    cases hget : status.parameter i with
    | none =>
      rw [hget] at hparam
      simp only [Option.isSome_none, Bool.false_eq_true, false_iff] at hparam ⊢
      omega
    | some param =>
      rw [hget] at hparam
      have hlt := hparam.mp rfl
      dsimp only
      rw [ih]
      omega

theorem processDigit_isSome_iff {status : StreamControlStatus} {c : UInt8} :
    (processDigit status c).isSome ↔ 0 ≤ status.parameterCount := by
  have hmax : (TERMINAL_STREAM_CONTROL_MAX_PARAMETERS : ℤ) = 4 := rfl
  unfold processDigit
  generalize hcurrent : (if status.parameterCount = 0 then
    { status with parameterCount := 1 } else status) = current
  have hcount : 0 ≤ status.parameterCount ↔ 1 ≤ current.parameterCount := by
    rw [← hcurrent]
    by_cases hzero : status.parameterCount = 0
    · rw [if_pos hzero, hzero]
      simp
    · rw [if_neg hzero]
      omega
  rw [hcount]
  dsimp only
  by_cases hlarge : current.parameterCount ≤ TERMINAL_STREAM_CONTROL_MAX_PARAMETERS
  · rw [if_pos hlarge]
    have hparam := parameter_isSome_iff current (current.parameterCount - 1)
    cases hget : current.parameter (current.parameterCount - 1) with
    | none =>
      rw [hget] at hparam
      simp only [Option.isSome_none, Bool.false_eq_true, false_iff] at hparam ⊢
      omega
    | some p =>
      dsimp only
      rw [setParameter_isSome_iff]
      omega
  · rw [if_neg hlarge]
    simp only [Option.isSome_some, true_iff]
    omega

/-- A step that stays inside the parameters: a mode sequence has at most as many
parameters as the decoder keeps, and a digit meets a count that has not wrapped. -/
def InRange (s : StreamControlStatus × Server σ) (c : UInt8) : Prop :=
  match s.1.status with
  | .text => True
  | .lastWasEsc => True
  | .withinVt100 =>
      (isDigit c → 0 ≤ s.1.parameterCount) ∧
        (c = 'm'.toUInt8 →
          s.1.parameterCount ≤ TERMINAL_STREAM_CONTROL_MAX_PARAMETERS)
  | .withinGhostterm => isDigit c → 0 ≤ s.1.parameterCount

theorem eq_toUInt8_of_ofUInt8_eq {b : UInt8} {c : Char} (h : Char.ofUInt8 b = c) :
    b = c.toUInt8 := by
  rw [← h]
  exact (UInt8.toUInt8_toUInt32 b).symm

theorem processSequenceVt100_isSome_iff (S : Screen σ) (status : StreamControlStatus)
    (t : Server σ) :
    (processSequenceVt100 S status t).isSome ↔
      (status.controlCharacter = 'm'.toUInt8 →
        status.parameterCount ≤ TERMINAL_STREAM_CONTROL_MAX_PARAMETERS) := by
  by_cases hm : status.controlCharacter = 'm'.toUInt8
  · have hloop : processSequenceVt100 S status t =
        (S.setModes status 0 status.parameterCount.toNat t.screen).map
          fun s => { t with screen := s } := by
      unfold processSequenceVt100
      rw [hm]
      rfl
    rw [hloop, Option.isSome_map, setModes_isSome_iff]
    constructor
    · intro h _
      omega
    · intro h
      have hle := h hm
      omega
  · refine iff_of_true ?_ (fun h => absurd h hm)
    unfold processSequenceVt100
    dsimp only
    split
    case h_5 heq => exact absurd (eq_toUInt8_of_ofUInt8_eq heq) hm
    all_goals first | rfl | (split <;> rfl)

theorem processFinish_isSome_iff (S : Screen σ) (status : StreamControlStatus)
    (t : Server σ) (c : UInt8) :
    (processFinish S status t c).isSome ↔
      (status.status = .withinVt100 → c = 'm'.toUInt8 →
        status.parameterCount ≤ TERMINAL_STREAM_CONTROL_MAX_PARAMETERS) := by
  unfold processFinish
  dsimp only
  by_cases hvt : status.status = .withinVt100
  · rw [if_pos hvt, Option.isSome_map, processSequenceVt100_isSome_iff]
    simp only [hvt, true_imp_iff]
  · rw [if_neg hvt]
    simp [hvt]

theorem processWithin_isSome_iff (S : Screen σ) (status : StreamControlStatus)
    (t : Server σ) (c : UInt8) :
    (processWithin S status t c).isSome ↔
      (isDigit c → 0 ≤ status.parameterCount) ∧
        (status.status = .withinVt100 → c = 'm'.toUInt8 →
          status.parameterCount ≤ TERMINAL_STREAM_CONTROL_MAX_PARAMETERS) := by
  unfold processWithin
  by_cases hdigit : isDigit c
  · have hne : c ≠ 'm'.toUInt8 := by
      rintro rfl
      exact absurd hdigit (by decide)
    rw [if_pos hdigit, Option.isSome_map, processDigit_isSome_iff]
    simp [hdigit, hne]
  · rw [if_neg hdigit]
    by_cases hsep : c = ';'.toUInt8
    · have hne : c ≠ 'm'.toUInt8 := by
        rw [hsep]
        decide
      rw [if_pos hsep]
      simp [hdigit, hne]
    · rw [if_neg hsep, processFinish_isSome_iff]
      simp [hdigit]

theorem processOutput_isSome_iff (S : Screen σ) (isStderr : Bool)
    (s : StreamControlStatus × Server σ) (c : UInt8) :
    (processOutput S isStderr s c).isSome ↔ InRange s c := by
  obtain ⟨status, t⟩ := s
  unfold processOutput InRange
  dsimp only
  cases hstatus : status.status with
  | text => simp
  | lastWasEsc => simp
  | withinVt100 =>
    rw [processWithin_isSome_iff]
    simp [hstatus]
  | withinGhostterm =>
    rw [processWithin_isSome_iff]
    simp [hstatus]

theorem parameters_in_range_iff (S : Screen σ) (isStderr : Bool) (bytes : List UInt8)
    (s : StreamControlStatus × Server σ) :
    Along (processOutput S isStderr) (fun _ => True) bytes s ↔
      Guarded (processOutput S isStderr) InRange bytes s := by
  refine along_iff_guarded (I := fun _ => True) (fun _ h => h) ?_ ?_ bytes trivial
  · intro s c _ hin
    obtain ⟨t, ht⟩ := Option.isSome_iff_exists.mp
      ((processOutput_isSome_iff S isStderr s c).mpr hin)
    exact ⟨t, ht, trivial⟩
  · intro s c _ hout t ht
    have hsome : (processOutput S isStderr s c).isSome := by rw [ht, Option.isSome_some]
    exact absurd ((processOutput_isSome_iff S isStderr s c).mp hsome) hout

/-- From a newly constructed decoder, the parameters are read and written inside
the array along exactly the runs whose mode sequences have at most as many
parameters as the array, and whose digits meet a count that has not wrapped. -/
theorem escape_parser_in_range_iff (S : Screen σ) (isStderr : Bool) (bytes : List UInt8)
    (parameters : Vector ℤ TERMINAL_STREAM_CONTROL_MAX_PARAMETERS)
    (controlCharacter : UInt8) (t : Server σ) :
    let start := (StreamControlStatus.construct parameters controlCharacter, t)
    (Along (terminalProcessOutput S isStderr) (fun _ => True) bytes start ↔
        Guarded (terminalProcessOutput S isStderr) InRange bytes start) ∧
      (Along (ghshProcessOutput S isStderr) (fun _ => True) bytes start ↔
        Guarded (ghshProcessOutput S isStderr) InRange bytes start) :=
  ⟨parameters_in_range_iff S isStderr bytes _, parameters_in_range_iff S isStderr bytes _⟩

/-- A screen without a state. -/
def blindScreen : Screen Unit where
  write _ s := s
  remove s := s
  clean s := s
  flush s := s
  setCursor _ _ s := s
  getCursorX _ := 0
  getCursorY _ := 0
  setCursorVisible _ s := s
  setScrollAreaScreen s := s
  setScrollArea _ _ s := s
  scroll _ s := s
  getColumns _ := 80
  getRows _ := 25
  setColorForeground _ s := s
  setColorBackground _ s := s
  getColorForeground _ := SC_WHITE

def initialServer : Server Unit where
  screen := ()
  inputMode := 0
  inputEcho := true
  controlProcess := 0
  shellStdin := []

/-- Five separators in a mode sequence. -/
theorem escape_parser_reads_past_end :
    ¬ ∀ bytes, Along (terminalProcessOutput blindScreen false) (fun _ => True) bytes
      (StreamControlStatus.construct (Vector.replicate _ 0) 0, initialServer) := by
  intro h
  obtain ⟨u, hrun, _⟩ := (h (G_TERMKEY_ESC :: "[;;;;;m".toUTF8.toList)).foldlM
  have hnone : ((G_TERMKEY_ESC :: "[;;;;;m".toUTF8.toList).foldlM
      (terminalProcessOutput blindScreen false)
      (StreamControlStatus.construct (Vector.replicate _ 0) 0, initialServer)).isSome =
        false := by
    decide +kernel
  rw [hrun] at hnone
  cases hnone

end Heartix.Terminal
