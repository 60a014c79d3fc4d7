import Heartix.Terminal.Client
import Heartix.Terminal.ParameterBounds

/-!
Which fields of a sequence are found in the parameters when its control character is
processed, after any output before it. The server clears its parameters only after a
sequence, and the first one is read on top of what was in its memory.
-/

namespace Heartix.Terminal

variable {σ : Type*}

/-- A complete sequence, with as many parameters as its performance may read. -/
structure EscapeSequence where
  opening : Char
  within : StreamStatus
  opens : Opens opening within
  body : List UInt8
  isBody : ∀ c ∈ body, isDigit c ∨ c = ';'.toUInt8
  control : UInt8
  isControl : ¬ isDigit control ∧ control ≠ ';'.toUInt8
  counts : body.foldl counted 0 < 2 ^ 31
  inRange : within = .withinVt100 → control = 'm'.toUInt8 →
    body.foldl counted 0 ≤ TERMINAL_STREAM_CONTROL_MAX_PARAMETERS

def EscapeSequence.bytes (e : EscapeSequence) : List UInt8 :=
  G_TERMKEY_ESC :: e.opening.toUInt8 :: (e.body ++ [e.control])

/-- What a program puts out: a character outside every sequence, or a sequence. -/
inductive Output where
  | text (c : UInt8) (h : c ≠ G_TERMKEY_ESC)
  | sequence (e : EscapeSequence)

namespace Output

def bytes : Output → List UInt8
  | text c _ => [c]
  | sequence e => e.bytes

def isSequence : Output → Bool
  | text _ _ => false
  | sequence _ => true

end Output

section Server

variable {S : Screen σ} {isStderr : Bool} {status : StreamControlStatus} {t : Server σ}

theorem foldlM_body {opening : Char} {within : StreamStatus} (hopens : Opens opening within)
    (hrest : status.AtRest) {body : List UInt8} (hbody : ∀ c ∈ body, isDigit c ∨ c = ';'.toUInt8)
    (hcount : body.foldl counted 0 < 2 ^ 31) :
    (G_TERMKEY_ESC :: opening.toUInt8 :: body).foldlM (processOutput S isStderr) (status, t) =
      some (({ status with status := within } : StreamControlStatus).scanning
        (body.foldl Scanner.step ⟨0, status.parameters⟩), t) := by
  have hstart : { status with status := within } =
      ({ status with status := within } : StreamControlStatus).scanning
        ⟨0, status.parameters⟩ := by
    obtain ⟨kind, count, parameters, control⟩ := status
    obtain rfl : count = 0 := hrest.2
    rfl
  rw [foldlM_opening hopens hrest, hstart]
  exact foldlM_scanning hopens.isWithin hbody _ hcount

theorem processFinish_ready {c : UInt8} {status' : StreamControlStatus} {u : Server σ}
    (h : processFinish S status t c = some (status', u)) : status'.Ready := by
  unfold processFinish at h
  dsimp only at h
  split at h
  · obtain ⟨v, _, hv⟩ := Option.map_eq_some_iff.mp h
    obtain ⟨rfl, _⟩ := Prod.mk.inj hv
    exact reset_ready _
  · obtain ⟨rfl, _⟩ := Prod.mk.inj (Option.some.inj h)
    exact reset_ready _

theorem foldlM_sequence (S : Screen σ) (isStderr : Bool) (t : Server σ) (hrest : status.AtRest)
    (e : EscapeSequence) :
    ∃ status' u, e.bytes.foldlM (processOutput S isStderr) (status, t) = some (status', u) ∧
      status'.Ready := by
  let before := ({ status with status := e.within } : StreamControlStatus).scanning
    (e.body.foldl Scanner.step ⟨0, status.parameters⟩)
  have hcount : before.parameterCount = (e.body.foldl counted 0 : ℕ) :=
    congrArg Nat.cast (Scanner.foldl_parameterCount e.body ⟨0, status.parameters⟩)
  have hfinish : (processFinish S before t e.control).isSome := by
    rw [processFinish_isSome_iff, hcount]
    intro hvt hm
    exact_mod_cast e.inRange hvt hm
  obtain ⟨⟨status', u⟩, hu⟩ := Option.isSome_iff_exists.mp hfinish
  refine ⟨status', u, ?_, processFinish_ready hu⟩
  have hsplit : e.bytes = (G_TERMKEY_ESC :: e.opening.toUInt8 :: e.body) ++ [e.control] := rfl
  rw [hsplit, List.foldlM_append, foldlM_body e.opens hrest e.isBody e.counts,
    Option.bind_eq_bind, Option.bind_some, List.foldlM_cons,
    processOutput_finish e.opens.isWithin (by simpa using e.isControl.1) e.isControl.2, hu]
  rfl

/-- Between two pieces of output the decoder is at rest, and its parameters are zero
once a sequence has been performed. -/
theorem foldlM_outputs (S : Screen σ) (isStderr : Bool) (status : StreamControlStatus)
    (t : Server σ) (hrest : status.AtRest) (earlier : List Output) :
    ∃ status' u, (earlier.flatMap Output.bytes).foldlM (processOutput S isStderr) (status, t) =
        some (status', u) ∧ status'.AtRest ∧
      status'.parameters = if earlier.any Output.isSequence then Vector.replicate _ 0
        else status.parameters := by
  induction earlier generalizing status t with
  | nil => exact ⟨status, t, rfl, hrest, rfl⟩
  | cons output earlier ih =>
    cases output with
    | text c h =>
      have hstep : (Output.text c h).bytes.foldlM (processOutput S isStderr) (status, t) =
          some (status, (Operation.text c).perform S isStderr t) := foldlM_textChar hrest.1 h
      obtain ⟨status', u, hrun, hrest', hparameters⟩ :=
        ih status ((Operation.text c).perform S isStderr t) hrest
      refine ⟨status', u, ?_, hrest', hparameters⟩
      rw [List.flatMap_cons, List.foldlM_append, hstep, Option.bind_eq_bind, Option.bind_some,
        hrun]
    | sequence e =>
      obtain ⟨ready, v, hstep, hready⟩ := foldlM_sequence S isStderr t hrest e
      obtain ⟨status', u, hrun, hrest', hparameters⟩ := ih ready v ⟨hready.1, hready.2.1⟩
      refine ⟨status', u, ?_, hrest', ?_⟩
      · have hbytes : (Output.sequence e).bytes = e.bytes := rfl
        rw [List.flatMap_cons, List.foldlM_append, hbytes, hstep, Option.bind_eq_bind,
          Option.bind_some, hrun]
      · rw [hparameters, hready.2.2, ite_self]
        rfl

end Server

/-- When the control character of the sequence is processed, after any earlier output,
every parameter of the server holds the value of its field, whatever was in the
decoder's memory when it was constructed. -/
def ServerHolds (S : Screen σ) (isStderr : Bool) (t : Server σ) (earlier : List Output)
    (p : ParameterFields) : Prop :=
  ∀ memory controlCharacter, ∃ status u before,
    (earlier.flatMap Output.bytes).foldlM (terminalProcessOutput S isStderr)
        (StreamControlStatus.construct memory controlCharacter, t) = some (status, u) ∧
      (G_TERMKEY_ESC :: '['.toUInt8 :: p.bytes).foldlM (terminalProcessOutput S isStderr)
        (status, u) = some (before, u) ∧
      (∀ c, ¬ isDigit c → c ≠ ';'.toUInt8 →
        terminalProcessOutput S isStderr (before, u) c = processFinish S before u c) ∧
      p.Hold before.parameters

/-- The client reads the same text into the same parameters. -/
def ClientHolds (p : ParameterFields) : Prop :=
  ∀ (ending : UInt8) (rest : List UInt8) (fuel : ℕ),
    ¬ isDigit ending ∧ ending ≠ ';'.toUInt8 ∧ ending ≠ G_TERMKEY_SUB → p.bytes.length < fuel →
      ∃ parameters,
        readEscapedParameters fuel (p.bytes ++ ending :: rest) 0 (Vector.replicate _ 0) =
          some ((ending.toNat : ℤ), parameters, rest) ∧
        p.Hold parameters

/-- From the decoder between two sequences, the server reads the fields up to the
control character. -/
theorem foldlM_fields (S : Screen σ) (isStderr : Bool) {status : StreamControlStatus}
    (t : Server σ) (hrest : status.AtRest) (p : ParameterFields) :
    ∃ before, (G_TERMKEY_ESC :: '['.toUInt8 :: p.bytes).foldlM
        (terminalProcessOutput S isStderr) (status, t) = some (before, t) ∧
      (∀ c, ¬ isDigit c → c ≠ ';'.toUInt8 →
        terminalProcessOutput S isStderr (before, t) c = processFinish S before t c) ∧
      before.parameters = (p.bytes.foldl Scanner.step ⟨0, status.parameters⟩).parameters := by
  refine ⟨_, foldlM_body .vt100 hrest p.isBody p.counts, fun c hdigit hsep => ?_, rfl⟩
  exact processOutput_finish (Or.inl rfl) (by simpa using hdigit) hsep

theorem serverHolds_iff (S : Screen σ) (isStderr : Bool) (t : Server σ) (earlier : List Output)
    (p : ParameterFields) :
    ServerHolds S isStderr t earlier p ↔
      p.FirstCounts ∧ (earlier.any Output.isSequence ∨ p.Flushed) := by
  have hbefore (memory : Vector ℤ TERMINAL_STREAM_CONTROL_MAX_PARAMETERS)
      (controlCharacter : UInt8) :=
    foldlM_outputs S isStderr (StreamControlStatus.construct memory controlCharacter) t
      ⟨rfl, rfl⟩ earlier
  have hread : ServerHolds S isStderr t earlier p ↔
      ∀ memory, p.Hold (p.bytes.foldl Scanner.step
        ⟨0, if earlier.any Output.isSequence then Vector.replicate _ 0
          else memory⟩).parameters := by
    constructor
    · intro h memory
      obtain ⟨status, u, before, hrun, hfields, _, hhold⟩ := h memory 0
      obtain ⟨status', u', hrun', hrest, hparameters⟩ := hbefore memory 0
      obtain ⟨rfl, rfl⟩ := Prod.mk.inj (Option.some.inj (hrun.symm.trans hrun'))
      obtain ⟨before', hfields', _, hvalues⟩ := foldlM_fields S isStderr u hrest p
      obtain ⟨rfl, _⟩ := Prod.mk.inj (Option.some.inj (hfields.symm.trans hfields'))
      rw [hvalues, hparameters] at hhold
      exact hhold
    · intro h memory controlCharacter
      obtain ⟨status, u, hrun, hrest, hparameters⟩ := hbefore memory controlCharacter
      obtain ⟨before, hfields, hcontrol, hvalues⟩ := foldlM_fields S isStderr u hrest p
      refine ⟨status, u, before, hrun, hfields, hcontrol, ?_⟩
      rw [hvalues, hparameters]
      exact h memory
  rw [hread]
  cases earlier.any Output.isSequence with
  | true => simp [ParameterFields.hold_cleared_iff]
  | false => simp [ParameterFields.hold_uncleared_iff]

/-- The client reads every text of fields as the server does after a sequence. -/
theorem readEscapedParameters_fields (p : ParameterFields) {ending : UInt8}
    (hending : ¬ isDigit ending ∧ ending ≠ ';'.toUInt8 ∧ ending ≠ G_TERMKEY_SUB) {fuel : ℕ}
    (hfuel : p.bytes.length < fuel) (rest : List UInt8) :
    readEscapedParameters fuel (p.bytes ++ ending :: rest) 0 (Vector.replicate _ 0) =
      some ((ending.toNat : ℤ),
        (p.bytes.foldl Scanner.step ⟨0, Vector.replicate _ 0⟩).parameters, rest) :=
  readEscapedParameters_scanning p.isBody hending hfuel rest ⟨0, Vector.replicate _ 0⟩

theorem clientHolds_iff (p : ParameterFields) : ClientHolds p ↔ p.FirstCounts := by
  rw [← ParameterFields.hold_cleared_iff]
  constructor
  · intro h
    obtain ⟨parameters, hread, hhold⟩ :=
      h 'R'.toUInt8 [] (p.bytes.length + 1) (by decide) (Nat.lt_succ_self _)
    rw [readEscapedParameters_fields p (by decide) (Nat.lt_succ_self _) []] at hread
    simp only [Option.some.injEq, Prod.mk.injEq] at hread
    rw [hread.2.1]
    exact hhold
  · intro h ending rest fuel hending hfuel
    exact ⟨_, readEscapedParameters_fields p hending hfuel rest, h⟩

/-- The server's decoder and the client library put the values of the fields into
their parameters exactly when the first field counts, and the server has cleared
its parameters or what was in them is flushed. -/
theorem parameter_positions_iff (S : Screen σ) (isStderr : Bool) (t : Server σ)
    (earlier : List Output) (p : ParameterFields) :
    ServerHolds S isStderr t earlier p ∧ ClientHolds p ↔
      p.FirstCounts ∧ (earlier.any Output.isSequence ∨ p.Flushed) := by
  rw [serverHolds_iff, clientHolds_iff]
  constructor
  · exact fun h => h.1
  · exact fun h => ⟨h, h.1⟩

/-- One complete sequence before, and an empty first field. -/
theorem parameter_positions_empty_first :
    ¬ ∀ earlier p, ServerHolds blindScreen false initialServer earlier p ∧ ClientHolds p := by
  intro h
  let up : EscapeSequence :=
    ⟨'[', .withinVt100, .vt100, ['1'.toUInt8], List.forall_mem_singleton.mpr (by decide),
      'A'.toUInt8, by decide, by decide, fun _ hm => absurd hm (by decide)⟩
  let five : ParameterField :=
    ⟨['5'.toUInt8], List.forall_mem_singleton.mpr (by decide), by decide⟩
  let column : ParameterFields := ⟨[⟨[], List.forall_mem_nil _, by decide⟩, five], by decide⟩
  obtain ⟨hfirst, _⟩ := (serverHolds_iff blindScreen false initialServer _ column).mp
    (h [.sequence up] column).1
  rcases hfirst with hfirst | hzero
  · exact hfirst _ rfl rfl
  · have hvalue : five.value = 0 := hzero five (by simp [column])
    exact absurd hvalue (by decide)

end Heartix.Terminal
