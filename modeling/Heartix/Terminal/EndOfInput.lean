import Heartix.Terminal.Client

/-!
The queries of the client library on an input that ends. Behind the last byte
`getc` returns -1 from then on, and the readers pass it on in different ways: the
decoder of extended keys and the scanner of the parameters stop at it, the loop
that waits for the escape character takes it for a key.
-/

namespace Heartix.Terminal

namespace Ended

/-- `getc` on the bytes that are left of the input. -/
def getc : List UInt8 → ℤ × List UInt8
  | [] => (-1, [])
  | c :: rest => (c.toNat, rest)

def readUnbuffered (stdin : List UInt8) : ℤ × List UInt8 :=
  let (c, rest) := getc stdin
  if c = G_TERMKEY_SUB.toNat then
    let (b1, rest) := getc rest
    if b1 = -1 then (-1, rest)
    else
      let (b2, rest) := getc rest
      if b2 = -1 then (-1, rest) else (((b2.toNat <<< 8 ||| b1.toNat : ℕ) : ℤ), rest)
  else (c, rest)

/-- The first number bounds the rounds. -/
def readAndBufferUntilESC : ℕ → Client → Option Client
  | 0, _ => none
  | fuel + 1, s =>
      let (c, rest) := readUnbuffered s.stdin
      if c = G_TERMKEY_ESC.toNat then some { s with stdin := rest }
      else readAndBufferUntilESC fuel ({ s with stdin := rest }.bufferChar c)

def readEscapedParameters : ℕ → List UInt8 → ℕ → Vector ℤ TERMINAL_STREAM_CONTROL_MAX_PARAMETERS →
    Option (ℤ × Vector ℤ TERMINAL_STREAM_CONTROL_MAX_PARAMETERS × List UInt8)
  | 0, _, _, _ => none
  | fuel + 1, stdin, parameterCount, parameters =>
      let (c, rest) := readUnbuffered stdin
      if 48 ≤ c ∧ c ≤ 57 then
        let parameterCount := max 1 parameterCount
        if h : 1 ≤ parameterCount ∧ parameterCount ≤ TERMINAL_STREAM_CONTROL_MAX_PARAMETERS then
          readEscapedParameters fuel rest parameterCount (parameters.set (parameterCount - 1)
            (((getElem parameters (parameterCount - 1) (current_lt h) * 10).bmod (2 ^ 32) +
              (c - 48)).bmod (2 ^ 32)) (current_lt h))
        else readEscapedParameters fuel rest parameterCount parameters
      else if c = 59 then readEscapedParameters fuel rest (parameterCount + 1) parameters
      else some (c, parameters, rest)

/-- The request, the wait for the response, and the response. -/
def query (request : String) (opening ending : Char) (fuel : ℕ) (s : Client) :
    Option ((ℤ × ℤ) × Client) :=
  match readAndBufferUntilESC fuel { s with
      stdout := s.stdout ++ terminalCommand request [] } with
  | none => none
  | some s =>
      let (ch, rest) := readUnbuffered s.stdin
      if ch = opening.toNat then
        match readEscapedParameters fuel rest 0 (Vector.replicate _ 0) with
        | none => none
        | some (mode, parameters, rest) =>
            if mode = ending.toNat then
              some ((getElem parameters 0 first_lt, getElem parameters 1 second_lt),
                { s with stdin := rest })
            else some ((-1, -1), { s with stdin := rest })
      else some ((-1, -1), { s with stdin := rest })

/-- The position, row before column. -/
def getCursor : ℕ → Client → Option ((ℤ × ℤ) × Client) := query "[6n" '[' 'R'

/-- The size, columns before rows. -/
def getSize : ℕ → Client → Option ((ℤ × ℤ) × Client) := query "\x7bi" '\x7b' 'i'

variable {stdin : List UInt8} {s t : Client} {fuel : ℕ}

theorem readUnbuffered_sub (b1 b2 : UInt8) (rest : List UInt8) :
    readUnbuffered (G_TERMKEY_SUB :: b1 :: b2 :: rest) =
      (((b2.toNat <<< 8 ||| b1.toNat : ℕ) : ℤ), rest) := by
  unfold readUnbuffered getc
  dsimp only
  rw [if_pos rfl, if_neg (by omega), if_neg (by omega)]
  rfl

theorem readUnbuffered_of_ne {c : UInt8} (h : c ≠ G_TERMKEY_SUB) (rest : List UInt8) :
    readUnbuffered (c :: rest) = ((c.toNat : ℤ), rest) := by
  have hne : (c.toNat : ℤ) ≠ G_TERMKEY_SUB.toNat :=
    fun heq => h (UInt8.toNat_inj.mp (Int.ofNat.inj heq))
  unfold readUnbuffered getc
  dsimp only
  rw [if_neg hne]

section Waiting

/-- A reader that does not wait reads what it would read on an input that ends. -/
theorem readUnbuffered_of_waiting {p : ℤ × List UInt8}
    (h : Terminal.readUnbuffered stdin = some p) : readUnbuffered stdin = p := by
  cases stdin with
  | nil => cases h
  | cons c rest =>
    by_cases hsub : c = G_TERMKEY_SUB
    · subst hsub
      match rest with
      | [] => cases h
      | [_] => cases h
      | b1 :: b2 :: rest =>
        rw [Client.readUnbuffered_sub] at h
        rw [readUnbuffered_sub]
        exact Option.some.inj h
    · rw [Client.readUnbuffered_of_ne hsub] at h
      rw [readUnbuffered_of_ne hsub]
      exact Option.some.inj h

theorem readAndBufferUntilESC_of_waiting {rounds : ℕ}
    (h : s.readAndBufferUntilESC rounds = some t) (hfuel : rounds ≤ fuel) :
    readAndBufferUntilESC fuel s = some t := by
  induction rounds generalizing s fuel with
  | zero => cases h
  | succ rounds ih =>
    cases fuel with
    | zero => cases hfuel
    | succ fuel =>
      rw [Client.readAndBufferUntilESC] at h
      cases hread : Terminal.readUnbuffered s.stdin with
      | none =>
        rw [hread] at h
        cases h
      | some p =>
        rw [hread] at h
        rw [readAndBufferUntilESC, readUnbuffered_of_waiting hread]
        dsimp only at h ⊢
        by_cases hesc : p.1 = (G_TERMKEY_ESC.toNat : ℤ)
        · rw [if_pos hesc] at h ⊢
          exact h
        · rw [if_neg hesc] at h ⊢
          exact ih h (Nat.le_of_succ_le_succ hfuel)

theorem readEscapedParameters_of_waiting {rounds parameterCount : ℕ}
    {parameters : Vector ℤ TERMINAL_STREAM_CONTROL_MAX_PARAMETERS}
    {result : ℤ × Vector ℤ TERMINAL_STREAM_CONTROL_MAX_PARAMETERS × List UInt8}
    (h : Terminal.readEscapedParameters rounds stdin parameterCount parameters = some result)
    (hfuel : rounds ≤ fuel) :
    readEscapedParameters fuel stdin parameterCount parameters = some result := by
  induction rounds generalizing stdin fuel parameterCount parameters with
  | zero => cases h
  | succ rounds ih =>
    cases fuel with
    | zero => cases hfuel
    | succ fuel =>
      rw [Terminal.readEscapedParameters] at h
      cases hread : Terminal.readUnbuffered stdin with
      | none =>
        rw [hread] at h
        cases h
      | some p =>
        rw [hread] at h
        rw [readEscapedParameters, readUnbuffered_of_waiting hread]
        have hle := Nat.le_of_succ_le_succ hfuel
        dsimp only at h ⊢
        by_cases hdigit : 48 ≤ p.1 ∧ p.1 ≤ 57
        · rw [if_pos hdigit] at h ⊢
          by_cases hroom : 1 ≤ max 1 parameterCount ∧
              max 1 parameterCount ≤ TERMINAL_STREAM_CONTROL_MAX_PARAMETERS
          · rw [dif_pos hroom] at h ⊢
            exact ih h hle
          · rw [dif_neg hroom] at h ⊢
            exact ih h hle
        · rw [if_neg hdigit] at h ⊢
          by_cases hsep : p.1 = 59
          · rw [if_pos hsep] at h ⊢
            exact ih h hle
          · rw [if_neg hsep] at h ⊢
            exact h

/-- A query that is answered while the input is open returns the same on an input
that ends. -/
theorem query_of_waiting {request : String} {opening ending : Char} {r : ℤ × ℤ}
    (h : s.query request opening ending = some (r, t)) :
    ∃ rounds, ∀ fuel, rounds ≤ fuel → query request opening ending fuel s = some (r, t) := by
  unfold Client.query at h
  dsimp only at h
  cases hwait : Client.readAndBufferUntilESC s.stdin.length
      { s with stdout := s.stdout ++ terminalCommand request [] } with
  | none =>
    rw [hwait] at h
    cases h
  | some u =>
    rw [hwait] at h
    dsimp only at h
    cases hread : Terminal.readUnbuffered u.stdin with
    | none =>
      rw [hread] at h
      cases h
    | some p =>
      obtain ⟨ch, rest⟩ := p
      rw [hread] at h
      dsimp only at h
      refine ⟨max s.stdin.length rest.length, fun fuel hfuel => ?_⟩
      unfold query
      rw [readAndBufferUntilESC_of_waiting hwait (le_trans (Nat.le_max_left _ _) hfuel)]
      dsimp only
      rw [readUnbuffered_of_waiting hread]
      dsimp only
      by_cases hopening : ch = (opening.toNat : ℤ)
      · rw [if_pos hopening] at h ⊢
        cases hscan : Terminal.readEscapedParameters rest.length rest 0
            (Vector.replicate _ 0) with
        | none =>
          rw [hscan] at h
          cases h
        | some result =>
          rw [hscan] at h
          rw [readEscapedParameters_of_waiting hscan (le_trans (Nat.le_max_right _ _) hfuel)]
          exact h
      · rw [if_neg hopening] at h ⊢
        exact h

end Waiting

end Ended

end Heartix.Terminal
