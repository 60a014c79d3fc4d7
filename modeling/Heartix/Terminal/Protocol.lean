import Mathlib.Data.Int.ModEq
import Mathlib.Tactic.Ring
import Heartix.Terminal.Stream

/-!
The terminal protocol: what the client library writes and what the server's
decoder makes of it. Each sequence leaves the decoder with parameters of zero,
so only the first one is read on top of what was in the decoder's memory when it
was constructed.
-/

namespace Heartix.Terminal

/-- The conversions `%d` of a format, with the arguments of `terminalCommand`. -/
def format : List Char → List ℤ → List UInt8
  | '%' :: 'd' :: rest, a :: arguments => Decimal.signedText a ++ format rest arguments
  | c :: rest, arguments => c.toUInt8 :: format rest arguments
  | [], _ => []

def terminalCommand (fmt : String) (arguments : List ℤ) : List UInt8 :=
  G_TERMKEY_ESC :: format fmt.toList arguments

/-- What a program puts out: a character of text, or an operation of `g_terminal`. -/
inductive Operation where
  | text (c : UInt8)
  | setEcho (echo : Bool)
  | setMode (mode : ℤ)
  | putChar (c : ℤ)
  | setCursor (x y : ℤ)
  | moveCursorUp (n : ℤ)
  | moveCursorDown (n : ℤ)
  | moveCursorForward (n : ℤ)
  | moveCursorBack (n : ℤ)
  | remove
  | setControlProcess (pid : ℤ)
  | clear
  | setScrollAreaToScreen
  | setScrollArea (start stop : ℤ)
  | scroll (value : ℤ)
  | setCursorVisible (visible : Bool)
  deriving DecidableEq, Repr

/-- The bytes the client library writes. -/
def Operation.encode : Operation → List UInt8
  | text c => [c]
  | setEcho echo => terminalCommand "\x7b%de" [if echo then 1 else 0]
  | setMode mode => terminalCommand "\x7b%dm" [mode]
  | putChar c => terminalCommand "\x7b%dp" [c]
  | setCursor x y => terminalCommand "[%d;%df" [y, x]
  | moveCursorUp n => terminalCommand "[%dA" [n]
  | moveCursorDown n => terminalCommand "[%dB" [n]
  | moveCursorForward n => terminalCommand "[%dC" [n]
  | moveCursorBack n => terminalCommand "[%dD" [n]
  | remove => terminalCommand "\x7bx" []
  | setControlProcess pid => terminalCommand "\x7b%dc" [pid]
  | clear => terminalCommand "[2J" []
  | setScrollAreaToScreen => terminalCommand "[r" []
  | setScrollArea start stop => terminalCommand "[%d;%dr" [start, stop]
  | scroll value =>
      if 0 ≤ value then terminalCommand "[%dS" [value]
      else terminalCommand "[%dT" [-value]
  | setCursorVisible visible => terminalCommand "\x7b0;%dC" [if visible then 1 else 0]

/-- An argument that can still be multiplied by ten. -/
def Parameter (n : ℤ) : Prop := 0 ≤ n ∧ n * 10 < 2 ^ 31

/-- Text is free of the escape character, and arguments are parameters. -/
def Operation.Admissible : Operation → Prop
  | text c => c ≠ G_TERMKEY_ESC
  | setMode n => Parameter n
  | putChar n => Parameter n
  | setCursor x y => Parameter x ∧ Parameter y
  | moveCursorUp n => Parameter n
  | moveCursorDown n => Parameter n
  | moveCursorForward n => Parameter n
  | moveCursorBack n => Parameter n
  | setControlProcess n => Parameter n
  | setScrollArea start stop => Parameter start ∧ Parameter stop
  | scroll value => Parameter |value|
  | setEcho _ | remove | clear | setScrollAreaToScreen | setCursorVisible _ => True

variable {σ : Type*}

/-- The screen or mode operation that an operation of the client stands for. -/
def Operation.perform (S : Screen σ) (isStderr : Bool) : Operation → Server σ → Server σ
  | text c, t =>
      if c = '\r'.toUInt8 then t
      else if c = '\t'.toUInt8 then t.onScreen S.writeTab
      else t.onScreen (S.writeText isStderr c)
  | setEcho echo, t => { t with inputEcho := echo }
  | setMode mode, t => { t with inputMode := mode }
  | putChar c, t => t.onScreen (S.write (UInt8.ofInt c))
  | setCursor x y, t => t.onScreen (S.setCursor x y)
  | moveCursorUp n, t => t.onScreen (S.moveCursor 0 (-n))
  | moveCursorDown n, t => t.onScreen (S.moveCursor 0 n)
  | moveCursorForward n, t => t.onScreen (S.moveCursor n 0)
  | moveCursorBack n, t => t.onScreen (S.moveCursor (-n) 0)
  | remove, t => t.onScreen S.remove
  | setControlProcess pid, t => { t with controlProcess := pid }
  | clear, t => t.onScreen S.clean
  | setScrollAreaToScreen, t => t.onScreen S.setScrollAreaScreen
  | setScrollArea start stop, t => t.onScreen (S.setScrollArea start stop)
  | scroll value, t => t.onScreen (S.scroll value)
  | setCursorVisible visible, t => t.onScreen (S.setCursorVisible visible)

def Operation.isCommand : Operation → Bool
  | text _ => false
  | _ => true

/-- The decoder between two sequences: no parameter, and nothing in the array. -/
def StreamControlStatus.Ready (status : StreamControlStatus) : Prop :=
  status.status = .text ∧ status.parameterCount = 0 ∧ status.parameters = Vector.replicate _ 0

/-- The bytes of each operation perform this operation, and the ones of a
command leave the decoder ready. -/
def Decoded (S : Screen σ) (isStderr : Bool) :
    List Operation → StreamControlStatus → Server σ → Prop
  | [], _, _ => True
  | op :: ops, status, t => ∃ status',
      op.encode.foldlM (terminalProcessOutput S isStderr) (status, t) =
        some (status', op.perform S isStderr t) ∧
      (op.isCommand → status'.Ready) ∧
      Decoded S isStderr ops status' (op.perform S isStderr t)

/-- A value that is gone once the digits of `n` have been read on top of it. -/
def Vanishes (memory n : ℤ) : Prop :=
  (2 ^ 32 : ℤ) ∣ memory * 10 ^ (Decimal.text n.natAbs).length

/-- The operations that the decoder performs in spite of what is in its memory. -/
def Operation.Undisturbed (memory : Vector ℤ TERMINAL_STREAM_CONTROL_MAX_PARAMETERS) :
    Operation → Prop
  | text _ => True
  | setEcho echo => echo = true → Vanishes (getElem memory 0 first_lt) 1
  | setMode mode => Vanishes (getElem memory 0 first_lt) mode
  | putChar c =>
      (2 ^ 8 : ℤ) ∣ getElem memory 0 first_lt * 10 ^ (Decimal.text c.natAbs).length
  | setCursor x y =>
      Vanishes (getElem memory 0 first_lt) y ∧ Vanishes (getElem memory 1 second_lt) x
  | moveCursorUp n => Vanishes (getElem memory 0 first_lt) n
  | moveCursorDown n => Vanishes (getElem memory 0 first_lt) n
  | moveCursorForward n => Vanishes (getElem memory 0 first_lt) n
  | moveCursorBack n => Vanishes (getElem memory 0 first_lt) n
  | remove => True
  | setControlProcess pid => Vanishes (getElem memory 0 first_lt) pid
  | clear => Vanishes (getElem memory 0 first_lt) 2
  | setScrollAreaToScreen => True
  | setScrollArea start stop =>
      Vanishes (getElem memory 0 first_lt) start ∧ Vanishes (getElem memory 1 second_lt) stop
  | scroll value => Vanishes (getElem memory 0 first_lt) value
  | setCursorVisible visible =>
      Vanishes (getElem memory 0 first_lt) 0 ∧
        (visible = false → Vanishes (getElem memory 1 second_lt) 0)

/-- What a parameter holds once the digits of `n` have been read on top of it. -/
def carried (memory n : ℤ) : ℤ :=
  (memory * 10 ^ (Decimal.text n.natAbs).length + n).bmod (2 ^ 32)

/-- The operation the decoder reads from the bytes of a command, when `memory` is
in its parameters. -/
def Operation.readOn (memory : Vector ℤ TERMINAL_STREAM_CONTROL_MAX_PARAMETERS) :
    Operation → Option Operation
  | text c => some (text c)
  | setEcho echo =>
      some (setEcho (decide
        (carried (getElem memory 0 first_lt) (if echo then 1 else 0) = 1)))
  | setMode mode => some (setMode (carried (getElem memory 0 first_lt) mode))
  | putChar c => some (putChar (carried (getElem memory 0 first_lt) c))
  | setCursor x y =>
      some (setCursor (carried (getElem memory 1 second_lt) x)
        (carried (getElem memory 0 first_lt) y))
  | moveCursorUp n => some (moveCursorUp (carried (getElem memory 0 first_lt) n))
  | moveCursorDown n => some (moveCursorDown (carried (getElem memory 0 first_lt) n))
  | moveCursorForward n => some (moveCursorForward (carried (getElem memory 0 first_lt) n))
  | moveCursorBack n => some (moveCursorBack (carried (getElem memory 0 first_lt) n))
  | remove => some remove
  | setControlProcess pid => some (setControlProcess (carried (getElem memory 0 first_lt) pid))
  | clear => if carried (getElem memory 0 first_lt) 2 = 2 then some clear else none
  | setScrollAreaToScreen => some setScrollAreaToScreen
  | setScrollArea start stop =>
      some (setScrollArea (carried (getElem memory 0 first_lt) start)
        (carried (getElem memory 1 second_lt) stop))
  | scroll value =>
      if 0 ≤ value then some (scroll (carried (getElem memory 0 first_lt) value))
      else some (scroll ((-carried (getElem memory 0 first_lt) (-value)).bmod (2 ^ 32)))
  | setCursorVisible visible =>
      if carried (getElem memory 0 first_lt) 0 = 0 then
        some (setCursorVisible (decide
          (carried (getElem memory 1 second_lt) (if visible then 1 else 0) ≠ 0)))
      else none

/-- An operation that may have been lost. -/
def performRead (S : Screen σ) (isStderr : Bool) (op : Option Operation) (t : Server σ) :
    Server σ :=
  match op with
  | none => t
  | some op => op.perform S isStderr t

theorem bmod_eq_bmod_iff {a b : ℤ} :
    a.bmod (2 ^ 32) = b.bmod (2 ^ 32) ↔ (2 ^ 32 : ℤ) ∣ a - b := by
  rw [Int.bmod_eq_bmod_iff_bmod_sub_eq_zero, ← Int.dvd_iff_bmod_eq_zero]
  norm_cast

theorem bmod_of_parameter_abs {n : ℤ} (hn : Parameter |n|) : n.bmod (2 ^ 32) = n := by
  obtain ⟨_, hlt⟩ := hn
  have hle := le_abs_self n
  have hneg := neg_abs_le n
  rw [Int.bmod_eq_of_le] <;> omega

theorem bmod_of_parameter {n : ℤ} (hn : Parameter n) : n.bmod (2 ^ 32) = n := by
  apply bmod_of_parameter_abs
  rw [abs_of_nonneg hn.1]
  exact hn

theorem carried_eq_iff {memory n : ℤ} (hn : Parameter n) :
    carried memory n = n ↔ Vanishes memory n := by
  unfold carried Vanishes
  nth_rewrite 3 [← bmod_of_parameter hn]
  rw [bmod_eq_bmod_iff, add_sub_cancel_right]

section Decoder

variable {S : Screen σ} {isStderr : Bool} {status : StreamControlStatus} {t : Server σ}

theorem processOutput_within {c : UInt8}
    (h : status.status = .withinVt100 ∨ status.status = .withinGhostterm) :
    processOutput S isStderr (status, t) c = processWithin S status t c := by
  unfold processOutput
  dsimp only
  rcases h with h | h <;> rw [h]

theorem parameter_natCast {k : ℕ} (hk : k < TERMINAL_STREAM_CONTROL_MAX_PARAMETERS) :
    status.parameter k = some status.parameters[k] := by
  unfold StreamControlStatus.parameter
  rw [if_pos (by omega)]
  exact getElem?_pos status.parameters k hk

theorem setParameter_natCast {k : ℕ} (hk : k < TERMINAL_STREAM_CONTROL_MAX_PARAMETERS)
    (value : ℤ) :
    status.setParameter k value =
      some { status with parameters := status.parameters.set k value } := by
  unfold StreamControlStatus.setParameter
  rw [dif_pos (by omega)]
  rfl

theorem isDigit_digit {d : ℕ} (hd : d < 10) : isDigit (Decimal.digit d) = true := by
  interval_cases d <;> rfl

/-- The digits of the parameter `k` are being read. -/
def StreamControlStatus.At (status : StreamControlStatus) (k : ℕ) : Prop :=
  status.parameterCount = k + 1 ∨ status.parameterCount = 0 ∧ k = 0

theorem processDigit_at {k d : ℕ} (hk : k < TERMINAL_STREAM_CONTROL_MAX_PARAMETERS)
    (hat : status.At k) (hd : d < 10) :
    processDigit status (Decimal.digit d) = some { status with
      parameterCount := k + 1
      parameters := status.parameters.set k
        ((status.parameters[k] * 10 + d).bmod (2 ^ 32)) } := by
  have hcurrent : (if status.parameterCount = 0 then
      { status with parameterCount := 1 } else status) =
      { status with parameterCount := k + 1 } := by
    rcases hat with hat | ⟨hat, rfl⟩
    · rw [if_neg (by omega), ← hat]
    · rw [if_pos hat]
      rfl
  have hle : (k : ℤ) + 1 ≤ TERMINAL_STREAM_CONTROL_MAX_PARAMETERS := by omega
  have hindex : (k : ℤ) + 1 - 1 = k := by omega
  have hvalue : ((Decimal.digit d).toNat : ℤ) - 48 = d := by
    rw [Decimal.toNat_digit hd]
    omega
  unfold processDigit
  rw [hcurrent]
  dsimp only
  rw [if_pos hle, hindex, parameter_natCast hk]
  dsimp only
  rw [setParameter_natCast hk, hvalue, Int.bmod_add_bmod]

theorem processOutput_digit {k d : ℕ}
    (hwithin : status.status = .withinVt100 ∨ status.status = .withinGhostterm)
    (hk : k < TERMINAL_STREAM_CONTROL_MAX_PARAMETERS) (hat : status.At k) (hd : d < 10) :
    processOutput S isStderr (status, t) (Decimal.digit d) = some ({ status with
      parameterCount := k + 1
      parameters := status.parameters.set k
        ((status.parameters[k] * 10 + d).bmod (2 ^ 32)) }, t) := by
  rw [processOutput_within hwithin]
  unfold processWithin
  rw [if_pos (isDigit_digit hd), processDigit_at hk hat hd]
  rfl

/-- Reading the digits of a number on top of what the parameter holds. -/
theorem foldlM_text {k : ℕ} (n : ℕ)
    (hwithin : status.status = .withinVt100 ∨ status.status = .withinGhostterm)
    (hk : k < TERMINAL_STREAM_CONTROL_MAX_PARAMETERS) (hat : status.At k) :
    (Decimal.text n).foldlM (processOutput S isStderr) (status, t) = some ({ status with
      parameterCount := k + 1
      parameters := status.parameters.set k
        ((status.parameters[k] * 10 ^ (Decimal.text n).length + n).bmod (2 ^ 32)) }, t) := by
  induction n using Decimal.text_induction with
  | hdigit d hd =>
    rw [List.foldlM_cons, processOutput_digit hwithin hk hat hd]
    simp
  | hmore n d hd ih =>
    have hvalue : ((status.parameters[k] * 10 ^ (Decimal.text n).length + n).bmod (2 ^ 32) * 10
        + d).bmod (2 ^ 32) =
        (status.parameters[k] * 10 ^ (Decimal.text n ++ [Decimal.digit d]).length +
          (10 * n + d : ℕ)).bmod (2 ^ 32) := by
      rw [← Int.bmod_add_bmod, Int.bmod_mul_bmod, Int.bmod_add_bmod, List.length_append,
        List.length_singleton, pow_succ]
      congr 1
      push_cast
      ring
    rw [List.foldlM_append, ih, Option.bind_eq_bind, Option.bind_some, List.foldlM_cons,
      processOutput_digit (by exact hwithin) hk (Or.inl rfl) hd]
    simp only [Vector.getElem_set_self, Vector.set_set, hvalue]
    rfl

theorem processOutput_separator
    (hwithin : status.status = .withinVt100 ∨ status.status = .withinGhostterm) :
    processOutput S isStderr (status, t) ';'.toUInt8 = some ({ status with
      parameterCount := (status.parameterCount + 1).bmod (2 ^ 32) }, t) := by
  rw [processOutput_within hwithin]
  rfl

theorem processOutput_finish {c : UInt8}
    (hwithin : status.status = .withinVt100 ∨ status.status = .withinGhostterm)
    (hdigit : isDigit c = false) (hsep : c ≠ ';'.toUInt8) :
    processOutput S isStderr (status, t) c = processFinish S status t c := by
  rw [processOutput_within hwithin]
  unfold processWithin
  rw [hdigit, if_neg Bool.false_ne_true, if_neg hsep]

/-- The two ways a sequence can start. -/
inductive Opens : Char → StreamStatus → Prop
  | vt100 : Opens '[' .withinVt100
  | ghostterm : Opens '\x7b' .withinGhostterm

/-- The decoder between two sequences. -/
def StreamControlStatus.AtRest (status : StreamControlStatus) : Prop :=
  status.status = .text ∧ status.parameterCount = 0

theorem foldlM_opening {opening : Char} {within : StreamStatus} (hopens : Opens opening within)
    (hrest : status.AtRest) (bytes : List UInt8) :
    (G_TERMKEY_ESC :: opening.toUInt8 :: bytes).foldlM (processOutput S isStderr) (status, t) =
      bytes.foldlM (processOutput S isStderr) ({ status with status := within }, t) := by
  have hesc : processOutput S isStderr (status, t) G_TERMKEY_ESC =
      some ({ status with status := .lastWasEsc }, t) := by
    unfold processOutput
    dsimp only
    rw [hrest.1]
    rfl
  rw [List.foldlM_cons, hesc, Option.bind_eq_bind, Option.bind_some, List.foldlM_cons]
  cases hopens <;> rfl

theorem foldlM_finish {control : Char}
    (hwithin : status.status = .withinVt100 ∨ status.status = .withinGhostterm)
    (hdigit : isDigit control.toUInt8 = false) (hsep : control.toUInt8 ≠ ';'.toUInt8) :
    [control.toUInt8].foldlM (processOutput S isStderr) (status, t) =
      processFinish S status t control.toUInt8 := by
  rw [List.foldlM_cons, processOutput_finish hwithin hdigit hsep]
  simp

theorem Opens.isWithin {opening : Char} {within : StreamStatus} (h : Opens opening within) :
    within = .withinVt100 ∨ within = .withinGhostterm := by
  cases h
  · exact Or.inl rfl
  · exact Or.inr rfl

theorem signedText_of_nonneg {n : ℤ} (hn : 0 ≤ n) :
    Decimal.signedText n = Decimal.text n.natAbs := by
  unfold Decimal.signedText
  rw [if_neg (by omega)]

/-- A number in a sequence, read into the parameter `k`. -/
theorem foldlM_signedText {k : ℕ} {n : ℤ} (hn : 0 ≤ n)
    (hwithin : status.status = .withinVt100 ∨ status.status = .withinGhostterm)
    (hk : k < TERMINAL_STREAM_CONTROL_MAX_PARAMETERS) (hat : status.At k) :
    (Decimal.signedText n).foldlM (processOutput S isStderr) (status, t) = some ({ status with
      parameterCount := k + 1
      parameters := status.parameters.set k (carried status.parameters[k] n) }, t) := by
  rw [signedText_of_nonneg hn, foldlM_text n.natAbs hwithin hk hat]
  unfold carried
  rw [Int.natAbs_of_nonneg hn]

variable {opening control : Char} {within : StreamStatus}

theorem decode_none (hopens : Opens opening within) (hrest : status.AtRest)
    (hdigit : isDigit control.toUInt8 = false) (hsep : control.toUInt8 ≠ ';'.toUInt8) :
    [G_TERMKEY_ESC, opening.toUInt8, control.toUInt8].foldlM (processOutput S isStderr)
        (status, t) =
      processFinish S { status with status := within } t control.toUInt8 := by
  rw [foldlM_opening hopens hrest, foldlM_finish (by exact hopens.isWithin) hdigit hsep]

theorem decode_one {a : ℤ} (ha : 0 ≤ a) (hopens : Opens opening within)
    (hrest : status.AtRest) (hdigit : isDigit control.toUInt8 = false)
    (hsep : control.toUInt8 ≠ ';'.toUInt8) :
    (G_TERMKEY_ESC :: opening.toUInt8 :: (Decimal.signedText a ++ [control.toUInt8])).foldlM
        (processOutput S isStderr) (status, t) =
      processFinish S { status with
        status := within
        parameterCount := 1
        parameters := status.parameters.set 0 (carried status.parameters[0] a) } t
        control.toUInt8 := by
  rw [foldlM_opening hopens hrest, List.foldlM_append,
    foldlM_signedText ha (by exact hopens.isWithin) first_lt (by exact Or.inr ⟨hrest.2, rfl⟩),
    Option.bind_eq_bind, Option.bind_some,
    foldlM_finish (by exact hopens.isWithin) hdigit hsep]
  rfl

theorem decode_two {a b : ℤ} (ha : 0 ≤ a) (hb : 0 ≤ b) (hopens : Opens opening within)
    (hrest : status.AtRest) (hdigit : isDigit control.toUInt8 = false)
    (hsep : control.toUInt8 ≠ ';'.toUInt8) :
    (G_TERMKEY_ESC :: opening.toUInt8 :: (Decimal.signedText a ++
        ';'.toUInt8 :: (Decimal.signedText b ++ [control.toUInt8]))).foldlM
        (processOutput S isStderr) (status, t) =
      processFinish S { status with
        status := within
        parameterCount := 2
        parameters := (status.parameters.set 0 (carried status.parameters[0] a)).set 1
          (carried status.parameters[1] b) } t control.toUInt8 := by
  have hother : (status.parameters.set 0 (carried status.parameters[0] a) first_lt)[1] =
      status.parameters[1] := Vector.getElem_set_ne _ _ (by decide)
  rw [foldlM_opening hopens hrest, List.foldlM_append,
    foldlM_signedText ha (by exact hopens.isWithin) first_lt (by exact Or.inr ⟨hrest.2, rfl⟩),
    Option.bind_eq_bind, Option.bind_some, List.foldlM_cons,
    processOutput_separator (by exact hopens.isWithin), Option.bind_eq_bind, Option.bind_some,
    List.foldlM_append, foldlM_signedText hb (by exact hopens.isWithin) second_lt
      (by exact Or.inl rfl),
    Option.bind_eq_bind, Option.bind_some,
    foldlM_finish (by exact hopens.isWithin) hdigit hsep]
  rw [hother]
  rfl

theorem reset_ready (status : StreamControlStatus) : status.reset.Ready := ⟨rfl, rfl, rfl⟩

theorem ofUInt8_toUInt8 {c : Char} (hc : c.toNat < 256) : Char.ofUInt8 c.toUInt8 = c := by
  apply Char.ext
  apply UInt32.toNat_inj.mp
  change c.val.toNat % 256 = c.val.toNat
  exact Nat.mod_eq_of_lt hc

theorem ready_of_vt100 {c : UInt8} {u : Server σ} (hstatus : status.status = .withinVt100)
    (h : processSequenceVt100 S { status with controlCharacter := c } t = some u) :
    ∃ status', processFinish S status t c = some (status', u) ∧ status'.Ready := by
  refine ⟨_, ?_, reset_ready { status with controlCharacter := c }⟩
  unfold processFinish
  dsimp only
  rw [if_pos hstatus, h]
  rfl

theorem ready_of_ghostterm {c : UInt8} {u : Server σ}
    (hstatus : status.status = .withinGhostterm)
    (h : processSequenceGhostterm S { status with controlCharacter := c } t = u) :
    ∃ status', processFinish S status t c = some (status', u) ∧ status'.Ready := by
  have hne : status.status ≠ .withinVt100 := by
    rw [hstatus]
    decide
  refine ⟨_, ?_, reset_ready { status with controlCharacter := c }⟩
  unfold processFinish
  dsimp only
  rw [if_neg hne, h]

/-- A VT100 sequence with one number, from its bytes and what it does. -/
theorem vt100_number (control : Char) {op : Operation} {a : ℤ} {u : Server σ} (ha : 0 ≤ a)
    (hrest : status.AtRest) (hdigit : isDigit control.toUInt8 = false)
    (hsep : control.toUInt8 ≠ ';'.toUInt8)
    (hencode : op.encode =
      G_TERMKEY_ESC :: '['.toUInt8 :: (Decimal.signedText a ++ [control.toUInt8]))
    (h : processSequenceVt100 S { status with
        status := .withinVt100
        parameterCount := 1
        parameters := status.parameters.set 0 (carried status.parameters[0] a)
        controlCharacter := control.toUInt8 } t = some u) :
    ∃ status', op.encode.foldlM (processOutput S isStderr) (status, t) = some (status', u) ∧
      status'.Ready := by
  rw [hencode, decode_one ha .vt100 hrest hdigit hsep]
  exact ready_of_vt100 rfl h

/-- A ghostterm sequence with one number. -/
theorem ghostterm_number (control : Char) {op : Operation} {a : ℤ} {u : Server σ} (ha : 0 ≤ a)
    (hrest : status.AtRest) (hdigit : isDigit control.toUInt8 = false)
    (hsep : control.toUInt8 ≠ ';'.toUInt8)
    (hencode : op.encode =
      G_TERMKEY_ESC :: '\x7b'.toUInt8 :: (Decimal.signedText a ++ [control.toUInt8]))
    (h : processSequenceGhostterm S { status with
        status := .withinGhostterm
        parameterCount := 1
        parameters := status.parameters.set 0 (carried status.parameters[0] a)
        controlCharacter := control.toUInt8 } t = u) :
    ∃ status', op.encode.foldlM (processOutput S isStderr) (status, t) = some (status', u) ∧
      status'.Ready := by
  rw [hencode, decode_one ha .ghostterm hrest hdigit hsep]
  exact ready_of_ghostterm rfl h

/-- A command is performed with its arguments read on top of the parameters, and
leaves the decoder ready. -/
theorem foldlM_command (S : Screen σ) (isStderr : Bool) (t : Server σ) {op : Operation}
    (hop : op.isCommand) (hadm : op.Admissible) (hrest : status.AtRest) :
    ∃ status', op.encode.foldlM (processOutput S isStderr) (status, t) =
        some (status', performRead S isStderr (op.readOn status.parameters) t) ∧
      status'.Ready := by
  cases op with
  | text c => cases hop
  | setEcho echo =>
    refine ghostterm_number 'e' (by split <;> decide) hrest rfl (by decide) rfl ?_
    simp [processSequenceGhostterm, ofUInt8_toUInt8, performRead, Operation.readOn,
      Operation.perform]
  | setMode mode =>
    refine ghostterm_number 'm' hadm.1 hrest rfl (by decide) rfl ?_
    simp [processSequenceGhostterm, ofUInt8_toUInt8, performRead, Operation.readOn,
      Operation.perform]
  | putChar c =>
    refine ghostterm_number 'p' hadm.1 hrest rfl (by decide) rfl ?_
    simp [processSequenceGhostterm, ofUInt8_toUInt8, performRead, Operation.readOn,
      Operation.perform]
  | setCursor x y =>
    have hencode : (Operation.setCursor x y).encode = G_TERMKEY_ESC :: '['.toUInt8 ::
        (Decimal.signedText y ++
          ';'.toUInt8 :: (Decimal.signedText x ++ ['f'.toUInt8])) := rfl
    rw [hencode, decode_two hadm.2.1 hadm.1.1 .vt100 hrest rfl (by decide)]
    refine ready_of_vt100 rfl ?_
    simp [processSequenceVt100, ofUInt8_toUInt8, performRead, Operation.readOn,
      Operation.perform]
  | moveCursorUp n =>
    refine vt100_number 'A' hadm.1 hrest rfl (by decide) rfl ?_
    simp [processSequenceVt100, ofUInt8_toUInt8, performRead, Operation.readOn,
      Operation.perform]
  | moveCursorDown n =>
    refine vt100_number 'B' hadm.1 hrest rfl (by decide) rfl ?_
    simp [processSequenceVt100, ofUInt8_toUInt8, performRead, Operation.readOn,
      Operation.perform]
  | moveCursorForward n =>
    refine vt100_number 'C' hadm.1 hrest rfl (by decide) rfl ?_
    simp [processSequenceVt100, ofUInt8_toUInt8, performRead, Operation.readOn,
      Operation.perform]
  | moveCursorBack n =>
    refine vt100_number 'D' hadm.1 hrest rfl (by decide) rfl ?_
    simp [processSequenceVt100, ofUInt8_toUInt8, performRead, Operation.readOn,
      Operation.perform]
  | remove =>
    have hencode : Operation.remove.encode = [G_TERMKEY_ESC, '\x7b'.toUInt8, 'x'.toUInt8] := rfl
    rw [hencode, decode_none .ghostterm hrest rfl (by decide)]
    refine ready_of_ghostterm rfl ?_
    simp [processSequenceGhostterm, ofUInt8_toUInt8, performRead, Operation.readOn,
      Operation.perform]
  | setControlProcess pid =>
    refine ghostterm_number 'c' hadm.1 hrest rfl (by decide) rfl ?_
    simp [processSequenceGhostterm, ofUInt8_toUInt8, performRead, Operation.readOn,
      Operation.perform]
  | clear =>
    refine vt100_number (a := 2) 'J' (by decide) hrest rfl (by decide) rfl ?_
    by_cases htwo : carried status.parameters[0] 2 = 2
    · simp [processSequenceVt100, ofUInt8_toUInt8, performRead, Operation.readOn,
        Operation.perform, htwo]
    · simp [processSequenceVt100, ofUInt8_toUInt8, performRead, Operation.readOn, htwo]
  | setScrollAreaToScreen =>
    have hencode : Operation.setScrollAreaToScreen.encode =
        [G_TERMKEY_ESC, '['.toUInt8, 'r'.toUInt8] := rfl
    rw [hencode, decode_none .vt100 hrest rfl (by decide)]
    refine ready_of_vt100 rfl ?_
    simp [processSequenceVt100, ofUInt8_toUInt8, performRead, Operation.readOn,
      Operation.perform, hrest.2]
  | setScrollArea start stop =>
    have hencode : (Operation.setScrollArea start stop).encode = G_TERMKEY_ESC :: '['.toUInt8 ::
        (Decimal.signedText start ++
          ';'.toUInt8 :: (Decimal.signedText stop ++ ['r'.toUInt8])) := rfl
    rw [hencode, decode_two hadm.1.1 hadm.2.1 .vt100 hrest rfl (by decide)]
    refine ready_of_vt100 rfl ?_
    simp [processSequenceVt100, ofUInt8_toUInt8, performRead, Operation.readOn,
      Operation.perform]
  | scroll value =>
    by_cases hpos : 0 ≤ value
    · refine vt100_number 'S' hpos hrest rfl (by decide) (if_pos hpos) ?_
      simp [processSequenceVt100, ofUInt8_toUInt8, performRead, Operation.readOn,
        Operation.perform, hpos]
    · refine vt100_number 'T' (by omega) hrest rfl (by decide) (if_neg hpos) ?_
      simp [processSequenceVt100, ofUInt8_toUInt8, performRead, Operation.readOn,
        Operation.perform, hpos]
  | setCursorVisible visible =>
    have hencode : (Operation.setCursorVisible visible).encode =
        G_TERMKEY_ESC :: '\x7b'.toUInt8 :: (Decimal.signedText 0 ++
          ';'.toUInt8 ::
            (Decimal.signedText (if visible then 1 else 0) ++ ['C'.toUInt8])) := rfl
    rw [hencode, decode_two (by decide) (by split <;> decide) .ghostterm hrest rfl (by decide)]
    refine ready_of_ghostterm rfl ?_
    by_cases hzero : carried status.parameters[0] 0 = 0
    · simp [processSequenceGhostterm, ofUInt8_toUInt8, performRead, Operation.readOn,
        Operation.perform, hzero]
    · simp [processSequenceGhostterm, ofUInt8_toUInt8, performRead, Operation.readOn, hzero]

theorem foldlM_textChar {c : UInt8} (hstatus : status.status = .text) (hc : c ≠ G_TERMKEY_ESC) :
    (Operation.text c).encode.foldlM (processOutput S isStderr) (status, t) =
      some (status, (Operation.text c).perform S isStderr t) := by
  have hstep : processOutput S isStderr (status, t) c =
      some (processText S isStderr status t c) := by
    unfold processOutput
    dsimp only
    rw [hstatus]
  have htext : processText S isStderr status t c =
      (status, (Operation.text c).perform S isStderr t) := by
    unfold processText Operation.perform
    dsimp only
    by_cases hcr : c = '\r'.toUInt8
    · rw [if_pos hcr, if_pos hcr]
    · by_cases htab : c = '\t'.toUInt8
      · rw [if_neg hcr, if_neg hcr, if_pos htab, if_pos htab]
      · rw [if_neg hcr, if_neg hcr, if_neg htab, if_neg htab, if_neg hc]
  unfold Operation.encode
  rw [List.foldlM_cons, hstep, htext]
  rfl

end Decoder

section Reading

variable {memory : Vector ℤ TERMINAL_STREAM_CONTROL_MAX_PARAMETERS} {op : Operation}

theorem parameter_one : Parameter 1 := by
  unfold Parameter
  omega

theorem parameter_two : Parameter 2 := by
  unfold Parameter
  omega

theorem parameter_zero : Parameter 0 := by
  unfold Parameter
  omega

theorem dvd_carried_sub (memory n : ℤ) :
    (2 ^ 32 : ℤ) ∣ carried memory n - (memory * 10 ^ (Decimal.text n.natAbs).length + n) := by
  unfold carried
  exact_mod_cast Int.dvd_bmod_sub_self

theorem ofInt_eq_ofInt_iff {a b : ℤ} :
    UInt8.ofInt a = UInt8.ofInt b ↔ (2 ^ 8 : ℤ) ∣ a - b := by
  rw [← UInt8.toNat_inj]
  unfold UInt8.ofInt
  rw [UInt8.toNat_ofNat', UInt8.toNat_ofNat']
  omega

theorem ofInt_carried_iff {memory n : ℤ} :
    UInt8.ofInt (carried memory n) = UInt8.ofInt n ↔
      (2 ^ 8 : ℤ) ∣ memory * 10 ^ (Decimal.text n.natAbs).length := by
  have hdvd := dvd_carried_sub memory n
  rw [ofInt_eq_ofInt_iff]
  generalize memory * 10 ^ (Decimal.text n.natAbs).length = m at hdvd ⊢
  omega

/-- Ten times the memory is even, so a zero is never read as a one. -/
theorem carried_zero_ne_one (memory : ℤ) : carried memory 0 ≠ 1 := by
  intro hone
  have hdvd := dvd_carried_sub memory 0
  have hlen : (Decimal.text (0 : ℤ).natAbs).length = 1 := rfl
  rw [hone, hlen] at hdvd
  omega

theorem carried_one_ne_zero (memory : ℤ) : carried memory 1 ≠ 0 := by
  intro hzero
  have hdvd := dvd_carried_sub memory 1
  have hlen : (Decimal.text (1 : ℤ).natAbs).length = 1 := rfl
  rw [hzero, hlen] at hdvd
  omega

theorem vanishes_neg {memory n : ℤ} : Vanishes memory (-n) ↔ Vanishes memory n := by
  unfold Vanishes
  rw [Int.natAbs_neg]

/-- An undisturbed operation is performed as it was meant. -/
theorem performRead_of_undisturbed (S : Screen σ) (isStderr : Bool) (hadm : op.Admissible)
    (h : op.Undisturbed memory) (t : Server σ) :
    performRead S isStderr (op.readOn memory) t = op.perform S isStderr t := by
  cases op with
  | text c => rfl
  | remove => rfl
  | setScrollAreaToScreen => rfl
  | setEcho echo =>
    cases echo with
    | true =>
      have hone := (carried_eq_iff parameter_one).mpr (h rfl)
      simp [Operation.readOn, performRead, Operation.perform, hone]
    | false =>
      have hne := carried_zero_ne_one memory[0]
      simp [Operation.readOn, performRead, Operation.perform, hne]
  | putChar c =>
    have heq := ofInt_carried_iff.mpr h
    simp [Operation.readOn, performRead, Operation.perform, heq]
  | setCursor x y =>
    have hy := (carried_eq_iff hadm.2).mpr h.1
    have hx := (carried_eq_iff hadm.1).mpr h.2
    simp [Operation.readOn, performRead, hx, hy]
  | setScrollArea start stop =>
    have hstart := (carried_eq_iff hadm.1).mpr h.1
    have hstop := (carried_eq_iff hadm.2).mpr h.2
    simp [Operation.readOn, performRead, hstart, hstop]
  | clear =>
    have htwo := (carried_eq_iff parameter_two).mpr h
    simp [Operation.readOn, performRead, htwo]
  | scroll value =>
    have habs : Parameter |value| := hadm
    by_cases hpos : 0 ≤ value
    · rw [abs_of_nonneg hpos] at habs
      have hvalue := (carried_eq_iff habs).mpr h
      simp [Operation.readOn, performRead, hpos, hvalue]
    · rw [abs_of_neg (by omega)] at habs
      have hvalue := (carried_eq_iff habs).mpr (vanishes_neg.mpr h)
      simp only [Operation.readOn, performRead, if_neg hpos, hvalue, neg_neg,
        bmod_of_parameter_abs hadm]
  | setCursorVisible visible =>
    have hzero := (carried_eq_iff parameter_zero).mpr h.1
    cases visible with
    | true =>
      have hne := carried_one_ne_zero memory[1]
      simp [Operation.readOn, performRead, hzero, hne]
    | false =>
      have heq := (carried_eq_iff parameter_zero).mpr (h.2 rfl)
      simp [Operation.readOn, performRead, hzero, heq]
  | setMode n | moveCursorUp n | moveCursorDown n | moveCursorForward n | moveCursorBack n
  | setControlProcess n =>
    have hn := (carried_eq_iff hadm).mpr h
    simp [Operation.readOn, performRead, hn]

theorem undisturbed_zero (op : Operation) :
    op.Undisturbed (Vector.replicate TERMINAL_STREAM_CONTROL_MAX_PARAMETERS 0) := by
  cases op <;> simp [Operation.Undisturbed, Vanishes]

/-- The calls of a screen that tell the operations apart. -/
inductive Call where
  | write (c : UInt8)
  | clean
  | setCursor (x y : ℤ)
  | setScrollArea (start stop : ℤ)
  | scroll (value : ℤ)
  | setCursorVisible (visible : Bool)

/-- A screen that records its calls. -/
def recorder : Screen (List Call) where
  write c s := .write c :: s
  remove s := s
  clean s := .clean :: s
  flush s := s
  setCursor x y s := .setCursor x y :: s
  getCursorX _ := 0
  getCursorY _ := 0
  setCursorVisible visible s := .setCursorVisible visible :: s
  setScrollAreaScreen s := s
  setScrollArea start stop s := .setScrollArea start stop :: s
  scroll value s := .scroll value :: s
  getColumns _ := 80
  getRows _ := 25
  setColorForeground _ s := s
  setColorBackground _ s := s
  getColorForeground _ := SC_WHITE

theorem vanishes_of_bmod_neg {memory n : ℤ}
    (h : (-carried memory n).bmod (2 ^ 32) = (-n).bmod (2 ^ 32)) : Vanishes memory n := by
  have hdvd := dvd_carried_sub memory n
  have hsub := bmod_eq_bmod_iff.mp h
  unfold Vanishes
  generalize memory * 10 ^ (Decimal.text n.natAbs).length = m at hdvd ⊢
  omega

theorem vanishes_of_bmod {memory n : ℤ}
    (h : (carried memory n).bmod (2 ^ 32) = n.bmod (2 ^ 32)) : Vanishes memory n := by
  have hdvd := dvd_carried_sub memory n
  have hsub := bmod_eq_bmod_iff.mp h
  unfold Vanishes
  generalize memory * 10 ^ (Decimal.text n.natAbs).length = m at hdvd ⊢
  omega

/-- The recorder sees every disturbed operation. -/
theorem undisturbed_of_performRead {isStderr : Bool} {t : Server (List Call)}
    (hadm : op.Admissible)
    (h : performRead recorder isStderr (op.readOn memory) t = op.perform recorder isStderr t) :
    op.Undisturbed memory := by
  cases op with
  | text c => trivial
  | remove => trivial
  | setScrollAreaToScreen => trivial
  | setEcho echo =>
    rintro rfl
    have hone : carried memory[0] 1 = 1 := by
      simpa [Operation.readOn, performRead, Operation.perform] using h
    exact (carried_eq_iff parameter_one).mp hone
  | putChar c =>
    apply ofInt_carried_iff.mp
    simpa [Operation.readOn, performRead, Operation.perform, recorder, Server.onScreen] using h
  | setCursor x y =>
    obtain ⟨hx, hy⟩ : carried memory[1] x = x ∧ carried memory[0] y = y := by
      simpa [Operation.readOn, performRead, Operation.perform, recorder, Server.onScreen] using h
    exact ⟨(carried_eq_iff hadm.2).mp hy, (carried_eq_iff hadm.1).mp hx⟩
  | setScrollArea start stop =>
    obtain ⟨hstart, hstop⟩ : carried memory[0] start = start ∧ carried memory[1] stop = stop := by
      simpa [Operation.readOn, performRead, Operation.perform, recorder, Server.onScreen] using h
    exact ⟨(carried_eq_iff hadm.1).mp hstart, (carried_eq_iff hadm.2).mp hstop⟩
  | clear =>
    apply (carried_eq_iff parameter_two).mp
    by_contra hne
    have hscreen := congrArg Server.screen h
    simp [Operation.readOn, performRead, Operation.perform, recorder, Server.onScreen,
      hne] at hscreen
  | scroll value =>
    by_cases hpos : 0 ≤ value
    · have hvalue : carried memory[0] value = value := by
        simpa [Operation.readOn, performRead, Operation.perform, recorder, Server.onScreen,
          hpos] using h
      apply vanishes_of_bmod
      rw [hvalue]
    · have hvalue : (-carried memory[0] (-value)).bmod (2 ^ 32) = value := by
        simpa [Operation.readOn, performRead, Operation.perform, recorder, Server.onScreen,
          hpos] using h
      apply vanishes_neg.mp
      apply vanishes_of_bmod_neg
      rw [neg_neg, hvalue, bmod_of_parameter_abs hadm]
  | setCursorVisible visible =>
    have hzero : carried memory[0] 0 = 0 := by
      by_contra hne
      have hscreen := congrArg Server.screen h
      simp [Operation.readOn, performRead, Operation.perform, recorder, Server.onScreen,
        hne] at hscreen
    refine ⟨(carried_eq_iff parameter_zero).mp hzero, ?_⟩
    rintro rfl
    apply (carried_eq_iff parameter_zero).mp
    simpa [Operation.readOn, performRead, Operation.perform, recorder, Server.onScreen,
      hzero] using h
  | setMode n =>
    apply (carried_eq_iff hadm).mp
    simpa [Operation.readOn, performRead, Operation.perform] using h
  | setControlProcess n =>
    apply (carried_eq_iff hadm).mp
    simpa [Operation.readOn, performRead, Operation.perform] using h
  | moveCursorUp n | moveCursorBack n =>
    apply vanishes_of_bmod_neg
    simpa [Operation.readOn, performRead, Operation.perform, recorder, Server.onScreen,
      Screen.moveCursor] using h
  | moveCursorDown n | moveCursorForward n =>
    apply vanishes_of_bmod
    simpa [Operation.readOn, performRead, Operation.perform, recorder, Server.onScreen,
      Screen.moveCursor] using h

end Reading

section RoundTrip

variable {S : Screen σ} {isStderr : Bool} {status : StreamControlStatus} {t : Server σ}
  {ops : List Operation}

/-- The bytes of an operation perform it as it is read. Only a command changes
the decoder, and leaves it ready. -/
theorem foldlM_encode (S : Screen σ) (isStderr : Bool) (t : Server σ) {op : Operation}
    (hadm : op.Admissible) (hrest : status.AtRest) :
    ∃ status', op.encode.foldlM (terminalProcessOutput S isStderr) (status, t) =
        some (status', performRead S isStderr (op.readOn status.parameters) t) ∧
      status'.AtRest ∧
      (op.isCommand → status'.Ready) ∧ (op.isCommand = false → status' = status) := by
  by_cases hop : op.isCommand
  · obtain ⟨status', hrun, hready⟩ :=
      foldlM_command S isStderr t hop hadm hrest
    exact ⟨status', hrun, ⟨hready.1, hready.2.1⟩, fun _ => hready,
      fun hfalse => absurd hop (by rw [hfalse]; decide)⟩
  · cases op with
    | text c =>
      exact ⟨status, foldlM_textChar hrest.1 hadm, hrest, fun h => absurd h hop, fun _ => rfl⟩
    | _ => exact absurd rfl hop

theorem decoded_of_ready (hops : ∀ op ∈ ops, op.Admissible) (hready : status.Ready) :
    Decoded S isStderr ops status t := by
  induction ops generalizing status t with
  | nil => trivial
  | cons op ops ih =>
    have hop := hops op List.mem_cons_self
    obtain ⟨status', hrun, _, hcommand, htext⟩ :=
      foldlM_encode S isStderr t hop ⟨hready.1, hready.2.1⟩
    have hready' : status'.Ready := by
      cases hkind : op.isCommand with
      | true => exact hcommand hkind
      | false => exact htext hkind ▸ hready
    rw [hready.2.2, performRead_of_undisturbed S isStderr hop (undisturbed_zero op)] at hrun
    exact ⟨status', hrun, hcommand,
      ih (fun o ho => hops o (List.mem_cons_of_mem op ho)) hready'⟩

theorem decoded_of_undisturbed (hops : ∀ op ∈ ops, op.Admissible) (hrest : status.AtRest)
    (hfirst : ∀ op, ops.find? Operation.isCommand = some op →
      op.Undisturbed status.parameters) :
    Decoded S isStderr ops status t := by
  induction ops generalizing t with
  | nil => trivial
  | cons op ops ih =>
    have hop := hops op List.mem_cons_self
    have htail := fun o ho => hops o (List.mem_cons_of_mem op ho)
    obtain ⟨status', hrun, hrest', hcommand, htext⟩ :=
      foldlM_encode S isStderr t hop hrest
    cases hkind : op.isCommand with
    | true =>
      have hundisturbed := hfirst op (List.find?_cons_of_pos hkind)
      rw [performRead_of_undisturbed S isStderr hop hundisturbed] at hrun
      exact ⟨status', hrun, hcommand, decoded_of_ready htail (hcommand hkind)⟩
    | false =>
      obtain rfl := htext hkind
      have hundisturbed : op.Undisturbed status'.parameters := by
        cases op with
        | text c => trivial
        | _ => cases hkind
      rw [performRead_of_undisturbed S isStderr hop hundisturbed] at hrun
      rw [List.find?_cons_of_neg (by rw [hkind]; decide)] at hfirst
      exact ⟨status', hrun, hcommand, ih htail hfirst⟩

theorem undisturbed_of_decoded {t : Server (List Call)} (hops : ∀ op ∈ ops, op.Admissible)
    (hrest : status.AtRest) (h : Decoded recorder isStderr ops status t) (op : Operation)
    (hfind : ops.find? Operation.isCommand = some op) :
    op.Undisturbed status.parameters := by
  induction ops generalizing t with
  | nil => cases hfind
  | cons first ops ih =>
    have hop := hops first List.mem_cons_self
    obtain ⟨status', hrun, _, hcommand, htext⟩ :=
      foldlM_encode recorder isStderr t hop hrest
    obtain ⟨status'', hrun', _, hdecoded⟩ := h
    obtain ⟨rfl, hperform⟩ := Prod.mk.inj (Option.some.inj (hrun.symm.trans hrun'))
    cases hkind : first.isCommand with
    | true =>
      rw [List.find?_cons_of_pos hkind] at hfind
      obtain rfl := Option.some.inj hfind
      exact undisturbed_of_performRead hop hperform
    | false =>
      rw [List.find?_cons_of_neg (by rw [hkind]; decide)] at hfind
      obtain rfl := htext hkind
      exact ih (fun o ho => hops o (List.mem_cons_of_mem first ho)) hdecoded hfind

/-- From a newly constructed decoder, every screen sees exactly the operations
of the client, in order, if and only if the first command is read the same on
top of what was in the decoder's memory. -/
theorem terminal_protocol_iff (ops : List Operation) (hops : ∀ op ∈ ops, op.Admissible)
    (parameters : Vector ℤ TERMINAL_STREAM_CONTROL_MAX_PARAMETERS) (controlCharacter : UInt8) :
    (∀ (σ : Type) (S : Screen σ) (isStderr : Bool) (t : Server σ),
      Decoded S isStderr ops (StreamControlStatus.construct parameters controlCharacter) t) ↔
    ∀ op, ops.find? Operation.isCommand = some op → op.Undisturbed parameters := by
  have hrest : (StreamControlStatus.construct parameters controlCharacter).AtRest := ⟨rfl, rfl⟩
  constructor
  · intro h
    exact undisturbed_of_decoded hops hrest (h (List Call) recorder false
      ⟨[], 0, true, 0, []⟩)
  · intro h σ S isStderr t
    exact decoded_of_undisturbed hops hrest h

end RoundTrip

/-- Text, a cursor position and a scroll on a cleared memory. -/
theorem terminal_protocol_iff_cleared :
    (∀ (σ : Type) (S : Screen σ) (isStderr : Bool) (t : Server σ),
      Decoded S isStderr [.text 97, .setCursor 3 4, .scroll (-2)]
        (StreamControlStatus.construct (Vector.replicate _ 0) 0) t) ↔
    ∀ op, [Operation.text 97, .setCursor 3 4, .scroll (-2)].find? Operation.isCommand =
      some op → op.Undisturbed (Vector.replicate _ 0) :=
  terminal_protocol_iff [.text 97, .setCursor 3 4, .scroll (-2)]
    (by simp [Operation.Admissible, Parameter, G_TERMKEY_ESC]) _ _

/-- With a one in the memory, the mode 1 is read as 11. -/
theorem terminal_protocol_reads_memory :
    ¬ ∀ parameters, Decoded recorder false [.setMode 1]
      (StreamControlStatus.construct parameters 0) ⟨[], 0, true, 0, []⟩ := by
  intro h
  obtain ⟨status', hrun, _⟩ := h #v[1, 0, 0, 0]
  have hmode : ((Operation.setMode 1).encode.foldlM (terminalProcessOutput recorder false)
      (StreamControlStatus.construct #v[1, 0, 0, 0] 0, ⟨[], 0, true, 0, []⟩)).map
        (fun u => u.2.inputMode) = some 11 := by
    decide +kernel
  rw [hrun] at hmode
  cases hmode

end Heartix.Terminal
