import Heartix.Lib.Runs
import Heartix.Terminal.Scanner

/-!
The input side of the client library. While a query waits for its response, the
keys that arrive first go to a side buffer, from which `getChar` takes them
before it reads on. The buffer has a fixed size, and a key that does not fit is
dropped.
-/

namespace Heartix.Terminal

open Runs

def G_TERMKEY_SUB : UInt8 := 26
def G_TERMKEY_MIN : ℕ := 0x101

def bufferSize : ℕ := 64

/-- A key: a byte other than the two escapes, or an extended key. -/
inductive Key where
  | char (c : UInt8) (h : c ≠ G_TERMKEY_ESC ∧ c ≠ G_TERMKEY_SUB)
  | extended (code : ℕ) (h : G_TERMKEY_MIN ≤ code ∧ code < 2 ^ 16)
  deriving DecidableEq

/-- The bytes of a key, as the server writes them. -/
def Key.encode : Key → List UInt8
  | char c _ => [c]
  | extended code _ => [G_TERMKEY_SUB, (code % 2 ^ 8).toUInt8, (code / 2 ^ 8).toUInt8]

/-- What `getChar` returns for a key. -/
def Key.value : Key → ℤ
  | char c _ => c.toNat
  | extended code _ => code

/-- The client: the bytes that have arrived and are not read yet, the bytes it
has written, and the side buffer. The last two members record the run: the keys
that have arrived, and the values `getChar` has returned. -/
structure Client where
  stdin : List UInt8
  stdout : List UInt8
  buffer : Option (Vector ℤ bufferSize)
  bufferedChars : ℕ
  arrived : List Key
  returned : List ℤ

def Client.construct : Client where
  stdin := []
  stdout := []
  buffer := none
  bufferedChars := 0
  arrived := []
  returned := []

/-- Undefined where `getc` would wait for more input. -/
def readUnbuffered : List UInt8 → Option (ℤ × List UInt8)
  | [] => none
  | c :: rest =>
      if c = G_TERMKEY_SUB then
        match rest with
        | b1 :: b2 :: rest => some (((b2.toNat <<< 8 ||| b1.toNat : ℕ) : ℤ), rest)
        | _ => none
      else some (c.toNat, rest)

namespace Client

def bufferChar (c : ℤ) (s : Client) : Client :=
  let s :=
    match s.buffer with
    | some _ => s
    | none => { s with
        buffer := some (Vector.replicate _ 0)
        bufferedChars := 0 }
  match s.buffer with
  | none => s
  | some buffer =>
      if h : s.bufferedChars < bufferSize then
        { s with
          buffer := some (buffer.set s.bufferedChars c h)
          bufferedChars := s.bufferedChars + 1 }
      else s

/-- The first number bounds the rounds. -/
def readAndBufferUntilESC : ℕ → Client → Option Client
  | 0, _ => none
  | fuel + 1, s =>
      match readUnbuffered s.stdin with
      | none => none
      | some (c, rest) =>
          if c = G_TERMKEY_ESC.toNat then some { s with stdin := rest }
          else readAndBufferUntilESC fuel ({ s with stdin := rest }.bufferChar c)

/-- The first element moves out, the others move up. -/
def shifted (buffer : Vector ℤ bufferSize) : Vector ℤ bufferSize :=
  Vector.ofFn fun i => if h : i.val + 1 < bufferSize then buffer[i.val + 1] else buffer[i.val]

/-- Undefined where the call waits for a key. -/
def getChar (s : Client) : Option (ℤ × Client) :=
  let fromStdin := (readUnbuffered s.stdin).map fun (c, rest) => (c, { s with stdin := rest })
  match s.buffer with
  | none => fromStdin
  | some buffer =>
      if 0 < s.bufferedChars then
        some (buffer[0], { s with
          buffer := some (shifted buffer)
          bufferedChars := s.bufferedChars - 1 })
      else fromStdin

end Client

/-- The parameters of a response and the character after them. The first number
bounds the rounds. -/
def readEscapedParameters : ℕ → List UInt8 → ℕ → Vector ℤ TERMINAL_STREAM_CONTROL_MAX_PARAMETERS →
    Option (ℤ × Vector ℤ TERMINAL_STREAM_CONTROL_MAX_PARAMETERS × List UInt8)
  | 0, _, _, _ => none
  | fuel + 1, stdin, parameterCount, parameters =>
      match readUnbuffered stdin with
      | none => none
      | some (c, rest) =>
          if 48 ≤ c ∧ c ≤ 57 then
            let parameterCount := max 1 parameterCount
            if h : 1 ≤ parameterCount ∧ parameterCount ≤ TERMINAL_STREAM_CONTROL_MAX_PARAMETERS then
              readEscapedParameters fuel rest parameterCount (parameters.set (parameterCount - 1)
                (((getElem parameters (parameterCount - 1) (current_lt h) * 10).bmod (2 ^ 32) +
                  (c - 48)).bmod (2 ^ 32)) (current_lt h))
            else readEscapedParameters fuel rest parameterCount parameters
          else if c = 59 then readEscapedParameters fuel rest (parameterCount + 1) parameters
          else some (c, parameters, rest)

namespace Client

/-- A query: the request, the keys up to the response, and the response, which
must start and end with the given characters. The parameters are -1 where it
does not. -/
def query (request : String) (opening ending : Char) (s : Client) :
    Option ((ℤ × ℤ) × Client) :=
  let s := { s with stdout := s.stdout ++ terminalCommand request [] }
  match s.readAndBufferUntilESC s.stdin.length with
  | none => none
  | some s =>
      match readUnbuffered s.stdin with
      | none => none
      | some (ch, rest) =>
          if ch = opening.toNat then
            match readEscapedParameters rest.length rest 0 (Vector.replicate _ 0) with
            | none => none
            | some (mode, parameters, rest) =>
                if mode = ending.toNat then
                  some ((getElem parameters 0 first_lt, getElem parameters 1 second_lt),
                    { s with stdin := rest })
                else some ((-1, -1), { s with stdin := rest })
          else some ((-1, -1), { s with stdin := rest })

/-- The position, row before column. -/
def getCursor (s : Client) : Option ((ℤ × ℤ) × Client) := s.query "[6n" '[' 'R'

/-- The size, columns before rows. -/
def getSize (s : Client) : Option ((ℤ × ℤ) × Client) := s.query "\x7bi" '\x7b' 'i'

end Client

/-- What happens at the terminal and in the program, in order. While a query
waits, some keys arrive before its response. -/
inductive ClientEvent where
  | key (k : Key)
  | getChar
  | getCursor (keys : List Key) (y x : ℕ)
  | getSize (keys : List Key) (w h : ℕ)

namespace Client

def arrive (keys : List Key) (s : Client) : Client := { s with
  stdin := s.stdin ++ keys.flatMap Key.encode
  arrived := s.arrived ++ keys }

def receive (bytes : List UInt8) (s : Client) : Client := { s with stdin := s.stdin ++ bytes }

/-- One event. A `getChar` that finds no key is still waiting. -/
def exec : Client → ClientEvent → Option Client
  | s, .key k => some (s.arrive [k])
  | s, .getChar =>
      match s.getChar with
      | none => some s
      | some (c, s) => some { s with returned := s.returned ++ [c] }
  | s, .getCursor keys y x =>
      (((s.arrive keys).receive (response '[' y x 'R')).getCursor).map Prod.snd
  | s, .getSize keys w h =>
      (((s.arrive keys).receive (response '\x7b' w h 'i')).getSize).map Prod.snd

/-- The keys in the side buffer. -/
def buffered (s : Client) : List ℤ :=
  match s.buffer with
  | none => []
  | some buffer => buffer.toList.take s.bufferedChars

/-- The keys returned, the ones in the side buffer and the ones that have not
been read are all the keys that have arrived, in order. -/
def Preserved (s : Client) : Prop :=
  ∃ unread : List Key, s.stdin = unread.flatMap Key.encode ∧
    s.returned ++ s.buffered ++ unread.map Key.value = s.arrived.map Key.value

/-- The keys that `getChar` has not returned yet fit into the side buffer when
the response to a query arrives. -/
def Fits (s : Client) : ClientEvent → Prop
  | .key _ => True
  | .getChar => True
  | .getCursor keys _ _ => s.arrived.length - s.returned.length + keys.length ≤ bufferSize
  | .getSize keys _ _ => s.arrived.length - s.returned.length + keys.length ≤ bufferSize

theorem readUnbuffered_sub (b1 b2 : UInt8) (rest : List UInt8) :
    readUnbuffered (G_TERMKEY_SUB :: b1 :: b2 :: rest) =
      some (((b2.toNat <<< 8 ||| b1.toNat : ℕ) : ℤ), rest) := by
  unfold readUnbuffered
  dsimp only
  rw [if_pos rfl]

theorem readUnbuffered_of_ne {c : UInt8} (h : c ≠ G_TERMKEY_SUB) (rest : List UInt8) :
    readUnbuffered (c :: rest) = some ((c.toNat : ℤ), rest) := by
  unfold readUnbuffered
  dsimp only
  rw [if_neg h]

theorem readUnbuffered_encode (k : Key) (rest : List UInt8) :
    readUnbuffered (k.encode ++ rest) = some (k.value, rest) := by
  cases k with
  | char c h => exact readUnbuffered_of_ne h.2 rest
  | extended code h =>
    have hlow : (code % 2 ^ 8).toUInt8.toNat = code % 2 ^ 8 := by
      rw [Nat.toUInt8_eq, UInt8.toNat_ofNat']
      omega
    have hhigh : (code / 2 ^ 8).toUInt8.toNat = code / 2 ^ 8 := by
      rw [Nat.toUInt8_eq, UInt8.toNat_ofNat']
      omega
    have hcode : (code / 2 ^ 8) <<< 8 ||| code % 2 ^ 8 = code := by
      rw [← Nat.shiftLeft_add_eq_or_of_lt (Nat.mod_lt code (by decide)), Nat.shiftLeft_eq]
      omega
    have hread := readUnbuffered_sub (code % 2 ^ 8).toUInt8 (code / 2 ^ 8).toUInt8 rest
    rw [hlow, hhigh, hcode] at hread
    exact hread

theorem value_ne_esc (k : Key) : k.value ≠ G_TERMKEY_ESC.toNat := by
  cases k with
  | char c h =>
    intro heq
    have hnat : c.toNat = G_TERMKEY_ESC.toNat := Int.ofNat.inj heq
    exact h.1 (UInt8.toNat_inj.mp hnat)
  | extended code h =>
    intro heq
    have hnat : code = G_TERMKEY_ESC.toNat := Int.ofNat.inj heq
    have hmin := h.1
    rw [hnat] at hmin
    exact absurd hmin (by decide)

theorem encode_ne_nil (k : Key) : k.encode ≠ [] := by
  cases k <;> exact List.cons_ne_nil _ _

theorem length_le_flatMap_encode (keys : List Key) :
    keys.length ≤ (keys.flatMap Key.encode).length := by
  induction keys with
  | nil => exact le_refl _
  | cons k keys ih =>
    have hpos := List.length_pos_of_ne_nil (encode_ne_nil k)
    rw [List.flatMap_cons, List.length_append, List.length_cons]
    omega

/-- What is in the side buffer is counted by `bufferedChars`. -/
def Sound (s : Client) : Prop := s.bufferedChars ≤ bufferSize

/-- Two states that differ in the side buffer alone. -/
structure SameStreams (s t : Client) : Prop where
  stdin : t.stdin = s.stdin
  stdout : t.stdout = s.stdout
  arrived : t.arrived = s.arrived
  returned : t.returned = s.returned

variable {s t : Client} {keys : List Key} {rest : List UInt8}

theorem take_set_toList {n : ℕ} (buffer : Vector ℤ bufferSize) (h : n < bufferSize) (c : ℤ) :
    (buffer.set n c h).toList.take (n + 1) = buffer.toList.take n ++ [c] := by
  have hlen : n < buffer.toList.length := by
    rw [Vector.length_toList]
    exact h
  rw [Vector.toList_set, List.take_add_one, List.take_set_of_le (Nat.le_refl n),
    List.getElem?_set_self hlen]
  rfl

/-- A key that does not fit is dropped. -/
theorem bufferChar_spec (hs : s.Sound) (c : ℤ) :
    SameStreams s (s.bufferChar c) ∧ (s.bufferChar c).Sound ∧
      (s.bufferChar c).buffered = (s.buffered ++ [c]).take bufferSize := by
  obtain ⟨stdin, stdout, buffer, bufferedChars, arrived, returned⟩ := s
  cases buffer with
  | none =>
    refine ⟨⟨rfl, rfl, rfl, rfl⟩, ?_, ?_⟩
    · change 1 ≤ bufferSize
      decide
    · exact take_set_toList _ (show 0 < bufferSize by decide) c
  | some buffer =>
    unfold bufferChar
    dsimp only
    by_cases hroom : bufferedChars < bufferSize
    · rw [dif_pos hroom]
      refine ⟨⟨rfl, rfl, rfl, rfl⟩, hroom, ?_⟩
      unfold buffered
      dsimp only
      rw [take_set_toList buffer hroom c]
      refine (List.take_of_length_le ?_).symm
      rw [List.length_append, List.length_take, List.length_singleton]
      omega
    · rw [dif_neg hroom]
      refine ⟨⟨rfl, rfl, rfl, rfl⟩, hs, ?_⟩
      unfold buffered
      dsimp only
      have hfull : bufferedChars = bufferSize := Nat.le_antisymm hs (by omega)
      rw [hfull, List.take_append_of_le_length, List.take_take, Nat.min_self]
      rw [List.length_take, Vector.length_toList, Nat.min_self]

theorem length_buffered_le (hs : s.Sound) : s.buffered.length ≤ bufferSize := by
  unfold buffered
  cases s.buffer with
  | none => exact Nat.zero_le _
  | some buffer =>
    dsimp only
    rw [List.length_take]
    exact le_trans (Nat.min_le_left _ _) hs

theorem SameStreams.trans {u : Client} (h : SameStreams s t) (h' : SameStreams t u) :
    SameStreams s u :=
  ⟨h'.stdin.trans h.stdin, h'.stdout.trans h.stdout, h'.arrived.trans h.arrived,
    h'.returned.trans h.returned⟩

theorem take_take_append {α : Type*} (n : ℕ) (l m : List α) :
    (l.take n ++ m).take n = (l ++ m).take n := by
  rcases Nat.le_total l.length n with hle | hle
  · rw [List.take_of_length_le hle]
  · rw [List.take_append_of_le_length (by rw [List.length_take]; omega), List.take_take,
      Nat.min_self, List.take_append_of_le_length hle]

/-- The keys before the escape character go to the side buffer, as far as they
fit. -/
theorem readAndBufferUntilESC_spec {fuel : ℕ} (hs : s.Sound)
    (hstdin : s.stdin = keys.flatMap Key.encode ++ G_TERMKEY_ESC :: rest)
    (hfuel : keys.length < fuel) :
    ∃ t, s.readAndBufferUntilESC fuel = some t ∧
      SameStreams { s with stdin := rest } t ∧ t.Sound ∧
      t.buffered = (s.buffered ++ keys.map Key.value).take bufferSize := by
  induction keys generalizing s fuel with
  | nil =>
    cases fuel with
    | zero => cases hfuel
    | succ fuel =>
      have hread : readUnbuffered s.stdin = some ((G_TERMKEY_ESC.toNat : ℤ), rest) := by
        rw [hstdin]
        exact readUnbuffered_of_ne (by decide) rest
      refine ⟨{ s with stdin := rest }, ?_, ⟨rfl, rfl, rfl, rfl⟩, hs, ?_⟩
      · unfold readAndBufferUntilESC
        rw [hread]
        exact if_pos rfl
      · rw [List.map_nil, List.append_nil]
        exact (List.take_of_length_le (length_buffered_le hs)).symm
  | cons k keys ih =>
    cases fuel with
    | zero => cases hfuel
    | succ fuel =>
      let read : Client := { s with stdin := keys.flatMap Key.encode ++ G_TERMKEY_ESC :: rest }
      have hread : readUnbuffered s.stdin = some (k.value, read.stdin) := by
        rw [hstdin, List.flatMap_cons, List.append_assoc]
        exact readUnbuffered_encode k _
      obtain ⟨hsame, hsound, hbuffered⟩ := bufferChar_spec (s := read) hs k.value
      obtain ⟨t, hrun, hsame', hsound', hbuffered'⟩ := ih hsound hsame.stdin
        (by simpa using hfuel)
      refine ⟨t, ?_, ⟨hsame'.stdin, hsame'.stdout.trans hsame.stdout,
        hsame'.arrived.trans hsame.arrived, hsame'.returned.trans hsame.returned⟩, hsound', ?_⟩
      · unfold readAndBufferUntilESC
        rw [hread]
        dsimp only
        rw [if_neg (value_ne_esc k)]
        exact hrun
      · have hsame : read.buffered = s.buffered := rfl
        rw [hbuffered', hbuffered, hsame, List.map_cons, take_take_append, List.append_assoc,
          List.singleton_append]

end Client

section Client

variable {ending : UInt8} {fuel : ℕ}

theorem readEscapedParameters_step (s : Scanner) {c : UInt8}
    (hc : isDigit c ∨ c = ';'.toUInt8) (rest : List UInt8) :
    readEscapedParameters (fuel + 1) (c :: rest) s.parameterCount s.parameters =
      readEscapedParameters fuel rest (s.step c).parameterCount (s.step c).parameters := by
  have hne : c ≠ G_TERMKEY_SUB := by
    rintro rfl
    exact absurd hc (by decide)
  rw [readEscapedParameters, Client.readUnbuffered_of_ne hne]
  dsimp only
  unfold Scanner.step Scanner.readDigit counted
  by_cases hdigit : isDigit c
  · rw [if_pos (isDigit_iff.mp hdigit), if_pos hdigit, if_pos hdigit]
    split
    · rename_i hroom
      rw [dif_pos (by omega)]
      rfl
    · rename_i hfull
      rw [dif_neg (by omega)]
  · have hsep : c = ';'.toUInt8 := hc.resolve_left hdigit
    rw [if_neg (mt isDigit_iff.mpr hdigit), if_pos (by rw [hsep]; rfl), if_neg hdigit,
      if_neg hdigit]

/-- The client reads fields as the scanner does. -/
theorem readEscapedParameters_scanning {bytes : List UInt8}
    (hbytes : ∀ c ∈ bytes, isDigit c ∨ c = ';'.toUInt8)
    (hending : ¬ isDigit ending ∧ ending ≠ ';'.toUInt8 ∧ ending ≠ G_TERMKEY_SUB)
    (hfuel : bytes.length < fuel) (rest : List UInt8) (s : Scanner) :
    readEscapedParameters fuel (bytes ++ ending :: rest) s.parameterCount s.parameters =
      some ((ending.toNat : ℤ), (bytes.foldl Scanner.step s).parameters, rest) := by
  induction bytes generalizing fuel s with
  | nil =>
    cases fuel with
    | zero => cases hfuel
    | succ fuel =>
      rw [readEscapedParameters, List.nil_append, Client.readUnbuffered_of_ne hending.2.2 rest]
      dsimp only
      rw [if_neg (mt isDigit_iff.mpr hending.1), if_neg]
      · rfl
      · intro heq
        exact hending.2.1 (UInt8.toNat_inj.mp (Int.ofNat.inj heq))
  | cons c bytes ih =>
    cases fuel with
    | zero => cases hfuel
    | succ fuel =>
      rw [List.cons_append, readEscapedParameters_step s (hbytes c List.mem_cons_self)]
      exact ih (fun d hd => hbytes d (List.mem_cons_of_mem c hd))
        (Nat.lt_of_succ_lt_succ hfuel) (s.step c)

end Client

/-- A response with two numbers that are not negative. -/
theorem response_natCast (opening ending : Char) (first second : ℕ) :
    response opening first second ending = G_TERMKEY_ESC :: opening.toUInt8 ::
      (Decimal.text first ++ ';'.toUInt8 :: Decimal.text second ++ [ending.toUInt8]) := by
  unfold response
  rw [Decimal.signedText_natCast, Decimal.signedText_natCast, List.append_assoc,
    List.cons_append]

namespace Client

variable {s t : Client} {keys : List Key}

/-- A query reads its response and nothing behind it. The keys before the response go
to the side buffer, as far as they fit. The parameters are -1 where the response does
not end as it should. -/
theorem query_response (hs : s.Sound) (request : String) (opening ending : Char)
    {body : List UInt8} {mode : UInt8} {later : List UInt8}
    (hstdin : s.stdin = keys.flatMap Key.encode ++
      G_TERMKEY_ESC :: opening.toUInt8 :: (body ++ mode :: later))
    (hopening : opening.toUInt8 ≠ G_TERMKEY_SUB ∧ opening.toUInt8.toNat = opening.toNat)
    (hbody : ∀ c ∈ body, isDigit c ∨ c = ';'.toUInt8)
    (hmode : ¬ isDigit mode ∧ mode ≠ ';'.toUInt8 ∧ mode ≠ G_TERMKEY_SUB) :
    ∃ r t, s.query request opening ending = some (r, t) ∧ t.stdin = later ∧
      t.arrived = s.arrived ∧ t.returned = s.returned ∧ t.Sound ∧
      t.buffered = (s.buffered ++ keys.map Key.value).take bufferSize ∧
      let parameters := (body.foldl Scanner.step ⟨0, Vector.replicate _ 0⟩).parameters
      r = if (mode.toNat : ℤ) = ending.toNat then (parameters[0], parameters[1])
        else (-1, -1) := by
  let requested : Client := { s with stdout := s.stdout ++ terminalCommand request [] }
  have hfuel : keys.length < requested.stdin.length := by
    have hle := length_le_flatMap_encode keys
    change _ < s.stdin.length
    rw [hstdin, List.length_append, List.length_cons]
    omega
  obtain ⟨t, hbuffer, hsame, hsound, hbuffered⟩ :=
    readAndBufferUntilESC_spec (s := requested) hs hstdin hfuel
  have hparameters := readEscapedParameters_scanning hbody hmode
    (show body.length < (body ++ mode :: later).length by simp) later ⟨0, Vector.replicate _ 0⟩
  have hread : readUnbuffered t.stdin =
      some ((opening.toNat : ℤ), body ++ mode :: later) := by
    rw [hsame.stdin, ← hopening.2]
    exact readUnbuffered_of_ne hopening.1 _
  refine ⟨_, { t with stdin := later }, ?_, rfl, hsame.arrived, hsame.returned, hsound,
    hbuffered, rfl⟩
  unfold query
  dsimp only
  rw [hbuffer]
  dsimp only
  rw [hread]
  dsimp only
  rw [if_pos rfl, hparameters]
  dsimp only
  split <;> rfl

/-- After a query whose response is in sight, everything has been read, and the
side buffer holds what fits of the keys before the response. The numbers of the
response are returned. -/
theorem query_spec (hs : s.Sound) (request : String) (opening ending : Char) {first second : ℕ}
    (hstdin : s.stdin = keys.flatMap Key.encode ++ response opening first second ending)
    (hopening : opening.toUInt8 ≠ G_TERMKEY_SUB ∧ opening.toUInt8.toNat = opening.toNat)
    (hending : ¬ isDigit ending.toUInt8 ∧ ending.toUInt8 ≠ ';'.toUInt8 ∧
      ending.toUInt8 ≠ G_TERMKEY_SUB) :
    ∃ r t, s.query request opening ending = some (r, t) ∧ t.stdin = [] ∧
      t.arrived = s.arrived ∧ t.returned = s.returned ∧ t.Sound ∧
      t.buffered = (s.buffered ++ keys.map Key.value).take bufferSize ∧
      (first < 2 ^ 31 → second < 2 ^ 31 → ending.toUInt8.toNat = ending.toNat →
        r = ((first : ℤ), (second : ℤ))) := by
  have hdigits : ∀ c ∈ Decimal.text first ++ ';'.toUInt8 :: Decimal.text second,
      isDigit c ∨ c = ';'.toUInt8 := by
    intro c hc
    rcases List.mem_append.mp hc with hc | hc
    · exact Or.inl (isDigit_of_mem_text hc)
    · rcases List.mem_cons.mp hc with hc | hc
      · exact Or.inr hc
      · exact Or.inl (isDigit_of_mem_text hc)
  rw [response_natCast, ← List.append_nil [ending.toUInt8], List.singleton_append] at hstdin
  obtain ⟨r, t, hquery, hempty, harrived, hreturned, hsound, hbuffered, hvalue⟩ :=
    query_response hs request opening ending hstdin hopening hdigits hending
  refine ⟨r, t, hquery, hempty, harrived, hreturned, hsound, hbuffered,
    fun hfirst hsecond hmode => ?_⟩
  obtain ⟨hzero, hone⟩ := ParameterFields.parameters_pair hfirst hsecond
  rw [hvalue, if_pos (congrArg Nat.cast hmode)]
  exact Prod.ext hzero hone

/-- The run so far: no key is lost, and the side buffer is counted right. -/
structure Tracks (s : Client) : Prop where
  preserved : s.Preserved
  sound : s.Sound

theorem Tracks.arrive (h : s.Tracks) (keys : List Key) : (s.arrive keys).Tracks := by
  obtain ⟨unread, hstdin, hvalues⟩ := h.preserved
  refine ⟨⟨unread ++ keys, ?_, ?_⟩, h.sound⟩
  · change s.stdin ++ keys.flatMap Key.encode = _
    rw [hstdin, List.flatMap_append]
  · change s.returned ++ s.buffered ++ _ = (s.arrived ++ keys).map Key.value
    rw [List.map_append, List.map_append, ← List.append_assoc, hvalues]

/-- The keys that have not been returned are in the side buffer or not read. -/
theorem Tracks.waiting (h : s.Tracks) : ∃ unread : List Key,
    s.stdin = unread.flatMap Key.encode ∧
      s.returned ++ (s.buffered ++ unread.map Key.value) = s.arrived.map Key.value ∧
      s.arrived.length - s.returned.length = s.buffered.length + unread.length := by
  obtain ⟨unread, hstdin, hvalues⟩ := h.preserved
  rw [List.append_assoc] at hvalues
  refine ⟨unread, hstdin, hvalues, ?_⟩
  have hlength := congrArg List.length hvalues
  rw [List.length_append, List.length_append, List.length_map, List.length_map] at hlength
  omega

/-- A query keeps every key exactly when all that are waiting fit into the side
buffer. -/
theorem Tracks.query (h : s.Tracks) (keys : List Key) (request : String)
    (opening ending : Char) (first second : ℕ)
    (hopening : opening.toUInt8 ≠ G_TERMKEY_SUB ∧ opening.toUInt8.toNat = opening.toNat)
    (hending : ¬ isDigit ending.toUInt8 ∧ ending.toUInt8 ≠ ';'.toUInt8 ∧
      ending.toUInt8 ≠ G_TERMKEY_SUB) :
    ∃ r t, ((s.arrive keys).receive (response opening first second ending)).query request
        opening ending = some (r, t) ∧
      (s.arrived.length - s.returned.length + keys.length ≤ bufferSize → t.Tracks) ∧
      (bufferSize < s.arrived.length - s.returned.length + keys.length → ¬ t.Preserved) := by
  obtain ⟨unread, hstdin, hvalues, hlength⟩ := (h.arrive keys).waiting
  have hwaiting : (s.arrive keys).arrived.length - (s.arrive keys).returned.length =
      s.arrived.length - s.returned.length + keys.length := by
    have hle : s.returned.length ≤ s.arrived.length := by
      obtain ⟨before, _, hbefore, _⟩ := h.waiting
      have hlen := congrArg List.length hbefore
      rw [List.length_append, List.length_map] at hlen
      omega
    change (s.arrived ++ keys).length - s.returned.length = _
    rw [List.length_append]
    omega
  have hreceived : ((s.arrive keys).receive (response opening first second ending)).stdin =
      unread.flatMap Key.encode ++ response opening first second ending := by
    rw [← hstdin]
    rfl
  obtain ⟨r, t, hquery, hempty, harrived, hreturned, hsound, hbuffered, _⟩ := query_spec
    (s := (s.arrive keys).receive (response opening first second ending))
    (h.arrive keys).sound request opening ending hreceived hopening hending
  have hsize : (s.buffered ++ unread.map Key.value).length =
      s.arrived.length - s.returned.length + keys.length := by
    rw [List.length_append, List.length_map, ← hwaiting, hlength]
    rfl
  refine ⟨r, t, hquery, fun hfits => ⟨⟨[], hempty, ?_⟩, hsound⟩, fun hfull => ?_⟩
  · rw [hbuffered, hreturned, harrived, List.take_of_length_le, List.map_nil, List.append_nil]
    · exact hvalues
    · rw [← hsize] at hfits
      exact hfits
  · rintro ⟨left, hleft, hkept⟩
    have hnil : left = [] := by
      have hle := length_le_flatMap_encode left
      rw [← hleft, hempty] at hle
      exact List.length_eq_zero_iff.mp (Nat.le_zero.mp hle)
    rw [hnil, hbuffered, hreturned, harrived, List.map_nil, List.append_nil] at hkept
    have hall : (s.buffered ++ unread.map Key.value).take bufferSize =
        s.buffered ++ unread.map Key.value :=
      List.append_cancel_left (hkept.trans hvalues.symm)
    have hlen := congrArg List.length hall
    rw [List.length_take, hsize] at hlen
    omega

theorem take_shifted (buffer : Vector ℤ bufferSize) {n : ℕ} (hn : n + 1 ≤ bufferSize) :
    buffer.toList.take (n + 1) = buffer[0] :: (shifted buffer).toList.take n := by
  refine List.ext_getElem ?_ ?_
  · rw [List.length_take, List.length_cons, List.length_take, Vector.length_toList,
      Vector.length_toList]
    omega
  · intro i hi hi'
    have hin : i < n + 1 := by
      rw [List.length_take] at hi
      omega
    cases i with
    | zero => simp
    | succ i =>
      have hnext : i + 1 < bufferSize := by omega
      simp [shifted, hnext]

/-- With an empty side buffer, the next key is read. -/
theorem Tracks.getChar_unbuffered (h : s.Tracks) (hempty : s.buffered = [])
    (hget : s.getChar =
      (readUnbuffered s.stdin).map fun (c, rest) => (c, { s with stdin := rest })) :
    ∃ t, s.exec .getChar = some t ∧ t.Tracks := by
  obtain ⟨unread, hstdin, hvalues⟩ := h.preserved
  unfold exec
  dsimp only
  cases unread with
  | nil =>
    rw [hget, hstdin]
    exact ⟨s, rfl, h⟩
  | cons k unread =>
    rw [hget, hstdin, List.flatMap_cons, readUnbuffered_encode]
    refine ⟨_, rfl, ⟨unread, rfl, ?_⟩, h.sound⟩
    change s.returned ++ [k.value] ++ s.buffered ++ unread.map Key.value = _
    rw [← hvalues, hempty, List.append_nil, List.append_nil, List.append_assoc,
      List.singleton_append, List.map_cons]

/-- `getChar` takes the first key that is waiting, or waits for one. -/
theorem Tracks.getChar (h : s.Tracks) : ∃ t, s.exec .getChar = some t ∧ t.Tracks := by
  obtain ⟨stdin, stdout, buffer, bufferedChars, arrived, returned⟩ := s
  cases buffer with
  | none => exact h.getChar_unbuffered rfl rfl
  | some buffer =>
    cases bufferedChars with
    | zero => exact h.getChar_unbuffered rfl rfl
    | succ n =>
      obtain ⟨unread, hstdin, hvalues⟩ := h.preserved
      have hn : n + 1 ≤ bufferSize := h.sound
      refine ⟨_, rfl, ⟨unread, hstdin, ?_⟩, Nat.le_of_lt hn⟩
      change returned ++ buffer.toList.take (n + 1) ++ unread.map Key.value = _ at hvalues
      change returned ++ [buffer[0]] ++ (shifted buffer).toList.take n ++
        unread.map Key.value = _
      rw [take_shifted buffer hn] at hvalues
      rw [List.append_assoc returned, List.singleton_append]
      exact hvalues

/-- Every event is handled, and it keeps every key exactly when they fit. -/
theorem Tracks.exec (h : s.Tracks) (event : ClientEvent) :
    ∃ t, s.exec event = some t ∧ (s.Fits event → t.Tracks) ∧
      (¬ s.Fits event → ¬ t.Preserved) := by
  cases event with
  | key k => exact ⟨_, rfl, fun _ => h.arrive [k], fun hfull => absurd trivial hfull⟩
  | getChar =>
    obtain ⟨t, ht, htracks⟩ := h.getChar
    exact ⟨t, ht, fun _ => htracks, fun hfull => absurd trivial hfull⟩
  | getCursor keys y x =>
    obtain ⟨r, t, hquery, hkept, hlost⟩ := h.query keys "[6n" '[' 'R' y x (by decide)
      (by decide)
    refine ⟨t, ?_, hkept, fun hfull => hlost (Nat.lt_of_not_le hfull)⟩
    change Option.map Prod.snd (Client.query _ _ _ _) = some t
    rw [hquery]
    rfl
  | getSize keys w h' =>
    obtain ⟨r, t, hquery, hkept, hlost⟩ := h.query keys "\x7bi" '\x7b' 'i' w h'
      (by decide) (by decide)
    refine ⟨t, ?_, hkept, fun hfull => hlost (Nat.lt_of_not_le hfull)⟩
    change Option.map Prod.snd (Client.query _ _ _ _) = some t
    rw [hquery]
    rfl

theorem sound_of_read (hs : s.Sound)
    (hkeys : ∃ keys : List Key, s.stdin = keys.flatMap Key.encode) {c : ℤ}
    (hget : ((readUnbuffered s.stdin).map fun (c, rest) => (c, { s with stdin := rest })) =
      some (c, t)) :
    t.Sound ∧ ∃ keys : List Key, t.stdin = keys.flatMap Key.encode := by
  obtain ⟨keys, hkeys⟩ := hkeys
  cases keys with
  | nil =>
    rw [hkeys] at hget
    cases hget
  | cons k keys =>
    rw [hkeys, List.flatMap_cons, readUnbuffered_encode] at hget
    obtain ⟨_, rfl⟩ := Prod.mk.inj (Option.some.inj hget)
    exact ⟨hs, keys, rfl⟩

/-- What `getChar` leaves: the side buffer is counted right, and keys are unread. -/
theorem sound_of_getChar (hs : s.Sound)
    (hkeys : ∃ keys : List Key, s.stdin = keys.flatMap Key.encode) {c : ℤ}
    (hget : s.getChar = some (c, t)) :
    t.Sound ∧ ∃ keys : List Key, t.stdin = keys.flatMap Key.encode := by
  obtain ⟨stdin, stdout, buffer, bufferedChars, arrived, returned⟩ := s
  cases buffer with
  | none => exact sound_of_read hs hkeys hget
  | some buffer =>
    cases bufferedChars with
    | zero => exact sound_of_read hs hkeys hget
    | succ n =>
      obtain ⟨_, rfl⟩ := Prod.mk.inj (Option.some.inj hget)
      exact ⟨Nat.le_of_succ_le hs, hkeys⟩

theorem tracks_construct : construct.Tracks :=
  ⟨⟨[], rfl, rfl⟩, Nat.zero_le _⟩

end Client

end Heartix.Terminal
