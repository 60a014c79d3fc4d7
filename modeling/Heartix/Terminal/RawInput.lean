import Heartix.Terminal.Input

/-!
The raw mode from the keyboard to the program: the server encodes the keys and writes
them to the shell's standard input, the client library reads them from there, also
past the response to a query that keys have been typed before.
-/

namespace Heartix.Terminal

open Runs

/-- A keyboard layout that gives no key one of the two escapes. -/
structure Layout where
  charForKey : KeyInfo → UInt8
  plain : ∀ input, charForKey input ≠ G_TERMKEY_ESC ∧ charForKey input ≠ G_TERMKEY_SUB

/-- A keystroke whose bytes are all written at once. -/
structure RawKey where
  keystroke : Keystroke
  room : 3 ≤ keystroke.room 0

def termkey (code : ℕ) : Option Key :=
  if h : G_TERMKEY_MIN ≤ code ∧ code < 2 ^ 16 then some (.extended code h) else none

def charKey (c : UInt8) : Option Key :=
  if h : c ≠ G_TERMKEY_ESC ∧ c ≠ G_TERMKEY_SUB then some (.char c h) else none

/-- The key that the program is to get for a keystroke, if any. -/
def Layout.keyOf (L : Layout) (input : KeyInfo) : Option Key :=
  if input.key = "KEY_ENTER" ∧ input.pressed then termkey G_TERMKEY_ENTER
  else if input.key = "KEY_BACKSPACE" ∧ input.pressed then termkey G_TERMKEY_BACKSPACE
  else if input.key = "KEY_ARROW_LEFT" ∧ input.pressed then termkey G_TERMKEY_LEFT
  else if input.key = "KEY_ARROW_RIGHT" ∧ input.pressed then termkey G_TERMKEY_RIGHT
  else if input.key = "KEY_ARROW_UP" ∧ input.pressed then termkey G_TERMKEY_UP
  else if input.key = "KEY_ARROW_DOWN" ∧ input.pressed then termkey G_TERMKEY_DOWN
  else if input.key = "KEY_TAB" ∧ input.pressed ∧ input.shift then charKey '\t'.toUInt8
  else if input.key = "KEY_TAB" ∧ input.pressed then termkey G_TERMKEY_STAB
  else if L.charForKey input ≠ 0xFF then charKey (L.charForKey input)
  else none

/-- The bytes of a key, if there is one. -/
def encoded (k : Option Key) : List UInt8 := k.toList.flatMap Key.encode

/-- The shell in the raw mode: the server's input routine, and the client library at the
other end of the pipe. -/
structure RawSession where
  input : InputState
  client : Client

inductive RawEvent where
  | keystroke (k : RawKey)
  | getChar
  | getCursor (typed : List RawKey) (y x : ℕ)
  | getSize (typed : List RawKey) (w h : ℕ)

namespace RawSession

/-- What has been written to the pipe arrives at the client, which records the keys. -/
def deliver (keys : List Key) (s : RawSession) : RawSession where
  input := { s.input with server := { s.input.server with shellStdin := [] } }
  client := ({ s.client with arrived := s.client.arrived ++ keys }).receive
    s.input.server.shellStdin

def type (L : Layout) (shellProcess : ℤ) (s : RawSession) (k : RawKey) : Option RawSession :=
  (s.input.terminalInputRoutine L.charForKey shellProcess k.keystroke).map fun input =>
    { s with input := input }.deliver (L.keyOf k.keystroke.info).toList

/-- The client reads, or the user types. A query is answered after the keys that have
been typed in the meantime. -/
def exec (L : Layout) (shellProcess : ℤ) (s : RawSession) : RawEvent → Option RawSession
  | .keystroke k => s.type L shellProcess k
  | .getChar => (s.client.exec .getChar).map fun client => { s with client := client }
  | .getCursor typed y x => do
      let s ← typed.foldlM (type L shellProcess) s
      let (_, client) ← (s.client.receive (response '[' y x 'R')).getCursor
      some { s with client := client }
  | .getSize typed w h => do
      let s ← typed.foldlM (type L shellProcess) s
      let (_, client) ← (s.client.receive (response '\x7b' w h 'i')).getSize
      some { s with client := client }

end RawSession

theorem encoded_termkey {code : ℕ} (h : G_TERMKEY_MIN ≤ code ∧ code < 2 ^ 16) :
    encoded (termkey code) =
      [G_TERMKEY_SUB, (code % 2 ^ 8).toUInt8, (code / 2 ^ 8).toUInt8] := by
  unfold termkey
  rw [dif_pos h]
  rfl

theorem encoded_charKey {c : UInt8} (h : c ≠ G_TERMKEY_ESC ∧ c ≠ G_TERMKEY_SUB) :
    encoded (charKey c) = [c] := by
  unfold charKey
  rw [dif_pos h]
  rfl

theorem termkey_written {room : ℕ → ℤ} (hroom : 3 ≤ room 0) {code : ℕ}
    (h : G_TERMKEY_MIN ≤ code ∧ code < 2 ^ 16) (t : Server GuiWindow) :
    terminalWriteTermkeyToShell room code t = t.writeToShell (encoded (termkey code)) := by
  unfold terminalWriteTermkeyToShell
  rw [encoded_termkey h, List.take_of_length_le]
  simp only [List.length_cons, List.length_nil]
  omega

section Typing

variable {L : Layout} {shellProcess : ℤ}

/-- A silent echo. -/
theorem InputState.echo_silent {s : InputState} (h : s.server.inputEcho = false) (c : UInt8) :
    s.echo c = some s := by
  unfold InputState.echo
  rw [h]
  rfl

/-- The bytes that are written in the raw mode are those of the key. -/
theorem rawInput_eq (k : RawKey) {s : InputState} (hecho : s.server.inputEcho = false) :
    s.rawInput L.charForKey k.keystroke = some { s with
      server := s.server.writeToShell (encoded (L.keyOf k.keystroke.info)) } := by
  obtain ⟨⟨input, room⟩, hroom⟩ := k
  change 3 ≤ room 0 at hroom
  have hsend {code : ℕ} (h : G_TERMKEY_MIN ≤ code ∧ code < 2 ^ 16) :=
    termkey_written hroom h s.server
  have hone (c : UInt8) : [c].take (room 0).toNat = [c] :=
    List.take_of_length_le (by rw [List.length_singleton]; omega)
  unfold InputState.rawInput Layout.keyOf
  dsimp only
  by_cases henter : input.key = "KEY_ENTER" ∧ input.pressed
  · rw [if_pos henter, if_pos henter, hsend (by decide)]
    apply InputState.echo_silent
    exact hecho
  rw [if_neg henter, if_neg henter]
  by_cases hbackspace : input.key = "KEY_BACKSPACE" ∧ input.pressed
  · rw [if_pos hbackspace, if_pos hbackspace]
    refine (if_neg ?_).trans ?_
    · rw [Bool.not_eq_true]
      exact hecho
    · rw [hsend (by decide)]
  rw [if_neg hbackspace, if_neg hbackspace]
  by_cases hleft : input.key = "KEY_ARROW_LEFT" ∧ input.pressed
  · rw [if_pos hleft, if_pos hleft, hsend (by decide)]
  rw [if_neg hleft, if_neg hleft]
  by_cases hright : input.key = "KEY_ARROW_RIGHT" ∧ input.pressed
  · rw [if_pos hright, if_pos hright, hsend (by decide)]
  rw [if_neg hright, if_neg hright]
  by_cases hup : input.key = "KEY_ARROW_UP" ∧ input.pressed
  · rw [if_pos hup, if_pos hup, hsend (by decide)]
  rw [if_neg hup, if_neg hup]
  by_cases hdown : input.key = "KEY_ARROW_DOWN" ∧ input.pressed
  · rw [if_pos hdown, if_pos hdown, hsend (by decide)]
  rw [if_neg hdown, if_neg hdown]
  by_cases hshifted : input.key = "KEY_TAB" ∧ input.pressed ∧ input.shift
  · have hwritten : written room ['\t'.toUInt8] = ['\t'.toUInt8] := by
      refine (written_eq_iff room _).mpr ⟨by decide, by decide, 1, fun j hj => ?_, ?_⟩
      · obtain rfl : j = 0 := by omega
        rw [Nat.add_zero]
        omega
      · simp only [List.length_singleton, List.range_one, List.map_cons, List.map_nil,
          List.sum_cons, List.sum_nil, Nat.add_zero]
        omega
    rw [if_pos hshifted, if_pos hshifted, encoded_charKey (by decide), terminalWriteToShell,
      hwritten]
  rw [if_neg hshifted, if_neg hshifted]
  by_cases htab : input.key = "KEY_TAB" ∧ input.pressed
  · rw [if_pos htab, if_pos htab, hsend (by decide)]
  rw [if_neg htab, if_neg htab]
  by_cases hchr : L.charForKey input ≠ 0xFF
  · rw [if_pos hchr, if_pos hchr, encoded_charKey (L.plain input), hone]
    apply InputState.echo_silent
    exact hecho
  · rw [if_neg hchr, if_neg hchr]
    rw [encoded, Option.toList_none, List.flatMap_nil, Server.writeToShell, List.append_nil]

end Typing

namespace RawSession

variable {L : Layout} {s : RawSession}

/-- The terminal as the shell sets it before it reads a line. -/
structure Listens (s : RawSession) : Prop where
  mode : s.input.server.inputMode = G_TERMINAL_MODE_RAW
  silent : s.input.server.inputEcho = false
  drained : s.input.server.shellStdin = []

theorem Listens.type (h : s.Listens) (shellProcess : ℤ) (k : RawKey) :
    ∃ t, s.type L shellProcess k = some t ∧ t.Listens ∧
      t.client = s.client.arrive (L.keyOf k.keystroke.info).toList := by
  have hroutine : s.input.terminalInputRoutine L.charForKey shellProcess k.keystroke =
      s.input.rawInput L.charForKey k.keystroke := by
    unfold InputState.terminalInputRoutine
    rw [h.mode, if_neg (by decide), if_pos rfl]
  unfold RawSession.type
  rw [hroutine, rawInput_eq k h.silent]
  refine ⟨_, rfl, ⟨h.mode, h.silent, rfl⟩, ?_⟩
  unfold deliver Client.arrive Client.receive Server.writeToShell
  dsimp only
  rw [h.drained, List.nil_append, encoded]

theorem arrive_arrive (client : Client) (keys more : List Key) :
    (client.arrive keys).arrive more = client.arrive (keys ++ more) := by
  unfold Client.arrive
  dsimp only
  rw [List.flatMap_append, List.append_assoc, List.append_assoc]

/-- The keys that the program is to get for some keystrokes. -/
def keysOf (L : Layout) (typed : List RawKey) : List Key :=
  typed.filterMap fun k => L.keyOf k.keystroke.info

theorem Listens.types (h : s.Listens) (shellProcess : ℤ) (typed : List RawKey) :
    ∃ t, typed.foldlM (RawSession.type L shellProcess) s = some t ∧ t.Listens ∧
      t.client = s.client.arrive (keysOf L typed) := by
  induction typed generalizing s with
  | nil =>
    refine ⟨s, rfl, h, ?_⟩
    unfold Client.arrive keysOf
    rw [List.filterMap_nil, List.flatMap_nil, List.append_nil, List.append_nil]
  | cons k typed ih =>
    obtain ⟨u, hu, hlistens, hclient⟩ := h.type (L := L) shellProcess k
    obtain ⟨t, ht, hlistens', hclient'⟩ := ih hlistens
    refine ⟨t, ?_, hlistens', ?_⟩
    · rw [List.foldlM_cons, hu]
      exact ht
    · have hkeys : keysOf L (k :: typed) =
          (L.keyOf k.keystroke.info).toList ++ keysOf L typed := by
        unfold keysOf
        rw [List.filterMap_cons]
        cases L.keyOf k.keystroke.info with
        | none => rfl
        | some key => rfl
      rw [hclient', hclient, arrive_arrive, hkeys]

/-- The keys that have not been read and those typed before a response fit into the
side buffer of the client. -/
def Fits (L : Layout) (s : RawSession) : RawEvent → Prop
  | .keystroke _ => True
  | .getChar => True
  | .getCursor typed _ _ | .getSize typed _ _ =>
      s.client.arrived.length - s.client.returned.length + (keysOf L typed).length ≤ bufferSize

/-- The run so far. -/
structure Follows (s : RawSession) : Prop where
  listens : s.Listens
  tracks : s.client.Tracks

theorem Listens.follows (h : s.Listens) {client : Client} (htracks : client.Tracks) :
    Follows { s with client := client } :=
  ⟨⟨h.mode, h.silent, h.drained⟩, htracks⟩

/-- A query, after keys have been typed. -/
theorem Follows.query (h : s.Follows) (shellProcess : ℤ) (typed : List RawKey)
    {query : Client → Option ((ℤ × ℤ) × Client)} {bytes : List UInt8} {r : ℤ × ℤ} {client : Client}
    (hquery : query ((s.client.arrive (keysOf L typed)).receive bytes) = some (r, client)) :
    ∃ u, (do
        let t ← typed.foldlM (RawSession.type L shellProcess) s
        let (_, client) ← query (t.client.receive bytes)
        some { t with client := client }) = some u ∧ u.client = client ∧
      (client.Tracks → u.Follows) := by
  obtain ⟨t, ht, hlistens, hclient⟩ := h.listens.types (L := L) shellProcess typed
  refine ⟨{ t with client := client }, ?_, rfl, hlistens.follows⟩
  rw [ht, Option.bind_eq_bind, Option.bind_some, hclient, hquery]
  rfl

/-- Every event is handled, and it keeps every key exactly when they fit. -/
theorem Follows.exec (h : s.Follows) (shellProcess : ℤ) (event : RawEvent) :
    ∃ t, s.exec L shellProcess event = some t ∧ (s.Fits L event → t.Follows) ∧
      (¬ s.Fits L event → ¬ t.client.Preserved) := by
  cases event with
  | keystroke k =>
    obtain ⟨t, ht, hlistens, hclient⟩ := h.listens.type (L := L) shellProcess k
    refine ⟨t, ht, fun _ => ⟨hlistens, ?_⟩, fun hfull => absurd trivial hfull⟩
    rw [hclient]
    exact h.tracks.arrive _
  | getChar =>
    obtain ⟨client, hclient, htracks⟩ := h.tracks.getChar
    refine ⟨{ s with client := client }, ?_, fun _ => h.listens.follows htracks,
      fun hfull => absurd trivial hfull⟩
    unfold RawSession.exec
    rw [hclient]
    rfl
  | getCursor typed y x =>
    obtain ⟨r, client, hquery, hkept, hlost⟩ := h.tracks.query (keysOf L typed) "[6n" '[' 'R'
      y x (by decide) (by decide)
    obtain ⟨t, ht, rfl, hfollows⟩ := h.query shellProcess typed hquery
    exact ⟨t, ht, fun hfits => hfollows (hkept hfits), fun hfull => hlost (Nat.lt_of_not_le hfull)⟩
  | getSize typed w h' =>
    obtain ⟨r, client, hquery, hkept, hlost⟩ := h.tracks.query (keysOf L typed) "\x7bi" '\x7b' 'i'
      w h' (by decide) (by decide)
    obtain ⟨t, ht, rfl, hfollows⟩ := h.query shellProcess typed hquery
    exact ⟨t, ht, fun hfits => hfollows (hkept hfits), fun hfull => hlost (Nat.lt_of_not_le hfull)⟩

/-- The raw mode when the shell starts to read: the window, what had been typed before,
and who is in control do not matter. -/
def start (w : GuiWindow) (buffer : List UInt8) (controlProcess : ℤ) : RawSession where
  input :=
    { buffer := buffer
      server :=
        { screen := w
          inputMode := G_TERMINAL_MODE_RAW
          inputEcho := false
          controlProcess := controlProcess
          shellStdin := [] }
      killed := [] }
  client := Client.construct

/-- From the keyboard to the program: the values that the client has returned, those in
its side buffer and those on the way are those of the keys that have been typed, in order,
along exactly the runs in which the waiting keys fit into the side buffer at a query. -/
theorem raw_keys_preserved_iff (L : Layout) (shellProcess : ℤ) (w : GuiWindow)
    (buffer : List UInt8) (controlProcess : ℤ) (events : List RawEvent) :
    Along (exec L shellProcess) (fun s => s.client.Preserved) events
        (start w buffer controlProcess) ↔
      Guarded (exec L shellProcess) (Fits L) events (start w buffer controlProcess) := by
  have hstart : (start w buffer controlProcess).Follows :=
    ⟨⟨rfl, rfl, rfl⟩, Client.tracks_construct⟩
  refine along_iff_guarded (I := Follows) (fun _ h => h.tracks.preserved) ?_ ?_ events hstart
  · intro s event h hfits
    obtain ⟨t, ht, hfollows, _⟩ := h.exec (L := L) shellProcess event
    exact ⟨t, ht, hfollows hfits⟩
  · intro s event h hfull t ht
    obtain ⟨u, hu, _, hlost⟩ := h.exec (L := L) shellProcess event
    obtain rfl := Option.some.inj (ht.symm.trans hu)
    exact hlost hfull

end RawSession

end Heartix.Terminal
