import Heartix.Gsh.Quoting
import Heartix.Gsh.Shell
import Heartix.Terminal.RawInput

/-!
A line on its way from the keyboard to the programs. The keys pass the terminal, its
pipe and the client library, also past the responses to the queries of the shell; the
editor makes a line of them, the parser makes calls of the line, and each program takes
its arguments out of the string that it is spawned with.
-/

namespace Heartix.Terminal

open Runs

namespace Client

variable {s t : Client}

/-- The record of the run is the same. -/
structure SameRecord (s t : Client) : Prop where
  arrived : t.arrived = s.arrived
  returned : t.returned = s.returned

theorem SameRecord.trans {u : Client} (h : SameRecord s t) (h' : SameRecord t u) :
    SameRecord s u :=
  ⟨h'.arrived.trans h.arrived, h'.returned.trans h.returned⟩

theorem sameRecord_bufferChar (c : ℤ) (s : Client) : SameRecord s (s.bufferChar c) := by
  obtain ⟨stdin, stdout, buffer, bufferedChars, arrived, returned⟩ := s
  unfold bufferChar
  cases buffer with
  | none => exact ⟨rfl, rfl⟩
  | some buffer =>
    dsimp only
    split
    · exact ⟨rfl, rfl⟩
    · exact ⟨rfl, rfl⟩

theorem sameRecord_readAndBufferUntilESC {fuel : ℕ}
    (h : s.readAndBufferUntilESC fuel = some t) : SameRecord s t := by
  induction fuel generalizing s with
  | zero => cases h
  | succ fuel ih =>
    unfold readAndBufferUntilESC at h
    split at h
    · cases h
    · next c rest hread =>
      split at h
      · obtain rfl := Option.some.inj h
        exact ⟨rfl, rfl⟩
      · have hread := sameRecord_bufferChar c { s with stdin := rest }
        have hrest := ih h
        exact ⟨hrest.arrived.trans hread.arrived, hrest.returned.trans hread.returned⟩

theorem sameRecord_query {request : String} {opening ending : Char} {r : ℤ × ℤ}
    (h : s.query request opening ending = some (r, t)) : SameRecord s t := by
  unfold query at h
  dsimp only at h
  split at h
  · cases h
  · next u hbuffer =>
    have hu := sameRecord_readAndBufferUntilESC hbuffer
    have hsame : ∀ rest, SameRecord s { u with stdin := rest } :=
      fun rest => ⟨hu.arrived, hu.returned⟩
    split at h
    · cases h
    · split at h
      · split at h
        · cases h
        · split at h
          · obtain ⟨-, rfl⟩ := Prod.mk.inj (Option.some.inj h)
            exact hsame _
          · obtain ⟨-, rfl⟩ := Prod.mk.inj (Option.some.inj h)
            exact hsame _
      · obtain ⟨-, rfl⟩ := Prod.mk.inj (Option.some.inj h)
        exact hsame _

theorem sameRecord_getChar {c : ℤ} (h : s.getChar = some (c, t)) : SameRecord s t := by
  have hread {u : Client × ℤ}
      (hu : ((readUnbuffered s.stdin).map fun r => (r.1, { s with stdin := r.2 })) =
        some (u.2, u.1)) : SameRecord s u.1 := by
    obtain ⟨r, -, heq⟩ := Option.map_eq_some_iff.mp hu
    obtain ⟨-, heq⟩ := Prod.mk.inj heq
    rw [← heq]
    exact ⟨rfl, rfl⟩
  unfold getChar at h
  dsimp only at h
  split at h
  · exact hread (u := (t, c)) h
  · split at h
    · obtain ⟨-, rfl⟩ := Prod.mk.inj (Option.some.inj h)
      exact ⟨rfl, rfl⟩
    · exact hread (u := (t, c)) h

/-- A `getChar` adds what it returns, if it does not wait. -/
theorem exec_getChar (h : s.exec .getChar = some t) :
    t.arrived = s.arrived ∧ s.returned <+: t.returned := by
  unfold exec at h
  dsimp only at h
  split at h
  · obtain rfl := Option.some.inj h
    exact ⟨rfl, List.prefix_refl _⟩
  · next c u hget =>
    have hsame := sameRecord_getChar hget
    obtain rfl := Option.some.inj h
    exact ⟨hsame.arrived, ⟨[c], congrArg (· ++ [c]) hsame.returned.symm⟩⟩

end Client

/-- The keystrokes at an event. -/
def RawEvent.typed : RawEvent → List RawKey
  | .keystroke k => [k]
  | .getChar => []
  | .getCursor typed _ _ | .getSize typed _ _ => typed

namespace RawSession

variable {L : Layout} {shellProcess : ℤ} {s t : RawSession}

/-- The keys that the program is to get for the keystrokes of a run. -/
def keysTyped (L : Layout) (events : List RawEvent) : List Key :=
  keysOf L (events.flatMap RawEvent.typed)

theorem keysTyped_cons (event : RawEvent) (events : List RawEvent) :
    keysTyped L (event :: events) = keysTyped L [event] ++ keysTyped L events := by
  unfold keysTyped keysOf
  rw [List.flatMap_cons, List.filterMap_append, List.flatMap_singleton]

/-- What a run adds to the record: the keys that have been typed, and what is returned. -/
structure Adds (keys : List Key) (s t : RawSession) : Prop where
  arrived : t.client.arrived = s.client.arrived ++ keys
  returned : s.client.returned <+: t.client.returned

theorem adds_nil (s : RawSession) : Adds [] s s :=
  ⟨(List.append_nil _).symm, List.prefix_refl _⟩

theorem Adds.trans {keys more : List Key} {u : RawSession} (h : Adds keys s t)
    (h' : Adds more t u) : Adds (keys ++ more) s u := by
  refine ⟨?_, h.returned.trans h'.returned⟩
  rw [h'.arrived, h.arrived, List.append_assoc]

theorem Follows.adds_query (h : s.Follows) {typed : List RawKey}
    {query : Client → Option ((ℤ × ℤ) × Client)} {bytes : List UInt8}
    (hquery : ∀ u r v, query u = some (r, v) → Client.SameRecord u v)
    (ht : (do
        let u ← typed.foldlM (RawSession.type L shellProcess) s
        let (_, client) ← query (u.client.receive bytes)
        some { u with client := client }) = some t) :
    Adds (keysOf L typed) s t := by
  obtain ⟨u, hu, -, hclient⟩ := h.listens.types (L := L) shellProcess typed
  rw [hu, Option.bind_eq_bind, Option.bind_some] at ht
  obtain ⟨⟨r, client⟩, hanswer, ht⟩ := Option.bind_eq_some_iff.mp ht
  obtain rfl := Option.some.inj ht
  have hsame := hquery _ r client hanswer
  rw [hclient] at hsame
  exact ⟨hsame.arrived, hsame.returned ▸ List.prefix_refl _⟩

theorem Follows.adds (h : s.Follows) {event : RawEvent}
    (ht : s.exec L shellProcess event = some t) : Adds (keysTyped L [event]) s t := by
  unfold keysTyped
  rw [List.flatMap_singleton]
  cases event with
  | keystroke k =>
    obtain ⟨u, hu, -, hclient⟩ := h.listens.type (L := L) shellProcess k
    obtain rfl := Option.some.inj (hu.symm.trans ht)
    have hkeys : keysOf L [k] = (L.keyOf k.keystroke.info).toList := by
      unfold keysOf
      rw [List.filterMap_cons]
      cases L.keyOf k.keystroke.info with
      | none => rfl
      | some key => rfl
    refine ⟨?_, ?_⟩
    · rw [hclient]
      exact congrArg _ hkeys.symm
    · rw [hclient]
      exact List.prefix_refl _
  | getChar =>
    obtain ⟨client, hexec, rfl⟩ := Option.map_eq_some_iff.mp ht
    obtain ⟨harrived, hreturned⟩ := Client.exec_getChar hexec
    exact ⟨harrived.trans (List.append_nil _).symm, hreturned⟩
  | getCursor typed y x => exact h.adds_query (fun _ _ _ => Client.sameRecord_query) ht
  | getSize typed w h' => exact h.adds_query (fun _ _ _ => Client.sameRecord_query) ht

/-- Along a run in which the keys fit. -/
theorem Follows.run (h : s.Follows) {events : List RawEvent}
    (hfits : Guarded (RawSession.exec L shellProcess) (Fits L) events s)
    (ht : events.foldlM (RawSession.exec L shellProcess) s = some t) :
    t.Follows ∧ Adds (keysTyped L events) s t := by
  induction events generalizing s with
  | nil =>
    obtain rfl := Option.some.inj ht
    exact ⟨h, adds_nil s⟩
  | cons event events ih =>
    obtain ⟨hfit, hrest⟩ := hfits
    obtain ⟨u, hu, hfollows, -⟩ := h.exec (L := L) shellProcess event
    rw [List.foldlM_cons, hu, Option.bind_eq_bind, Option.bind_some] at ht
    obtain ⟨hend, hadds⟩ := ih (hfollows hfit) (hrest u hu) ht
    rw [keysTyped_cons]
    exact ⟨hend, (h.adds hu).trans hadds⟩

/-- The keys that have been typed and not returned. -/
def pending (s : RawSession) : List Key := s.client.arrived.drop s.client.returned.length

theorem length_pending (s : RawSession) :
    s.pending.length = s.client.arrived.length - s.client.returned.length :=
  List.length_drop

/-- As few keys as the side buffer holds fit in any case. -/
theorem Follows.guarded_of_few (h : s.Follows) {events : List RawEvent}
    (hfew : s.pending.length + (keysTyped L events).length ≤ bufferSize) :
    Guarded (RawSession.exec L shellProcess) (Fits L) events s := by
  induction events generalizing s with
  | nil => trivial
  | cons event events ih =>
    rw [keysTyped_cons, List.length_append, length_pending] at hfew
    have hfits : s.Fits L event := by
      have hkeys : keysTyped L [event] = keysOf L event.typed := by
        unfold keysTyped
        rw [List.flatMap_singleton]
      rw [hkeys] at hfew
      cases event with
      | keystroke | getChar => trivial
      | getCursor typed y x =>
        change _ + ((keysOf L typed).length + _) ≤ _ at hfew
        change _ + (keysOf L typed).length ≤ bufferSize
        omega
      | getSize typed w h' =>
        change _ + ((keysOf L typed).length + _) ≤ _ at hfew
        change _ + (keysOf L typed).length ≤ bufferSize
        omega
    refine ⟨hfits, fun t ht => ?_⟩
    have hadds := h.adds ht
    have harrived := congrArg List.length hadds.arrived
    have hreturned := hadds.returned.length_le
    obtain ⟨u, hu, hfollows, -⟩ := h.exec (L := L) shellProcess event
    obtain rfl := Option.some.inj (hu.symm.trans ht)
    apply ih (hfollows hfits)
    rw [length_pending]
    rw [List.length_append] at harrived
    omega

/-- What is returned in a run is the beginning of the keys that were pending and those
that have been typed. -/
theorem Follows.returned_prefix (h : s.Follows) (ht : t.Follows) {keys : List Key}
    (hadds : Adds keys s t) :
    t.client.returned.drop s.client.returned.length <+: (s.pending ++ keys).map Key.value := by
  obtain ⟨unread, -, hvalues⟩ := ht.tracks.preserved
  obtain ⟨before, -, hbefore⟩ := h.tracks.preserved
  have hle : s.client.returned.length ≤ s.client.arrived.length := by
    have hlength := congrArg List.length hbefore
    simp only [List.length_append, List.length_map] at hlength
    omega
  have hpending : s.pending ++ keys =
      (s.client.arrived ++ keys).drop s.client.returned.length := by
    rw [List.drop_append_of_le_length hle, pending]
  have hread : t.client.returned <+: (s.client.arrived ++ keys).map Key.value := by
    rw [← hadds.arrived, ← hvalues, List.append_assoc]
    exact List.prefix_append _ _
  rw [hpending, List.map_drop]
  exact hread.drop _

end RawSession

end Heartix.Terminal

namespace Heartix.Gsh

open Fields Process Runs Terminal

/-- The request is one for the program of a call, with its arguments. -/
structure Starts (E : Surroundings) (call : ProgramCall) (request : Spawn) : Prop where
  path : request.path = E.gshFindProgram E.cwdbuf call.program
  args : request.args = argumentString call
  workdir : request.workdir = E.cwdbuf

/-- The requests of some events that act outside the shell. -/
def Outside.acting (o : Outside) (cwd : List UInt8) (events : List Event) : List Request :=
  (events.flatMap (o.expand cwd)).filter Request.acts

section Commands

variable {o : Outside} {cwd : List UInt8} {E : Surroundings} {A : Answers}
  {calls : List ProgramCall} {i : ℕ} {call : ProgramCall} {s : Progress}

theorem acting_append (events more : List Event) :
    o.acting cwd (events ++ more) = o.acting cwd events ++ o.acting cwd more := by
  unfold Outside.acting
  rw [List.flatMap_append, List.filter_append]

theorem acting_closeIfAny (fd : ℤ) : o.acting cwd (closeIfAny fd) = [] := by
  unfold closeIfAny
  split
  · rfl
  · rfl

/-- What a round adds that spawns its call. -/
structure Advances (o : Outside) (cwd : List UInt8) (pid : ℤ) (request : Spawn)
    (s t : Progress) : Prop where
  acting : o.acting cwd t.events = o.acting cwd s.events ++ [.event (.spawn request)]
  success : t.success = true
  tail : t.tailProcessId = pid

theorem spawnCall_advances (o : Outside) (cwd : List UInt8) (E : Surroundings)
    (call : ProgramCall) (calls : List ProgramCall) (pipeWrite pipeRead : ℤ)
    (h : (A.spawn i).1 = .successful) :
    ∃ t request, spawnCall E A calls.length i call pipeWrite pipeRead s = (true, t) ∧
      Starts E call request ∧ Advances o cwd (A.spawn i).2 request s t := by
  unfold spawnCall
  dsimp only
  split
  · next pid heq =>
    let request : Spawn := {
      path := E.gshFindProgram E.cwdbuf call.program
      args := argumentString call
      workdir := E.cwdbuf
      level := G_SECURITY_LEVEL_APPLICATION
      stdioIn := stdioFor calls.length i s.lastPipeRead pipeWrite }
    refine ⟨_, request, rfl, ⟨rfl, rfl, rfl⟩, ?_, rfl, by rw [heq]⟩
    unfold Progress.add
    rw [acting_append, acting_append, acting_append, acting_closeIfAny, acting_closeIfAny,
      List.append_nil, List.append_nil]
    rfl
  · next status pid hstatus heq =>
    rw [heq] at h
    exact absurd h hstatus

theorem processCall_advances (o : Outside) (cwd : List UInt8) (E : Surroundings) (s : Progress)
    (hcall : calls[i]? = some call) (hruns : Runs A calls i)
    (hbuiltin : ∀ call, calls = [call] → isBuiltin call = false) :
    ∃ t request, processCall E A calls.length i call s = (true, t) ∧
      Starts E call request ∧ Advances o cwd (A.spawn i).2 request s t := by
  have hlt : i < calls.length := (List.getElem?_eq_some_iff.mp hcall).1
  unfold processCall
  split
  · next honly =>
    obtain ⟨hlength, rfl, hisBuiltin⟩ := honly
    obtain ⟨only, rfl⟩ := List.length_eq_one_iff.mp hlength
    obtain rfl := Option.some.inj hcall
    exact absurd hisBuiltin (by rw [hbuiltin only rfl]; exact Bool.false_ne_true)
  · split
    · split
      · next hnone => exact absurd hnone (hruns.1 (by omega))
      · next p hp =>
        obtain ⟨t, request, heq, hstarts, hacting, hsuccess, htail⟩ :=
          spawnCall_advances o cwd E call calls p.write p.read (s := s.add [.pipe p]) hruns.2
        refine ⟨t, request, heq, hstarts, ?_, hsuccess, htail⟩
        have hpipe : o.acting cwd (s.events ++ [.pipe p]) = o.acting cwd s.events := by
          rw [acting_append]
          exact List.append_nil _
        rw [hacting]
        exact congrArg (· ++ _) hpipe
    · exact spawnCall_advances o cwd E call calls _ _ hruns.2

/-- The calls from an index on, where each is spawned. -/
theorem processCalls_started (o : Outside) (cwd : List UInt8) (E : Surroundings)
    {rest : List ProgramCall} (hrest : calls.drop i = rest)
    (hruns : ∀ j, j < calls.length → Runs A calls j)
    (hbuiltin : ∀ call, calls = [call] → isBuiltin call = false)
    (hend : rest = [] → s.success = true ∧ s.tailProcessId = (A.spawn (calls.length - 1)).2) :
    ∃ t requests, processCalls E A calls.length i rest s = t ∧
      List.Forall₂ (Starts E) rest requests ∧
      o.acting cwd t.events = o.acting cwd s.events ++
        requests.map (fun request => .event (.spawn request)) ∧
      t.success = true ∧ t.tailProcessId = (A.spawn (calls.length - 1)).2 := by
  induction rest generalizing i s with
  | nil =>
    obtain ⟨hsuccess, htail⟩ := hend rfl
    exact ⟨s, [], rfl, .nil, (List.append_nil _).symm, hsuccess, htail⟩
  | cons call rest ih =>
    have hcall : calls[i]? = some call := by
      have hget := congrArg (fun l => l[0]?) hrest
      simpa using hget
    have hdrop : calls.drop (i + 1) = rest := by
      have htail := congrArg List.tail hrest
      rwa [List.tail_drop, List.tail_cons] at htail
    have hlt : i < calls.length := (List.getElem?_eq_some_iff.mp hcall).1
    obtain ⟨u, request, heq, hstarts, hadvances⟩ :=
      processCall_advances o cwd E s hcall (hruns i hlt) hbuiltin
    have hend' : rest = [] →
        u.success = true ∧ u.tailProcessId = (A.spawn (calls.length - 1)).2 := by
      intro hnil
      have hlength := congrArg List.length hrest
      rw [List.length_drop, List.length_cons, hnil, List.length_nil] at hlength
      have hlast : calls.length - 1 = i := by omega
      rw [hlast]
      exact ⟨hadvances.success, hadvances.tail⟩
    obtain ⟨t, requests, ht, hall, hacting, hdone⟩ := ih hdrop hend'
    refine ⟨t, request :: requests, ?_, .cons hstarts hall, ?_, hdone⟩
    · unfold processCalls
      rw [heq]
      exact ht
    · rw [hacting, hadvances.acting, List.append_assoc, List.map_cons, List.singleton_append]

/-- A line whose calls are all spawned: the requests of its calls, in order, and the wait
for the last one. -/
theorem gshProcessExpression_started (o : Outside) (cwd : List UInt8) (E : Surroundings)
    (hne : calls ≠ [])
    (hruns : ∀ j, j < calls.length → Runs A calls j)
    (hbuiltin : ∀ call, calls = [call] → isBuiltin call = false) :
    ∃ requests, List.Forall₂ (Starts E) calls requests ∧
      o.acting cwd (gshProcessExpression E A calls) =
        requests.map (fun request => .event (.spawn request)) ++
          [.event (.join (A.spawn (calls.length - 1)).2)] := by
  obtain ⟨t, requests, ht, hall, hacting, hsuccess, htail⟩ :=
    processCalls_started o cwd E (s := ⟨G_FD_NONE, G_PID_NONE, false, []⟩) List.drop_zero hruns
      hbuiltin (fun hnil => absurd hnil hne)
  refine ⟨requests, hall, ?_⟩
  unfold gshProcessExpression
  rw [ht]
  dsimp only
  rw [if_pos hsuccess, acting_append, hacting, htail]
  rfl

end Commands

/-- A call that can be written on a line, and whose arguments stay as they are on the way
to the program. -/
structure Typeable (call : ProgramCall) : Prop where
  renderable : Renderable call
  clean : ∀ a ∈ call.arguments, Clean a
  plain : ∀ a ∈ call.arguments, Process.backslash ∉ a ∧ Process.quotationMark ∉ a
  last : call.arguments.getLast? ≠ some []

/-- The request starts the first program that is found for a call, in the working
directory, and the program gets the arguments of the call. -/
structure Carries (o : Outside) (cwd : List UInt8) (call : ProgramCall) (request : Spawn) :
    Prop where
  path : request.path = ((places o.envPath cwd call.program).find? o.gshFileExists).getD
    (withExtension call.program)
  workdir : request.workdir = cwd
  arguments : ∀ (malloc : ℕ → Bool) (executableName : List UInt8),
    (∀ size, malloc size = true) → parseargs malloc executableName request.args =
      some (call.arguments.length + 1, executableName :: call.arguments)

section Rounds

variable {o : Outside} {cwd : List UInt8} {call : ProgramCall} {calls : List ProgramCall}

theorem Starts.carries {request : Spawn} (h : Starts (o.surroundings cwd) call request)
    (hcall : Typeable call) : Carries o cwd call request := by
  refine ⟨h.path.trans (gshFindProgram_eq_first _ _ _ _), h.workdir, ?_⟩
  intro malloc executableName hmalloc
  have hself : call.arguments.map (unquoted false) = call.arguments := by
    conv_rhs => rw [← List.map_id call.arguments]
    exact List.map_congr_left fun a ha => (unquoted_eq_self_iff a).mpr (hcall.plain a ha)
  rw [parseargs_eq hmalloc, h.args, argumentString_eq, fields_joined hcall.clean,
    trimmed_of_last_ne hcall.last, hself]

theorem parsed_render (hne : calls ≠ []) (h : ∀ call ∈ calls, Renderable call) :
    (Parser.new (render calls)).pipeExpression = .ok calls := by
  have hagrees := pipeExpression_agrees (endOfInput_notMem_render h)
  rw [scanCalls_render hne h] at hagrees
  exact hagrees

/-- The reference editor after some keys, with the directories as the shell finds them. -/
def Outside.editor (o : Outside) (cwd : List UInt8) (keys : List ℤ) : Editor :=
  Editor.run [] ((keys.zip (o.keys.map Prod.snd)).map fun key => (key.1, ⟨cwd, key.2⟩))

theorem zip_map_snd {α β : Type*} {read : List (α × β)} {keys : List α}
    (h : read.map Prod.fst <+: keys) : keys.zip (read.map Prod.snd) = read := by
  induction read generalizing keys with
  | nil => exact List.zip_nil_right
  | cons key read ih =>
    obtain ⟨more, rfl⟩ := h
    rw [List.map_cons, List.map_cons, List.cons_append, List.zip_cons_cons,
      ih (List.prefix_append _ _)]

/-- The line that the shell reads is the one of the reference editor. -/
theorem line_editor {keys : List ℤ} (h : o.keys.map Prod.fst <+: keys) :
    o.line cwd = some (o.editor cwd keys).buffer := by
  unfold Outside.line Outside.editor
  rw [zip_map_snd h]
  exact Editor.foldlM_buffer _ ⟨.ofList [], none⟩

/-- What the shell does before it runs a line does not act. -/
theorem filter_prompt_reading (o : Outside) (commands : List Request) :
    (o.prompt ++ Outside.reading ++ [Request.terminal (.setMode G_TERMINAL_MODE_DEFAULT),
      Request.terminal (.setEcho true)] ++ commands).filter Request.acts =
      commands.filter Request.acts := by
  rw [List.filter_append]
  rfl

/-- A request that ends the shell acts. -/
theorem acts_of_ends {r : Request} (h : r.ends = true) : r.acts = true := by
  cases r with
  | exit | terminate => rfl
  | _ => cases h

theorem any_ends_of_filter {commands : List Request} {requests : List Spawn} {pid : ℤ}
    (h : commands.filter Request.acts =
      requests.map (fun request => .event (.spawn request)) ++ [.event (.join pid)]) :
    commands.any Request.ends = false := by
  rw [List.any_eq_false]
  intro r hr hends
  have hmem : r ∈ commands.filter Request.acts :=
    List.mem_filter.mpr ⟨hr, acts_of_ends hends⟩
  rw [h, List.mem_append, List.mem_map, List.mem_singleton] at hmem
  rcases hmem with ⟨request, -, rfl⟩ | rfl
  · cases hends
  · cases hends

/-- A line whose calls are all spawned, from the editor to the requests. -/
theorem round_started (cwdbuf : List UInt8) {b : LineBuffer}
    (hcwd : o.workingDirectory.getD cwdbuf = cwd) (hb : o.line cwd = some b)
    (hreturned : b.returned = some true) (hline : b.line = render calls)
    (hne : calls ≠ []) (htypeable : ∀ call ∈ calls, Typeable call)
    (hbuiltin : ∀ call, calls = [call] → isBuiltin call = false)
    (hruns : ∀ i, i < calls.length → Runs o.answers calls i) :
    ∃ requests, List.Forall₂ (Carries o cwd) calls requests ∧
      (o.round cwdbuf).1.filter Request.acts =
        requests.map (fun request => .event (.spawn request)) ++
          [.event (.join (o.answers.spawn (calls.length - 1)).2)] ∧
      (o.round cwdbuf).2 = .prompt cwd := by
  have hparsed := parsed_render hne fun call hcall => (htypeable call hcall).renderable
  obtain ⟨requests, hstarts, hacting⟩ :=
    gshProcessExpression_started o cwd (o.surroundings cwd) hne hruns hbuiltin
  have hcommands : (o.runLine cwd b.line).filter Request.acts =
      requests.map (fun request => .event (.spawn request)) ++
        [.event (.join (o.answers.spawn (calls.length - 1)).2)] := by
    unfold Outside.runLine
    rw [hline, hparsed]
    exact hacting
  have hround : o.round cwdbuf = (o.prompt ++ Outside.reading ++
      [.terminal (.setMode G_TERMINAL_MODE_DEFAULT), .terminal (.setEcho true)] ++
        o.runLine cwd b.line, .prompt cwd) := by
    unfold Outside.round
    dsimp only
    rw [hcwd, hb]
    dsimp only
    rw [hreturned]
    dsimp only
    rw [any_ends_of_filter hcommands]
    rfl
  refine ⟨requests, ?_, ?_, ?_⟩
  · have hboth := (List.forall₂_and_left calls requests).mpr ⟨htypeable, hstarts⟩
    exact hboth.imp fun call request hcall => hcall.2.carries hcall.1
  · rw [hround, filter_prompt_reading, hcommands]
  · rw [hround]

end Rounds

/-- From the keyboard to the programs: whatever is typed while the shell reads or asks for
the cursor, as long as the waiting keys fit into the side buffer of the client, if the keys
make a line in the editor that has been written from calls, and the pipes and the programs
of these calls can be started, then the shell starts exactly these programs, in order, each
gets its own arguments, and it waits for the last one. -/
theorem typed_line_runs (L : Layout) (shellProcess : ℤ) {s t : RawSession} (h : s.Follows)
    (events : List RawEvent)
    (hfits : Guarded (RawSession.exec L shellProcess) (RawSession.Fits L) events s)
    (hrun : events.foldlM (RawSession.exec L shellProcess) s = some t)
    (o : Outside) (cwdbuf : List UInt8)
    (hread : o.keys.map Prod.fst = t.client.returned.drop s.client.returned.length)
    (calls : List ProgramCall) (hne : calls ≠ []) (htypeable : ∀ call ∈ calls, Typeable call)
    (hbuiltin : ∀ call, calls = [call] → isBuiltin call = false)
    (hreturned : (o.editor (o.workingDirectory.getD cwdbuf)
      ((s.pending ++ RawSession.keysTyped L events).map Key.value)).returned = some true)
    (hline : (o.editor (o.workingDirectory.getD cwdbuf)
      ((s.pending ++ RawSession.keysTyped L events).map Key.value)).zipper.toList = render calls)
    (hruns : ∀ i, i < calls.length → Runs o.answers calls i) :
    ∃ requests, List.Forall₂ (Carries o (o.workingDirectory.getD cwdbuf)) calls requests ∧
      (o.round cwdbuf).1.filter Request.acts =
        requests.map (fun request => .event (.spawn request)) ++
          [.event (.join (o.answers.spawn (calls.length - 1)).2)] ∧
      (o.round cwdbuf).2 = .prompt (o.workingDirectory.getD cwdbuf) := by
  obtain ⟨hend, hadds⟩ := h.run hfits hrun
  have hprefix := h.returned_prefix hend hadds
  rw [← hread] at hprefix
  exact round_started cwdbuf rfl (line_editor hprefix) hreturned hline hne htypeable hbuiltin
    hruns

def quoteLayout : Layout where
  charForKey input :=
    if input.key = "KEY_E" then 'e'.toUInt8
    else if input.key = "KEY_SPACE" then ' '.toUInt8
    else if input.key = "KEY_APOSTROPHE" then '"'.toUInt8
    else 0xFF
  plain := by
    intro input
    split
    · decide
    · split
      · decide
      · split
        · decide
        · decide

def press (key : String) : RawKey where
  keystroke := ⟨⟨key, true, false, false, false⟩, fun _ => 3⟩
  room := le_refl 3

/-- The line `e "e"`, with a correction, and its end typed ahead of the cursor. -/
def quoteEvents : List RawEvent :=
  [.keystroke (press "KEY_E"), .getChar, .keystroke (press "KEY_E"), .getChar,
    .keystroke (press "KEY_BACKSPACE"), .getChar, .keystroke (press "KEY_SPACE"), .getChar,
    .keystroke (press "KEY_APOSTROPHE"), .keystroke (press "KEY_E"),
    .getCursor [press "KEY_APOSTROPHE", press "KEY_ENTER"] 0 2,
    .getChar, .getChar, .getChar, .getChar]

def quoteStart : RawSession := RawSession.start (GuiWindow.construct 80 25) [] 0

def quoteRead : List ℤ := [101, 101, 0x107, 32, 34, 101, 34, 0x157]

def quoteOutside : Outside where
  workingDirectory := some (text "/")
  cursor := (0, 0)
  keys := quoteRead.map fun key => (key, fun _ => none)
  envPath := none
  gshFileExists path := path = text "/applications/e.bin"
  opendir _ := true
  gOpen _ := true
  answers := onePipe .successful

def quoteCalls : List ProgramCall := [⟨text "e", [text "e"]⟩]

theorem typed_line_runs_quote :
    ∃ requests, List.Forall₂ (Carries quoteOutside (text "/")) quoteCalls requests ∧
      (quoteOutside.round []).1.filter Request.acts =
        requests.map (fun request => .event (.spawn request)) ++ [.event (.join 7)] ∧
      (quoteOutside.round []).2 = .prompt (text "/") := by
  have hstart : quoteStart.Follows := ⟨⟨rfl, rfl, rfl⟩, Client.tracks_construct⟩
  have htypeable : ∀ call ∈ quoteCalls, Typeable call := by
    intro call hcall
    obtain rfl := List.mem_singleton.mp hcall
    exact ⟨⟨by decide, by decide +kernel, by decide⟩, by decide, by decide, by decide⟩
  have hrecord : (quoteEvents.foldlM (RawSession.exec quoteLayout 7) quoteStart).map
      (fun t => t.client.returned) = some quoteRead := by
    decide +kernel
  obtain ⟨t, ht, hread⟩ := Option.map_eq_some_iff.mp hrecord
  refine typed_line_runs quoteLayout 7 hstart quoteEvents
    (hstart.guarded_of_few (by decide +kernel)) ht quoteOutside [] ?_ quoteCalls (by decide)
    htypeable ?_ (by decide +kernel) (by decide +kernel) ?_
  · rw [hread]
    rfl
  · intro call hcall
    obtain ⟨rfl, -⟩ := List.cons.inj hcall
    rfl
  · intro i hi
    obtain rfl : i = 0 := Nat.lt_one_iff.mp hi
    exact ⟨by decide, rfl⟩

end Heartix.Gsh
