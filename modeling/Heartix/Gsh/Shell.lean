import Heartix.Gsh.FindProgram
import Heartix.Gsh.LineBuffer

/-!
The shell from its start to its end: prompt, line, command, again and again. While
it reads a line the terminal is in the raw mode and silent, while a command runs it
is in the default mode and echoes, and the process it waits for is in control.
-/

namespace Heartix.Gsh

open Terminal

def G_TERMINAL_MODE_DEFAULT : ℤ := 0

/-- What the shell asks for, in order. -/
inductive Request
  | terminal (op : Operation)
  | getCursor
  | getWorkingDirectory
  | readLine
  | setWorkingDirectory (dir : List UInt8)
  | launch (path : List UInt8)
  | event (e : Event)
  | exit
  | terminate

/-- After these there is no shell any more. -/
def Request.ends : Request → Bool
  | .exit | .terminate => true
  | _ => false

/-- What the shell finds outside, from one prompt to the next. -/
structure Outside where
  workingDirectory : Option (List UInt8)
  cursor : ℤ × ℤ
  keys : List (ℤ × (List UInt8 → Option (List FileName)))
  envPath : Option (List UInt8)
  gshFileExists : List UInt8 → Bool
  opendir : List UInt8 → Bool
  gOpen : List UInt8 → Bool
  answers : Answers

namespace Outside

variable (o : Outside)

/-- The surroundings of a line, for what `cwdbuf` contains. -/
def surroundings (cwdbuf : List UInt8) : Surroundings where
  cwdbuf := cwdbuf
  gshFindProgram := gshFindProgram o.gshFileExists o.envPath

/-- `gshHandleBuiltin`. There is nothing to handle where it returns `false`. -/
def gshHandleBuiltin (cwd : List UInt8) (call : ProgramCall) : Option (List Request) :=
  if call.program = text "cd" then
    match call.arguments with
    | [newdir] =>
        let newdir := if newdir.head? = some slash then newdir else cwd ++ slash :: newdir
        if o.opendir newdir then some [.setWorkingDirectory newdir]
        else if o.gOpen newdir then
          some [.event (.cerr (text "\n" ++ newdir ++ text ": Not a directory"))]
        else some [.event (.cerr (text "\n" ++ newdir ++ text ": Not found"))]
    | _ => some [.event (.cerr (text "\nUsage:\tcd /path/to/target"))]
  else if call.program = text "bg" then
    -- `at` throws where there is no argument, and nothing catches it
    match call.arguments with
    | [] => some [.terminate]
    | name :: _ => some [.launch (gshFindProgram o.gshFileExists o.envPath cwd name)]
  else if call.program = text "clear" ∨ call.program = text "cls" then
    some [.terminal .clear, .terminal (.setCursor 0 0)]
  else if call.program = text "which" then
    match call.arguments with
    | [name] => some [.event (.cout
        (gshFindProgram o.gshFileExists o.envPath cwd name ++ text "\n"))]
    | _ => some [.event (.cerr (text "Usage:\twhich command\n"))]
  else if call.program = text "exit" then some [.exit]
  else none

/-- What an event of `gshProcessExpression` comes to. -/
def expand (cwd : List UInt8) : Event → List Request
  | .builtin call => (o.gshHandleBuiltin cwd call).getD []
  | e => [.event e]

def processExpression (cwd : List UInt8) (calls : List ProgramCall) : List Request :=
  (gshProcessExpression (o.surroundings cwd) o.answers calls).flatMap (o.expand cwd)

/-- What the parser prints about a line that it rejects. -/
def errorText : ParseError → List Request
  | .unexpectedCharacter current => [.event (.cout (27 :: text "[31m")),
      .event (.cout (text "unexpected character: " ++ current :: text "\n")),
      .event (.cout (27 :: text "[0m"))]
  | .expectedProgramCall position => [.event (.cout (27 :: text "[31m")),
      .event (.cerr (text "syntax error: expected a program call at position: " ++
        Decimal.text position ++ text "\n")),
      .event (.cout (27 :: text "[0m"))]

def runLine (cwd line : List UInt8) : List Request :=
  match (Parser.new line).pipeExpression with
  | .error e => errorText e
  | .ok calls => o.processExpression cwd calls

/-- The prompt. -/
def prompt : List Request :=
  [.event (.cout (27 :: text "[38m")), .getWorkingDirectory,
    .event (.cout (o.workingDirectory.getD (text "?"))), .event (.cout (text ">")),
    .event (.cout (27 :: text "[0m")), .getCursor,
    .terminal (.setCursor o.cursor.1 o.cursor.2)]

/-- `gshReadInputLine` as far as the terminal is concerned: the settings, and then
the keys with what they do to the screen. -/
def reading : List Request :=
  [.terminal (.setMode G_TERMINAL_MODE_RAW), .terminal (.setEcho false), .readLine]

/-- The line that is read: what the loop returns and its line. -/
def line (cwd : List UInt8) : Option LineBuffer :=
  readInputLine [] (o.keys.map fun key => (key.1, ⟨cwd, key.2⟩))

end Outside

/-- How the shell goes on: with another prompt, not before there are more keys, or
not at all. -/
inductive Next
  | prompt (cwdbuf : List UInt8)
  | waits
  | returns
  | exits

/-- One round of the loop in `main`. -/
def Outside.round (o : Outside) (cwdbuf : List UInt8) : List Request × Next :=
  let cwdbuf := o.workingDirectory.getD cwdbuf
  match o.line cwdbuf with
  -- `substr` would throw
  | none => (o.prompt ++ reading ++ [.terminate], .exits)
  | some b =>
      match b.returned with
      | none => (o.prompt ++ reading, .waits)
      | some false => (o.prompt ++ reading, .returns)
      | some true =>
          let commands := o.runLine cwdbuf b.line
          (o.prompt ++ reading ++ [.terminal (.setMode G_TERMINAL_MODE_DEFAULT),
            .terminal (.setEcho true)] ++ commands,
            if commands.any Request.ends then .exits else .prompt cwdbuf)

def session : List Outside → (cwdbuf : List UInt8) → List Request × Next
  | [], cwdbuf => ([], .prompt cwdbuf)
  | o :: later, cwdbuf =>
      match o.round cwdbuf with
      | (requests, .prompt cwdbuf) =>
          let (more, next) := session later cwdbuf
          (requests ++ more, next)
      | (requests, next) => (requests, next)

/-- `main`. The buffer for the working directory is not initialized. -/
def gshMain (outside : List Outside) (cwdbuf : List UInt8) : List Request × Next :=
  let (requests, next) := session outside cwdbuf
  ([.terminal .clear, .terminal (.setCursor 0 0)] ++ requests, next)

section Settings

variable {σ : Type*} (S : Screen σ)

/-- What the requests tell the terminal. -/
def Request.tell : Request → Server σ → Server σ
  | .terminal op, t => op.perform S false t
  | .event (.setControlProcess pid), t => (Operation.setControlProcess pid).perform S false t
  | _, t => t

/-- There is no process in control, or still the one from before the shell. -/
def Free (initial : ℤ) (t : Server σ) : Prop :=
  t.controlProcess = 0 ∨ t.controlProcess = initial

/-- The terminal while the shell reads a line. -/
structure Prompting (initial : ℤ) (t : Server σ) : Prop where
  mode : t.inputMode = G_TERMINAL_MODE_RAW
  silent : t.inputEcho = false
  free : Free initial t

/-- The terminal while the shell runs a command. -/
structure Commanding (t : Server σ) : Prop where
  mode : t.inputMode = G_TERMINAL_MODE_DEFAULT
  echo : t.inputEcho = true

/-- What a request expects of the terminal. -/
def Request.Fits (initial : ℤ) (t : Server σ) : Request → Prop
  | .readLine => Prompting initial t
  | .event (.join pid) => Commanding t ∧ t.controlProcess = pid
  | .event (.spawn _) | .launch _ | .setWorkingDirectory _ | .exit | .terminate =>
      Commanding t ∧ Free initial t
  | _ => True

/-- Every request finds the terminal as it expects it. -/
def Orderly (initial : ℤ) : List Request → Server σ → Prop
  | [], _ => True
  | r :: requests, t => r.Fits initial t ∧ Orderly initial requests (r.tell S t)

def tellAll (requests : List Request) (t : Server σ) : Server σ :=
  requests.foldl (fun t r => r.tell S t) t

theorem tellAll_append (requests more : List Request) (t : Server σ) :
    tellAll S (requests ++ more) t = tellAll S more (tellAll S requests t) :=
  List.foldl_append

variable {S} {initial : ℤ} {t : Server σ}

theorem Orderly.append {requests more : List Request} (h : Orderly S initial requests t)
    (hmore : Orderly S initial more (tellAll S requests t)) :
    Orderly S initial (requests ++ more) t := by
  induction requests generalizing t with
  | nil => exact hmore
  | cons r requests ih => exact ⟨h.1, ih h.2 hmore⟩

/-- The requests that leave the settings alone. -/
def Request.Keeps : Request → Prop
  | .terminal (.setMode _) | .terminal (.setEcho _) | .terminal (.setControlProcess _)
  | .event (.setControlProcess _) | .event (.join _) | .readLine => False
  | _ => True

structure SameSettings (t u : Server σ) : Prop where
  mode : u.inputMode = t.inputMode
  echo : u.inputEcho = t.inputEcho
  control : u.controlProcess = t.controlProcess

theorem Commanding.same {u : Server σ} (h : Commanding t) (hsame : SameSettings t u) :
    Commanding u :=
  ⟨hsame.mode.trans h.mode, hsame.echo.trans h.echo⟩

theorem Free.same {u : Server σ} (h : Free initial t) (hsame : SameSettings t u) :
    Free initial u := by
  unfold Free
  rw [hsame.control]
  exact h

theorem perform_text_same (c : UInt8) : SameSettings t ((Operation.text c).perform S false t) := by
  rw [Operation.perform]
  split
  · exact ⟨rfl, rfl, rfl⟩
  · split
    · exact ⟨rfl, rfl, rfl⟩
    · exact ⟨rfl, rfl, rfl⟩

theorem Request.Keeps.same {r : Request} (h : r.Keeps) : SameSettings t (r.tell S t) := by
  cases r with
  | terminal op =>
    cases op with
    | text c => exact perform_text_same c
    | setMode | setEcho | setControlProcess => exact h.elim
    | _ => exact ⟨rfl, rfl, rfl⟩
  | event e =>
    cases e with
    | setControlProcess | join => exact h.elim
    | _ => exact ⟨rfl, rfl, rfl⟩
  | readLine => exact h.elim
  | _ => exact ⟨rfl, rfl, rfl⟩

theorem Request.Keeps.fits {r : Request} (h : r.Keeps) (hcommand : Commanding t)
    (hfree : Free initial t) : r.Fits initial t := by
  cases r with
  | event e =>
    cases e with
    | join => exact h.elim
    | spawn => exact ⟨hcommand, hfree⟩
    | _ => trivial
  | readLine => exact h.elim
  | launch | setWorkingDirectory | exit | terminate => exact ⟨hcommand, hfree⟩
  | _ => trivial

/-- The terminal between two commands. -/
structure Between (initial : ℤ) (t : Server σ) : Prop where
  commanding : Commanding t
  free : Free initial t

theorem Between.keeps {requests : List Request} (h : Between initial t)
    (hkeeps : ∀ r ∈ requests, r.Keeps) :
    Orderly S initial requests t ∧ Between initial (tellAll S requests t) := by
  induction requests generalizing t with
  | nil => exact ⟨trivial, h⟩
  | cons r requests ih =>
    have hr := hkeeps r List.mem_cons_self
    have hsame := hr.same (S := S) (t := t)
    obtain ⟨horderly, hbetween⟩ := ih ⟨h.commanding.same hsame, h.free.same hsame⟩
      fun q hq => hkeeps q (List.mem_cons_of_mem r hq)
    exact ⟨⟨hr.fits h.commanding h.free, horderly⟩, hbetween⟩

end Settings

section Commands

/-- The events of the loop over the calls of a line. -/
def Event.Of (E : Surroundings) (line : List ProgramCall) : Event → Prop
  | .spawn request => ∃ call ∈ line, request.path = E.gshFindProgram E.cwdbuf call.program ∧
      request.args = argumentString call ∧ request.workdir = E.cwdbuf
  | .builtin call => line = [call]
  | .setControlProcess _ | .join _ => False
  | _ => True

variable {E : Surroundings} {A : Answers} {line : List ProgramCall} {calls callIndex : ℕ}
  {call : ProgramCall} {s : Progress}

theorem of_closeIfAny (fd : ℤ) : ∀ e ∈ closeIfAny fd, e.Of E line := by
  unfold closeIfAny
  split
  · intro e he
    obtain rfl := List.mem_singleton.mp he
    trivial
  · intro e he
    cases he

theorem of_spawnCall (pipeWrite pipeRead : ℤ) (hcall : call ∈ line)
    (hs : ∀ e ∈ s.events, e.Of E line) :
    ∀ e ∈ (spawnCall E A calls callIndex call pipeWrite pipeRead s).2.events, e.Of E line := by
  unfold spawnCall
  dsimp only
  split
  all_goals
    intro e he
    simp only [Progress.add, List.mem_append, List.mem_singleton] at he
  · rcases he with ((he | rfl) | he) | he
    · exact hs e he
    · exact ⟨call, hcall, rfl, rfl, rfl⟩
    · exact of_closeIfAny _ e he
    · exact of_closeIfAny _ e he
  · rcases he with (he | rfl) | rfl
    · exact hs e he
    · exact ⟨call, hcall, rfl, rfl, rfl⟩
    · trivial

theorem of_add (hs : ∀ e ∈ s.events, e.Of E line) {e : Event} (he : e.Of E line) :
    ∀ f ∈ (s.add [e]).events, f.Of E line := by
  intro f hf
  rcases List.mem_append.mp hf with hf | hf
  · exact hs f hf
  · obtain rfl := List.mem_singleton.mp hf
    exact he

theorem of_processCall (hcall : call ∈ line) (hs : ∀ e ∈ s.events, e.Of E line) :
    ∀ e ∈ (processCall E A line.length callIndex call s).2.events, e.Of E line := by
  unfold processCall
  split
  · next hbuiltin =>
    obtain ⟨only, hline⟩ := List.length_eq_one_iff.mp hbuiltin.1
    rw [hline, List.mem_singleton] at hcall
    rw [← hcall] at hline
    exact of_add hs hline
  · split
    · split
      · exact of_add hs trivial
      · exact of_spawnCall _ _ hcall (of_add hs trivial)
    · exact of_spawnCall _ _ hcall hs

theorem of_processCalls {rest : List ProgramCall} (hrest : ∀ call ∈ rest, call ∈ line)
    (hs : ∀ e ∈ s.events, e.Of E line) :
    ∀ e ∈ (processCalls E A line.length callIndex rest s).events, e.Of E line := by
  induction rest generalizing callIndex s with
  | nil => exact hs
  | cons call rest ih =>
    have hround : ∀ e ∈ (processCall E A line.length callIndex call s).2.events, e.Of E line :=
      of_processCall (hrest call List.mem_cons_self) hs
    unfold processCalls
    split
    · next t heq =>
      rw [heq] at hround
      exact ih (fun c hc => hrest c (List.mem_cons_of_mem call hc)) hround
    · next t heq =>
      rw [heq] at hround
      exact hround

/-- A line that has been successful: each of its calls has been spawned. -/
structure Spawned (A : Answers) (stop : ℕ) (s : Progress) : Prop where
  all : ∀ i, i < stop → (A.spawn i).1 = .successful
  last : s.tailProcessId = (A.spawn (stop - 1)).2

/-- The shell is at a call, and it has spawned all calls before it. -/
structure At (A : Answers) (callIndex : ℕ) (s : Progress) : Prop where
  before : ∀ i, i < callIndex → (A.spawn i).1 = .successful
  first : callIndex = 0 → s.success = false
  spawned : s.success = true → Spawned A callIndex s

/-- A round goes on with the next call, or the line has no success. -/
theorem At.spawnCall (h : At A callIndex s) (pipeWrite pipeRead : ℤ) :
    ∃ goes t, spawnCall E A calls callIndex call pipeWrite pipeRead s = (goes, t) ∧
      (goes = true → At A (callIndex + 1) t) ∧ (goes = false → t.success = false) := by
  unfold Gsh.spawnCall
  dsimp only
  split
  · next pid heq =>
    refine ⟨true, _, rfl, fun _ => ?_, nofun⟩
    have hall : ∀ i, i < callIndex + 1 → (A.spawn i).1 = .successful := by
      intro i hi
      rcases Nat.lt_succ_iff_lt_or_eq.mp hi with hi | rfl
      · exact h.before i hi
      · rw [heq]
    exact ⟨hall, nofun, fun _ => ⟨hall, by rw [Nat.add_sub_cancel, heq]⟩⟩
  · exact ⟨false, _, rfl, nofun, fun _ => rfl⟩

theorem At.processCall (h : At A callIndex s) :
    ∃ goes t, processCall E A calls callIndex call s = (goes, t) ∧
      (goes = true → At A (callIndex + 1) t) ∧ (goes = false → t.success = false) := by
  unfold Gsh.processCall
  split
  · next hbuiltin => exact ⟨false, _, rfl, nofun, fun _ => h.first hbuiltin.2.1⟩
  · split
    · split
      · exact ⟨false, _, rfl, nofun, fun _ => rfl⟩
      · next p _ =>
        have hpipe : At A callIndex (s.add [.pipe p]) :=
          ⟨h.before, h.first, fun hs => ⟨h.before, (h.spawned hs).last⟩⟩
        exact hpipe.spawnCall _ _
    · exact h.spawnCall _ _

/-- The loop has success only after the last call. -/
theorem At.processCalls {rest : List ProgramCall} (h : At A callIndex s)
    (hlength : callIndex + rest.length = line.length)
    (hsuccess : (processCalls E A line.length callIndex rest s).success = true) :
    Spawned A line.length (processCalls E A line.length callIndex rest s) := by
  induction rest generalizing callIndex s with
  | nil =>
    rw [← hlength]
    exact h.spawned hsuccess
  | cons call rest ih =>
    obtain ⟨goes, t, heq, hgoes, hstops⟩ :
        ∃ goes t, Gsh.processCall E A line.length callIndex call s = (goes, t) ∧
          (goes = true → At A (callIndex + 1) t) ∧ (goes = false → t.success = false) :=
      h.processCall
    unfold Gsh.processCalls at hsuccess ⊢
    rw [heq] at hsuccess ⊢
    cases goes with
    | true =>
      rw [List.length_cons] at hlength
      exact ih (hgoes rfl) (by omega) hsuccess
    | false => exact absurd ((hstops rfl).symm.trans hsuccess) Bool.false_ne_true

/-- The events of a line: those of the loop, and the wait for the last process of
a line that has been spawned as a whole. -/
theorem gshProcessExpression_cases (E : Surroundings) (A : Answers) (line : List ProgramCall) :
    ∃ events, (∀ e ∈ events, e.Of E line) ∧
      (gshProcessExpression E A line = events ∨
        (∀ i, i < line.length → (A.spawn i).1 = .successful) ∧
          gshProcessExpression E A line = events ++
            [.setControlProcess (A.spawn (line.length - 1)).2,
              .join (A.spawn (line.length - 1)).2, .setControlProcess 0]) := by
  have hat : At A 0 ⟨G_FD_NONE, G_PID_NONE, false, []⟩ := ⟨nofun, fun _ => rfl, nofun⟩
  have hof : ∀ e ∈ (processCalls E A line.length 0 line
      ⟨G_FD_NONE, G_PID_NONE, false, []⟩).events, e.Of E line :=
    of_processCalls (fun _ hcall => hcall) (by nofun)
  have hspawned (hsuccess : (processCalls E A line.length 0 line
      ⟨G_FD_NONE, G_PID_NONE, false, []⟩).success = true) :
      Spawned A line.length (processCalls E A line.length 0 line
        ⟨G_FD_NONE, G_PID_NONE, false, []⟩) :=
    hat.processCalls (Nat.zero_add _) hsuccess
  unfold gshProcessExpression
  refine ⟨_, hof, ?_⟩
  dsimp only
  split
  · next hsuccess =>
    obtain ⟨hall, hlast⟩ := hspawned hsuccess
    rw [← hlast]
    exact Or.inr ⟨hall, rfl⟩
  · exact Or.inl rfl

end Commands

section Rounds

variable {o : Outside} {cwd : List UInt8} {call : ProgramCall} {requests : List Request}

/-- A line has been typed to its end, and it consists of these calls. -/
structure Entered (b : LineBuffer) (calls : List ProgramCall) : Prop where
  returned : b.returned = some true
  parsed : (Parser.new b.line).pipeExpression = .ok calls

/-- The request is one for the line that has been read. -/
def Request.Meant (o : Outside) (cwd : List UInt8) (b : LineBuffer) : Request → Prop
  | .event (.spawn request) => ∃ calls, Entered b calls ∧
      ∃ call ∈ calls, request.args = argumentString call ∧ request.workdir = cwd ∧
        request.path = ((places o.envPath cwd call.program).find? o.gshFileExists).getD
          (withExtension call.program)
  | .event (.join pid) => ∃ calls, Entered b calls ∧
      (∀ i, i < calls.length → (o.answers.spawn i).1 = .successful) ∧
      pid = (o.answers.spawn (calls.length - 1)).2
  | .launch path => ∃ name rest,
      Entered b [⟨text "bg", name :: rest⟩] ∧
      path = ((places o.envPath cwd name).find? o.gshFileExists).getD (withExtension name)
  | .setWorkingDirectory dir => ∃ newdir,
      Entered b [⟨text "cd", [newdir]⟩] ∧
      dir = (if newdir.head? = some slash then newdir else cwd ++ slash :: newdir) ∧
      o.opendir dir = true
  | .exit => ∃ arguments, Entered b [⟨text "exit", arguments⟩]
  | .terminate => Entered b [⟨text "bg", []⟩]
  | _ => True

/-- A request of a builtin. -/
structure Request.Builtin (o : Outside) (cwd : List UInt8) (b : LineBuffer) (r : Request) :
    Prop where
  keeps : r.Keeps
  meant : r.Meant o cwd b

theorem builtin_of_singleton {b : LineBuffer} {r : Request}
    (h : some [r] = some requests) (hr : r.Builtin o cwd b) :
    ∀ q ∈ requests, q.Builtin o cwd b := by
  obtain rfl := Option.some.inj h
  intro q hq
  obtain rfl := List.mem_singleton.mp hq
  exact hr

theorem builtin_requests {b : LineBuffer}
    (hline : Entered b [call])
    (h : o.gshHandleBuiltin cwd call = some requests) :
    ∀ r ∈ requests, r.Builtin o cwd b := by
  obtain ⟨program, arguments⟩ := call
  unfold Outside.gshHandleBuiltin at h
  dsimp only at h
  by_cases hcd : program = text "cd"
  · subst hcd
    rw [if_pos rfl] at h
    split at h
    · next newdir =>
      generalize hdir : (if newdir.head? = some slash then newdir else cwd ++ slash :: newdir) =
        dir at h
      split at h
      · next hopen =>
        exact builtin_of_singleton h ⟨trivial, newdir, hline, hdir.symm, hopen⟩
      · split at h
        · exact builtin_of_singleton h ⟨trivial, trivial⟩
        · exact builtin_of_singleton h ⟨trivial, trivial⟩
    · exact builtin_of_singleton h ⟨trivial, trivial⟩
  rw [if_neg hcd] at h
  by_cases hbg : program = text "bg"
  · subst hbg
    rw [if_pos rfl] at h
    split at h
    · exact builtin_of_singleton h ⟨trivial, hline⟩
    · next name rest =>
      exact builtin_of_singleton h ⟨trivial, name, rest, hline,
        gshFindProgram_eq_first _ _ _ _⟩
  rw [if_neg hbg] at h
  by_cases hclear : program = text "clear" ∨ program = text "cls"
  · rw [if_pos hclear] at h
    obtain rfl := Option.some.inj h
    intro r hr
    rcases List.mem_cons.mp hr with rfl | hr
    · exact ⟨trivial, trivial⟩
    · obtain rfl := List.mem_singleton.mp hr
      exact ⟨trivial, trivial⟩
  rw [if_neg hclear] at h
  by_cases hwhich : program = text "which"
  · rw [if_pos hwhich] at h
    split at h
    · exact builtin_of_singleton h ⟨trivial, trivial⟩
    · exact builtin_of_singleton h ⟨trivial, trivial⟩
  rw [if_neg hwhich] at h
  by_cases hexit : program = text "exit"
  · subst hexit
    rw [if_pos rfl] at h
    exact builtin_of_singleton h ⟨trivial, arguments, hline⟩
  rw [if_neg hexit] at h
  cases h

/-- Of an event of the loop over the calls. -/
theorem expand_builtin {b : LineBuffer} {calls : List ProgramCall} {e : Event}
    (hline : Entered b calls)
    (he : e.Of (o.surroundings cwd) calls) :
    ∀ r ∈ o.expand cwd e, r.Builtin o cwd b := by
  cases e with
  | builtin call =>
    have hcalls : calls = [call] := he
    rw [hcalls] at hline
    show ∀ r ∈ (o.gshHandleBuiltin cwd call).getD [], _
    cases hhandled : o.gshHandleBuiltin cwd call with
    | none =>
      intro r hr
      cases hr
    | some requests => exact builtin_requests hline hhandled
  | spawn request =>
    obtain ⟨call, hcall, hpath, hargs, hworkdir⟩ := he
    intro r hr
    obtain rfl := List.mem_singleton.mp hr
    refine ⟨trivial, calls, hline, call, hcall, hargs, hworkdir, ?_⟩
    rw [hpath]
    exact gshFindProgram_eq_first _ _ _ _
  | setControlProcess pid => exact he.elim
  | join pid => exact he.elim
  | _ =>
    intro r hr
    obtain rfl := List.mem_singleton.mp hr
    exact ⟨trivial, trivial⟩

/-- The wait for a process. -/
def waitFor (pid : ℤ) : List Request :=
  [.event (.setControlProcess pid), .event (.join pid), .event (.setControlProcess 0)]

/-- A line is run: the requests of its calls, and the wait for the last one if all
of them have been started. -/
theorem runLine_cases (o : Outside) (cwd : List UInt8) {b : LineBuffer}
    (hreturned : b.returned = some true) :
    ∃ front, (∀ r ∈ front, r.Builtin o cwd b) ∧
      (o.runLine cwd b.line = front ∨ ∃ pid, (Request.event (.join pid)).Meant o cwd b ∧
        o.runLine cwd b.line = front ++ waitFor pid) := by
  unfold Outside.runLine
  split
  · next error herror =>
    refine ⟨_, fun r hr => ?_, Or.inl rfl⟩
    cases error with
    | unexpectedCharacter | expectedProgramCall =>
      simp only [Outside.errorText, List.mem_cons, List.not_mem_nil, or_false] at hr
      rcases hr with rfl | rfl | rfl
      · exact ⟨trivial, trivial⟩
      · exact ⟨trivial, trivial⟩
      · exact ⟨trivial, trivial⟩
  · next calls hcalls =>
    obtain ⟨events, hof, hevents⟩ :=
      gshProcessExpression_cases (o.surroundings cwd) o.answers calls
    refine ⟨events.flatMap (o.expand cwd), fun r hr => ?_, ?_⟩
    · obtain ⟨e, he, hr⟩ := List.mem_flatMap.mp hr
      exact expand_builtin ⟨hreturned, hcalls⟩ (hof e he) r hr
    · unfold Outside.processExpression
      rcases hevents with heq | ⟨hall, heq⟩
      · rw [heq]
        exact Or.inl rfl
      · rw [heq, List.flatMap_append]
        exact Or.inr ⟨_, ⟨calls, ⟨hreturned, hcalls⟩, hall, rfl⟩, rfl⟩

theorem runLine_meant {b : LineBuffer} (hreturned : b.returned = some true) :
    ∀ r ∈ o.runLine cwd b.line, r.Meant o cwd b := by
  obtain ⟨front, hfront, hline | ⟨pid, hpid, hline⟩⟩ := runLine_cases o cwd hreturned
  · rw [hline]
    exact fun r hr => (hfront r hr).meant
  · rw [hline]
    intro r hr
    rcases List.mem_append.mp hr with hr | hr
    · exact (hfront r hr).meant
    · simp only [waitFor, List.mem_cons, List.not_mem_nil, or_false] at hr
      rcases hr with rfl | rfl | rfl
      · trivial
      · exact hpid
      · trivial

theorem prompt_reading_meant (b : LineBuffer) :
    ∀ r ∈ o.prompt ++ Outside.reading, r.Meant o cwd b := by
  intro r hr
  simp only [Outside.prompt, Outside.reading, List.cons_append, List.nil_append, List.mem_cons,
    List.not_mem_nil, or_false] at hr
  rcases hr with rfl | rfl | rfl | rfl | rfl | rfl | rfl | rfl | rfl | rfl <;> trivial

theorem Outside.line_isSome (o : Outside) (cwd : List UInt8) : ∃ b, o.line cwd = some b :=
  ⟨_, Editor.foldlM_buffer _ ⟨.ofList [], none⟩⟩

/-- One round: it ends at the prompt, or a line is run. -/
theorem Outside.round_cases (o : Outside) (cwdbuf : List UInt8) :
    ∃ b, o.line (o.workingDirectory.getD cwdbuf) = some b ∧
      (((o.round cwdbuf).1 = o.prompt ++ reading ∧
          ((o.round cwdbuf).2 = .waits ∨ (o.round cwdbuf).2 = .returns)) ∨
        (b.returned = some true ∧
          (o.round cwdbuf).1 = o.prompt ++ reading ++
            ([.terminal (.setMode G_TERMINAL_MODE_DEFAULT), .terminal (.setEcho true)] ++
              o.runLine (o.workingDirectory.getD cwdbuf) b.line) ∧
          ((o.round cwdbuf).2 = .exits ∨
            (o.round cwdbuf).2 = .prompt (o.workingDirectory.getD cwdbuf)))) := by
  obtain ⟨b, hline⟩ := o.line_isSome (o.workingDirectory.getD cwdbuf)
  refine ⟨b, hline, ?_⟩
  unfold Outside.round
  dsimp only
  rw [hline]
  dsimp only
  split
  · exact Or.inl ⟨rfl, Or.inl rfl⟩
  · exact Or.inl ⟨rfl, Or.inr rfl⟩
  · next hreturned =>
    refine Or.inr ⟨hreturned, List.append_assoc _ _ _, ?_⟩
    split
    · exact Or.inl rfl
    · exact Or.inr rfl

/-- What `cwdbuf` contains after some prompts: the last directory that was reported. -/
def reported (outside : List Outside) (cwdbuf : List UInt8) : List UInt8 :=
  outside.foldl (fun cwd o => o.workingDirectory.getD cwd) cwdbuf

/-- The request is one that the shell makes at one of the prompts. -/
def Request.MeantIn (outside : List Outside) (cwdbuf : List UInt8) (r : Request) : Prop :=
  ∃ before o after b, outside = before ++ o :: after ∧
    o.line (reported (before ++ [o]) cwdbuf) = some b ∧
    r.Meant o (reported (before ++ [o]) cwdbuf) b

theorem round_meant (later : List Outside) (cwdbuf : List UInt8) :
    ∀ r ∈ (o.round cwdbuf).1, r.MeantIn (o :: later) cwdbuf := by
  obtain ⟨b, hline, hcases⟩ := o.round_cases cwdbuf
  intro r hr
  refine ⟨[], o, later, b, rfl, hline, ?_⟩
  show r.Meant o (o.workingDirectory.getD cwdbuf) b
  rcases hcases with ⟨heq, _⟩ | ⟨hreturned, heq, _⟩
  · rw [heq] at hr
    exact prompt_reading_meant b r hr
  · rw [heq] at hr
    rcases List.mem_append.mp hr with hr | hr
    · exact prompt_reading_meant b r hr
    · rcases List.mem_append.mp hr with hr | hr
      · simp only [List.mem_cons, List.not_mem_nil, or_false] at hr
        rcases hr with rfl | rfl
        · trivial
        · trivial
      · exact runLine_meant hreturned r hr

theorem session_meant (outside : List Outside) (cwdbuf : List UInt8) :
    ∀ r ∈ (session outside cwdbuf).1, r.MeantIn outside cwdbuf := by
  induction outside generalizing cwdbuf with
  | nil => nofun
  | cons o later ih =>
    have hfirst := round_meant (o := o) later cwdbuf
    obtain ⟨_, _, hcases⟩ := o.round_cases cwdbuf
    unfold session
    split
    · next requests cwd hround =>
      rw [hround] at hfirst hcases
      have hcwd : cwd = o.workingDirectory.getD cwdbuf := by
        rcases hcases with ⟨_, hnext | hnext⟩ | ⟨_, _, hnext | hnext⟩
        · cases hnext
        · cases hnext
        · cases hnext
        · exact Next.prompt.inj hnext
      intro r hr
      rcases List.mem_append.mp hr with hr | hr
      · exact hfirst r hr
      · obtain ⟨before, o', after, b, rfl, hrest⟩ := ih cwd r hr
        rw [hcwd] at hrest
        exact ⟨o :: before, o', after, b, rfl, hrest⟩
    · next requests next hnext hround =>
      rw [hround] at hfirst
      exact hfirst

/-- What does something outside the shell and its terminal. -/
def Request.acts : Request → Bool
  | .event (.spawn _) | .event (.join _) | .launch _ | .setWorkingDirectory _ | .exit
  | .terminate => true
  | _ => false

/-- The shell starts programs, waits for them, changes the directory and ends only as a
line asks for it that has been typed to its end. It starts the programs of its calls, the
first ones that are found, with their arguments and in the directory of the prompt, and it
waits for the last one if all have been started. -/
theorem shell_runs_lines (outside : List Outside) (cwdbuf : List UInt8) :
    ∀ r ∈ (gshMain outside cwdbuf).1, r.acts = true → r.MeantIn outside cwdbuf := by
  intro r hr hacts
  rcases List.mem_append.mp hr with hr | hr
  · simp only [List.mem_cons, List.not_mem_nil, or_false] at hr
    rcases hr with rfl | rfl
    · cases hacts
    · cases hacts
  · exact session_meant outside cwdbuf r hr

end Rounds

section Terminal

variable {σ : Type*} {S : Screen σ} {initial : ℤ} {t : Server σ}

/-- A line finds the terminal in order at every request, and leaves it so. -/
theorem Between.runLine (h : Between initial t) (o : Outside) (cwd : List UInt8)
    {b : LineBuffer} (hreturned : b.returned = some true) :
    Orderly S initial (o.runLine cwd b.line) t ∧
      Between initial (tellAll S (o.runLine cwd b.line) t) := by
  obtain ⟨front, hfront, hline⟩ := runLine_cases o cwd hreturned
  obtain ⟨horderly, hbetween⟩ := h.keeps (S := S) fun r hr => (hfront r hr).keeps
  rcases hline with hline | ⟨pid, _, hline⟩
  · rw [hline]
    exact ⟨horderly, hbetween⟩
  · obtain ⟨⟨hmode, hecho⟩, _⟩ := hbetween
    rw [hline, tellAll_append]
    have hwait : Orderly S initial (waitFor pid) (tellAll S front t) :=
      ⟨trivial, ⟨⟨hmode, hecho⟩, rfl⟩, trivial, trivial⟩
    exact ⟨horderly.append hwait, ⟨hmode, hecho⟩, Or.inl rfl⟩

/-- How the terminal is left. -/
def Next.Leaves (initial : ℤ) (t : Server σ) : Next → Prop
  | .prompt _ => Free initial t
  | .waits | .returns => Prompting initial t
  | .exits => Between initial t

theorem prompt_reading_orderly (hfree : Free initial t) (o : Outside) :
    Orderly S initial (o.prompt ++ Outside.reading) t ∧
      Prompting initial (tellAll S (o.prompt ++ Outside.reading) t) :=
  ⟨⟨trivial, trivial, trivial, trivial, trivial, trivial, trivial, trivial, trivial,
    ⟨rfl, rfl, hfree⟩, trivial⟩, rfl, rfl, hfree⟩

theorem Free.round (hfree : Free initial t) (o : Outside) (cwdbuf : List UInt8) :
    Orderly S initial (o.round cwdbuf).1 t ∧
      (o.round cwdbuf).2.Leaves initial (tellAll S (o.round cwdbuf).1 t) := by
  obtain ⟨horderly, hprompting⟩ := prompt_reading_orderly (S := S) hfree o
  obtain ⟨b, _, ⟨heq, hnext⟩ | ⟨hreturned, heq, hnext⟩⟩ := o.round_cases cwdbuf
  · rw [heq]
    refine ⟨horderly, ?_⟩
    rcases hnext with hnext | hnext
    · rw [hnext]
      exact hprompting
    · rw [hnext]
      exact hprompting
  · -- the settings of the command are told before it is run
    have hbetween : Between initial (tellAll S [.terminal (.setMode G_TERMINAL_MODE_DEFAULT),
        .terminal (.setEcho true)] (tellAll S (o.prompt ++ Outside.reading) t)) :=
      ⟨⟨rfl, rfl⟩, hprompting.free⟩
    obtain ⟨hcommands, hleft⟩ :=
      hbetween.runLine (S := S) o (o.workingDirectory.getD cwdbuf) hreturned
    rw [heq, tellAll_append, tellAll_append]
    refine ⟨horderly.append (Orderly.append ⟨trivial, trivial, trivial⟩ hcommands), ?_⟩
    rcases hnext with hnext | hnext
    · rw [hnext]
      exact hleft
    · rw [hnext]
      exact hleft.free

theorem Free.session (hfree : Free initial t) (outside : List Outside) (cwdbuf : List UInt8) :
    Orderly S initial (session outside cwdbuf).1 t ∧
      (session outside cwdbuf).2.Leaves initial (tellAll S (session outside cwdbuf).1 t) := by
  induction outside generalizing cwdbuf t with
  | nil => exact ⟨trivial, hfree⟩
  | cons o later ih =>
    obtain ⟨horderly, hleaves⟩ := hfree.round (S := S) o cwdbuf
    unfold Gsh.session
    split
    · next requests cwd hround =>
      rw [hround] at horderly hleaves
      obtain ⟨hmore, hleft⟩ := ih (t := tellAll S requests t) hleaves cwd
      rw [tellAll_append]
      exact ⟨horderly.append hmore, hleft⟩
    · next requests next hnext hround =>
      rw [hround] at horderly hleaves
      exact ⟨horderly, hleaves⟩

/-- Whatever the files, the programs and the user do: the shell reads lines from a
silent terminal in the raw mode with no process in control, it runs commands with
the terminal back in the default mode, it waits for a process while this one is in
control, and it leaves the terminal in the raw mode only where the input has ended. -/
theorem shell_keeps_terminal (S : Screen σ) (outside : List Outside) (cwdbuf : List UInt8)
    (t : Server σ) :
    Orderly S t.controlProcess (gshMain outside cwdbuf).1 t ∧
      (gshMain outside cwdbuf).2.Leaves t.controlProcess
        (tellAll S (gshMain outside cwdbuf).1 t) := by
  have hfree : Free t.controlProcess (tellAll S [.terminal .clear,
      .terminal (.setCursor 0 0)] t) := Or.inr rfl
  obtain ⟨horderly, hleaves⟩ := hfree.session (S := S) outside cwdbuf
  refine ⟨Orderly.append ⟨trivial, trivial, trivial⟩ horderly, ?_⟩
  show Next.Leaves _ (tellAll S (_ ++ _) t) _
  rw [tellAll_append]
  exact hleaves

end Terminal

end Heartix.Gsh
