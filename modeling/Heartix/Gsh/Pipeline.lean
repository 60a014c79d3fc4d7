import Heartix.Gsh.Expression
import Heartix.Lib.Ledger

/-!
Running a line of the shell. Each call but the last gets a pipe; its write end
is the output of the call and its read end the input of the next one. The
events are what the shell asks the kernel and the terminal for, in order.
-/

namespace Heartix.Gsh

open Ledger

abbrev G_FD_NONE : ℤ := -1
abbrev G_PID_NONE : ℤ := -1
abbrev STDIN_FILENO : ℤ := 0
abbrev STDOUT_FILENO : ℤ := 1
abbrev STDERR_FILENO : ℤ := 2
abbrev G_SECURITY_LEVEL_APPLICATION : ℤ := 2

/-- The descriptors that are never those of a new pipe. -/
def reserved : List ℤ := [G_FD_NONE, STDIN_FILENO, STDOUT_FILENO, STDERR_FILENO]

structure Pipe where
  write : ℤ
  read : ℤ
  deriving DecidableEq, Repr

inductive SpawnStatus
  | successful | ioError | memoryError | formatError | taskingError | dependencyError
  deriving DecidableEq, Repr

/-- What `g_pipe` and `g_spawn_poi` answer for the call at an index. A new
descriptor is none that is open in the shell: the read end of the pipe before
still is. -/
structure Answers where
  pipe : ℕ → Option Pipe
  spawn : ℕ → SpawnStatus × ℤ
  fresh : ∀ i p, pipe i = some p → p.write ∉ reserved ∧ p.read ∉ reserved ∧ p.write ≠ p.read
  apart : ∀ i p q, pipe i = some p → pipe (i + 1) = some q → q.write ≠ p.read ∧ q.read ≠ p.read

structure Stdio where
  stdin : ℤ
  stdout : ℤ
  stderr : ℤ
  deriving DecidableEq, Repr

/-- The arguments of `g_spawn_poi`. -/
structure Spawn where
  path : List UInt8
  args : List UInt8
  workdir : List UInt8
  level : ℤ
  stdioIn : Stdio
  deriving DecidableEq, Repr

inductive Event
  | builtin (call : ProgramCall)
  | pipe (p : Pipe)
  | spawn (request : Spawn)
  | close (fd : ℤ)
  | cerr (text : List UInt8)
  | cout (text : List UInt8)
  | setControlProcess (pid : ℤ)
  | join (pid : ℤ)
  deriving DecidableEq, Repr

def text (s : String) : List UInt8 := s.toList.map Char.toUInt8

/-- The programs `gshHandleBuiltin` handles itself. -/
def isBuiltin (call : ProgramCall) : Bool :=
  call.program ∈ ["cd", "bg", "clear", "cls", "which", "exit"].map text

/-- The working directory of the shell, and `gshFindProgram` on the file system
as it is. -/
structure Surroundings where
  cwdbuf : List UInt8
  gshFindProgram : (cwd name : List UInt8) → List UInt8

/-- The variables of `gshProcessExpression`, and what it has done. -/
structure Progress where
  lastPipeRead : ℤ
  tailProcessId : ℤ
  success : Bool
  events : List Event
  deriving DecidableEq, Repr

def Progress.add (s : Progress) (events : List Event) : Progress :=
  { s with events := s.events ++ events }

/-- What is printed about a failed spawn, between the two colour sequences. -/
def spawnErrorText (status : SpawnStatus) (call : ProgramCall) : List UInt8 :=
  27 :: text "[31m" ++ call.program ++
    text (match status with
      | .formatError => ": invalid binary format\n"
      | .dependencyError => ": failed to load a dependency\n"
      | .ioError => ": command not found\n"
      | _ => ": unknown error during program execution\n") ++
    27 :: text "[0m"

def stdioFor (calls callIndex : ℕ) (lastPipeRead pipeWrite : ℤ) : Stdio where
  stdin := if callIndex = 0 then STDIN_FILENO else lastPipeRead
  stdout := if (calls = 1 ∧ callIndex = 0) ∨ callIndex = calls - 1 then STDOUT_FILENO
    else pipeWrite
  stderr := STDERR_FILENO

/-- `g_close` on a descriptor the shell may have. -/
def closeIfAny (fd : ℤ) : List Event := if fd ≠ G_FD_NONE then [.close fd] else []

/-- The part of a round from the spawn on. It tells whether the loop goes on. -/
def spawnCall (E : Surroundings) (A : Answers) (calls callIndex : ℕ) (call : ProgramCall)
    (pipeWrite pipeRead : ℤ) (s : Progress) : Bool × Progress :=
  let spawned := s.add [.spawn {
    path := E.gshFindProgram E.cwdbuf call.program
    args := argumentString call
    workdir := E.cwdbuf
    level := G_SECURITY_LEVEL_APPLICATION
    stdioIn := stdioFor calls callIndex s.lastPipeRead pipeWrite }]
  match A.spawn callIndex with
  | (.successful, pidCurrent) =>
      (true, { (spawned.add (closeIfAny pipeWrite)).add (closeIfAny s.lastPipeRead) with
        tailProcessId := pidCurrent, success := true, lastPipeRead := pipeRead })
  | (status, _) =>
      (false, { spawned.add [.cout (spawnErrorText status call)] with success := false })

/-- A round of the loop. -/
def processCall (E : Surroundings) (A : Answers) (calls callIndex : ℕ) (call : ProgramCall)
    (s : Progress) : Bool × Progress :=
  if calls = 1 ∧ callIndex = 0 ∧ isBuiltin call then (false, s.add [.builtin call])
  else if calls > 1 ∧ callIndex < calls - 1 then
    match A.pipe callIndex with
    | none =>
        (false, { s.add [.cerr (text "failed to create output pipe when spawning '" ++
          call.program ++ text "'\n")] with success := false })
    | some p => spawnCall E A calls callIndex call p.write p.read (s.add [.pipe p])
  else spawnCall E A calls callIndex call G_FD_NONE G_FD_NONE s

def processCalls (E : Surroundings) (A : Answers) (calls : ℕ) :
    (callIndex : ℕ) → List ProgramCall → Progress → Progress
  | _, [], s => s
  | callIndex, call :: rest, s =>
      match processCall E A calls callIndex call s with
      | (true, s) => processCalls E A calls (callIndex + 1) rest s
      | (false, s) => s

def gshProcessExpression (E : Surroundings) (A : Answers) (calls : List ProgramCall) :
    List Event :=
  let s := processCalls E A calls.length 0 calls ⟨G_FD_NONE, G_PID_NONE, false, []⟩
  if s.success = true then
    s.events ++ [.setControlProcess s.tailProcessId, .join s.tailProcessId, .setControlProcess 0]
  else s.events

/-- The pipes that have been created. -/
def pipes (events : List Event) : List Pipe :=
  events.filterMap fun
    | .pipe p => some p
    | _ => none

def spawns (events : List Event) : List Spawn :=
  events.filterMap fun
    | .spawn request => some request
    | _ => none

/-- What the events do to the descriptors of the shell. -/
def descriptors (events : List Event) : List (Entry ℤ) :=
  events.flatMap fun
    | .pipe p => [.acquire p.write, .acquire p.read]
    | .close fd => [.release fd]
    | _ => []

/-- The spawned calls are those of the line, in order; the output of each one
but the last is the pipe that the next one reads, and the terminal is read by
the first one and written by the last one only. -/
def Wired (E : Surroundings) (calls : List ProgramCall) (events : List Event) : Prop :=
  ∀ i request, (spawns events)[i]? = some request →
    (∃ call, calls[i]? = some call ∧ request.path = E.gshFindProgram E.cwdbuf call.program ∧
      request.args = argumentString call) ∧
    (request.stdioIn.stdin = STDIN_FILENO ↔ i = 0) ∧
    (request.stdioIn.stdout = STDOUT_FILENO ↔ i + 1 = calls.length) ∧
    (∀ j, i = j + 1 → ∃ p, (pipes events)[j]? = some p ∧ request.stdioIn.stdin = p.read) ∧
    (i + 1 < calls.length → ∃ p, (pipes events)[i]? = some p ∧ request.stdioIn.stdout = p.write)

section Projections

variable (events more : List Event)

@[simp] theorem pipes_append : pipes (events ++ more) = pipes events ++ pipes more :=
  List.filterMap_append

@[simp] theorem spawns_append : spawns (events ++ more) = spawns events ++ spawns more :=
  List.filterMap_append

@[simp] theorem descriptors_append :
    descriptors (events ++ more) = descriptors events ++ descriptors more :=
  List.flatMap_append

@[simp] theorem pipes_closeIfAny (fd : ℤ) : pipes (closeIfAny fd) = [] := by
  unfold closeIfAny
  split
  · rfl
  · rfl

@[simp] theorem spawns_closeIfAny (fd : ℤ) : spawns (closeIfAny fd) = [] := by
  unfold closeIfAny
  split
  · rfl
  · rfl

theorem descriptors_closeIfAny {fd : ℤ} (h : fd ∉ reserved) :
    descriptors (closeIfAny fd) = [.release fd] := by
  unfold closeIfAny
  have hne : fd ≠ G_FD_NONE := by
    rintro rfl
    exact h List.mem_cons_self
  rw [if_pos hne]
  rfl

variable (request : Spawn) (p : Pipe) (output : List UInt8)

@[simp] theorem pipes_nil : pipes [] = [] := rfl
@[simp] theorem spawns_nil : spawns [] = [] := rfl
@[simp] theorem descriptors_nil : descriptors [] = [] := rfl

@[simp] theorem pipes_spawn : pipes (.spawn request :: events) = pipes events := rfl
@[simp] theorem spawns_spawn : spawns (.spawn request :: events) = request :: spawns events := rfl
@[simp] theorem descriptors_spawn :
    descriptors (.spawn request :: events) = descriptors events := rfl

@[simp] theorem pipes_pipe : pipes (.pipe p :: events) = p :: pipes events := rfl
@[simp] theorem spawns_pipe : spawns (.pipe p :: events) = spawns events := rfl
@[simp] theorem descriptors_pipe : descriptors (.pipe p :: events) =
    .acquire p.write :: .acquire p.read :: descriptors events := rfl

@[simp] theorem pipes_cout : pipes (.cout output :: events) = pipes events := rfl
@[simp] theorem spawns_cout : spawns (.cout output :: events) = spawns events := rfl
@[simp] theorem descriptors_cout :
    descriptors (.cout output :: events) = descriptors events := rfl

@[simp] theorem spawns_cerr : spawns (.cerr output :: events) = spawns events := rfl
@[simp] theorem descriptors_cerr :
    descriptors (.cerr output :: events) = descriptors events := rfl

end Projections

section Wiring

variable {E : Surroundings} {calls : List ProgramCall} {events more : List Event}

/-- Events after which the same pipes and calls come first. -/
theorem Wired.append (h : Wired E calls events) (hmore : spawns more = []) :
    Wired E calls (events ++ more) := by
  intro i request hrequest
  rw [spawns_append, hmore, List.append_nil] at hrequest
  obtain ⟨hcall, hstdin, hstdout, hread, hwrite⟩ := h i request hrequest
  have hpipe {j : ℕ} {p : Pipe} (hp : (pipes events)[j]? = some p) :
      (pipes (events ++ more))[j]? = some p := by
    rw [pipes_append, List.getElem?_append_left (List.getElem?_eq_some_iff.mp hp).1]
    exact hp
  refine ⟨hcall, hstdin, hstdout, fun j hj => ?_, fun hi => ?_⟩
  · obtain ⟨p, hp, heq⟩ := hread j hj
    exact ⟨p, hpipe hp, heq⟩
  · obtain ⟨p, hp, heq⟩ := hwrite hi
    exact ⟨p, hpipe hp, heq⟩

/-- The next call is spawned with its own input and output. -/
theorem Wired.spawn (h : Wired E calls events) {i : ℕ} {call : ProgramCall} {request : Spawn}
    (hi : (spawns events).length = i) (hcall : calls[i]? = some call)
    (hpath : request.path = E.gshFindProgram E.cwdbuf call.program)
    (hargs : request.args = argumentString call)
    (hstdin : request.stdioIn.stdin = STDIN_FILENO ↔ i = 0)
    (hstdout : request.stdioIn.stdout = STDOUT_FILENO ↔ i + 1 = calls.length)
    (hread : ∀ j, i = j + 1 → ∃ p, (pipes events)[j]? = some p ∧ request.stdioIn.stdin = p.read)
    (hwrite : i + 1 < calls.length →
      ∃ p, (pipes events)[i]? = some p ∧ request.stdioIn.stdout = p.write) :
    Wired E calls (events ++ [.spawn request]) := by
  have hpipes : pipes (events ++ [.spawn request]) = pipes events := by
    rw [pipes_append]
    exact List.append_nil _
  intro k r hr
  rw [hpipes]
  rw [spawns_append] at hr
  by_cases hk : k < (spawns events).length
  · rw [List.getElem?_append_left hk] at hr
    exact h k r hr
  · rw [List.getElem?_append_right (by omega)] at hr
    have hlast : k - (spawns events).length < 1 := (List.getElem?_eq_some_iff.mp hr).1
    obtain rfl : k = i := by omega
    rw [hi, Nat.sub_self] at hr
    obtain rfl := Option.some.inj hr
    exact ⟨⟨call, hcall, hpath, hargs⟩, hstdin, hstdout, hread, hwrite⟩

end Wiring

/-- The pipe that the call at an index reads. -/
def pipeBefore (A : Answers) : ℕ → Option Pipe
  | 0 => none
  | i + 1 => A.pipe i

/-- The ends of a pipe as the shell keeps them, and what it holds of one. -/
def readEnd (p : Option Pipe) : ℤ := p.elim G_FD_NONE Pipe.read

def writeEnd (p : Option Pipe) : ℤ := p.elim G_FD_NONE Pipe.write

def openReadEnd (p : Option Pipe) : List ℤ := p.elim [] fun p => [p.read]

def openEnds (p : Option Pipe) : List ℤ := p.elim [] fun p => [p.read, p.write]

/-- The calls before an index run, each with its pipe, and the read end of the
last one is all the shell holds of them. -/
structure Stage (E : Surroundings) (A : Answers) (calls : List ProgramCall) (i : ℕ)
    (s : Progress) : Prop where
  wired : Wired E calls s.events
  spawned : (spawns s.events).length = i
  length_pipes : (pipes s.events).length = i
  before : ∀ j, i = j + 1 → ∃ p, A.pipe j = some p ∧ (pipes s.events)[j]? = some p
  last : s.lastPipeRead = readEnd (pipeBefore A i)
  holds : held (descriptors s.events) [] = some (openReadEnd (pipeBefore A i))

/-- Call `i` is about to be spawned with the pipe `out`, if it gets one; the
shell holds the ends of it and the read end of the pipe before. -/
structure Opened (E : Surroundings) (A : Answers) (calls : List ProgramCall) (i : ℕ)
    (out : Option Pipe) (s : Progress) : Prop where
  wired : Wired E calls s.events
  spawned : (spawns s.events).length = i
  before : ∀ j, i = j + 1 → ∃ p, A.pipe j = some p ∧ (pipes s.events)[j]? = some p
  out_eq : ∀ p, out = some p → A.pipe i = some p ∧ (pipes s.events)[i]? = some p
  out_none : out = none ↔ i + 1 = calls.length
  last : s.lastPipeRead = readEnd (pipeBefore A i)
  holds : held (descriptors s.events) [] = some (openEnds out ++ openReadEnd (pipeBefore A i))

section Round

variable {E : Surroundings} {A : Answers} {calls : List ProgramCall} {i : ℕ}
  {out : Option Pipe} {call : ProgramCall} {s : Progress}

theorem ne_of_not_reserved {fd : ℤ} (h : fd ∉ reserved) :
    fd ≠ G_FD_NONE ∧ fd ≠ STDIN_FILENO ∧ fd ≠ STDOUT_FILENO := by
  simp only [reserved, List.mem_cons, not_or] at h
  exact ⟨h.1, h.2.1, h.2.2.1⟩

theorem Opened.spawning (h : Opened E A calls i out s) (hcall : calls[i]? = some call) :
    Wired E calls (s.events ++ [.spawn {
      path := E.gshFindProgram E.cwdbuf call.program
      args := argumentString call
      workdir := E.cwdbuf
      level := G_SECURITY_LEVEL_APPLICATION
      stdioIn := stdioFor calls.length i s.lastPipeRead (writeEnd out) }]) := by
  have hlt : i < calls.length := (List.getElem?_eq_some_iff.mp hcall).1
  have hlast : ((calls.length = 1 ∧ i = 0) ∨ i = calls.length - 1) ↔ i + 1 = calls.length := by
    omega
  refine h.wired.spawn h.spawned hcall rfl rfl ?_ ?_ ?_ ?_
  · show (if i = 0 then STDIN_FILENO else s.lastPipeRead) = STDIN_FILENO ↔ i = 0
    by_cases hi : i = 0
    · simp [hi]
    · obtain ⟨j, rfl⟩ := Nat.exists_eq_succ_of_ne_zero hi
      obtain ⟨p, hp, _⟩ := h.before j rfl
      have hread : s.lastPipeRead = p.read := by
        rw [h.last, pipeBefore, hp]
        rfl
      rw [if_neg hi, hread]
      exact iff_of_false (ne_of_not_reserved (A.fresh j p hp).2.1).2.1 hi
  · show (if (calls.length = 1 ∧ i = 0) ∨ i = calls.length - 1 then STDOUT_FILENO
      else writeEnd out) = STDOUT_FILENO ↔ i + 1 = calls.length
    by_cases hi : i + 1 = calls.length
    · rw [if_pos (hlast.mpr hi)]
      exact iff_of_true rfl hi
    · rw [if_neg (hlast.not.mpr hi)]
      cases hout : out with
      | none => exact absurd (h.out_none.mp hout) hi
      | some p =>
        exact iff_of_false (ne_of_not_reserved (A.fresh i p (h.out_eq p hout).1).1).2.2 hi
  · rintro j rfl
    obtain ⟨p, hp, hget⟩ := h.before j rfl
    refine ⟨p, hget, ?_⟩
    show (if j + 1 = 0 then STDIN_FILENO else s.lastPipeRead) = p.read
    rw [if_neg (Nat.succ_ne_zero j), h.last, pipeBefore, hp]
    rfl
  · intro hi
    cases hout : out with
    | none => exact absurd (h.out_none.mp hout) (Nat.ne_of_lt hi)
    | some p =>
      refine ⟨p, (h.out_eq p hout).2, ?_⟩
      show (if (calls.length = 1 ∧ i = 0) ∨ i = calls.length - 1 then STDOUT_FILENO
        else writeEnd (some p)) = p.write
      rw [if_neg (hlast.not.mpr (Nat.ne_of_lt hi))]
      rfl

/-- After a successful spawn the shell closes what it has handed over. -/
theorem Opened.closing (h : Opened E A calls i out s) :
    held (descriptors s.events ++ descriptors (closeIfAny (writeEnd out)) ++
      descriptors (closeIfAny s.lastPipeRead)) [] = some (openReadEnd out) := by
  have hholds := h.holds
  have hwrite : held (descriptors s.events ++ descriptors (closeIfAny (writeEnd out))) [] =
      some (openReadEnd out ++ openReadEnd (pipeBefore A i)) := by
    cases out with
    | none => rwa [show descriptors (closeIfAny (writeEnd none)) = [] from rfl, List.append_nil]
    | some p =>
      obtain ⟨hfresh, _, hne⟩ := A.fresh i p (h.out_eq p rfl).1
      rw [show writeEnd (some p) = p.write from rfl, descriptors_closeIfAny hfresh,
        held_release hholds (by simp [openEnds])]
      simp [openEnds, openReadEnd, hne.symm]
  cases i with
  | zero =>
    rw [h.last, show descriptors (closeIfAny (readEnd (pipeBefore A 0))) = [] from rfl,
      List.append_nil, hwrite]
    exact congrArg some (List.append_nil _)
  | succ j =>
    obtain ⟨q, hq, _⟩ := h.before j rfl
    rw [show openReadEnd (pipeBefore A (j + 1)) = [q.read] by rw [pipeBefore, hq]; rfl] at hwrite
    rw [h.last, pipeBefore, hq, show readEnd (some q) = q.read from rfl,
      descriptors_closeIfAny (A.fresh j q hq).2.1, held_release hwrite (by simp)]
    cases out with
    | none => simp [openReadEnd]
    | some p =>
      have hapart := (A.apart j q p hq (h.out_eq p rfl).1).2
      simp [openReadEnd, hapart]

/-- What the part of a round from the spawn on does. -/
theorem Opened.spawnCall (h : Opened E A calls i out s) (hcall : calls[i]? = some call) :
    ∃ goes t, spawnCall E A calls.length i call (writeEnd out) (readEnd out) s = (goes, t) ∧
      Wired E calls t.events ∧ (spawns t.events).length = i + 1 ∧
      pipes t.events = pipes s.events ∧
      ((A.spawn i).1 = .successful → goes = true ∧ t.lastPipeRead = readEnd out ∧
        held (descriptors t.events) [] = some (openReadEnd out)) ∧
      ((A.spawn i).1 ≠ .successful → goes = false ∧
        held (descriptors t.events) [] =
          some (openEnds out ++ openReadEnd (pipeBefore A i))) := by
  have hwired := h.spawning hcall
  have hholds := h.holds
  have hspawned := h.spawned
  rcases hspawn : A.spawn i with ⟨status, pid⟩
  by_cases hstatus : status = .successful
  · subst hstatus
    have hclosing := h.closing
    refine ⟨true, _, by rw [Gsh.spawnCall, hspawn], ?_, ?_, ?_, fun _ => ⟨rfl, rfl, ?_⟩,
      fun hne => absurd rfl hne⟩
    · exact (hwired.append (spawns_closeIfAny _)).append (spawns_closeIfAny _)
    · simpa [Progress.add] using hspawned
    · simp [Progress.add]
    · simpa [Progress.add] using hclosing
  · refine ⟨false, { (s.add _).add [.cout (spawnErrorText status call)] with success := false },
      ?_, hwired.append rfl, ?_, ?_, fun heq => absurd heq hstatus, fun _ => ⟨rfl, ?_⟩⟩
    · rw [Gsh.spawnCall, hspawn]
      cases status with
      | successful => exact absurd rfl hstatus
      | _ => rfl
    · simpa [Progress.add] using hspawned
    · simp [Progress.add]
    · simpa [Progress.add] using hholds

theorem Stage.opened_none (h : Stage E A calls i s) (hi : i + 1 = calls.length) :
    Opened E A calls i none s where
  wired := h.wired
  spawned := h.spawned
  before := h.before
  out_eq := fun _ hp => by cases hp
  out_none := iff_of_true rfl hi
  last := h.last
  holds := h.holds

theorem Stage.opened_some (h : Stage E A calls i s) (hi : i + 1 < calls.length) {p : Pipe}
    (hp : A.pipe i = some p) : Opened E A calls i (some p) (s.add [.pipe p]) where
  wired := h.wired.append rfl
  spawned := by simpa [Progress.add] using h.spawned
  before := by
    intro j hj
    obtain ⟨q, hq, hget⟩ := h.before j hj
    refine ⟨q, hq, ?_⟩
    show (pipes (s.events ++ [.pipe p]))[j]? = some q
    rw [pipes_append, List.getElem?_append_left (by rw [h.length_pipes]; omega), hget]
  out_eq := by
    intro q hq
    obtain rfl := Option.some.inj hq
    refine ⟨hp, ?_⟩
    show (pipes (s.events ++ [.pipe p]))[i]? = some p
    rw [pipes_append, List.getElem?_append_right (Nat.le_of_eq h.length_pipes), h.length_pipes,
      Nat.sub_self]
    rfl
  out_none := iff_of_false (Option.some_ne_none p) (Nat.ne_of_lt hi)
  last := h.last
  holds := by
    obtain ⟨_, _, hne⟩ := A.fresh i p hp
    have hapart : p.write ∉ openReadEnd (pipeBefore A i) ∧
        p.read ∉ openReadEnd (pipeBefore A i) := by
      cases i with
      | zero => simp [pipeBefore, openReadEnd]
      | succ j =>
        obtain ⟨q, hq, _⟩ := h.before j rfl
        have hapart := A.apart j q p hq hp
        simp [pipeBefore, hq, openReadEnd, hapart]
    have hread : p.read ∉ p.write :: openReadEnd (pipeBefore A i) := by
      rw [List.mem_cons, not_or]
      exact ⟨hne.symm, hapart.2⟩
    have hheld := held_acquire (held_acquire h.holds hapart.1) hread
    simpa [Progress.add, openEnds] using hheld

/-- The call at an index gets its pipe, if it needs one, and is spawned. -/
def Runs (A : Answers) (calls : List ProgramCall) (i : ℕ) : Prop :=
  (i + 1 < calls.length → A.pipe i ≠ none) ∧ (A.spawn i).1 = .successful

/-- A round spawns one call. If it ends the loop, nothing is left open only
where nothing had been opened. -/
theorem Stage.processCall (h : Stage E A calls i s) (hcall : calls[i]? = some call)
    (hbuiltin : isBuiltin call = false) :
    ∃ goes t, processCall E A calls.length i call s = (goes, t) ∧ Wired E calls t.events ∧
      (goes = true ↔ Runs A calls i) ∧
      (goes = true → (i + 1 < calls.length → Stage E A calls (i + 1) t) ∧
        (i + 1 = calls.length → Settled (descriptors t.events))) ∧
      (goes = false → (Settled (descriptors t.events) ↔
        i = 0 ∧ (calls.length = 1 ∨ A.pipe 0 = none))) := by
  have hlt : i < calls.length := (List.getElem?_eq_some_iff.mp hcall).1
  have hnone : (openReadEnd (pipeBefore A i) = []) ↔ i = 0 := by
    cases i with
    | zero => exact iff_of_true rfl rfl
    | succ j =>
      obtain ⟨q, hq, _⟩ := h.before j rfl
      exact iff_of_false (by simp [pipeBefore, hq, openReadEnd]) (Nat.succ_ne_zero j)
  unfold Gsh.processCall Settled
  rw [if_neg (by rw [hbuiltin]; rintro ⟨_, _, hb⟩; cases hb)]
  by_cases hlast : i + 1 = calls.length
  · obtain ⟨goes, t, heq, hwired, _, _, hgood, hbad⟩ := (h.opened_none hlast).spawnCall hcall
    rw [if_neg (by omega)]
    refine ⟨goes, t, heq, hwired, ?_⟩
    by_cases hspawn : (A.spawn i).1 = .successful
    · obtain ⟨rfl, _, hheld⟩ := hgood hspawn
      exact ⟨iff_of_true rfl ⟨by omega, hspawn⟩, fun _ => ⟨by omega, fun _ => hheld⟩,
        fun hfalse => absurd hfalse.symm Bool.false_ne_true⟩
    · obtain ⟨rfl, hheld⟩ := hbad hspawn
      refine ⟨iff_of_false Bool.false_ne_true (fun hruns => hspawn hruns.2),
        fun htrue => absurd htrue Bool.false_ne_true, fun _ => ?_⟩
      rw [hheld, Option.some.injEq]
      show openReadEnd (pipeBefore A i) = [] ↔ _
      rw [hnone]
      exact ⟨fun hi => ⟨hi, Or.inl (by omega)⟩, And.left⟩
  · have hmore : i + 1 < calls.length := by omega
    rw [if_pos (by omega)]
    cases hpipe : A.pipe i with
    | none =>
      refine ⟨false, _, rfl, h.wired.append rfl,
        iff_of_false Bool.false_ne_true (fun hruns => hruns.1 hmore hpipe),
        fun htrue => absurd htrue Bool.false_ne_true, fun _ => ?_⟩
      simp only [Progress.add, descriptors_append, descriptors_cerr, descriptors_nil,
        List.append_nil, h.holds, Option.some.injEq, hnone]
      exact ⟨fun hi => ⟨hi, Or.inr (hi ▸ hpipe)⟩, And.left⟩
    | some p =>
      obtain ⟨goes, t, heq, hwired, hspawned, hpipes, hgood, hbad⟩ :=
        (h.opened_some hmore hpipe).spawnCall hcall
      have hsame : pipes t.events = pipes s.events ++ [p] := by
        rw [hpipes]
        exact pipes_append _ _
      refine ⟨goes, t, heq, hwired, ?_⟩
      by_cases hspawn : (A.spawn i).1 = .successful
      · obtain ⟨rfl, hlastRead, hheld⟩ := hgood hspawn
        refine ⟨iff_of_true rfl ⟨fun _ => by simp [hpipe], hspawn⟩,
          fun _ => ⟨fun _ => ?_, by omega⟩,
          fun hfalse => absurd hfalse.symm Bool.false_ne_true⟩
        exact {
          wired := hwired
          spawned := hspawned
          length_pipes := by rw [hsame, List.length_append, h.length_pipes]; rfl
          before := by
            intro j hj
            obtain rfl : j = i := by omega
            refine ⟨p, hpipe, ?_⟩
            rw [hsame, List.getElem?_append_right (Nat.le_of_eq h.length_pipes), h.length_pipes,
              Nat.sub_self]
            rfl
          last := by rw [hlastRead, pipeBefore, hpipe]
          holds := by rw [hheld, pipeBefore, hpipe] }
      · obtain ⟨rfl, hheld⟩ := hbad hspawn
        refine ⟨iff_of_false Bool.false_ne_true (fun hruns => hspawn hruns.2),
          fun htrue => absurd htrue Bool.false_ne_true, fun _ => ?_⟩
        rw [hheld, Option.some.injEq]
        refine iff_of_false (by simp [openEnds]) ?_
        rintro ⟨rfl, hone | hfirst⟩
        · omega
        · rw [hpipe] at hfirst
          cases hfirst

/-- The calls from an index on. -/
theorem Stage.processCalls {rest : List ProgramCall} (h : Stage E A calls i s)
    (hrest : calls.drop i = rest) (hne : rest ≠ [])
    (hbuiltin : ∀ call ∈ calls, isBuiltin call = false) :
    Wired E calls (processCalls E A calls.length i rest s).events ∧
      (Settled (descriptors (processCalls E A calls.length i rest s).events) ↔
        (∀ j, i ≤ j → j < calls.length → Runs A calls j) ∨
          i = 0 ∧ (calls.length = 1 ∨ A.pipe 0 = none)) := by
  induction rest generalizing i s with
  | nil => exact absurd rfl hne
  | cons call rest ih =>
    have hlt : i < calls.length := by
      have hlength := congrArg List.length hrest
      rw [List.length_drop, List.length_cons] at hlength
      omega
    have hcall : calls[i]? = some call := by
      have hget := congrArg (fun l => l[0]?) hrest
      simpa using hget
    have hdrop : calls.drop (i + 1) = rest := by
      have htail := congrArg List.tail hrest
      rwa [List.tail_drop, List.tail_cons] at htail
    obtain ⟨goes, t, heq, hwired, hgoes, hgood, hbad⟩ :=
      h.processCall hcall (hbuiltin call (List.mem_of_getElem? hcall))
    unfold Gsh.processCalls
    rw [heq]
    cases goes with
    | false =>
      refine ⟨hwired, (hbad rfl).trans ⟨Or.inr, ?_⟩⟩
      rintro (hall | hclean)
      · have hruns := hgoes.mpr (hall i (Nat.le_refl i) hlt)
        cases hruns
      · exact hclean
    | true =>
      have hruns := hgoes.mp rfl
      obtain ⟨hstage, hsettled⟩ := hgood rfl
      by_cases hlast : i + 1 = calls.length
      · have hnil : rest = [] := by
          rw [← hdrop, hlast, List.drop_length]
        subst hnil
        refine ⟨hwired, iff_of_true (hsettled hlast) (Or.inl fun j hj hjlt => ?_)⟩
        obtain rfl : j = i := by omega
        exact hruns
      · have hmore : i + 1 < calls.length := by omega
        have hrestne : rest ≠ [] := by
          rw [← hdrop]
          exact List.ne_nil_of_length_pos (by rw [List.length_drop]; omega)
        obtain ⟨hwired', hiff⟩ := ih (hstage hmore) hdrop hrestne
        refine ⟨hwired', hiff.trans ?_⟩
        constructor
        · rintro (hall | ⟨hzero, _⟩)
          · refine Or.inl fun j hj hjlt => ?_
            rcases Nat.eq_or_lt_of_le hj with rfl | hj
            · exact hruns
            · exact hall j hj hjlt
          · exact absurd hzero (Nat.succ_ne_zero i)
        · rintro (hall | ⟨rfl, hone | hfirst⟩)
          · exact Or.inl fun j hj hjlt => hall j (by omega) hjlt
          · omega
          · exact absurd hfirst (hruns.1 hmore)

end Round

/-- The calls are connected on every line. The shell closes every descriptor of
its pipes exactly once where each call gets its pipe and is spawned, where there
is only one call, and where the first pipe cannot be created. -/
theorem pipeline_hygiene_iff (E : Surroundings) (A : Answers) (calls : List ProgramCall)
    (hcalls : calls ≠ []) (hbuiltin : ∀ call ∈ calls, isBuiltin call = false) :
    (Wired E calls (gshProcessExpression E A calls) ∧
        Settled (descriptors (gshProcessExpression E A calls))) ↔
      calls.length = 1 ∨ A.pipe 0 = none ∨ ∀ i, i < calls.length → Runs A calls i := by
  have hstage : Stage E A calls 0 ⟨G_FD_NONE, G_PID_NONE, false, []⟩ := by
    refine ⟨?_, rfl, rfl, ?_, rfl, rfl⟩
    · intro i request hrequest
      cases hrequest
    · intro j hj
      cases hj
  obtain ⟨hwired, hsettled⟩ := hstage.processCalls List.drop_zero hcalls hbuiltin
  unfold gshProcessExpression
  generalize processCalls E A calls.length 0 calls ⟨G_FD_NONE, G_PID_NONE, false, []⟩ = t at *
  dsimp only
  have hevents : Wired E calls (if t.success = true then t.events ++ [.setControlProcess
      t.tailProcessId, .join t.tailProcessId, .setControlProcess 0] else t.events) ∧
      (Settled (descriptors (if t.success = true then t.events ++ [.setControlProcess
        t.tailProcessId, .join t.tailProcessId, .setControlProcess 0] else t.events)) ↔
      Settled (descriptors t.events)) := by
    split
    · refine ⟨hwired.append rfl, ?_⟩
      rw [descriptors_append, show descriptors [.setControlProcess t.tailProcessId,
        .join t.tailProcessId, .setControlProcess 0] = [] from rfl, List.append_nil]
    · exact ⟨hwired, Iff.rfl⟩
  rw [hevents.2, and_iff_right hevents.1, hsettled]
  constructor
  · rintro (hall | ⟨_, hclean⟩)
    · exact Or.inr (Or.inr fun i hi => hall i (Nat.zero_le i) hi)
    · exact hclean.imp id Or.inl
  · rintro (hone | hfirst | hall)
    · exact Or.inr ⟨rfl, Or.inl hone⟩
    · exact Or.inr ⟨rfl, Or.inr hfirst⟩
    · exact Or.inl fun j _ hj => hall j hj

/-- The calls of `a | b` in the working directory `/`. -/
def twoCalls : List ProgramCall := [⟨text "a", []⟩, ⟨text "b", []⟩]

def rootSurroundings : Surroundings := ⟨text "/", fun cwd name => cwd ++ name⟩

/-- One pipe, with the descriptors 3 and 4, and the same answer to every spawn. -/
def onePipe (status : SpawnStatus) : Answers where
  pipe i := if i = 0 then some ⟨3, 4⟩ else none
  spawn _ := (status, 7)
  fresh i p h := by
    rcases i with _ | i
    · obtain rfl := Option.some.inj h
      decide
    · cases h
  apart i p q _ hq := by cases hq

theorem pipeline_hygiene_iff_twoCalls :
    (Wired rootSurroundings twoCalls
        (gshProcessExpression rootSurroundings (onePipe .successful) twoCalls) ∧
      Settled (descriptors
        (gshProcessExpression rootSurroundings (onePipe .successful) twoCalls))) ↔
      twoCalls.length = 1 ∨ (onePipe .successful).pipe 0 = none ∨
        ∀ i, i < twoCalls.length → Runs (onePipe .successful) twoCalls i :=
  pipeline_hygiene_iff rootSurroundings (onePipe .successful) twoCalls (by decide) (by decide)

/-- The first program is not found, and both ends of its pipe stay open. -/
theorem pipeline_leaks_descriptors :
    ¬ ∀ (E : Surroundings) (A : Answers) (calls : List ProgramCall), calls ≠ [] →
      (∀ call ∈ calls, isBuiltin call = false) →
      Wired E calls (gshProcessExpression E A calls) ∧
        Settled (descriptors (gshProcessExpression E A calls)) := by
  intro hall
  have hsettled := (hall rootSurroundings (onePipe .ioError) twoCalls (by decide) (by decide)).2
  unfold Settled at hsettled
  exact absurd hsettled (by decide)

end Heartix.Gsh
