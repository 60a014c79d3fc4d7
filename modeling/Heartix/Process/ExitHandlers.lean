import Mathlib.Data.Int.Basic
import Mathlib.Data.List.Basic
import Mathlib.Data.List.Nodup
import Mathlib.Data.List.Perm.Subperm
import Mathlib.Data.List.Range
import Mathlib.Logic.Function.Basic
import Mathlib.Logic.Relation

/-!
The handlers that a program registers for its end, and the pass over them. A handler is
code of the program: it may register handlers, have others called and exit again. What a
call does may depend on all that happened before it, so it is told the number of the call.
-/

namespace Heartix.Process

open Relation

def G_ATEXIT_MAX : ℕ := 64

/-- What an entry points to: a function and its argument, or `g_atexit_thunk` and one of
the wrappers. -/
inductive Target
  | function (func arg : ℕ)
  | thunk (wrapper : ℕ)
  deriving DecidableEq

/-- What the program has called in the end. -/
inductive Callee
  | cxa (func arg : ℕ)
  | plain (func : ℕ)
  deriving DecidableEq

/-- A `g_atexit_entry`. -/
structure Entry where
  target : Target
  dsoHandle : ℕ
  called : Bool
  deriving DecidableEq

/-- The tables as far as they are in use, and the calls that were made, with the numbers of
the entries. -/
structure Handlers where
  entries : List Entry
  wrappers : ℕ → ℕ
  wrapperCount : ℕ
  calls : List (ℕ × Callee)

/-- What the code of a handler does until it returns or exits. It sees whether a handler
was registered. -/
inductive Body
  | done
  | cxaAtexit (func arg dsoHandle : ℕ) (next : ℤ → Body)
  | atexit (func : ℕ) (next : ℤ → Body)
  | finalize (dsoHandle : ℕ) (next : Body)
  | exit

/-- Code that does not unload a shared object. It may register handlers and exit. -/
def Body.KeepsObjects : Body → Prop
  | .done => True
  | .cxaAtexit _ _ _ next => ∀ r, Body.KeepsObjects (next r)
  | .atexit _ next => ∀ r, Body.KeepsObjects (next r)
  | .finalize dsoHandle next => dsoHandle = 0 ∧ Body.KeepsObjects next
  | .exit => True

namespace Handlers

def initial : Handlers := ⟨[], fun _ => 0, 0, []⟩

/-- An entry is taken into the table, if there is a place for it. -/
def register (target : Target) (dsoHandle : ℕ) (s : Handlers) : ℤ × Handlers :=
  if s.entries.length ≥ G_ATEXIT_MAX then (-1, s)
  else (0, { s with entries := s.entries ++ [⟨target, dsoHandle, false⟩] })

/-- `__cxa_atexit`. -/
def cxaAtexit (func arg dsoHandle : ℕ) (s : Handlers) : ℤ × Handlers :=
  if func = 0 then (-1, s) else s.register (.function func arg) dsoHandle

/-- The wrapper is written before its entry is made. -/
def atexit (func : ℕ) (s : Handlers) : ℤ × Handlers :=
  if func = 0 then (-1, s)
  else if s.wrapperCount ≥ G_ATEXIT_MAX then (-1, s)
  else
    match { s with wrappers := Function.update s.wrappers s.wrapperCount func }.register
        (.thunk s.wrapperCount) 0 with
    | (0, t) => (0, { t with wrapperCount := s.wrapperCount + 1 })
    | (_, t) => (-1, t)

def callee (s : Handlers) : Target → Callee
  | .function func arg => .cxa func arg
  | .thunk wrapper => .plain (s.wrappers wrapper)

/-- The entry is marked, and its function is called. -/
def begin (s : Handlers) (i : ℕ) (target : Target) : Handlers :=
  { s with entries := s.entries.modify i fun entry => { entry with called := true },
           calls := s.calls ++ [(i, s.callee target)] }

/-- Whether the loop of `__cxa_finalize` calls an entry. -/
def Due (dsoHandle : ℕ) (entry : Entry) : Prop :=
  entry.called = false ∧ (dsoHandle = 0 ∨ entry.dsoHandle = dsoHandle)

instance decidableDue (dsoHandle : ℕ) (entry : Entry) : Decidable (Due dsoHandle entry) :=
  inferInstanceAs (Decidable (_ ∧ _))

/-- The loop of `__cxa_finalize`, from the entry before the given number down. The first
component says that the process has ended. -/
def finalizeFrom (call : ℕ → Target → Handlers → Option (Bool × Handlers)) (dsoHandle : ℕ) :
    ℕ → Handlers → Option (Bool × Handlers)
  | 0, s => some (false, s)
  | i + 1, s =>
      match s.entries[i]? with
      | none => finalizeFrom call dsoHandle i s
      | some entry =>
          if Due dsoHandle entry then
            match call i entry.target s with
            | some (false, t) => finalizeFrom call dsoHandle i t
            | ended => ended
          else finalizeFrom call dsoHandle i s

/-- The code of a handler, or of the program. Nothing comes after `exit`. -/
def run (finalize : ℕ → Handlers → Option (Bool × Handlers)) :
    Body → Handlers → Option (Bool × Handlers)
  | .done, s => some (false, s)
  | .cxaAtexit func arg dsoHandle next, s =>
      let (r, t) := s.cxaAtexit func arg dsoHandle
      run finalize (next r) t
  | .atexit func next, s =>
      let (r, t) := s.atexit func
      run finalize (next r) t
  | .finalize dsoHandle next, s =>
      match finalize dsoHandle s with
      | some (false, t) => run finalize next t
      | ended => ended
  | .exit, s => (finalize 0 s).map fun (_, t) => (true, t)

/-- A handler is called. The number bounds how deep calls are nested. -/
def call (code : ℕ → Callee → Body) : ℕ → ℕ → Target → Handlers → Option (Bool × Handlers)
  | 0, _, _, _ => none
  | depth + 1, i, target, s =>
      run (fun dsoHandle t => finalizeFrom (call code depth) dsoHandle t.entries.length t)
        (code s.calls.length (s.callee target)) (s.begin i target)

/-- `__cxa_finalize`. -/
def cxaFinalize (code : ℕ → Callee → Body) (depth : ℕ) (dsoHandle : ℕ) (s : Handlers) :
    Option (Bool × Handlers) :=
  finalizeFrom (call code depth) dsoHandle s.entries.length s

/-- The program runs, and what it returns is given to `exit`. -/
def process (code : ℕ → Callee → Body) (depth : ℕ) (main : Body) : Option Handlers :=
  match run (cxaFinalize code depth) main initial with
  | none => none
  | some (true, s) => some s
  | some (false, s) => (cxaFinalize code depth 0 s).map Prod.snd

section Changes

/-- What happens to the tables, one thing at a time. -/
inductive Change (s : Handlers) : Handlers → Prop
  | added (target : Target) (dsoHandle : ℕ) : s.entries.length < G_ATEXIT_MAX →
      (∀ wrapper, target ≠ .thunk wrapper) →
      Change s { s with entries := s.entries ++ [⟨target, dsoHandle, false⟩] }
  | written (func : ℕ) :
      Change s { s with wrappers := Function.update s.wrappers s.wrapperCount func }
  | wrapped : s.entries.length < G_ATEXIT_MAX →
      Change s { s with entries := s.entries ++ [⟨.thunk s.wrapperCount, 0, false⟩],
                        wrapperCount := s.wrapperCount + 1 }
  | called {i : ℕ} {entry : Entry} : s.entries[i]? = some entry → entry.called = false →
      Change s (s.begin i entry.target)

def Called (s : Handlers) (i : ℕ) : Prop :=
  ∃ entry, s.entries[i]? = some entry ∧ entry.called = true

/-- The tables and the calls agree. -/
structure Sound (s : Handlers) : Prop where
  length_le : s.entries.length ≤ G_ATEXIT_MAX
  nodup : (s.calls.map Prod.fst).Nodup
  called_iff : ∀ i, i ∈ s.calls.map Prod.fst ↔ s.Called i
  callee : ∀ c ∈ s.calls, ∃ entry, s.entries[c.1]? = some entry ∧ s.callee entry.target = c.2
  wrapper : ∀ entry ∈ s.entries, ∀ w, entry.target = .thunk w → w < s.wrapperCount

theorem initial_sound : initial.Sound := by
  constructor
  · exact Nat.zero_le _
  · exact List.nodup_nil
  · intro i
    constructor
    · intro h
      cases h
    · rintro ⟨entry, h, _⟩
      cases h
  · intro c hc
    cases hc
  · intro entry hentry
    cases hentry

theorem called_append {s : Handlers} {target : Target} {dsoHandle i : ℕ} {wrapperCount : ℕ} :
    Called { s with entries := s.entries ++ [⟨target, dsoHandle, false⟩],
                    wrapperCount := wrapperCount } i ↔ s.Called i := by
  unfold Called
  dsimp only
  constructor
  · rintro ⟨entry, hentry, hcalled⟩
    rcases lt_trichotomy i s.entries.length with hi | hi | hi
    · rw [List.getElem?_append_left hi] at hentry
      exact ⟨entry, hentry, hcalled⟩
    · subst hi
      rw [List.getElem?_concat_length] at hentry
      obtain rfl := Option.some.inj hentry
      cases hcalled
    · rw [List.getElem?_eq_none] at hentry
      · cases hentry
      · rw [List.length_append]
        exact hi
  · rintro ⟨entry, hentry, hcalled⟩
    have hi := (List.getElem?_eq_some_iff.mp hentry).1
    exact ⟨entry, by rw [List.getElem?_append_left hi, hentry], hcalled⟩

theorem length_begin (s : Handlers) (i : ℕ) (target : Target) :
    (s.begin i target).entries.length = s.entries.length := List.length_modify ..

theorem getElem?_begin (s : Handlers) (i : ℕ) (target : Target) (j : ℕ) :
    (s.begin i target).entries[j]? = s.entries[j]?.map fun entry =>
      if i = j then { entry with called := true } else entry := List.getElem?_modify ..

theorem called_begin {s : Handlers} {i : ℕ} {entry : Entry} (hentry : s.entries[i]? = some entry)
    (target : Target) (j : ℕ) : (s.begin i target).Called j ↔ j = i ∨ s.Called j := by
  unfold Called
  rw [getElem?_begin]
  constructor
  · rintro ⟨e, he, hcalled⟩
    obtain ⟨e', he', rfl⟩ := Option.map_eq_some_iff.mp he
    by_cases hij : i = j
    · exact Or.inl hij.symm
    · rw [if_neg hij] at hcalled
      exact Or.inr ⟨e', he', hcalled⟩
  · rintro (rfl | ⟨e, he, hcalled⟩)
    · rw [hentry]
      refine ⟨_, rfl, ?_⟩
      dsimp only
      rw [if_pos rfl]
    · rw [he]
      refine ⟨_, rfl, ?_⟩
      split
      · rfl
      · exact hcalled

theorem target_begin {s : Handlers} {i j : ℕ} {target : Target} {entry : Entry}
    (h : s.entries[j]? = some entry) :
    ∃ e, (s.begin i target).entries[j]? = some e ∧ e.target = entry.target ∧
      e.dsoHandle = entry.dsoHandle := by
  rw [getElem?_begin, h]
  refine ⟨_, rfl, ?_⟩
  split
  · exact ⟨rfl, rfl⟩
  · exact ⟨rfl, rfl⟩

/-- The entries of a table stay where they are when one is added. -/
theorem getElem?_added {s : Handlers} {entry e : Entry} {j : ℕ} (h : s.entries[j]? = some e) :
    (s.entries ++ [entry])[j]? = some e := by
  rw [List.getElem?_append_left (List.getElem?_eq_some_iff.mp h).1, h]

theorem callee_update {s : Handlers} {func : ℕ} {target : Target}
    (h : ∀ w, target = .thunk w → w < s.wrapperCount) :
    callee { s with wrappers := Function.update s.wrappers s.wrapperCount func } target =
      s.callee target := by
  cases target with
  | function func arg => rfl
  | thunk wrapper =>
    exact congrArg Callee.plain (Function.update_of_ne (h wrapper rfl).ne _ _)

theorem Change.sound {s t : Handlers} (h : Change s t) (hs : s.Sound) : t.Sound := by
  obtain ⟨hlength, hnodup, hcalled, hcallee, hwrapper⟩ := hs
  cases h with
  | added target dsoHandle hfree htarget =>
    constructor
    · rw [List.length_append]
      exact hfree
    · exact hnodup
    · intro i
      exact (hcalled i).trans called_append.symm
    · intro c hc
      obtain ⟨entry, hentry, heq⟩ := hcallee c hc
      exact ⟨entry, getElem?_added hentry, heq⟩
    · intro entry hentry w hw
      rcases List.mem_append.mp hentry with hold | hnew
      · exact hwrapper entry hold w hw
      · obtain rfl := List.mem_singleton.mp hnew
        exact absurd hw (htarget w)
  | written func =>
    refine ⟨hlength, hnodup, hcalled, ?_, hwrapper⟩
    intro c hc
    obtain ⟨entry, hentry, heq⟩ := hcallee c hc
    refine ⟨entry, hentry, ?_⟩
    rw [callee_update (hwrapper entry (List.mem_of_getElem? hentry)), heq]
  | wrapped hfree =>
    constructor
    · rw [List.length_append]
      exact hfree
    · exact hnodup
    · intro i
      exact (hcalled i).trans called_append.symm
    · intro c hc
      obtain ⟨entry, hentry, heq⟩ := hcallee c hc
      exact ⟨entry, getElem?_added hentry, heq⟩
    · intro entry hentry w hw
      rcases List.mem_append.mp hentry with hold | hnew
      · exact (hwrapper entry hold w hw).trans (Nat.lt_succ_self _)
      · obtain rfl := List.mem_singleton.mp hnew
        obtain rfl := Target.thunk.inj hw
        exact Nat.lt_succ_self _
  | @called i entry hentry hopen =>
    have hnot : i ∉ s.calls.map Prod.fst := by
      rw [hcalled]
      rintro ⟨e, he, hcalled⟩
      obtain rfl := Option.some.inj (hentry.symm.trans he)
      rw [hopen] at hcalled
      cases hcalled
    have hcalls : (s.begin i entry.target).calls.map Prod.fst = s.calls.map Prod.fst ++ [i] :=
      List.map_append
    constructor
    · rw [length_begin]
      exact hlength
    · rw [hcalls]
      exact List.Nodup.append hnodup (List.nodup_singleton i) (List.disjoint_singleton.mpr hnot)
    · intro j
      rw [hcalls, called_begin hentry, List.mem_append, List.mem_singleton, hcalled, or_comm]
    · intro c hc
      rcases List.mem_append.mp hc with hold | hnew
      · obtain ⟨e, he, heq⟩ := hcallee c hold
        obtain ⟨e', he', htarget, _⟩ := target_begin he
        exact ⟨e', he', by rw [htarget]; exact heq⟩
      · obtain rfl := List.mem_singleton.mp hnew
        obtain ⟨e', he', htarget, _⟩ := target_begin hentry
        exact ⟨e', he', by rw [htarget]; rfl⟩
    · intro e he w hw
      obtain ⟨j, hj⟩ := List.getElem?_of_mem he
      rw [getElem?_begin] at hj
      obtain ⟨e', he', rfl⟩ := Option.map_eq_some_iff.mp hj
      apply hwrapper e' (List.mem_of_getElem? he')
      rw [← hw]
      split
      · rfl
      · rfl

/-- What stays as it is. -/
structure Later (s t : Handlers) : Prop where
  entries : ∀ (i : ℕ) (entry : Entry), s.entries[i]? = some entry → ∃ e : Entry,
    t.entries[i]? = some e ∧ e.target = entry.target ∧ e.dsoHandle = entry.dsoHandle
  called : ∀ i, s.Called i → t.Called i
  calls : s.calls <+: t.calls

theorem Later.refl (s : Handlers) : Later s s :=
  ⟨fun _ entry h => ⟨entry, h, rfl, rfl⟩, fun _ h => h, List.prefix_rfl⟩

theorem Later.trans {s t u : Handlers} (hst : Later s t) (htu : Later t u) : Later s u := by
  constructor
  · intro i entry hentry
    obtain ⟨e, he, htarget, hdso⟩ := hst.entries i entry hentry
    obtain ⟨e', he', htarget', hdso'⟩ := htu.entries i e he
    exact ⟨e', he', htarget'.trans htarget, hdso'.trans hdso⟩
  · intro i hi
    exact htu.called i (hst.called i hi)
  · exact hst.calls.trans htu.calls

theorem Change.later {s t : Handlers} (h : Change s t) : Later s t := by
  cases h with
  | added target dsoHandle _ _ =>
    exact ⟨fun _ entry hentry => ⟨entry, getElem?_added hentry, rfl, rfl⟩,
      fun i hi => called_append.mpr hi, List.prefix_rfl⟩
  | written func => exact ⟨fun _ entry h => ⟨entry, h, rfl, rfl⟩, fun _ h => h, List.prefix_rfl⟩
  | wrapped _ =>
    exact ⟨fun _ entry hentry => ⟨entry, getElem?_added hentry, rfl, rfl⟩,
      fun i hi => called_append.mpr hi, List.prefix_rfl⟩
  | called hentry _ =>
    exact ⟨fun _ _ h => target_begin h, fun i hi => (called_begin hentry _ i).mpr (Or.inr hi),
      List.prefix_append ..⟩

abbrev Reach : Handlers → Handlers → Prop := ReflTransGen Change

theorem Reach.sound {s t : Handlers} (h : Reach s t) (hs : s.Sound) : t.Sound := by
  induction h with
  | refl => exact hs
  | tail _ hchange ih => exact hchange.sound ih

theorem Reach.later {s t : Handlers} (h : Reach s t) : Later s t := by
  induction h with
  | refl => exact Later.refl s
  | tail _ hchange ih => exact ih.trans hchange.later

/-- What the program asked to have called, in the order in which it did. -/
def registered (s : Handlers) : List Callee := s.entries.map fun entry => s.callee entry.target

theorem registered_added (s : Handlers) (entry : Entry) (wrapperCount : ℕ) :
    registered ⟨s.entries ++ [entry], s.wrappers, wrapperCount, s.calls⟩ =
      s.registered ++ [s.callee entry.target] := List.map_append

theorem registered_written {s : Handlers} (hs : s.Sound) (func : ℕ) :
    registered { s with wrappers := Function.update s.wrappers s.wrapperCount func } =
      s.registered := by
  apply List.map_congr_left
  intro entry hentry
  exact callee_update (hs.wrapper entry hentry)

theorem registered_begin (s : Handlers) (i : ℕ) (target : Target) :
    (s.begin i target).registered = s.registered := by
  apply List.ext_getElem?
  intro j
  unfold registered
  rw [List.getElem?_map, List.getElem?_map, getElem?_begin, Option.map_map]
  congr 1
  funext entry
  dsimp only [Function.comp]
  split
  · rfl
  · rfl

/-- A wrapper that is in use is not written again. -/
theorem Change.registered {s t : Handlers} (h : Change s t) (hs : s.Sound) :
    s.registered <+: t.registered := by
  cases h with
  | added target dsoHandle _ _ =>
    rw [registered_added]
    exact List.prefix_append ..
  | written func => exact ⟨[], by rw [List.append_nil, registered_written hs]⟩
  | wrapped _ =>
    rw [registered_added]
    exact List.prefix_append ..
  | called _ _ => exact ⟨[], by rw [List.append_nil, registered_begin]⟩

theorem Reach.registered {s t : Handlers} (h : Reach s t) (hs : s.Sound) :
    s.registered <+: t.registered := by
  induction h with
  | refl => exact List.prefix_rfl
  | tail hreach hchange ih => exact ih.trans (hchange.registered (Reach.sound hreach hs))

/-- What `atexit` accepts is what is called. -/
theorem atexit_registered {s t : Handlers} (hs : s.Sound) {func : ℕ}
    (h : s.atexit func = (0, t)) : t.registered = s.registered ++ [.plain func] := by
  have hfailed : (-1 : ℤ) ≠ 0 := by decide
  unfold atexit register at h
  split at h
  · exact absurd (Prod.mk.inj h).1 hfailed
  · split at h
    · exact absurd (Prod.mk.inj h).1 hfailed
    · by_cases hfull : s.entries.length ≥ G_ATEXIT_MAX
      · rw [if_pos hfull] at h
        exact absurd (Prod.mk.inj h).1 hfailed
      · rw [if_neg hfull] at h
        obtain ⟨_, rfl⟩ := Prod.mk.inj h
        have hadded := registered_added
          { s with wrappers := Function.update s.wrappers s.wrapperCount func }
          ⟨.thunk s.wrapperCount, 0, false⟩ (s.wrapperCount + 1)
        rw [registered_written hs] at hadded
        refine hadded.trans (congrArg (s.registered ++ [Callee.plain ·]) ?_)
        exact Function.update_self ..

theorem Sound.registered {s : Handlers} (hs : s.Sound) {c : ℕ × Callee} (hc : c ∈ s.calls) :
    s.registered[c.1]? = some c.2 := by
  obtain ⟨entry, hentry, heq⟩ := hs.callee c hc
  unfold Handlers.registered
  rw [List.getElem?_map, hentry, Option.map_some, heq]

theorem Sound.calls_le {s : Handlers} (hs : s.Sound) : s.calls.length ≤ G_ATEXIT_MAX := by
  have hsubset : s.calls.map Prod.fst ⊆ List.range s.entries.length := by
    intro j hj
    obtain ⟨entry, hentry, _⟩ := (hs.called_iff j).mp hj
    exact List.mem_range.mpr (List.getElem?_eq_some_iff.mp hentry).1
  have hle := (List.subperm_of_subset hs.nodup hsubset).length_le
  rw [List.length_map, List.length_range] at hle
  exact hle.trans hs.length_le

theorem Later.length_le {s t : Handlers} (h : Later s t) : s.entries.length ≤ t.entries.length := by
  by_contra hlt
  have hmem : t.entries.length < s.entries.length := Nat.not_le.mp hlt
  obtain ⟨e, he, _⟩ := h.entries _ _ (List.getElem?_eq_getElem hmem)
  rw [List.getElem?_eq_none le_rfl] at he
  cases he

/-- As long as an entry is open, there were fewer calls than the table has places. -/
theorem Sound.calls_lt {s : Handlers} (h : s.Sound) {i : ℕ} {entry : Entry}
    (hentry : s.entries[i]? = some entry) (hopen : entry.called = false) :
    s.calls.length < G_ATEXIT_MAX := by
  have hle := ((Change.called hentry hopen).sound h).calls_le
  have hcalls : (s.begin i entry.target).calls.length = s.calls.length + 1 :=
    List.length_append
  omega

end Changes

section Outcomes

variable {code : ℕ → Callee → Body}

theorem cxaAtexit_reach (func arg dsoHandle : ℕ) (s : Handlers) :
    Reach s (s.cxaAtexit func arg dsoHandle).2 := by
  unfold cxaAtexit register
  split
  · exact .refl
  · split
    · exact .refl
    · rename_i hfree
      exact .single (.added _ dsoHandle (Nat.not_le.mp hfree) (fun _ => Target.noConfusion))

theorem atexit_reach (func : ℕ) (s : Handlers) : Reach s (s.atexit func).2 := by
  unfold atexit register
  split
  · exact .refl
  · split
    · exact .refl
    · by_cases hfull : s.entries.length ≥ G_ATEXIT_MAX
      · rw [if_pos hfull]
        exact .single (.written func)
      · rw [if_neg hfull]
        exact .tail (.single (.written func)) (.wrapped (Nat.not_le.mp hfull))

/-- The number bounds the calls that are still possible. -/
def Within (depth : ℕ) (s : Handlers) : Prop := s.Sound ∧ G_ATEXIT_MAX ≤ depth + s.calls.length

/-- When the process ends, all handlers that were there have been called. -/
def Outcome (s : Handlers) (r : Bool × Handlers) : Prop :=
  Reach s r.2 ∧ (r.1 = true → ∀ k < s.entries.length, r.2.Called k)

/-- The pass over the handlers leaves none that it was to call. -/
def Finalizes (depth : ℕ) (finalize : ℕ → Handlers → Option (Bool × Handlers)) : Prop :=
  ∀ dsoHandle s, Within depth s → ∃ r, finalize dsoHandle s = some r ∧ Outcome s r ∧
    ∀ k entry, s.entries[k]? = some entry → dsoHandle = 0 ∨ entry.dsoHandle = dsoHandle →
      r.2.Called k

theorem Within.reach {depth : ℕ} {s t : Handlers} (h : Within depth s) (hreach : Reach s t) :
    Within depth t := by
  obtain ⟨hsound, hdepth⟩ := h
  have hcalls := hreach.later.calls.length_le
  exact ⟨hreach.sound hsound, by omega⟩

theorem Outcome.of_reach {s t : Handlers} {r : Bool × Handlers} (hreach : Reach s t)
    (h : Outcome t r) : Outcome s r := by
  constructor
  · exact hreach.trans h.1
  · intro hended k hk
    exact h.2 hended k (hk.trans_le hreach.later.length_le)

theorem run_outcome {depth : ℕ} {finalize : ℕ → Handlers → Option (Bool × Handlers)}
    (hfinalize : Finalizes depth finalize) (body : Body) {s : Handlers} (hs : Within depth s) :
    ∃ r, run finalize body s = some r ∧ Outcome s r := by
  induction body generalizing s with
  | done => exact ⟨(false, s), rfl, .refl, fun h => Bool.noConfusion h⟩
  | cxaAtexit func arg dsoHandle next ih =>
    have hreach := cxaAtexit_reach func arg dsoHandle s
    obtain ⟨r, hr, houtcome⟩ := ih (s.cxaAtexit func arg dsoHandle).1 (hs.reach hreach)
    exact ⟨r, hr, houtcome.of_reach hreach⟩
  | atexit func next ih =>
    have hreach := atexit_reach func s
    obtain ⟨r, hr, houtcome⟩ := ih (s.atexit func).1 (hs.reach hreach)
    exact ⟨r, hr, houtcome.of_reach hreach⟩
  | finalize dsoHandle next ih =>
    obtain ⟨⟨ended, t⟩, hr, houtcome, _⟩ := hfinalize dsoHandle s hs
    cases ended with
    | true =>
      refine ⟨(true, t), ?_, houtcome⟩
      rw [run, hr]
    | false =>
      obtain ⟨r, hrun, hrest⟩ := ih (hs.reach houtcome.1)
      refine ⟨r, ?_, hrest.of_reach houtcome.1⟩
      rw [run, hr]
      exact hrun
  | exit =>
    obtain ⟨⟨ended, t⟩, hr, houtcome, hall⟩ := hfinalize 0 s hs
    refine ⟨(true, t), ?_, houtcome.1, fun _ k hk => ?_⟩
    · rw [run, hr]
      rfl
    · exact hall k _ (List.getElem?_eq_getElem hk) (Or.inl rfl)

/-- What is asked of a call of an entry that is open. -/
def Calls (depth : ℕ) (call : ℕ → Target → Handlers → Option (Bool × Handlers)) : Prop :=
  ∀ i entry s, Within depth s → s.entries[i]? = some entry → entry.called = false →
    ∃ r, call i entry.target s = some r ∧ Outcome s r ∧ r.2.Called i

theorem finalizeFrom_outcome {depth : ℕ} {call : ℕ → Target → Handlers → Option (Bool × Handlers)}
    (hcall : Calls depth call) (dsoHandle : ℕ) (i : ℕ) {s : Handlers} (hs : Within depth s) :
    ∃ r, finalizeFrom call dsoHandle i s = some r ∧ Outcome s r ∧
      ∀ k < i, ∀ entry, s.entries[k]? = some entry →
        dsoHandle = 0 ∨ entry.dsoHandle = dsoHandle → r.2.Called k := by
  induction i generalizing s with
  | zero =>
    exact ⟨(false, s), rfl, ⟨.refl, fun h => Bool.noConfusion h⟩,
      fun k hk => absurd hk k.not_lt_zero⟩
  | succ i ih =>
    cases hentry : s.entries[i]? with
    | none =>
      obtain ⟨r, hr, houtcome, hall⟩ := ih hs
      refine ⟨r, ?_, houtcome, fun k hk entry hk' => ?_⟩
      · rw [finalizeFrom, hentry]
        exact hr
      · rcases Nat.lt_succ_iff_lt_or_eq.mp hk with hlt | rfl
        · exact hall k hlt entry hk'
        · rw [hentry] at hk'
          cases hk'
    | some entry =>
      by_cases hdue : Due dsoHandle entry
      · obtain ⟨⟨ended, t⟩, hr, houtcome, hcalled⟩ := hcall i entry s hs hentry hdue.1
        cases ended with
        | true =>
          refine ⟨(true, t), ?_, houtcome, fun k hk e he _ => ?_⟩
          · rw [finalizeFrom, hentry]
            dsimp only
            rw [if_pos hdue, hr]
          · exact houtcome.2 rfl k (List.getElem?_eq_some_iff.mp he).1
        | false =>
          obtain ⟨r, hrest, hout, hall⟩ := ih (hs.reach houtcome.1)
          refine ⟨r, ?_, hout.of_reach houtcome.1, fun k hk e he hmatch => ?_⟩
          · rw [finalizeFrom, hentry]
            dsimp only
            rw [if_pos hdue, hr]
            exact hrest
          · rcases Nat.lt_succ_iff_lt_or_eq.mp hk with hlt | rfl
            · obtain ⟨e', he', _, hdso⟩ := houtcome.1.later.entries k e he
              exact hall k hlt e' he' (hdso ▸ hmatch)
            · exact hout.1.later.called k hcalled
      · obtain ⟨r, hr, houtcome, hall⟩ := ih hs
        refine ⟨r, ?_, houtcome, fun k hk e he hmatch => ?_⟩
        · rw [finalizeFrom, hentry]
          dsimp only
          rw [if_neg hdue]
          exact hr
        · rcases Nat.lt_succ_iff_lt_or_eq.mp hk with hlt | rfl
          · exact hall k hlt e he hmatch
          · obtain rfl := Option.some.inj (hentry.symm.trans he)
            have hcalled : entry.called = true := by
              by_contra hopen
              exact hdue ⟨eq_false_of_ne_true hopen, hmatch⟩
            exact houtcome.1.later.called k ⟨entry, hentry, hcalled⟩

theorem finalizes_of_calls {depth : ℕ} {call : ℕ → Target → Handlers → Option (Bool × Handlers)}
    (hcall : Calls depth call) :
    Finalizes depth fun dsoHandle t => finalizeFrom call dsoHandle t.entries.length t := by
  intro dsoHandle s hs
  obtain ⟨r, hr, houtcome, hall⟩ := finalizeFrom_outcome hcall dsoHandle s.entries.length hs
  refine ⟨r, hr, houtcome, fun k entry hentry hmatch => ?_⟩
  exact hall k (List.getElem?_eq_some_iff.mp hentry).1 entry hentry hmatch

/-- However handlers call each other, no call is nested deeper than there are calls left. -/
theorem calls_call (code : ℕ → Callee → Body) (depth : ℕ) : Calls depth (call code depth) := by
  induction depth with
  | zero =>
    intro i entry s hs hentry hopen
    have hlt := hs.1.calls_lt hentry hopen
    have hle := hs.2
    omega
  | succ depth ih =>
    intro i entry s hs hentry hopen
    have hchange : Reach s (s.begin i entry.target) := .single (.called hentry hopen)
    have hcalls : (s.begin i entry.target).calls.length = s.calls.length + 1 :=
      List.length_append
    have hbegin : Within depth (s.begin i entry.target) :=
      ⟨hchange.sound hs.1, by have hle := hs.2; omega⟩
    obtain ⟨r, hr, houtcome⟩ := run_outcome (finalizes_of_calls ih)
      (code s.calls.length (s.callee entry.target)) hbegin
    refine ⟨r, hr, houtcome.of_reach hchange, ?_⟩
    exact houtcome.1.later.called i ((called_begin hentry _ i).mpr (Or.inl rfl))

theorem cxaFinalize_finalizes (code : ℕ → Callee → Body) (depth : ℕ) :
    Finalizes depth (cxaFinalize code depth) := finalizes_of_calls (calls_call code depth)

end Outcomes

section Order

def isOpen (s : Handlers) (i : ℕ) : Bool :=
  (s.entries[i]?.map fun entry => !entry.called).getD false

/-- The open entries below a number, the last one first. -/
def openBelow (s : Handlers) : ℕ → List ℕ
  | 0 => []
  | k + 1 => if s.isOpen k then k :: s.openBelow k else s.openBelow k

theorem not_open_of_called {s : Handlers} {i : ℕ} (h : s.Called i) : s.isOpen i = false := by
  obtain ⟨entry, hentry, hcalled⟩ := h
  unfold isOpen
  rw [hentry, Option.map_some, Option.getD_some, hcalled]
  rfl

theorem openBelow_congr {s t : Handlers} {c : ℕ} (h : ∀ k < c, s.isOpen k = t.isOpen k) :
    s.openBelow c = t.openBelow c := by
  induction c with
  | zero => rfl
  | succ c ih =>
    unfold openBelow
    rw [h c (Nat.lt_succ_self c), ih fun k hk => h k (hk.trans (Nat.lt_succ_self c))]

/-- What is not open does not count. -/
theorem openBelow_of_closed {s : Handlers} {i c : ℕ} (hic : i ≤ c)
    (h : ∀ k, i ≤ k → k < c → s.isOpen k = false) : s.openBelow c = s.openBelow i := by
  induction c, hic using Nat.le_induction with
  | base => rfl
  | succ c hle ih =>
    rw [openBelow, h c hle (Nat.lt_succ_self c)]
    exact ih fun k hk hkc => h k hk (hkc.trans (Nat.lt_succ_self c))

/-- The calls after the first `n`, and the entries below `c` that are open still: they are
called in the order of the list `due`. -/
structure Ordered (c n : ℕ) (due : List ℕ) (s : Handlers) : Prop where
  entries : c ≤ s.entries.length
  calls : n ≤ s.calls.length
  order : ((s.calls.drop n).map Prod.fst).filter (· < c) ++ s.openBelow c = due

variable {c n : ℕ} {due : List ℕ}

theorem isOpen_added {s : Handlers} {entry : Entry} {k : ℕ} {wrappers : ℕ → ℕ} {wrapperCount : ℕ}
    (hk : k < s.entries.length) :
    isOpen ⟨s.entries ++ [entry], wrappers, wrapperCount, s.calls⟩ k = s.isOpen k := by
  unfold isOpen
  dsimp only
  rw [List.getElem?_append_left hk]

theorem Ordered.added {s : Handlers} (h : Ordered c n due s) (entry : Entry)
    (wrappers : ℕ → ℕ) (wrapperCount : ℕ) :
    Ordered c n due ⟨s.entries ++ [entry], wrappers, wrapperCount, s.calls⟩ := by
  obtain ⟨hentries, hcalls, horder⟩ := h
  refine ⟨?_, hcalls, ?_⟩
  · rw [List.length_append]
    omega
  · rw [← horder]
    congr 1
    exact openBelow_congr fun k hk => isOpen_added (hk.trans_le hentries)

theorem Ordered.cxaAtexit {s : Handlers} (h : Ordered c n due s) (func arg dsoHandle : ℕ) :
    Ordered c n due (s.cxaAtexit func arg dsoHandle).2 := by
  unfold Handlers.cxaAtexit register
  split
  · exact h
  · split
    · exact h
    · exact h.added _ _ _

theorem Ordered.atexit {s : Handlers} (h : Ordered c n due s) (func : ℕ) :
    Ordered c n due (s.atexit func).2 := by
  have hwritten (wrappers : ℕ → ℕ) : Ordered c n due { s with wrappers := wrappers } :=
    ⟨h.entries, h.calls, by rw [← h.order]; exact congrArg _ (openBelow_congr fun _ _ => rfl)⟩
  unfold Handlers.atexit register
  split
  · exact h
  · split
    · exact h
    · by_cases hfull : s.entries.length ≥ G_ATEXIT_MAX
      · rw [if_pos hfull]
        exact hwritten _
      · rw [if_neg hfull]
        exact h.added _ _ _

/-- The last of the open entries is called, or one that is not among them. -/
theorem Ordered.begin {s : Handlers} (h : Ordered c n due s) {i : ℕ} {entry : Entry}
    (hentry : s.entries[i]? = some entry) (hopen : entry.called = false)
    (hlast : ∀ k, i < k → k < c → s.Called k) : Ordered c n due (s.begin i entry.target) := by
  obtain ⟨hentries, hcalls, horder⟩ := h
  have hsame (k : ℕ) (hk : k ≠ i) : (s.begin i entry.target).isOpen k = s.isOpen k := by
    unfold isOpen
    rw [getElem?_begin]
    cases s.entries[k]? with
    | none => rfl
    | some e =>
      rw [Option.map_some, if_neg (Ne.symm hk)]
  have hdrop : (s.begin i entry.target).calls.drop n =
      s.calls.drop n ++ [(i, s.callee entry.target)] :=
    List.drop_append_of_le_length hcalls
  refine ⟨?_, hcalls.trans (List.prefix_append ..).length_le, ?_⟩
  · rw [length_begin]
    exact hentries
  rw [hdrop, List.map_append, List.filter_append, ← horder, List.append_assoc]
  congr 1
  by_cases hi : i < c
  · have hbegun : (s.begin i entry.target).openBelow c = (s.begin i entry.target).openBelow i := by
      apply openBelow_of_closed hi.le
      intro k hk hkc
      apply not_open_of_called
      rw [called_begin hentry]
      rcases hk.eq_or_lt with rfl | hlt
      · exact Or.inl rfl
      · exact Or.inr (hlast k hlt hkc)
    have hbefore : s.openBelow c = s.openBelow (i + 1) :=
      openBelow_of_closed hi fun k hk hkc => not_open_of_called (hlast k hk hkc)
    have hfirst : s.isOpen i = true := by
      unfold isOpen
      rw [hentry, Option.map_some, Option.getD_some, hopen]
      rfl
    rw [hbegun, hbefore, openBelow, if_pos hfirst,
      openBelow_congr fun k hk => hsame k (Nat.ne_of_lt hk)]
    simp [hi]
  · rw [openBelow_congr fun k hk => hsame k (by omega)]
    simp [hi]

theorem run_ordered {depth : ℕ} {finalize : ℕ → Handlers → Option (Bool × Handlers)}
    (hfinalize : Finalizes depth finalize)
    (hordered : ∀ s r, Within depth s → Ordered c n due s → finalize 0 s = some r →
      Ordered c n due r.2) {body : Body} (hbody : body.KeepsObjects) {s : Handlers}
    {r : Bool × Handlers} (hs : Within depth s) (h : Ordered c n due s)
    (hrun : run finalize body s = some r) : Ordered c n due r.2 := by
  induction body generalizing s with
  | done =>
    obtain rfl := Option.some.inj hrun
    exact h
  | cxaAtexit func arg dsoHandle next ih =>
    exact ih _ (hbody _) (hs.reach (cxaAtexit_reach func arg dsoHandle s))
      (h.cxaAtexit func arg dsoHandle) hrun
  | atexit func next ih =>
    exact ih _ (hbody _) (hs.reach (atexit_reach func s)) (h.atexit func) hrun
  | finalize dsoHandle next ih =>
    obtain ⟨rfl, hnext⟩ := hbody
    obtain ⟨⟨ended, t⟩, hr, houtcome, _⟩ := hfinalize 0 s hs
    rw [run, hr] at hrun
    cases ended with
    | true =>
      obtain rfl := Option.some.inj hrun
      exact hordered s _ hs h hr
    | false => exact ih hnext (hs.reach houtcome.1) (hordered s _ hs h hr) hrun
  | exit =>
    obtain ⟨u, hr, rfl⟩ := Option.map_eq_some_iff.mp hrun
    exact hordered s u hs h hr

theorem finalizeFrom_ordered {depth : ℕ}
    {call : ℕ → Target → Handlers → Option (Bool × Handlers)} (hcall : Calls depth call)
    (hordered : ∀ i entry s r, Within depth s → s.entries[i]? = some entry →
      entry.called = false → Ordered c n due (s.begin i entry.target) →
      call i entry.target s = some r → Ordered c n due r.2) (i : ℕ) {s : Handlers}
    {r : Bool × Handlers} (hs : Within depth s) (h : Ordered c n due s)
    (habove : ∀ k, i ≤ k → k < c → s.Called k) (hrun : finalizeFrom call 0 i s = some r) :
    Ordered c n due r.2 := by
  induction i generalizing s with
  | zero =>
    obtain rfl := Option.some.inj hrun
    exact h
  | succ i ih =>
    have hbelow {t : Handlers} (hi : i < c → t.Called i) (ht : ∀ k, s.Called k → t.Called k) (k : ℕ)
        (hk : i ≤ k) (hkc : k < c) : t.Called k := by
      rcases hk.eq_or_lt with rfl | hlt
      · exact hi hkc
      · exact ht k (habove k hlt hkc)
    cases hentry : s.entries[i]? with
    | none =>
      rw [finalizeFrom, hentry] at hrun
      have hout := List.getElem?_eq_none_iff.mp hentry
      have hentries := h.entries
      exact ih hs h (hbelow (fun hi => by omega) fun _ => id) hrun
    | some entry =>
      rw [finalizeFrom, hentry] at hrun
      dsimp only at hrun
      by_cases hdue : Due 0 entry
      · obtain ⟨⟨ended, t⟩, hr, houtcome, hcalled⟩ := hcall i entry s hs hentry hdue.1
        rw [if_pos hdue, hr] at hrun
        have ht := hordered i entry s _ hs hentry hdue.1
          (h.begin hentry hdue.1 fun k hk hkc => habove k hk hkc) hr
        cases ended with
        | true =>
          obtain rfl := Option.some.inj hrun
          exact ht
        | false =>
          exact ih (hs.reach houtcome.1) ht (hbelow (fun _ => hcalled) houtcome.1.later.called) hrun
      · rw [if_neg hdue] at hrun
        have hcalled : entry.called = true := by
          by_contra hopen
          exact hdue ⟨eq_false_of_ne_true hopen, Or.inl rfl⟩
        exact ih hs h (hbelow (fun _ => ⟨entry, hentry, hcalled⟩) fun _ => id) hrun

theorem finalize_ordered {depth : ℕ} {call : ℕ → Target → Handlers → Option (Bool × Handlers)}
    (hcall : Calls depth call)
    (hordered : ∀ i entry s r, Within depth s → s.entries[i]? = some entry →
      entry.called = false → Ordered c n due (s.begin i entry.target) →
      call i entry.target s = some r → Ordered c n due r.2) {s : Handlers}
    {r : Bool × Handlers} (hs : Within depth s) (h : Ordered c n due s)
    (hrun : finalizeFrom call 0 s.entries.length s = some r) : Ordered c n due r.2 := by
  apply finalizeFrom_ordered hcall hordered s.entries.length hs h _ hrun
  intro k hk hkc
  have hentries := h.entries
  omega

theorem call_ordered {code : ℕ → Callee → Body} (hcode : ∀ m callee, (code m callee).KeepsObjects)
    (depth : ℕ) (i : ℕ) (entry : Entry) (s : Handlers) (r : Bool × Handlers)
    (hs : Within depth s) (hentry : s.entries[i]? = some entry) (hopen : entry.called = false)
    (h : Ordered c n due (s.begin i entry.target))
    (hrun : call code depth i entry.target s = some r) : Ordered c n due r.2 := by
  induction depth generalizing i entry s r with
  | zero => cases hrun
  | succ depth ih =>
    have hcalls : (s.begin i entry.target).calls.length = s.calls.length + 1 :=
      List.length_append
    have hbegin : Within depth (s.begin i entry.target) :=
      ⟨(Change.called hentry hopen).sound hs.1, by have hle := hs.2; omega⟩
    apply run_ordered (finalizes_of_calls (calls_call code depth)) _ (hcode _ _) hbegin h hrun
    intro t u ht htordered hu
    exact finalize_ordered (calls_call code depth) ih ht htordered hu

end Order

theorem within_initial : Within 64 initial := ⟨initial_sound, le_rfl⟩

theorem exit_all (code : ℕ → Callee → Body) {s : Handlers} (hs : Within 64 s) :
    ∃ r, cxaFinalize code 64 0 s = some r ∧ Reach s r.2 ∧
      ∀ k < s.entries.length, r.2.Called k := by
  obtain ⟨r, hr, houtcome, hall⟩ := cxaFinalize_finalizes code 64 0 s hs
  refine ⟨r, hr, houtcome.1, fun k hk => ?_⟩
  exact hall k _ (List.getElem?_eq_getElem hk) (Or.inl rfl)

/-- Whatever the handlers do, be it that they register handlers or exit: the process ends,
no handler is called twice, and what is called is what was registered. When the program has
returned from `main`, every handler that is registered then is called. -/
theorem exit_once (code : ℕ → Callee → Body) (main : Body) :
    ∃ t, process code 64 main = some t ∧ (t.calls.map Prod.fst).Nodup ∧
      t.calls.length ≤ G_ATEXIT_MAX ∧ (∀ c ∈ t.calls, t.registered[c.1]? = some c.2) ∧
      ∀ s, run (cxaFinalize code 64) main initial = some (false, s) →
        s.registered <+: t.registered ∧
        (∀ k < s.registered.length, k ∈ t.calls.map Prod.fst) ∧
        ∀ func u, s.atexit func = (0, u) → u.registered = s.registered ++ [.plain func] := by
  obtain ⟨⟨ended, s⟩, hr, hreach, _⟩ :=
    run_outcome (cxaFinalize_finalizes code 64) main within_initial
  have hs : Within 64 s := within_initial.reach hreach
  unfold process
  rw [hr]
  cases ended with
  | true =>
    refine ⟨s, rfl, hs.1.nodup, hs.1.calls_le, fun c hc => hs.1.registered hc, fun u hu => ?_⟩
    cases hu
  | false =>
    obtain ⟨⟨e, t⟩, ht, hlast, hall⟩ := exit_all code hs
    have hsound := hlast.sound hs.1
    refine ⟨t, congrArg (Option.map Prod.snd) ht, hsound.nodup, hsound.calls_le,
      fun c hc => hsound.registered hc, fun u hu => ?_⟩
    obtain ⟨_, rfl⟩ := Prod.mk.inj (Option.some.inj hu)
    refine ⟨hlast.registered hs.1, fun k hk => ?_, fun func u => atexit_registered hs.1⟩
    unfold registered at hk
    rw [List.length_map] at hk
    exact (hsound.called_iff k).mpr (hall k hk)

/-- If no code unloads a shared object, `exit` calls the handlers that are registered then,
and were not called before, in the reverse order of their registration. It does so even if
handlers register others or exit themselves. -/
theorem exit_reverse (code : ℕ → Callee → Body)
    (hcode : ∀ m callee, (code m callee).KeepsObjects) (main : Body) (s : Handlers)
    (hs : run (cxaFinalize code 64) main initial = some (false, s)) :
    ∃ e t, cxaFinalize code 64 0 s = some (e, t) ∧ s.calls <+: t.calls ∧
      ((t.calls.drop s.calls.length).map Prod.fst).filter (· < s.entries.length) =
        s.openBelow s.entries.length := by
  obtain ⟨r, hr, hreach, _⟩ := run_outcome (cxaFinalize_finalizes code 64) main within_initial
  obtain rfl := Option.some.inj (hs.symm.trans hr)
  have hwithin : Within 64 s := within_initial.reach hreach
  obtain ⟨⟨e, t⟩, ht, hlast, hall⟩ := exit_all code hwithin
  have hstart : Ordered s.entries.length s.calls.length (s.openBelow s.entries.length) s := by
    refine ⟨le_rfl, le_rfl, ?_⟩
    rw [List.drop_length]
    rfl
  have hend := finalize_ordered (calls_call code 64) (call_ordered hcode 64) hwithin hstart ht
  have hclosed : t.openBelow s.entries.length = [] :=
    openBelow_of_closed (Nat.zero_le _) fun k _ hk => not_open_of_called (hall k hk)
  refine ⟨e, t, ht, hlast.later.calls, ?_⟩
  rw [← hend.order, hclosed, List.append_nil]

/-- The last handler registers another one and exits. -/
def exiting : ℕ → Callee → Body
  | 0, _ => .atexit 3 fun _ => .exit
  | _, _ => .done

theorem exit_reverse_exiting : ∃ e t,
    cxaFinalize exiting 64 0 ((initial.atexit 1).2.atexit 2).2 = some (e, t) ∧
      ((initial.atexit 1).2.atexit 2).2.calls <+: t.calls ∧
      ((t.calls.drop 0).map Prod.fst).filter (· < 2) = [1, 0] := by
  apply exit_reverse exiting _ (.atexit 1 fun _ => .atexit 2 fun _ => .done)
  · rfl
  · rintro (_ | m) callee
    · exact fun _ => trivial
    · trivial

end Handlers

end Heartix.Process
