import Mathlib.Data.List.Basic

/-!
Runs of a partial step function. A step that is undefined ends the run, so a
property that holds along a run also says that every step is defined. The two
rules at the end reduce a property of whole runs to one step: the second one
also shows that the guard of the first cannot be weakened. Runs that answer are
compared with those of an abstract machine by a simulation.
-/

namespace Heartix.Runs

variable {σ ι : Type*}

/-- `P` holds now, every step of the run is defined, and `P` holds after each. -/
def Along (step : σ → ι → Option σ) (P : σ → Prop) : List ι → σ → Prop
  | [], s => P s
  | op :: ops, s => P s ∧ ∃ t, step s op = some t ∧ Along step P ops t

/-- Every step of the run is taken from a state that meets the guard. -/
def Guarded (step : σ → ι → Option σ) (G : σ → ι → Prop) : List ι → σ → Prop
  | [], _ => True
  | op :: ops, s => G s op ∧ ∀ t, step s op = some t → Guarded step G ops t

variable {step : σ → ι → Option σ} {P Q : σ → Prop} {G : σ → ι → Prop}

theorem Along.head {ops : List ι} {s : σ} (h : Along step P ops s) : P s := by
  cases ops with
  | nil => exact h
  | cons op ops => exact h.1

theorem Along.mono (hPQ : ∀ s, P s → Q s) {ops : List ι} {s : σ}
    (h : Along step P ops s) : Along step Q ops s := by
  induction ops generalizing s with
  | nil => exact hPQ s h
  | cons op ops ih =>
    obtain ⟨hs, t, ht, hrest⟩ := h
    exact ⟨hPQ s hs, t, ht, ih hrest⟩

/-- The last state of a run is one of the states the property holds in. -/
theorem Along.foldlM {ops : List ι} {s : σ} (h : Along step P ops s) :
    ∃ t, ops.foldlM step s = some t ∧ P t := by
  induction ops generalizing s with
  | nil => exact ⟨s, rfl, h⟩
  | cons op ops ih =>
    obtain ⟨_, t, ht, hrest⟩ := h
    obtain ⟨u, hu, hPu⟩ := ih hrest
    exact ⟨u, by simpa [List.foldlM_cons, ht] using hu, hPu⟩

/-- A run with a step that is undefined wherever it is taken. -/
theorem foldlM_eq_none (hstep : ∀ s op t, P s → step s op = some t → P t) {ops : List ι} {op : ι}
    (hop : op ∈ ops) (hbad : ∀ s, P s → step s op = none) {s : σ} (hs : P s) :
    ops.foldlM step s = none := by
  induction ops generalizing s with
  | nil => cases hop
  | cons o ops ih =>
    rw [List.foldlM_cons]
    rcases List.mem_cons.mp hop with rfl | hrest
    · rw [hbad s hs]
      rfl
    · cases ht : step s o with
      | none => rfl
      | some t => exact ih hrest (hstep s o t hs ht)

theorem Guarded.and {H : σ → ι → Prop} {ops : List ι} {s : σ} (hG : Guarded step G ops s)
    (hH : Guarded step H ops s) : Guarded step (fun s op => G s op ∧ H s op) ops s := by
  induction ops generalizing s with
  | nil => trivial
  | cons op ops ih => exact ⟨⟨hG.1, hH.1⟩, fun t ht => ih (hG.2 t ht) (hH.2 t ht)⟩

/-- Invariant rule: the guard lets each step through and keeps the invariant. -/
theorem Guarded.along (hstep : ∀ s op, P s → G s op → ∃ t, step s op = some t ∧ P t)
    {ops : List ι} {s : σ} (hs : P s) (h : Guarded step G ops s) :
    Along step P ops s := by
  induction ops generalizing s with
  | nil => exact hs
  | cons op ops ih =>
    obtain ⟨hguard, hrest⟩ := h
    obtain ⟨t, ht, hPt⟩ := hstep s op hs hguard
    exact ⟨hs, t, ht, ih hPt (hrest t ht)⟩

/-- First-failure rule: where a step outside the guard is undefined or leaves
the property, the property holds along exactly the guarded runs. What `A` says
is promised of every step. -/
theorem along_iff_guarded_of {I : σ → Prop} {A : σ → ι → Prop} (hP : ∀ s, I s → P s)
    (hstep : ∀ s op, I s → A s op → G s op → ∃ t, step s op = some t ∧ I t)
    (hbad : ∀ s op, I s → A s op → ¬ G s op → ∀ t, step s op = some t → ¬ P t)
    (ops : List ι) {s : σ} (hs : I s) (hops : Guarded step A ops s) :
    Along step P ops s ↔ Guarded step G ops s := by
  induction ops generalizing s with
  | nil => exact iff_of_true (hP s hs) trivial
  | cons op ops ih =>
    obtain ⟨hop, hrest⟩ := hops
    constructor
    · rintro ⟨_, t, ht, halong⟩
      have hguard : G s op := by
        by_contra hnot
        exact hbad s op hs hop hnot t ht halong.head
      refine ⟨hguard, fun u hu => ?_⟩
      obtain ⟨v, hv, hInv⟩ := hstep s op hs hop hguard
      obtain rfl := Option.some.inj (hu.symm.trans ht)
      obtain rfl := Option.some.inj (hv.symm.trans ht)
      exact (ih hInv (hrest v hv)).mp halong
    · rintro ⟨hguard, hguarded⟩
      obtain ⟨v, hv, hInv⟩ := hstep s op hs hop hguard
      exact ⟨hP s hs, v, hv, (ih hInv (hrest v hv)).mpr (hguarded v hv)⟩

theorem Guarded.trivial (ops : List ι) (s : σ) : Guarded step (fun _ _ => True) ops s := by
  induction ops generalizing s with
  | nil => exact True.intro
  | cons op ops ih => exact ⟨True.intro, fun t _ => ih t⟩

/-- A guard that does not look at the state. -/
theorem Guarded.of_forall {A : ι → Prop} {ops : List ι} (h : ∀ op ∈ ops, A op) (s : σ) :
    Guarded step (fun _ op => A op) ops s := by
  induction ops generalizing s with
  | nil => exact True.intro
  | cons op ops ih =>
    exact ⟨h op List.mem_cons_self, fun t _ => ih (fun o ho => h o (List.mem_cons_of_mem op ho)) t⟩

theorem along_iff_guarded {I : σ → Prop} (hP : ∀ s, I s → P s)
    (hstep : ∀ s op, I s → G s op → ∃ t, step s op = some t ∧ I t)
    (hbad : ∀ s op, I s → ¬ G s op → ∀ t, step s op = some t → ¬ P t)
    (ops : List ι) {s : σ} (hs : I s) :
    Along step P ops s ↔ Guarded step G ops s :=
  along_iff_guarded_of hP (fun s op h _ => hstep s op h) (fun s op h _ => hbad s op h)
    ops hs (Guarded.trivial ops s)

section Simulation

variable {τ ω : Type*} {step : σ → ι → Option (ω × σ)} {spec : σ → ι → τ → ω × τ}
  {agree : ι → ω → ω → Prop} {E : σ → τ → Prop} {G : σ → ι → Prop}

/-- Every step of the run is defined and its answer agrees with the one of the
abstract machine, and `E` holds of the last two states. Where the abstract
machine leaves a choice, the state of the run makes it. -/
def Follows (step : σ → ι → Option (ω × σ)) (spec : σ → ι → τ → ω × τ)
    (agree : ι → ω → ω → Prop) (E : σ → τ → Prop) : List ι → σ → τ → Prop
  | [], s, c => E s c
  | op :: ops, s, c => ∃ a t, step s op = some (a, t) ∧ agree op a (spec s op c).1 ∧
      Follows step spec agree E ops t (spec s op c).2

/-- Simulation rule: guarded steps keep the relation and agree in their answers. -/
theorem Guarded.follows {R : σ → τ → Prop}
    (hstep : ∀ s op c, R s c → G s op → ∃ a t, step s op = some (a, t) ∧
      agree op a (spec s op c).1 ∧ R t (spec s op c).2)
    (hend : ∀ s c, R s c → E s c) {ops : List ι} {s : σ} {c : τ} (hs : R s c)
    (h : Guarded (fun s op => (step s op).map Prod.snd) G ops s) :
    Follows step spec agree E ops s c := by
  induction ops generalizing s c with
  | nil => exact hend s c hs
  | cons op ops ih =>
    obtain ⟨hguard, hrest⟩ := h
    obtain ⟨a, t, heq, hagree, ht⟩ := hstep s op c hs hguard
    exact ⟨a, t, heq, hagree, ih ht (hrest t (by simp [heq]))⟩

/-- The answers of a run. -/
def answers (step : σ → ι → Option (ω × σ)) : List ι → σ → Option (List ω)
  | [], _ => some []
  | op :: ops, s =>
      match step s op with
      | none => none
      | some (a, t) => (answers step ops t).map (a :: ·)

theorem answers_cons_some {op : ι} {ops : List ι} {s t : σ} {a : ω} (h : step s op = some (a, t)) :
    answers step (op :: ops) s = (answers step ops t).map (a :: ·) := by
  rw [answers, h]

theorem answers_cons_none {op : ι} {ops : List ι} {s : σ} (h : step s op = none) :
    answers step (op :: ops) s = none := by
  rw [answers, h]

/-- The answers of an abstract machine that leaves no choice. -/
def predictions (spec : ι → τ → ω × τ) : List ι → τ → List ω
  | [], _ => []
  | op :: ops, c => (spec op c).1 :: predictions spec ops (spec op c).2

theorem Follows.answers_eq {spec : ι → τ → ω × τ} {ops : List ι} {s : σ} {c : τ}
    (h : Follows step (fun _ => spec) (fun _ a b => a = b) E ops s c) :
    answers step ops s = some (predictions spec ops c) := by
  induction ops generalizing s c with
  | nil => rfl
  | cons op ops ih =>
    obtain ⟨a, t, heq, rfl, hrest⟩ := h
    unfold answers predictions
    rw [heq]
    dsimp only
    rw [ih hrest]
    rfl

end Simulation

section Throughout

variable {ω : Type*} {step : σ → ι → Option (ω × σ)} {P : σ → ι → ω → σ → Prop}
  {E F : σ → Prop} {G : σ → ι → Prop}

/-- `P` holds of each step of the run, and `E` of its last state. An undefined
step ends the run, and nothing is said of it. -/
def Throughout (step : σ → ι → Option (ω × σ)) (P : σ → ι → ω → σ → Prop) (E : σ → Prop) :
    List ι → σ → Prop
  | [], s => E s
  | op :: ops, s => ∀ a t, step s op = some (a, t) → P s op a t ∧ Throughout step P E ops t

/-- Invariant rule: what holds of the steps, of those that keep `I` implies `P`. -/
theorem Throughout.mono {I : σ → Prop} {H : σ → ι → ω → σ → Prop}
    (hstep : ∀ s op a t, I s → step s op = some (a, t) → H s op a t → P s op a t ∧ I t)
    (hend : ∀ s, I s → F s → E s) {ops : List ι} {s : σ} (hs : I s)
    (h : Throughout step H F ops s) : Throughout step P E ops s := by
  induction ops generalizing s with
  | nil => exact hend s hs h
  | cons op ops ih =>
    intro a t heq
    obtain ⟨hH, hrest⟩ := h a t heq
    obtain ⟨hP, ht⟩ := hstep s op a t hs heq hH
    exact ⟨hP, ih ht hrest⟩

/-- First-failure rule for what holds of the steps. -/
theorem throughout_iff {I : σ → Prop}
    (hgood : ∀ s op a t, I s → step s op = some (a, t) → G s op → P s op a t ∧ I t)
    (hbad : ∀ s op a t, I s → step s op = some (a, t) → ¬ G s op → ¬ P s op a t)
    (hend : ∀ s, I s → (E s ↔ F s)) (ops : List ι) {s : σ} (hs : I s) :
    Throughout step P E ops s ↔ Throughout step (fun s op _ _ => G s op) F ops s := by
  constructor
  · refine Throughout.mono (fun s op a t hI heq hP => ?_) (fun s hI => (hend s hI).mp) hs
    have hguard : G s op := by
      by_contra hnot
      exact hbad s op a t hI heq hnot hP
    exact ⟨hguard, (hgood s op a t hI heq hguard).2⟩
  · exact Throughout.mono (fun s op a t hI heq hguard => hgood s op a t hI heq hguard)
      (fun s hI => (hend s hI).mpr) hs

theorem throughout_of_forall (hP : ∀ s op a t, P s op a t) (hE : ∀ s, E s) (ops : List ι) (s : σ) :
    Throughout step P E ops s := by
  induction ops generalizing s with
  | nil => exact hE s
  | cons op ops ih => exact fun a t _ => ⟨hP s op a t, ih t⟩

/-- The last state of a run that is defined. -/
theorem Throughout.last {ops : List ι} {s t : σ} (h : Throughout step P E ops s)
    (hrun : ops.foldlM (fun s op => (step s op).map Prod.snd) s = some t) : E t := by
  induction ops generalizing s with
  | nil =>
    obtain rfl := Option.some.inj hrun
    exact h
  | cons op ops ih =>
    rw [List.foldlM_cons] at hrun
    obtain ⟨u, hu, hrest⟩ := Option.bind_eq_some_iff.mp hrun
    obtain ⟨⟨a, u'⟩, hstep, rfl⟩ := Option.map_eq_some_iff.mp hu
    exact ih (h a u' hstep).2 hrest

theorem throughout_cons_none {op : ι} {ops : List ι} {s : σ} (h : step s op = none) :
    Throughout step P E (op :: ops) s := by
  intro a t heq
  rw [h] at heq
  cases heq

theorem throughout_cons_some {op : ι} {ops : List ι} {s t : σ} {a : ω}
    (h : step s op = some (a, t)) :
    Throughout step P E (op :: ops) s ↔ P s op a t ∧ Throughout step P E ops t := by
  constructor
  · intro hrun
    exact hrun a t h
  · intro hrun a' t' heq
    obtain ⟨rfl, rfl⟩ := Prod.mk.inj (Option.some.inj (h.symm.trans heq))
    exact hrun

/-- What holds throughout a run can be computed. -/
def Throughout.decide [∀ s op a t, Decidable (P s op a t)] [∀ s, Decidable (E s)] :
    (ops : List ι) → (s : σ) → Decidable (Throughout step P E ops s)
  | [], s => inferInstanceAs (Decidable (E s))
  | op :: ops, s =>
      match h : step s op with
      | none => isTrue (throughout_cons_none h)
      | some (a, t) =>
          have := Throughout.decide ops t
          decidable_of_iff (P s op a t ∧ Throughout step P E ops t) (throughout_cons_some h).symm

instance [∀ s op a t, Decidable (P s op a t)] [∀ s, Decidable (E s)] (ops : List ι) (s : σ) :
    Decidable (Throughout step P E ops s) := Throughout.decide ops s

end Throughout

end Heartix.Runs
