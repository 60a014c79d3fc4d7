import Heartix.Stdio.Program

/-!
What a program has written when it exits. `exit` ends in `__fini_stdio`, and
nothing else flushes. What a buffer still holds then arrives exactly if the list
of open files leads to the stream, the stream is none of the standard ones, its
lock is free and it is open for writing.
-/

namespace Heartix.Stdio

open Relation Runs PartialTransfer

variable {W : Type}

instance (s : Libc W) : Decidable s.NoRefusal :=
  decidable_of_iff (∀ p ∈ s.opened, ∀ f ∈ s.files p, Accepted f.writes) Iff.rfl

/-- What was written to the buffered streams that are open in `s` has been
accepted in `t`. -/
def Program.Delivered (s : Program W) (t : Libc W) : Prop :=
  ∀ p ∈ s.libc.opened, ∀ f, s.libc.files p = some f → ¬ f.Unbuffered →
    ∃ g, t.files p = some g ∧ (s.written p).Sublist g.accepted

/-- Every open buffered stream that has not got everything accepted is listed,
may be closed by the finaliser and is open for writing. -/
def Program.ExitsCleanly (K : Kernel W) (s : Program W) : Prop :=
  ∀ p ∈ s.libc.opened, ∀ f, s.libc.files p = some f → ¬ f.Unbuffered →
    ¬ (s.written p).Sublist f.accepted →
    s.libc.Listed p ∧ f.Finalisable K ∧ f.mode.write = true

theorem initStream_holding (K : Kernel W) {file buf : ℕ} {fd : ℤ} {mode : String}
    {bufferMode : BufferMode} {s t : Libc W} (hfile : file ≠ 0)
    (hmode : parseModeFlags mode ≠ none)
    (h : Program.Holding ⟨s, fun _ => []⟩)
    (hinit : initStream K file fd mode buf bufferMode s = some t) :
    Program.Holding ⟨t, fun _ => []⟩ := by
  obtain ⟨⟨r, u⟩, hopen, hinit⟩ := Option.bind_eq_some_iff.mp hinit
  obtain ⟨⟨r', v⟩, hset, hinit⟩ := Option.bind_eq_some_iff.mp hinit
  obtain rfl := Option.some.inj hinit
  rcases fdopenStatic_opens K hopen with ⟨_, _, hnone⟩ | ⟨_, f, hf, hopens⟩
  · exact absurd hnone hmode
  · rw [Libc.put_self] at hf
    obtain rfl := Option.some.inj hf
    have hsame : Function.update (fun _ => []) file [] = (fun _ : ℕ => ([] : List UInt8)) :=
      Function.update_eq_self file _
    have hu : Program.Holding ⟨u, fun _ => []⟩ := by
      have hopened := h.opens hfile hopens rfl rfl rfl
        (fun q hq => Libc.put_of_ne s hq _) (fun q hq _ => hq)
      rwa [hsame] at hopened
    obtain ⟨fd', lock, flags, hbodies, hinsert⟩ := hopens
    have hmem : file ∈ u.opened := by
      rw [hinsert]
      exact Finset.mem_insert_self file _
    obtain ⟨_, g, hg, hholds⟩ := hu file hmem
    have hunlinked := hbodies file
    rw [Libc.put_self, hg, Option.map_some, Option.map_some] at hunlinked
    have huntouched : g.Untouched := by
      rw [FILE.eq_of_unlinked (Option.some.inj hunlinked)]
      exact ⟨rfl, rfl, rfl, rfl⟩
    have hgu : u.files file = some g := hg
    unfold Libc.onStream at hset
    simp only [hgu] at hset
    obtain ⟨-, rfl⟩ := Prod.mk.inj (Option.some.inj hset)
    refine hu.put rfl rfl (fun _ _ => rfl) fun _ => ?_
    refine hholds.setvbuf K huntouched u.world _ bufferMode _ fun _ address memory heq => ?_
    obtain ⟨-, rfl⟩ := Prod.mk.inj (Option.some.inj heq)
    apply List.ne_nil_of_length_pos
    rw [List.length_replicate]
    decide

theorem initStdio_holding (K : Kernel W) {world : W} {start : Libc W}
    (hinit : initStdio K world = some start) : Program.Holding ⟨start, fun _ => []⟩ := by
  have hnone : Program.Holding ⟨noStreams (K.mutexInitialize world).2, fun _ => []⟩ := by
    intro p hp
    simp [noStreams] at hp
  unfold initStdio at hinit
  dsimp only at hinit
  obtain ⟨s₁, h₁, hinit⟩ := Option.bind_eq_some_iff.mp hinit
  obtain ⟨s₂, h₂, h₃⟩ := Option.bind_eq_some_iff.mp hinit
  have hs₁ := initStream_holding K (by decide) (by decide) hnone h₁
  have hs₂ := initStream_holding K (by decide) (by decide) hs₁ h₂
  exact initStream_holding K (by decide) (by decide) hs₂ h₃

/-- Run lemma. -/
theorem Program.Holding.run (K : Kernel W) {actions : List Action} {s t : Program W}
    (h : s.Holding) (hproper : Guarded (Action.step K) (fun s a => a.Proper s) actions s)
    (hrefuse : Along (Action.step K) (fun s => s.libc.NoRefusal) actions s)
    (hrun : actions.foldlM (Action.step K) s = some t) : t.Holding := by
  induction actions generalizing s with
  | nil =>
    obtain rfl := Option.some.inj hrun
    exact h
  | cons action actions ih =>
    obtain ⟨hfirst, hrest⟩ := hproper
    obtain ⟨_, u, hu, hafter⟩ := hrefuse
    rw [List.foldlM_cons, hu] at hrun
    have hstep := Action.step_holding K h hfirst hu hafter.head
    exact ih hstep (hrest u hu) hafter hrun

/-- A program that starts with the standard streams, uses the library as it
likes, is refused no write and exits, has everything it wrote delivered exactly
if it exits cleanly. -/
theorem exit_delivers_iff (K : Kernel W) (world : W) (start : Libc W)
    (hinit : initStdio K world = some start) (actions : List Action)
    (hproper : Guarded (Action.step K) (fun s a => a.Proper s) actions
      ⟨start, fun _ => []⟩)
    (hrefuse : Along (Action.step K) (fun s => s.libc.NoRefusal) actions
      ⟨start, fun _ => []⟩)
    (s : Program W) (hrun : actions.foldlM (Action.step K) ⟨start, fun _ => []⟩ = some s)
    (fuel : ℕ) (visited : List ℕ) (t : Libc W)
    (hexit : finiStdio K fuel s.libc = some (visited, t))
    (hfinal : ∀ p ∈ s.libc.opened, ∀ g, t.files p = some g → Accepted g.writes) :
    s.Delivered t ↔ s.ExitsCleanly K := by
  have hholding := (initStdio_holding K hinit).run K hproper hrefuse hrun
  constructor
  · intro hdelivered p hp f hf hbuffered hmissing
    obtain ⟨g, hg, hchain, hkeep, _⟩ := finiStdioList_files K hexit hf
    obtain ⟨g', hg', hsub⟩ := hdelivered p hp f hf hbuffered
    obtain rfl := Option.some.inj (hg.symm.trans hg')
    refine ⟨?_, ?_, ?_⟩
    · by_contra hnot
      have hvisited : p ∉ visited := fun hv => hnot ((finiStdioList_visits_iff K hexit p).mp hv)
      rw [hkeep hvisited] at hsub
      exact hmissing hsub
    · by_contra hnot
      rcases hchain.cases_head with rfl | ⟨_, hstep, _⟩
      · exact hmissing hsub
      · exact hnot hstep.1
    · by_contra hnot
      obtain ⟨_, hwrites⟩ := closings_readonly hchain (by simpa using hnot)
      unfold FILE.accepted at hsub hmissing
      rw [hwrites] at hsub
      exact hmissing hsub
  · intro hclean p hp f hf hbuffered
    obtain ⟨g, hg, hchain, _, htrans⟩ := finiStdioList_files K hexit hf
    refine ⟨g, hg, ?_⟩
    by_cases hsub : (s.written p).Sublist f.accepted
    · obtain ⟨calls, hcalls⟩ := closings_writes hchain
      rw [FILE.accepted_of_writes hcalls]
      exact hsub.trans (List.sublist_append_left _ _)
    · obtain ⟨hlisted, hfinalisable, hmode⟩ := hclean p hp f hf hbuffered hsub
      have hvisited := (finiStdioList_visits_iff K hexit p).mpr hlisted
      obtain ⟨_, f', hf', hholds⟩ := hholding p hp
      obtain rfl := Option.some.inj (hf.symm.trans hf')
      cases hholds with
      | buffered _ hlive hwritten =>
        exact hwritten.trans (closings_deliver (htrans hvisited hfinalisable) hlive hmode
          (hfinal p hp g hg))
      | unbuffered _ hunbuffered => exact absurd hunbuffered hbuffered

/-- A line written to the standard output is delivered before `exit`. -/
theorem exit_delivers_iff_line :
    ∃ start s visited t, initStdio scriptedKernel [] = some start ∧
      Action.step scriptedKernel ⟨start, fun _ => []⟩ (.stream stdoutFile (.fputc 10)) = some s ∧
      finiStdio scriptedKernel 4 s.libc = some (visited, t) ∧
      (s.Delivered t ↔ s.ExitsCleanly scriptedKernel) := by
  have hfacts : ((initStdio scriptedKernel []).bind fun start =>
      (Action.step scriptedKernel ⟨start, fun _ => []⟩ (.stream stdoutFile (.fputc 10))).bind
        fun s => (finiStdio scriptedKernel 4 s.libc).map fun (_, t) =>
          (decide (stdoutFile ∈ start.opened), decide start.NoRefusal,
            decide s.libc.NoRefusal,
            decide (∀ p ∈ s.libc.opened, ∀ g ∈ t.files p, Accepted g.writes))) =
      some (true, true, true, true) := by
    decide +kernel
  obtain ⟨start, hinit, hfacts⟩ := Option.bind_eq_some_iff.mp hfacts
  obtain ⟨s, hstep, hfacts⟩ := Option.bind_eq_some_iff.mp hfacts
  obtain ⟨⟨visited, t⟩, hexit, hfacts⟩ := Option.map_eq_some_iff.mp hfacts
  simp only [Prod.mk.injEq, decide_eq_true_eq] at hfacts
  obtain ⟨hopen, hstart, hlast, hfinal⟩ := hfacts
  refine ⟨start, s, visited, t, hinit, hstep, hexit, ?_⟩
  refine exit_delivers_iff scriptedKernel [] start hinit [.stream stdoutFile (.fputc 10)]
    ⟨hopen, fun _ _ => trivial⟩ ⟨hstart, s, hstep, hlast⟩ s ?_ 4 visited t hexit hfinal
  rw [List.foldlM_cons, hstep]
  rfl

/-- One byte written to the standard output is lost at exit. -/
theorem exit_loses_stdout :
    ∃ start s visited t, initStdio scriptedKernel [] = some start ∧
      (Action.stream stdoutFile (.fputc 65)).Proper ⟨start, fun _ => []⟩ ∧
      Action.step scriptedKernel ⟨start, fun _ => []⟩ (.stream stdoutFile (.fputc 65)) = some s ∧
      finiStdio scriptedKernel 4 s.libc = some (visited, t) ∧
      (∀ p ∈ s.libc.opened, ∀ g, t.files p = some g → Accepted g.writes) ∧
      ¬ s.Delivered t := by
  have hfacts : ((initStdio scriptedKernel []).bind fun start =>
      (Action.step scriptedKernel ⟨start, fun _ => []⟩ (.stream stdoutFile (.fputc 65))).bind
        fun s => (finiStdio scriptedKernel 4 s.libc).map fun (_, t) =>
          (decide (stdoutFile ∈ start.opened),
            decide (∀ p ∈ s.libc.opened, ∀ g ∈ t.files p, Accepted g.writes),
            decide (stdoutFile ∈ s.libc.opened),
            decide ((s.libc.files stdoutFile).map (fun f => decide f.Unbuffered) = some false),
            decide (s.written stdoutFile = [65]),
            decide ((t.files stdoutFile).map FILE.accepted = some []))) =
      some (true, true, true, true, true, true) := by
    decide +kernel
  obtain ⟨start, hinit, hfacts⟩ := Option.bind_eq_some_iff.mp hfacts
  obtain ⟨s, hstep, hfacts⟩ := Option.bind_eq_some_iff.mp hfacts
  obtain ⟨⟨visited, t⟩, hexit, hfacts⟩ := Option.map_eq_some_iff.mp hfacts
  simp only [Prod.mk.injEq, decide_eq_true_eq] at hfacts
  obtain ⟨hopen, hfinal, hopened, hbuffered, hwritten, haccepted⟩ := hfacts
  obtain ⟨f, hf, hbuffered⟩ := Option.map_eq_some_iff.mp hbuffered
  obtain ⟨g, hg, haccepted⟩ := Option.map_eq_some_iff.mp haccepted
  refine ⟨start, s, visited, t, hinit, hopen, hstep, hexit, hfinal, ?_⟩
  intro hdelivered
  obtain ⟨g', hg', hsub⟩ := hdelivered stdoutFile hopened f hf (of_decide_eq_false hbuffered)
  obtain rfl := Option.some.inj (hg.symm.trans hg')
  rw [hwritten, haccepted] at hsub
  cases hsub

end Heartix.Stdio
