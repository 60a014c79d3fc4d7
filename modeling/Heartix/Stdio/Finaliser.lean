import Heartix.Stdio.Fclose
import Mathlib.Logic.Relation

/-!
What `__fini_stdio` does to the streams, whatever has become of the list. It
visits exactly the streams that can be reached from the head of the list in the
state it starts in, although it clears the links behind it, and it closes those
that are no standard streams and whose lock is free.
-/

namespace Heartix.Stdio

open Relation PartialTransfer

/-- A path leaves its first point for good at some time. -/
theorem reflTransGen_avoiding {α : Type*} {r : α → α → Prop} {a b : α}
    (h : ReflTransGen r a b) :
    a = b ∨ ∃ c, r a c ∧ ReflTransGen (fun x y => x ≠ a ∧ r x y) c b := by
  induction h with
  | refl => exact Or.inl rfl
  | @tail c d _ hcd ih =>
    right
    by_cases hca : c = a
    · exact ⟨d, hca ▸ hcd, .refl⟩
    · obtain ⟨e, hae, hec⟩ := ih.resolve_left (Ne.symm hca)
      exact ⟨e, hae, hec.tail ⟨hca, hcd⟩⟩

variable {W : Type}

/-- The way the finaliser goes from a stream to the next one. -/
def Libc.Links (s : Libc W) (p q : ℕ) : Prop := p ≠ 0 ∧ ∃ f, s.files p = some f ∧ f.next = q

/-- The stream can be reached from the head of the list. -/
def Libc.Listed (s : Libc W) (p : ℕ) : Prop :=
  p ≠ 0 ∧ ReflTransGen s.Links s.openFileList p

/-- The finaliser closes the stream when it gets there. -/
def FILE.Finalisable (K : Kernel W) (f : FILE) : Prop :=
  f.fileDescriptor > 2 ∧ K.mutexTryAcquire f.lock = true

/-- The finaliser turns one stream into the other. -/
def Closing (K : Kernel W) (f g : FILE) : Prop :=
  f.Finalisable K ∧ ∃ w, (closeStream K ⟨f, w⟩).2.stream = g

/-- Whether it succeeds or not, closing changes the structure of the stream and
the world only. -/
theorem fcloseStaticUnlocked_eq (K : Kernel W) {s t : Libc W} {p : ℕ} {f : FILE} {r : ℤ}
    (hf : s.files p = some f) (h : fcloseStaticUnlocked K p s = some (r, t)) :
    t.files = (s.put p (some (closeStream K ⟨f, s.world⟩).2.stream)).files ∧
      t.world = (closeStream K ⟨f, s.world⟩).2.world := by
  unfold fcloseStaticUnlocked Libc.onStream at h
  rcases closeStream_cases K ⟨f, s.world⟩ with
    ⟨_, u, heq, _⟩ | ⟨_, u, heq, hprev, hnext⟩
  · obtain ⟨-, rfl⟩ := by simpa [hf, heq] using h
    rw [heq]
    exact ⟨rfl, rfl⟩
  · have hremove := openFileListRemove_cleared (p := p) (f := u.stream)
      (s := { s.put p (some u.stream) with world := u.world }) (Libc.put_self s p _) hprev hnext
    obtain ⟨-, rfl⟩ := by simpa [hf, heq, hremove] using h
    rw [heq]
    dsimp only
    split
    · exact ⟨rfl, rfl⟩
    · exact ⟨rfl, rfl⟩

/-- A round of the finaliser changes the stream it is at only. -/
theorem finiStream_files (K : Kernel W) {s t : Libc W} {p : ℕ} {f : FILE}
    (hf : s.files p = some f) (h : finiStream K p f s = some t) :
    (∀ q, q ≠ p → t.files q = s.files q) ∧ ∃ g, t.files p = some g ∧
      (f.Finalisable K ∧ Closing K f g ∨ ¬ f.Finalisable K ∧ g = f) := by
  unfold finiStream at h
  by_cases hfinal : f.fileDescriptor > 2 ∧ K.mutexTryAcquire f.lock = true
  · rw [if_pos hfinal] at h
    obtain ⟨⟨r, u⟩, hclose, rfl⟩ := Option.map_eq_some_iff.mp h
    have hfiles := (fcloseStaticUnlocked_eq K hf hclose).1
    refine ⟨fun q hq => ?_, _, ?_, Or.inl ⟨hfinal, hfinal, s.world, rfl⟩⟩
    · rw [hfiles]
      exact Libc.put_of_ne s hq _
    · rw [hfiles]
      exact Libc.put_self s p _
  · rw [if_neg hfinal] at h
    obtain rfl := Option.some.inj h
    exact ⟨fun _ _ => rfl, f, hf, Or.inr ⟨hfinal, rfl⟩⟩

/-- Closing keeps the link to the next stream or clears it. -/
theorem Closing.next {K : Kernel W} {f g : FILE} (h : Closing K f g) :
    g.next = f.next ∨ g.next = 0 := by
  obtain ⟨_, w, rfl⟩ := h
  rcases closeStream_cases K ⟨f, w⟩ with ⟨_, t, heq, hkeep⟩ | ⟨_, t, heq, _, hnext⟩
  · rw [heq]
    exact Or.inl (FILE.next_eq hkeep)
  · rw [heq]
    exact Or.inr hnext

/-- The rounds of a finished walk. -/
theorem finiStdioList_succ (K : Kernel W) {s t : Libc W} {fuel p : ℕ} {visited : List ℕ}
    (h : finiStdioList K (fuel + 1) p s = some (visited, t)) :
    (p = 0 ∧ visited = [] ∧ t = s) ∨
    (p ≠ 0 ∧ ∃ f u rest, s.files p = some f ∧ finiStream K p f s = some u ∧
      finiStdioList K fuel f.next u = some (rest, t) ∧ visited = p :: rest) := by
  unfold finiStdioList at h
  by_cases hp : p = 0
  · rw [if_pos hp] at h
    obtain ⟨rfl, rfl⟩ := Prod.mk.inj (Option.some.inj h)
    exact Or.inl ⟨hp, rfl, rfl⟩
  · rw [if_neg hp] at h
    obtain ⟨f, hf, h⟩ := Option.bind_eq_some_iff.mp h
    obtain ⟨u, hu, h⟩ := Option.bind_eq_some_iff.mp h
    obtain ⟨⟨rest, v⟩, hrest, h⟩ := Option.bind_eq_some_iff.mp h
    obtain ⟨rfl, rfl⟩ := Prod.mk.inj (Option.some.inj h)
    exact Or.inr ⟨hp, f, u, rest, hf, hu, hrest, rfl⟩

/-- What becomes of each stream: nothing unless it is visited, and visiting
closes it, perhaps again, if it may be closed. -/
theorem finiStdioList_files (K : Kernel W) {s t : Libc W} {fuel p : ℕ} {visited : List ℕ}
    (h : finiStdioList K fuel p s = some (visited, t)) {q : ℕ} {f : FILE}
    (hf : s.files q = some f) :
    ∃ g, t.files q = some g ∧ ReflTransGen (Closing K) f g ∧ (q ∉ visited → g = f) ∧
      (q ∈ visited → f.Finalisable K → TransGen (Closing K) f g) := by
  induction fuel generalizing p s visited f with
  | zero => cases h
  | succ fuel ih =>
    rcases finiStdioList_succ K h with ⟨_, rfl, rfl⟩ | ⟨_, e, u, rest, he, hu, hrest, rfl⟩
    · exact ⟨f, hf, .refl, fun _ => rfl, fun hmem => by cases hmem⟩
    · obtain ⟨hother, g, hg, hclosing⟩ := finiStream_files K he hu
      by_cases hqp : q = p
      · subst hqp
        obtain rfl := Option.some.inj (he.symm.trans hf)
        obtain ⟨g', hg', hclosed, _, _⟩ := ih hrest hg
        refine ⟨g', hg', ?_, fun hnot => absurd List.mem_cons_self hnot, fun _ hfinal => ?_⟩
        · rcases hclosing with ⟨_, hstep⟩ | ⟨_, rfl⟩
          · exact .head hstep hclosed
          · exact hclosed
        · rcases hclosing with ⟨_, hstep⟩ | ⟨hnot, _⟩
          · exact .head' hstep hclosed
          · exact absurd hfinal hnot
      · obtain ⟨g', hg', hclosed, hkeep, htrans⟩ := ih hrest ((hother q hqp).trans hf)
        refine ⟨g', hg', hclosed, fun hnot => hkeep ?_, fun hmem => htrans ?_⟩
        · exact fun hmem => hnot (List.mem_cons_of_mem p hmem)
        · exact (List.mem_cons.mp hmem).resolve_left hqp

/-- Only streams that could be reached at the start are visited. -/
theorem finiStdioList_reaches (K : Kernel W) {s t : Libc W} {fuel p : ℕ} {visited : List ℕ}
    (h : finiStdioList K fuel p s = some (visited, t)) {q : ℕ} (hq : q ∈ visited) :
    q ≠ 0 ∧ ReflTransGen s.Links p q := by
  induction fuel generalizing p s visited with
  | zero => cases h
  | succ fuel ih =>
    rcases finiStdioList_succ K h with ⟨_, rfl, _⟩ | ⟨hp, e, u, rest, he, hu, hrest, rfl⟩
    · cases hq
    · obtain ⟨hother, g, hg, hclosing⟩ := finiStream_files K he hu
      rcases List.mem_cons.mp hq with rfl | hq
      · exact ⟨hp, .refl⟩
      · obtain ⟨hq0, hreach⟩ := ih hrest hq
        refine ⟨hq0, .head ⟨hp, e, he, rfl⟩ ?_⟩
        have hnext : g.next = e.next ∨ g.next = 0 := by
          rcases hclosing with ⟨_, hstep⟩ | ⟨_, rfl⟩
          · exact hstep.next
          · exact Or.inl rfl
        clear hrest
        generalize e.next = start at hreach
        -- a link the walk has cleared leads to NULL, and from there nowhere
        induction hreach using ReflTransGen.head_induction_on with
        | refl => exact .refl
        | @head a b hab hbq ihb =>
          obtain ⟨ha, f, hf, rfl⟩ := hab
          by_cases hap : a = p
          · subst hap
            obtain rfl := Option.some.inj (hg.symm.trans hf)
            rcases hnext with hnext | hnext
            · exact .head ⟨ha, e, he, hnext.symm⟩ ihb
            · rw [hnext] at hbq
              rcases hbq.cases_head with hzero | ⟨_, hlink, _⟩
              · exact absurd hzero.symm hq0
              · exact absurd rfl hlink.1
          · exact .head ⟨ha, f, (hother a hap).symm.trans hf, rfl⟩ ihb

/-- Every stream that could be reached at the start is visited. -/
theorem finiStdioList_visits_reachable (K : Kernel W) {s t : Libc W} {fuel p : ℕ}
    {visited : List ℕ} (h : finiStdioList K fuel p s = some (visited, t)) {q : ℕ}
    (hq : q ≠ 0) (hreach : ReflTransGen s.Links p q) : q ∈ visited := by
  induction fuel generalizing p s visited with
  | zero => cases h
  | succ fuel ih =>
    rcases finiStdioList_succ K h with ⟨hp, _, _⟩ | ⟨hp, e, u, rest, he, hu, hrest, rfl⟩
    · rcases hreach.cases_head with heq | ⟨_, hlink, _⟩
      · exact absurd (heq.symm.trans hp) hq
      · exact absurd hp hlink.1
    · obtain ⟨hother, _⟩ := finiStream_files K he hu
      rcases reflTransGen_avoiding hreach with rfl | ⟨c, ⟨_, f, hf, rfl⟩, hpath⟩
      · exact List.mem_cons_self
      · obtain rfl := Option.some.inj (he.symm.trans hf)
        apply List.mem_cons_of_mem
        apply ih hrest
        refine ReflTransGen.mono ?_ _ _ hpath
        rintro x y ⟨hxp, hx, f, hf', rfl⟩
        exact ⟨hx, f, (hother x hxp).trans hf', rfl⟩

theorem finiStdioList_visits_iff (K : Kernel W) {s t : Libc W} {fuel : ℕ} {visited : List ℕ}
    (h : finiStdioList K fuel s.openFileList s = some (visited, t)) (q : ℕ) :
    q ∈ visited ↔ s.Listed q := by
  constructor
  · exact finiStdioList_reaches K h
  · rintro ⟨hq, hreach⟩
    exact finiStdioList_visits_reachable K h hq hreach

/-- A flush only adds to the history. -/
theorem fflushUnlocked_writes (K : Kernel W) (s : State W) :
    ∃ calls, (fflushUnlocked K s).2.stream.writes = s.stream.writes ++ calls := by
  have hread : (fflushReadUnlocked K s).2.stream.writes = s.stream.writes := by
    rcases fflushReadUnlocked_cases K s with ⟨_, hcase⟩ | ⟨_, _, hcase⟩ | ⟨_, _, _, _, hcase⟩
    · rw [hcase]
    · rw [hcase]
      rfl
    · rw [hcase]
  rcases fflushUnlocked_cases K s with hflush | hflush
  · rw [hflush]
    exact ⟨[], hread.trans (List.append_nil _).symm⟩
  · rw [hflush, ← hread]
    rcases fflushWriteUnlocked_cases K (fflushReadUnlocked K s).2 with
      ⟨_, hcase⟩ | ⟨_, _, hcase⟩ | ⟨_, _, _, _, calls, _, _, _, hcase, _⟩
    · exact ⟨[], by rw [hcase, List.append_nil]⟩
    · exact ⟨[], by rw [hcase, List.append_nil]; rfl⟩
    · exact ⟨calls, by rw [hcase]⟩

/-- On a stream that is not open for writing a flush calls nothing. -/
theorem fflushUnlocked_readonly (K : Kernel W) {s : State W}
    (hmode : s.stream.mode.write = false) :
    (fflushUnlocked K s).2.stream.writes = s.stream.writes := by
  have hread : (fflushReadUnlocked K s).2.stream.writes = s.stream.writes ∧
      (fflushReadUnlocked K s).2.stream.mode = s.stream.mode := by
    rcases fflushReadUnlocked_cases K s with ⟨_, hcase⟩ | ⟨_, _, hcase⟩ | ⟨_, _, _, _, hcase⟩
    · rw [hcase]
      exact ⟨rfl, rfl⟩
    · rw [hcase]
      exact ⟨rfl, rfl⟩
    · rw [hcase]
      exact ⟨rfl, rfl⟩
  rcases fflushUnlocked_cases K s with hflush | hflush
  · rw [hflush]
    exact hread.1
  · rw [hflush]
    rcases fflushWriteUnlocked_cases K (fflushReadUnlocked K s).2 with
      ⟨_, hcase⟩ | ⟨_, _, hcase⟩ | ⟨_, hwritable, _⟩
    · rw [hcase]
      exact hread.1
    · rw [hcase]
      exact hread.1
    · rw [hread.2, hmode] at hwritable
      cases hwritable

/-- A flush of a live stream that is refused nothing gets everything accepted. -/
theorem fflushUnlocked_delivers (K : Kernel W) {mode : ModeFlags} {s : State W}
    (h : s.stream.Live mode) (hmode : mode.write = true)
    (haccepted : Accepted (fflushUnlocked K s).2.stream.writes) :
    (fflushUnlocked K s).2.stream.accepted = s.stream.stored := by
  cases hdir : s.stream.flagDirectionWrite with
  | false =>
    have hheld := h.held
    rw [FILE.pending_eq_nil (h.empty hdir), List.append_nil] at hheld
    rw [FILE.accepted, fflushUnlocked_unmarked K hdir]
    exact hheld
  | true =>
    have hread := fflushUnlocked_notReading K (h.oneWay hdir)
    rw [hread] at haccepted ⊢
    rcases fflushWriteUnlocked_cases K s with
      ⟨hnot, _⟩ | ⟨_, hnot, _⟩ | ⟨_, _, _, left, calls, eof, error, w, hcase, htransfer⟩
    · simp [hdir] at hnot
    · simp [h.mode_eq, hmode, h.impl] at hnot
    · rw [hcase] at haccepted ⊢
      have hleft := htransfer.left_eq_nil_iff.mpr (accepted_append.mp haccepted).2
      have htaken := htransfer.taken_append_left
      rw [hleft, List.append_nil] at htaken
      rw [FILE.accepted_of_writes rfl, htaken]
      exact h.held

/-- Closing a stream flushes it, and clears it if `impl_close` succeeds. -/
theorem closeStream_stream (K : Kernel W) (s : State W) :
    (¬ CloseSucceeds K s ∧ (closeStream K s).2.stream = (fflushUnlocked K s).2.stream) ∨
    (CloseSucceeds K s ∧ (closeStream K s).2.stream = (fflushUnlocked K s).2.stream.zeroed) := by
  unfold closeStream CloseSucceeds
  dsimp only
  have hstream : (implClose K (fflushUnlocked K s).2).2.stream =
      (fflushUnlocked K s).2.stream := rfl
  by_cases hclose : (implClose K (fflushUnlocked K s).2).1 = 0
  · rw [if_neg (not_not.mpr hclose)]
    exact Or.inr ⟨hclose, rfl⟩
  · rw [if_pos hclose]
    exact Or.inl ⟨hclose, hstream⟩

namespace Closing

variable {K : Kernel W} {f g : FILE}

theorem writes_stored (h : Closing K f g) :
    (∃ calls, g.writes = f.writes ++ calls) ∧ g.stored = f.stored := by
  obtain ⟨_, w, rfl⟩ := h
  have hwrites := fflushUnlocked_writes K ⟨f, w⟩
  have hstored := FILE.stored_of_record (fflushUnlocked_record K ⟨f, w⟩)
  rcases closeStream_stream K ⟨f, w⟩ with ⟨_, heq⟩ | ⟨_, heq⟩
  · rw [heq]
    exact ⟨hwrites, hstored⟩
  · rw [heq]
    exact ⟨hwrites, hstored⟩

theorem readonly (h : Closing K f g) (hmode : f.mode.write = false) :
    g.mode.write = false ∧ g.writes = f.writes := by
  obtain ⟨_, w, rfl⟩ := h
  have hwrites := fflushUnlocked_readonly K (s := ⟨f, w⟩) hmode
  have hhandle := FILE.handle_of_record (fflushUnlocked_record K ⟨f, w⟩)
  rcases closeStream_stream K ⟨f, w⟩ with ⟨_, heq⟩ | ⟨_, heq⟩
  · rw [heq, FILE.mode_eq hhandle]
    exact ⟨hmode, hwrites⟩
  · rw [heq]
    exact ⟨rfl, hwrites⟩

theorem delivers (h : Closing K f g) {mode : ModeFlags} (hlive : f.Live mode)
    (hmode : mode.write = true) (haccepted : Accepted g.writes) : g.accepted = f.stored := by
  obtain ⟨_, w, rfl⟩ := h
  have hflush := fflushUnlocked_delivers K (s := ⟨f, w⟩) hlive hmode
  rcases closeStream_stream K ⟨f, w⟩ with ⟨_, heq⟩ | ⟨_, heq⟩
  · rw [heq] at haccepted ⊢
    exact hflush haccepted
  · rw [heq] at haccepted ⊢
    exact hflush haccepted

end Closing

/-- However often a stream is closed, its history only grows. -/
theorem closings_writes {K : Kernel W} {f g : FILE} (h : ReflTransGen (Closing K) f g) :
    ∃ calls, g.writes = f.writes ++ calls := by
  induction h with
  | refl => exact ⟨[], (List.append_nil _).symm⟩
  | tail _ hstep ih =>
    obtain ⟨calls, hcalls⟩ := ih
    obtain ⟨⟨calls', hcalls'⟩, _⟩ := hstep.writes_stored
    exact ⟨calls ++ calls', by rw [hcalls', hcalls, List.append_assoc]⟩

theorem closings_readonly {K : Kernel W} {f g : FILE} (h : ReflTransGen (Closing K) f g)
    (hmode : f.mode.write = false) : g.mode.write = false ∧ g.writes = f.writes := by
  induction h with
  | refl => exact ⟨hmode, rfl⟩
  | tail _ hstep ih =>
    obtain ⟨hmode', hwrites⟩ := hstep.readonly ih.1
    exact ⟨hmode', hwrites.trans ih.2⟩

/-- The first closing of a live stream delivers what is left of it. -/
theorem closings_deliver {K : Kernel W} {f g : FILE} (h : TransGen (Closing K) f g)
    {mode : ModeFlags} (hlive : f.Live mode) (hmode : mode.write = true)
    (haccepted : Accepted g.writes) : f.stored.Sublist g.accepted := by
  obtain ⟨e, hfirst, hrest⟩ := TransGen.head'_iff.mp h
  obtain ⟨calls, hcalls⟩ := closings_writes hrest
  have hfirstAccepted : Accepted e.writes := by
    rw [hcalls] at haccepted
    exact (accepted_append.mp haccepted).1
  rw [FILE.accepted_of_writes hcalls, hfirst.delivers hlive hmode hfirstAccepted]
  exact List.sublist_append_left _ _

end Heartix.Stdio
