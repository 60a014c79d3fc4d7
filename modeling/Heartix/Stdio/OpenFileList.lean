import Heartix.Lib.DoublyLinked
import Heartix.Lib.Runs
import Heartix.Stdio.OpenFile

/-!
The list of open streams. Closing clears the structure before it is unlinked, so
the links are gone when the removal reads them: the head is dropped with all
that follows, and any other stream stays reachable after it was closed. The list
holds exactly the open streams along the runs that close a stream only while no
other one is open.
-/

namespace Heartix.Stdio

open DoublyLinked Runs

variable {W : Type}

namespace Libc

def nextOf (s : Libc W) (p : ℕ) : ℕ :=
  match s.files p with
  | none => 0
  | some f => f.next

def prevOf (s : Libc W) (p : ℕ) : ℕ :=
  match s.files p with
  | none => 0
  | some f => f.prev

/-- The list found from `__open_file_list`, linked in both directions. -/
def Chained (s : Libc W) (list : List ℕ) : Prop :=
  Linked s.nextOf s.prevOf 0 0 s.openFileList list

/-- The open streams are chained, and each is a structure in memory. -/
structure Intact (s : Libc W) : Prop where
  chained : ∃ list, s.Chained list ∧ ∀ p, p ∈ list ↔ p ∈ s.opened
  alive : ∀ p ∈ s.opened, ∃ f, s.files p = some f ∧ f.implReopen = true

/-- The streams a walk over the list visits are the open ones, each once. -/
def VisitsOpened (s : Libc W) (visited : List ℕ) : Prop :=
  visited.Nodup ∧ ∀ p, p ∈ visited ↔ p ∈ s.opened

/-- The list is well formed, and `fflush(NULL)` and `__fini_stdio` get to the
open streams by it. -/
structure Integrity (K : Kernel W) (s : Libc W) : Prop where
  chained : ∃ list, s.Chained list ∧ ∀ p, p ∈ list ↔ p ∈ s.opened
  flushed : ∃ fuel ret visited t,
    fflushList K fuel s.openFileList 0 s = some (ret, visited, t) ∧ s.VisitsOpened visited
  finished : ∃ fuel visited t,
    finiStdioList K fuel s.openFileList s = some (visited, t) ∧ s.VisitsOpened visited

variable {s t u : Libc W} {p q : ℕ}

theorem nextOf_of_files {f : FILE} (h : s.files p = some f) : s.nextOf p = f.next := by
  simp [nextOf, h]

theorem prevOf_of_files {f : FILE} (h : s.files p = some f) : s.prevOf p = f.prev := by
  simp [prevOf, h]

@[simp] theorem put_self (s : Libc W) (p : ℕ) (f : Option FILE) : (s.put p f).files p = f :=
  Function.update_self ..

theorem put_of_ne (s : Libc W) (h : q ≠ p) (f : Option FILE) :
    (s.put p f).files q = s.files q :=
  Function.update_of_ne h ..

theorem modify_of_files {f : FILE} (h : s.files p = some f) (change : FILE → FILE) :
    s.modify p change = some (s.put p (some (change f))) := by
  simp [Libc.modify, h]

theorem nextOf_congr (h : t.files p = s.files p) : t.nextOf p = s.nextOf p := by
  unfold nextOf
  rw [h]

theorem prevOf_congr (h : t.files p = s.files p) : t.prevOf p = s.prevOf p := by
  unfold prevOf
  rw [h]

theorem Intact.not_mem_of_none (h : s.Intact) (hp : s.files p = none) : p ∉ s.opened := by
  intro hmem
  obtain ⟨f, hf, _⟩ := h.alive p hmem
  rw [hp] at hf
  cases hf

theorem Intact.ne_zero (h : s.Intact) (hp : p ∈ s.opened) : p ≠ 0 := by
  obtain ⟨list, hlist, hmem⟩ := h.chained
  exact hlist.ne_null ((hmem p).mpr hp)

theorem Intact.head_mem (h : s.Intact) (hhead : s.openFileList ≠ 0) :
    s.openFileList ∈ s.opened := by
  obtain ⟨list, hlist, hmem⟩ := h.chained
  cases list with
  | nil => exact absurd hlist hhead
  | cons a list =>
    rw [← hmem, hlist.1]
    exact List.mem_cons_self

/-- Nothing happened to the list. -/
structure Unchanged (s t : Libc W) : Prop where
  head : t.openFileList = s.openFileList
  opened : t.opened = s.opened
  next : ∀ a ∈ s.opened, t.nextOf a = s.nextOf a
  prev : ∀ a ∈ s.opened, t.prevOf a = s.prevOf a
  alive : ∀ a ∈ s.opened, ∀ f, s.files a = some f →
    ∃ g, t.files a = some g ∧ g.implReopen = f.implReopen

/-- A stream was put before the head. -/
structure Pushed (p : ℕ) (s t : Libc W) : Prop where
  head : t.openFileList = p
  opened : t.opened = insert p s.opened
  next_self : t.nextOf p = s.openFileList
  prev_self : t.prevOf p = 0
  next : ∀ a, a ≠ p → t.nextOf a = s.nextOf a
  prev_head : s.openFileList ≠ 0 → t.prevOf s.openFileList = p
  prev : ∀ a, a ≠ p → a ≠ s.openFileList → t.prevOf a = s.prevOf a
  alive_self : ∃ f, t.files p = some f ∧ f.implReopen = true
  alive : ∀ a, a ≠ p → ∀ f, s.files a = some f →
    ∃ g, t.files a = some g ∧ g.implReopen = f.implReopen

/-- What closing makes of the list: a head takes the whole list with it, another
stream keeps its place. -/
structure Unlinked (p : ℕ) (s t : Libc W) : Prop where
  head : t.openFileList = if p = s.openFileList then 0 else s.openFileList
  opened : t.opened = s.opened.erase p
  others : ∀ a, a ≠ p → t.files a = s.files a

theorem Unchanged.refl (s : Libc W) : Unchanged s s where
  head := rfl
  opened := rfl
  next _ _ := rfl
  prev _ _ := rfl
  alive _ _ f hf := ⟨f, hf, rfl⟩

theorem Unchanged.intact (h : Unchanged s t) (hs : s.Intact) : t.Intact where
  chained := by
    obtain ⟨list, hlist, hmem⟩ := hs.chained
    refine ⟨list, ?_, by simpa only [h.opened] using hmem⟩
    unfold Chained
    rw [h.head]
    exact hlist.frame (fun a ha => h.next a ((hmem a).mp ha))
      (fun a ha => h.prev a ((hmem a).mp ha))
  alive a ha := by
    rw [h.opened] at ha
    obtain ⟨f, hf, hreopen⟩ := hs.alive a ha
    obtain ⟨g, hg, heq⟩ := h.alive a ha f hf
    exact ⟨g, hg, heq.trans hreopen⟩

theorem Pushed.intact (h : Pushed p s t) (hs : s.Intact) (hp : p ∉ s.opened) (hp0 : p ≠ 0) :
    t.Intact where
  chained := by
    obtain ⟨list, hlist, hmem⟩ := hs.chained
    have hne : ∀ a ∈ list, a ≠ p := by
      rintro a ha rfl
      exact hp ((hmem a).mp ha)
    refine ⟨p :: list, ?_, fun q => ?_⟩
    · unfold Chained
      rw [h.head]
      exact hlist.push (fun hmem' => hne p hmem' rfl) hp0 h.next_self h.prev_self
        (fun a ha => h.next a (hne a ha)) h.prev_head (fun a ha => h.prev a (hne a ha))
    · rw [List.mem_cons, h.opened, Finset.mem_insert, hmem]
  alive a ha := by
    rw [h.opened, Finset.mem_insert] at ha
    by_cases hap : a = p
    · exact hap ▸ h.alive_self
    · obtain ⟨f, hf, hreopen⟩ := hs.alive a (ha.resolve_left hap)
      obtain ⟨g, hg, heq⟩ := h.alive a hap f hf
      exact ⟨g, hg, heq.trans hreopen⟩

/-- Closing the only open stream leaves an empty list. -/
theorem Unlinked.intact (h : Unlinked p s t) (hs : s.Intact) (honly : s.opened = {p}) :
    t.Intact where
  chained := by
    have hp : p ∈ s.opened := by simp [honly]
    have hhead : s.openFileList = p := by
      by_cases hzero : s.openFileList = 0
      · obtain ⟨list, hlist, hmem⟩ := hs.chained
        rw [Chained, hzero] at hlist
        have hpl := (hmem p).mpr hp
        rw [hlist.eq_nil] at hpl
        cases hpl
      · have hmem := hs.head_mem hzero
        rwa [honly, Finset.mem_singleton] at hmem
    refine ⟨[], ?_, fun q => ?_⟩
    · unfold Chained
      rw [h.head, if_pos hhead.symm]
      rfl
    · simp [h.opened, honly]
  alive a ha := by simp [h.opened, honly] at ha

theorem Unlinked.next (h : Unlinked p s t) (a : ℕ) (ha : a ≠ p) : t.nextOf a = s.nextOf a :=
  nextOf_congr (h.others a ha)

/-- After closing one of several streams no list holds exactly the open ones. -/
theorem Unlinked.not_chained (h : Unlinked p s t) (hs : s.Intact) (hp : p ∈ s.opened)
    (hq : q ∈ s.opened) (hqp : q ≠ p) :
    ¬ ∃ list, t.Chained list ∧ ∀ a, a ∈ list ↔ a ∈ t.opened := by
  rintro ⟨list, hlist, hmem⟩
  have hqt : q ∈ t.opened := by
    rw [h.opened]
    exact Finset.mem_erase.mpr ⟨hqp, hq⟩
  have hpt : p ∉ t.opened := by
    rw [h.opened]
    exact Finset.notMem_erase p s.opened
  unfold Chained at hlist
  rw [h.head] at hlist
  by_cases hhead : p = s.openFileList
  · rw [if_pos hhead] at hlist
    have hql := (hmem q).mpr hqt
    rw [hlist.eq_nil] at hql
    cases hql
  · rw [if_neg hhead] at hlist
    obtain ⟨old, hold, hmemOld⟩ := hs.chained
    have hpl := hold.mem_of_agree hlist (fun a _ => h.next a) ((hmemOld p).mpr hp)
    exact hpt ((hmem p).mp hpl)

/-- Reopening does not repair the list: the other streams are lost behind a
closed head, and any other stream gets into a cycle. -/
theorem Unlinked.pushed_not_chained (h : Unlinked p s u) (hpush : Pushed p u t)
    (hs : s.Intact) (hp : p ∈ s.opened) (hq : q ∈ s.opened) (hqp : q ≠ p) :
    ¬ ∃ list, t.Chained list ∧ ∀ a, a ∈ list ↔ a ∈ t.opened := by
  rintro ⟨list, hlist, hmem⟩
  have hqt : q ∈ t.opened := by
    rw [hpush.opened, h.opened]
    exact Finset.mem_insert_of_mem (Finset.mem_erase.mpr ⟨hqp, hq⟩)
  have hnodup := hlist.nodup
  unfold Chained at hlist
  rw [hpush.head] at hlist
  cases list with
  | nil =>
    have hql := (hmem q).mpr hqt
    cases hql
  | cons a rest =>
    obtain ⟨rfl, _, _, hrest⟩ := hlist
    rw [hpush.next_self, h.head] at hrest
    by_cases hhead : p = s.openFileList
    · rw [if_pos hhead] at hrest
      have hql := (hmem q).mpr hqt
      rw [hrest.eq_nil, List.mem_singleton] at hql
      exact hqp hql
    · rw [if_neg hhead] at hrest
      obtain ⟨old, hold, hmemOld⟩ := hs.chained
      have hpl := hold.mem_of_agree hrest
        (fun a _ ha => (hpush.next a ha).trans (h.next a ha)) ((hmemOld p).mpr hp)
      exact (List.nodup_cons.mp hnodup).1 hpl

end Libc

open Libc

/-- `impl_close` succeeds after the flush. -/
def CloseSucceeds (K : Kernel W) (s : State W) : Prop :=
  (implClose K (fflushUnlocked K s).2).1 = 0

theorem closeStream_cases (K : Kernel W) (s : State W) :
    (¬ CloseSucceeds K s ∧ ∃ t, closeStream K s = (EOF, t) ∧
      t.stream.handle = s.stream.handle) ∨
    (CloseSucceeds K s ∧ ∃ t, closeStream K s = (0, t) ∧
      t.stream.prev = 0 ∧ t.stream.next = 0) := by
  have hkeep := FILE.handle_of_record (fflushUnlocked_record K s)
  unfold closeStream CloseSucceeds
  generalize fflushUnlocked K s = result at hkeep ⊢
  obtain ⟨_, u⟩ := result
  dsimp only at hkeep ⊢
  have hstream : (implClose K u).2.stream = u.stream := rfl
  generalize implClose K u = result at hstream ⊢
  obtain ⟨r, v⟩ := result
  by_cases hr : r = 0
  · right
    subst hr
    refine ⟨rfl, _, if_neg (fun hne => hne rfl), ?_, ?_⟩
    · simp [FILE.zeroed]
      rfl
    · simp [FILE.zeroed]
      rfl
  · left
    refine ⟨hr, v, if_pos hr, ?_⟩
    rw [hstream]
    exact hkeep

/-- A cleared structure has no links, so removing it changes no other one. -/
theorem openFileListRemove_cleared {s : Libc W} {p : ℕ} {f : FILE} (hf : s.files p = some f)
    (hprev : f.prev = 0) (hnext : f.next = 0) :
    openFileListRemove p s =
      some (if p = s.openFileList then { s with openFileList := 0 } else s) := by
  unfold openFileListRemove
  by_cases hhead : p = s.openFileList
  · simp [hhead] at hf ⊢
    simp [hf, hprev, hnext]
  · simp [hhead, hf, hprev, hnext]

theorem fcloseStaticUnlocked_cases (K : Kernel W) {s : Libc W} {p : ℕ} {f : FILE}
    (hf : s.files p = some f) :
    (¬ CloseSucceeds K ⟨f, s.world⟩ ∧ ∃ g w, g.handle = f.handle ∧
      fcloseStaticUnlocked K p s = some (EOF, { s.put p (some g) with world := w })) ∨
    (CloseSucceeds K ⟨f, s.world⟩ ∧ ∃ g t, fcloseStaticUnlocked K p s = some (0, t) ∧
      t.files p = some g ∧ g.prev = 0 ∧ g.next = 0 ∧ Unlinked p s t) := by
  unfold fcloseStaticUnlocked onStream
  rcases closeStream_cases K ⟨f, s.world⟩ with
    ⟨hfail, t, heq, hkeep⟩ | ⟨hclose, t, heq, hprev, hnext⟩
  · left
    exact ⟨hfail, t.stream, t.world, hkeep, by simp [hf, heq]⟩
  · right
    have hremove := openFileListRemove_cleared (p := p) (f := t.stream)
      (s := { s.put p (some t.stream) with world := t.world }) (put_self s p _) hprev hnext
    have hhead : (s.put p (some t.stream)).openFileList = s.openFileList := rfl
    refine ⟨hclose, t.stream, _, by simp [hf, heq, hremove]; rfl, ?_, hprev, hnext, ?_⟩
    · dsimp only
      split
      · exact put_self s p _
      · exact put_self s p _
    · rw [hhead]
      constructor
      · dsimp only
        split <;> rfl
      · dsimp only
        split <;> rfl
      · intro a ha
        dsimp only
        split
        · exact put_of_ne s ha _
        · exact put_of_ne s ha _

/-- The list can be extended by `p`: its head is another stream in memory. -/
def Extensible (p : ℕ) (s : Libc W) : Prop :=
  s.openFileList ≠ 0 → s.openFileList ≠ p ∧ ∃ h, s.files s.openFileList = some h

theorem openFileListAdd_pushed {s : Libc W} {p : ℕ} {f : FILE} (hf : s.files p = some f)
    (hprev : f.prev = 0) (hnext : f.next = 0) (hreopen : f.implReopen = true)
    (hs : Extensible p s) :
    ∃ t, openFileListAdd p s = some t ∧ t.opened = s.opened ∧
      Pushed p s { t with opened := insert p t.opened } := by
  unfold openFileListAdd
  by_cases hzero : s.openFileList = 0
  · refine ⟨{ s with openFileList := p }, by simp [hzero], rfl, ?_⟩
    exact {
      head := rfl
      opened := rfl
      next_self := (nextOf_of_files hf).trans (hnext.trans hzero.symm)
      prev_self := (prevOf_of_files hf).trans hprev
      next := fun _ _ => rfl
      prev_head := fun hne => absurd hzero hne
      prev := fun _ _ _ => rfl
      alive_self := ⟨f, hf, hreopen⟩
      alive := fun _ _ g hg => ⟨g, hg, rfl⟩ }
  · obtain ⟨hne, h, hh⟩ := hs hzero
    let s₁ := s.put s.openFileList (some { h with prev := p })
    let s₂ := s₁.put p (some { f with next := s.openFileList })
    have hf₁ : s₁.files p = some f := (put_of_ne s (Ne.symm hne) _).trans hf
    have hh₂ : s₂.files s.openFileList = some { h with prev := p } :=
      (put_of_ne s₁ hne _).trans (put_self s _ _)
    have hrest : ∀ a, a ≠ p → a ≠ s.openFileList → s₂.files a = s.files a := fun a ha hah =>
      (put_of_ne s₁ ha _).trans (put_of_ne s hah _)
    refine ⟨{ s₂ with openFileList := p }, ?_, rfl, ?_⟩
    · have hmodify : s.modify s.openFileList (fun g => { g with prev := p }) = some s₁ :=
        modify_of_files hh _
      have hmodify₁ : s₁.modify p (fun g => { g with next := s₁.openFileList }) = some s₂ :=
        modify_of_files hf₁ _
      simp [hzero, hmodify, hmodify₁]
    · exact {
        head := rfl
        opened := rfl
        next_self := nextOf_of_files (put_self s₁ p _)
        prev_self := (prevOf_of_files (put_self s₁ p _)).trans hprev
        next := fun a ha => by
          by_cases hah : a = s.openFileList
          · subst hah
            exact (nextOf_of_files hh₂).trans (nextOf_of_files hh).symm
          · exact nextOf_congr (hrest a ha hah)
        prev_head := fun _ => prevOf_of_files hh₂
        prev := fun a ha hah => prevOf_congr (hrest a ha hah)
        alive_self := ⟨_, put_self s₁ p _, hreopen⟩
        alive := fun a ha g hg => by
          by_cases hah : a = s.openFileList
          · subst hah
            obtain rfl := Option.some.inj (hh.symm.trans hg)
            exact ⟨_, hh₂, rfl⟩
          · exact ⟨g, (hrest a ha hah).trans hg, rfl⟩ }

theorem fdopenStatic_cases (K : Kernel W) (fd : ℤ) (mode : String) {s : Libc W} {p : ℕ}
    {f : FILE} (hf : s.files p = some f) (hprev : f.prev = 0) (hnext : f.next = 0)
    (hs : Extensible p s) :
    fdopenStatic K fd mode p s = some (EOF, s) ∨
      ∃ t, fdopenStatic K fd mode p s = some (0, t) ∧ Pushed p s t := by
  unfold fdopenStatic
  rcases parseModeFlags mode with _ | flags
  · exact Or.inl rfl
  · right
    rcases K.mutexInitialize s.world with ⟨lock, w⟩
    let g := f.opened fd lock flags
    have hmodify : Libc.modify p (fun f => f.opened fd lock flags) { s with world := w } =
        some (({ s with world := w } : Libc W).put p (some g)) :=
      modify_of_files (s := { s with world := w }) hf _
    have hother : ∀ a, a ≠ p →
        (({ s with world := w } : Libc W).put p (some g)).files a = s.files a :=
      fun a ha => put_of_ne _ ha _
    have hext : Extensible p (({ s with world := w } : Libc W).put p (some g)) := by
      intro hhead
      obtain ⟨hne, h, hh⟩ := hs hhead
      exact ⟨hne, h, (hother _ hne).trans hh⟩
    obtain ⟨t, hadd, hopened, hpush⟩ :=
      openFileListAdd_pushed (f := g) (put_self _ p _) hprev hnext rfl hext
    refine ⟨{ t with opened := insert p t.opened }, by simp [hmodify, hadd], ?_⟩
    exact {
      head := hpush.head
      opened := hpush.opened
      next_self := hpush.next_self
      prev_self := hpush.prev_self
      next := fun a ha => (hpush.next a ha).trans (nextOf_congr (hother a ha))
      prev_head := hpush.prev_head
      prev := fun a ha hah => (hpush.prev a ha hah).trans (prevOf_congr (hother a ha))
      alive_self := hpush.alive_self
      alive := fun a ha g hg => hpush.alive a ha g ((hother a ha).trans hg) }

theorem fopenStatic_cases (K : Kernel W) (filename mode : String) {s : Libc W} {p : ℕ}
    {f : FILE} (hf : s.files p = some f) (hprev : f.prev = 0) (hnext : f.next = 0)
    (hs : Extensible p s) :
    (∃ w, fopenStatic K filename mode p s = some (0, { s with world := w })) ∨
      ∃ t, fopenStatic K filename mode p s = some (p, t) ∧ Pushed p s t := by
  unfold fopenStatic
  rcases hparse : parseModeFlags mode with _ | flags
  · exact Or.inl ⟨s.world, rfl⟩
  · rcases hopen : K.openFile filename flags s.world with ⟨fd, w⟩
    by_cases hfd : fd = -1
    · exact Or.inl ⟨w, by simp [hopen, hfd]⟩
    · right
      rcases fdopenStatic_cases K fd mode (s := { s with world := w })
          hf hprev hnext hs with heq | ⟨t, heq, hpush⟩
      · exact absurd heq (by simp [fdopenStatic, hparse, Option.bind_eq_some_iff])
      · exact ⟨t, by simp [hopen, hfd, heq],
          ⟨hpush.head, hpush.opened, hpush.next_self, hpush.prev_self, hpush.next,
            hpush.prev_head, hpush.prev, hpush.alive_self, hpush.alive⟩⟩

/-- The call closes stream `p`: `fclose`, or `freopen` with a file name, whose
`impl_close` succeeds. -/
def Call.Closes (K : Kernel W) (s : Libc W) (call : Call) (p : ℕ) : Prop :=
  (call = .fclose p ∨ ∃ filename mode, call = .freopen (some filename) mode p) ∧
    ∀ f, s.files p = some f → CloseSucceeds K ⟨f, s.world⟩

/-- A stream is closed only while it is the only one open. -/
def Call.ClosesAlone (K : Kernel W) (s : Libc W) (call : Call) : Prop :=
  ∀ p, call.Closes K s p → s.opened = {p}

theorem Call.Closes.unique {K : Kernel W} {s : Libc W} {call : Call} {p q : ℕ}
    (hp : call.Closes K s p) (hq : call.Closes K s q) : p = q := by
  rcases hp.1 with rfl | ⟨_, _, rfl⟩
  · rcases hq.1 with h | ⟨_, _, h⟩
    · exact Call.fclose.inj h
    · cases h
  · rcases hq.1 with h | ⟨_, _, h⟩
    · cases h
    · exact (Call.freopen.inj h).2.2

theorem Libc.Intact.extensible {s : Libc W} (hs : s.Intact) {p : ℕ} (hp : p ∉ s.opened)
    {t : Libc W} (hhead : t.openFileList = s.openFileList)
    (hother : ∀ a, a ≠ p → t.files a = s.files a) : Extensible p t := by
  intro hzero
  rw [hhead] at hzero ⊢
  have hmem := hs.head_mem hzero
  have hne : s.openFileList ≠ p := by
    intro heq
    exact hp (heq ▸ hmem)
  obtain ⟨h, hh, _⟩ := hs.alive _ hmem
  exact ⟨hne, h, (hother _ hne).trans hh⟩

/-- A failed opening touches only the memory it was given. -/
theorem Libc.unchanged_of_others {s t : Libc W} {p : ℕ}
    (hp : p ∉ s.opened) (hhead : t.openFileList = s.openFileList)
    (hopened : t.opened = s.opened) (hother : ∀ a, a ≠ p → t.files a = s.files a) :
    Unchanged s t := by
  have hne : ∀ a ∈ s.opened, a ≠ p := by
    rintro a ha rfl
    exact hp ha
  exact {
    head := hhead
    opened := hopened
    next := fun a ha => nextOf_congr (hother a (hne a ha))
    prev := fun a ha => prevOf_congr (hother a (hne a ha))
    alive := fun a ha f hf => ⟨f, (hother a (hne a ha)).trans hf, rfl⟩ }

/-- What was there before memory for a new stream was allocated matters only
outside that memory. -/
theorem Libc.Pushed.of_put {s t : Libc W} {p : ℕ} {f : Option FILE}
    (h : Pushed p (s.put p f) t) : Pushed p s t where
  head := h.head
  opened := h.opened
  next_self := h.next_self
  prev_self := h.prev_self
  next a ha := (h.next a ha).trans (nextOf_congr (put_of_ne s ha f))
  prev_head := h.prev_head
  prev a ha hah := (h.prev a ha hah).trans (prevOf_congr (put_of_ne s ha f))
  alive_self := h.alive_self
  alive a ha g hg := h.alive a ha g ((put_of_ne s ha f).trans hg)

/-- What a proper call can do to the list. -/
inductive Call.Outcome (K : Kernel W) (s : Libc W) (call : Call) (t : Libc W) : Prop
  | unchanged (hkeep : Unchanged s t) (hno : ∀ p, ¬ call.Closes K s p)
  | opened (p : ℕ) (hp : p ∉ s.opened) (hp0 : p ≠ 0) (hpush : Pushed p s t)
      (hno : ∀ p, ¬ call.Closes K s p)
  | closed (p : ℕ) (hp : p ∈ s.opened) (hclose : call.Closes K s p) (hunlink : Unlinked p s t)
  | reopened (p : ℕ) (u : Libc W) (hp : p ∈ s.opened) (hclose : call.Closes K s p)
      (hunlink : Unlinked p s u) (hpush : Pushed p u t)

theorem fopen_outcome (K : Kernel W) {s : Libc W} (hs : s.Intact) {file : ℕ}
    (filename mode : String) (hop : file = 0 ∨ s.files file = none) :
    ∃ res t, fopen K file filename mode s = some (res, t) ∧
      (Call.fopen file filename mode).Outcome K s t := by
  have hno : ∀ p, ¬ (Call.fopen file filename mode).Closes K s p := by
    rintro p ⟨h | ⟨_, _, h⟩, _⟩ <;> cases h
  unfold fopen
  by_cases hzero : file = 0
  · exact ⟨0, s, if_pos hzero, .unchanged (.refl s) hno⟩
  · have hfresh := hs.not_mem_of_none (hop.resolve_left hzero)
    have hext : Extensible file (s.put file (some default)) :=
      hs.extensible hfresh rfl (fun a ha => put_of_ne s ha _)
    rcases fopenStatic_cases K filename mode
        (put_self s file (some default)) rfl rfl hext with ⟨w, heq⟩ | ⟨t, heq, hpush⟩
    · refine ⟨0, { s.put file (some default) with world := w }.put file none,
        by simp [hzero, heq], .unchanged ?_ hno⟩
      refine Libc.unchanged_of_others hfresh rfl rfl fun a ha => ?_
      exact (put_of_ne _ ha _).trans (put_of_ne s ha _)
    · exact ⟨file, t, by simp [hzero, heq], .opened file hfresh hzero hpush.of_put hno⟩

theorem fdopen_outcome (K : Kernel W) {s : Libc W} (hs : s.Intact) {file : ℕ} (fd : ℤ)
    (mode : String) (hop : file = 0 ∨ s.files file = none) :
    ∃ res t, fdopen K file fd mode s = some (res, t) ∧
      (Call.fdopen file fd mode).Outcome K s t := by
  have hno : ∀ p, ¬ (Call.fdopen file fd mode).Closes K s p := by
    rintro p ⟨h | ⟨_, _, h⟩, _⟩ <;> cases h
  unfold fdopen
  by_cases hzero : file = 0
  · exact ⟨0, s, if_pos hzero, .unchanged (.refl s) hno⟩
  · have hfresh := hs.not_mem_of_none (hop.resolve_left hzero)
    have hext : Extensible file (s.put file (some default)) :=
      hs.extensible hfresh rfl (fun a ha => put_of_ne s ha _)
    rcases fdopenStatic_cases K fd mode
        (put_self s file (some default)) rfl rfl hext with heq | ⟨t, heq, hpush⟩
    · refine ⟨0, s.put file (some default), by simp [hzero, heq], .unchanged ?_ hno⟩
      exact Libc.unchanged_of_others hfresh rfl rfl fun a ha => put_of_ne s ha _
    · exact ⟨file, t, by simp [hzero, heq], .opened file hfresh hzero hpush.of_put hno⟩

/-- A stream that keeps its links may change otherwise. -/
theorem Libc.Unchanged.of_links {s : Libc W} {p : ℕ} {f g : FILE} (hf : s.files p = some f)
    (hprev : g.prev = f.prev) (hnext : g.next = f.next) (hreopen : g.implReopen = f.implReopen)
    (w : W) : Unchanged s { s.put p (some g) with world := w } where
  head := rfl
  opened := rfl
  next a _ := by
    by_cases hap : a = p
    · subst hap
      exact (nextOf_of_files (put_self s a (some g))).trans
        (hnext.trans (nextOf_of_files hf).symm)
    · exact nextOf_congr (put_of_ne s hap _)
  prev a _ := by
    by_cases hap : a = p
    · subst hap
      exact (prevOf_of_files (put_self s a (some g))).trans
        (hprev.trans (prevOf_of_files hf).symm)
    · exact prevOf_congr (put_of_ne s hap _)
  alive a _ f' hf' := by
    by_cases hap : a = p
    · subst hap
      obtain rfl := Option.some.inj (hf.symm.trans hf')
      exact ⟨g, put_self s a (some g), hreopen⟩
    · exact ⟨f', (put_of_ne s hap _).trans hf', rfl⟩

theorem Libc.Unchanged.of_handle {s : Libc W} {p : ℕ} {f g : FILE} (hf : s.files p = some f)
    (h : g.handle = f.handle) (w : W) : Unchanged s { s.put p (some g) with world := w } :=
  .of_links hf (FILE.prev_eq h) (FILE.next_eq h) (FILE.implReopen_eq h) w

theorem fclose_outcome (K : Kernel W) {s : Libc W} (hs : s.Intact) {p : ℕ}
    (hp : p ∈ s.opened) :
    ∃ res t, fclose K p s = some (res, t) ∧ (Call.fclose p).Outcome K s t := by
  obtain ⟨f, hf, _⟩ := hs.alive p hp
  have hp0 := hs.ne_zero hp
  unfold fclose
  rcases fcloseStaticUnlocked_cases K hf with
    ⟨hfail, g, w, hkeep, heq⟩ | ⟨hclose, g, t, heq, _, _, _, hunlink⟩
  · refine ⟨EOF, _, by simp [hp0, heq], .unchanged (.of_handle hf hkeep w) ?_⟩
    rintro q ⟨h | ⟨_, _, h⟩, hcloses⟩
    · obtain rfl := Call.fclose.inj h
      exact hfail (hcloses f hf)
    · cases h
  · refine ⟨0, t.put p none, by simp [hp0, heq], .closed p hp ⟨Or.inl rfl, ?_⟩ ?_⟩
    · intro f' hf'
      obtain rfl := Option.some.inj (hf.symm.trans hf')
      exact hclose
    · exact ⟨hunlink.head, hunlink.opened,
        fun a ha => (put_of_ne t ha _).trans (hunlink.others a ha)⟩

theorem freopen_outcome (K : Kernel W) {s : Libc W} (hs : s.Intact) {p : ℕ}
    (filename : Option String) (mode : String) (hp : p ∈ s.opened) :
    ∃ res t, freopen K filename mode p s = some (res, t) ∧
      (Call.freopen filename mode p).Outcome K s t := by
  obtain ⟨f, hf, hreopen⟩ := hs.alive p hp
  have hp0 := hs.ne_zero hp
  unfold freopen
  cases filename with
  | none =>
    have hno : ∀ q, ¬ (Call.freopen none mode p).Closes K s q := by
      rintro q ⟨h | ⟨_, _, h⟩, _⟩ <;> cases h
    rcases hparse : parseModeFlags mode with _ | flags
    · exact ⟨0, s, by simp [hf, implReopen, hparse],
        .unchanged (.refl s) hno⟩
    · refine ⟨p, s.put p (some { f with mode := flags }),
        by simp [hf, hreopen, implReopen, hparse, modify_of_files hf], .unchanged ?_ hno⟩
      exact .of_links (g := { f with mode := flags }) hf rfl rfl rfl s.world
  | some filename =>
    rcases fcloseStaticUnlocked_cases K hf with
      ⟨hfail, g, w, hkeep, heq⟩ | ⟨hclose, g, u, heq, hg, hprev, hnext, hunlink⟩
    · refine ⟨0, _, by simp [hf, hreopen, implReopen, heq],
        .unchanged (.of_handle hf hkeep w) ?_⟩
      rintro q ⟨h | ⟨_, _, h⟩, hcloses⟩
      · cases h
      · obtain ⟨_, _, rfl⟩ := Call.freopen.inj h
        exact hfail (hcloses f hf)
    · have hcloses : (Call.freopen (some filename) mode p).Closes K s p := by
        refine ⟨Or.inr ⟨filename, mode, rfl⟩, ?_⟩
        intro f' hf'
        obtain rfl := Option.some.inj (hf.symm.trans hf')
        exact hclose
      have hext : Extensible p u := by
        intro hzero
        rw [hunlink.head] at hzero ⊢
        by_cases hhead : p = s.openFileList
        · rw [if_pos hhead] at hzero
          exact absurd rfl hzero
        · rw [if_neg hhead] at hzero ⊢
          obtain ⟨h, hh, _⟩ := hs.alive _ (hs.head_mem hzero)
          exact ⟨Ne.symm hhead, h, (hunlink.others _ (Ne.symm hhead)).trans hh⟩
      rcases fopenStatic_cases K filename mode hg hprev hnext hext
        with ⟨w, hopen⟩ | ⟨t, hopen, hpush⟩
      · refine ⟨0, { u with world := w }, by simp [hf, hreopen, implReopen, heq, hopen],
          .closed p hp hcloses ⟨hunlink.head, hunlink.opened, hunlink.others⟩⟩
      · exact ⟨p, t, by simp [hf, hreopen, implReopen, heq, hopen],
          .reopened p u hp hcloses hunlink hpush⟩

/-- Step lemma: a proper call on an intact list is defined and has one of the
four outcomes. -/
theorem Call.step_outcome (K : Kernel W) {s : Libc W} (hs : s.Intact) (call : Call)
    (hop : call.Proper s) : ∃ t, call.step K s = some t ∧ call.Outcome K s t := by
  cases call with
  | fopen file filename mode =>
    obtain ⟨res, t, heq, hout⟩ := fopen_outcome K hs filename mode hop
    exact ⟨t, by simp [Call.step, heq], hout⟩
  | fdopen file fd mode =>
    obtain ⟨res, t, heq, hout⟩ := fdopen_outcome K hs fd mode hop
    exact ⟨t, by simp [Call.step, heq], hout⟩
  | fclose stream =>
    obtain ⟨res, t, heq, hout⟩ := fclose_outcome K hs hop
    exact ⟨t, by simp [Call.step, heq], hout⟩
  | freopen filename mode stream =>
    obtain ⟨res, t, heq, hout⟩ := freopen_outcome K hs filename mode hop
    exact ⟨t, by simp [Call.step, heq], hout⟩

/-- A call that closes nothing, or the only open stream, keeps the list intact. -/
theorem Call.Outcome.intact {K : Kernel W} {s t : Libc W} {call : Call}
    (h : call.Outcome K s t) (hs : s.Intact) (halone : call.ClosesAlone K s) : t.Intact := by
  cases h with
  | unchanged hkeep hno => exact hkeep.intact hs
  | opened p hp hp0 hpush hno => exact hpush.intact hs hp hp0
  | closed p hp hclose hunlink => exact hunlink.intact hs (halone p hclose)
  | reopened p u hp hclose hunlink hpush =>
    have honly := halone p hclose
    refine hpush.intact (hunlink.intact hs honly) ?_ (hs.ne_zero hp)
    rw [hunlink.opened]
    exact Finset.notMem_erase p s.opened

/-- A call that closes one of several open streams breaks the list. -/
theorem Call.Outcome.not_chained {K : Kernel W} {s t : Libc W} {call : Call}
    (h : call.Outcome K s t) (hs : s.Intact) (hnot : ¬ call.ClosesAlone K s) :
    ¬ ∃ list, t.Chained list ∧ ∀ a, a ∈ list ↔ a ∈ t.opened := by
  have hmany : ∃ p, call.Closes K s p ∧ s.opened ≠ {p} := by
    simpa [Call.ClosesAlone] using hnot
  obtain ⟨p, hclose, hne⟩ := hmany
  have hother : p ∈ s.opened → ∃ q ∈ s.opened, q ≠ p := by
    intro hp
    by_contra hall
    refine hne (Finset.eq_singleton_iff_unique_mem.mpr ⟨hp, fun q hq => ?_⟩)
    by_contra hqp
    exact hall ⟨q, hq, hqp⟩
  cases h with
  | unchanged hkeep hno => exact absurd hclose (hno p)
  | opened p' hp hp0 hpush hno => exact absurd hclose (hno p)
  | closed p' hp hclose' hunlink =>
    obtain rfl := hclose.unique hclose'
    obtain ⟨q, hq, hqp⟩ := hother hp
    exact hunlink.not_chained hs hp hq hqp
  | reopened p' u hp hclose' hunlink hpush =>
    obtain rfl := hclose.unique hclose'
    obtain ⟨q, hq, hqp⟩ := hother hp
    exact hunlink.pushed_not_chained hpush hs hp hq hqp

/-- The streams from `p` on, linked and in memory. -/
def Libc.Ahead (s : Libc W) (before p : ℕ) (list : List ℕ) : Prop :=
  Linked s.nextOf s.prevOf 0 before p list ∧ ∀ a ∈ list, ∃ f, s.files a = some f

/-- What a walk does to the stream it is at does not change what lies ahead. -/
theorem Libc.Ahead.tail {s t : Libc W} {before p : ℕ} {list : List ℕ}
    (h : s.Ahead before p (p :: list)) (hother : ∀ b, b ≠ p → t.files b = s.files b) :
    t.Ahead p (s.nextOf p) list := by
  obtain ⟨hlist, halive⟩ := h
  have hnodup := List.nodup_cons.mp hlist.nodup
  have hsame : ∀ b ∈ list, t.files b = s.files b := by
    intro b hb
    apply hother
    rintro rfl
    exact hnodup.1 hb
  obtain ⟨_, _, _, hrest⟩ := hlist
  constructor
  · exact hrest.frame (fun b hb => nextOf_congr (hsame b hb))
      (fun b hb => prevOf_congr (hsame b hb))
  · intro b hb
    rw [hsame b hb]
    exact halive b (List.mem_cons_of_mem p hb)

/-- The loop of `fflush(NULL)` follows the list to its end. -/
theorem fflushList_visits (K : Kernel W) {s : Libc W} {before p : ℕ} {list : List ℕ}
    (h : s.Ahead before p list) (ret : ℤ) :
    ∃ ret' t, fflushList K (list.length + 1) p ret s = some (ret', list, t) := by
  induction list generalizing before p ret s with
  | nil => exact ⟨ret, s, if_pos h.1⟩
  | cons a list ih =>
    obtain rfl := h.1.1
    have hp0 := h.1.ne_null List.mem_cons_self
    obtain ⟨f, hf⟩ := h.2 p List.mem_cons_self
    have hkeep := FILE.handle_of_record (fflushUnlocked_record K ⟨f, s.world⟩)
    rcases hflush : fflushUnlocked K ⟨f, s.world⟩ with ⟨r, v⟩
    rw [hflush] at hkeep
    have hnext : v.stream.next = s.nextOf p :=
      (FILE.next_eq hkeep).trans (nextOf_of_files hf).symm
    have hahead : ({ s.put p (some v.stream) with world := v.world } : Libc W).Ahead p
        v.stream.next list := by
      rw [hnext]
      exact h.tail fun b hb => put_of_ne s hb _
    obtain ⟨ret', u, hu⟩ := ih hahead (Int.lor ret r)
    refine ⟨ret', u, ?_⟩
    unfold fflushList
    simp [hp0, onStream, hf, hflush, hu]

/-- A round of the loop in `__fini_stdio` changes the stream it is at only. -/
theorem finiStream_others (K : Kernel W) {s : Libc W} {p : ℕ} {f : FILE}
    (hf : s.files p = some f) :
    ∃ t, finiStream K p f s = some t ∧ ∀ b, b ≠ p → t.files b = s.files b := by
  unfold finiStream
  by_cases hclose : f.fileDescriptor > 2 ∧ K.mutexTryAcquire f.lock = true
  · rw [if_pos hclose]
    rcases fcloseStaticUnlocked_cases K hf with
      ⟨_, g, w, _, heq⟩ | ⟨_, g, t, heq, _, _, _, hunlink⟩
    · exact ⟨{ s.put p (some g) with world := w }, by simp [heq], fun b hb => put_of_ne s hb _⟩
    · exact ⟨t, by simp [heq], hunlink.others⟩
  · exact ⟨s, if_neg hclose, fun _ _ => rfl⟩

/-- The loop of `__fini_stdio` follows the list to its end. -/
theorem finiStdioList_visits (K : Kernel W) {s : Libc W} {before p : ℕ} {list : List ℕ}
    (h : s.Ahead before p list) :
    ∃ t, finiStdioList K (list.length + 1) p s = some (list, t) := by
  induction list generalizing before p s with
  | nil => exact ⟨s, if_pos h.1⟩
  | cons a list ih =>
    obtain rfl := h.1.1
    have hp0 := h.1.ne_null List.mem_cons_self
    obtain ⟨f, hf⟩ := h.2 p List.mem_cons_self
    have hnext : f.next = s.nextOf p := (nextOf_of_files hf).symm
    obtain ⟨t, heq, hother⟩ := finiStream_others K hf
    obtain ⟨u, hu⟩ := ih (h.tail hother)
    refine ⟨u, ?_⟩
    unfold finiStdioList
    simp [hp0, hf, heq, hnext, hu]

theorem Libc.Intact.integrity {s : Libc W} (hs : s.Intact) (K : Kernel W) :
    s.Integrity K := by
  obtain ⟨list, hlist, hmem⟩ := hs.chained
  have hahead : s.Ahead 0 s.openFileList list := by
    refine ⟨hlist, fun a ha => ?_⟩
    obtain ⟨f, hf, _⟩ := hs.alive a ((hmem a).mp ha)
    exact ⟨f, hf⟩
  obtain ⟨ret, t, hflush⟩ := fflushList_visits K hahead 0
  obtain ⟨u, hfini⟩ := finiStdioList_visits K hahead
  exact {
    chained := ⟨list, hlist, hmem⟩
    flushed := ⟨_, ret, list, t, hflush, hlist.nodup, hmem⟩
    finished := ⟨_, list, u, hfini, hlist.nodup, hmem⟩ }

/-- The list keeps its integrity along exactly the runs in which a stream is
closed only while no other one is open. -/
theorem open_file_list_iff (K : Kernel W) (calls : List Call) (s : Libc W) (hs : s.Intact)
    (hcalls : Guarded (Call.step K) (fun s call => call.Proper s) calls s) :
    Along (Call.step K) (fun s => s.Integrity K) calls s ↔
      Guarded (Call.step K) (fun s call => call.ClosesAlone K s) calls s := by
  apply along_iff_guarded_of (I := Libc.Intact) (A := fun s call => call.Proper s)
  · intro t ht
    exact ht.integrity K
  · intro t call ht hproper halone
    obtain ⟨u, hu, hout⟩ := call.step_outcome K ht hproper
    exact ⟨u, hu, hout.intact ht halone⟩
  · intro t call ht hproper hnot u hu hintegrity
    obtain ⟨v, hv, hout⟩ := call.step_outcome K ht hproper
    obtain rfl := Option.some.inj (hu.symm.trans hv)
    exact hout.not_chained ht hnot hintegrity.chained
  · exact hs
  · exact hcalls

/-- The library before the first stream is opened. -/
def noStreams (world : W) : Libc W := ⟨fun _ => none, 0, world, ∅⟩

theorem noStreams_intact (world : W) : (noStreams world).Intact where
  chained := ⟨[], rfl, fun p => by simp [noStreams]⟩
  alive p hp := by simp [noStreams] at hp

theorem open_file_list_iff_reopen :
    Along (Call.step scriptedKernel) (fun s => s.Integrity scriptedKernel)
        [.fopen 8 "a" "w", .freopen (some "b") "r" 8] (noStreams []) ↔
      Guarded (Call.step scriptedKernel) (fun s call => call.ClosesAlone scriptedKernel s)
        [.fopen 8 "a" "w", .freopen (some "b") "r" 8] (noStreams []) := by
  refine open_file_list_iff scriptedKernel _ _ (noStreams_intact []) ⟨Or.inr rfl, ?_⟩
  intro t ht
  refine ⟨?_, fun _ _ => trivial⟩
  have hopened : ((Call.fopen 8 "a" "w").step scriptedKernel (noStreams [])).map
      Libc.opened = some {8} := by decide
  rw [ht] at hopened
  show 8 ∈ t.opened
  rw [Option.some.inj hopened]
  exact Finset.mem_singleton_self 8

/-- With two streams open, closing the one opened last empties the list. The
other one is still open and is visited no more. -/
theorem open_file_list_close_head :
    Guarded (Call.step scriptedKernel) (fun s call => call.Proper s)
      [.fopen 8 "a" "w", .fopen 16 "b" "w", .fclose 16] (noStreams []) ∧
    (([.fopen 8 "a" "w", .fopen 16 "b" "w", .fclose 16] : List Call).foldlM
        (Call.step scriptedKernel) (noStreams [])).map
      (fun t => (t.openFileList, t.opened)) = some (0, {8}) ∧
    ¬ Along (Call.step scriptedKernel) (fun s => s.Integrity scriptedKernel)
      [.fopen 8 "a" "w", .fopen 16 "b" "w", .fclose 16] (noStreams []) := by
  have hrun : (([.fopen 8 "a" "w", .fopen 16 "b" "w", .fclose 16] : List Call).foldlM
        (Call.step scriptedKernel) (noStreams [])).map
      (fun t => (t.openFileList, t.opened)) = some (0, {8}) := by decide
  refine ⟨⟨Or.inr rfl, fun t ht => ?_⟩, hrun, ?_⟩
  · have hfirst : ((Call.fopen 8 "a" "w").step scriptedKernel (noStreams [])).map
        (fun t => (t.files 16, ((Call.fopen 16 "b" "w").step scriptedKernel t).map
          Libc.opened)) = some (none, some {16, 8}) := by decide
    rw [ht] at hfirst
    obtain ⟨hfresh, hopened⟩ := Prod.mk.inj (Option.some.inj hfirst)
    refine ⟨Or.inr hfresh, fun u hu => ⟨?_, fun _ _ => trivial⟩⟩
    rw [hu] at hopened
    show 16 ∈ u.opened
    rw [Option.some.inj hopened]
    exact Finset.mem_insert_self 16 {8}
  · intro h
    obtain ⟨t, ht, hintegrity⟩ := h.foldlM
    rw [ht] at hrun
    obtain ⟨hhead, hopened⟩ := Prod.mk.inj (Option.some.inj hrun)
    obtain ⟨list, hlist, hmem⟩ := hintegrity.chained
    rw [Libc.Chained, hhead] at hlist
    have hopen : 8 ∈ list := by
      rw [hmem, hopened]
      exact Finset.mem_singleton_self 8
    rw [hlist.eq_nil] at hopen
    cases hopen

end Heartix.Stdio
