import Heartix.Stdio.FileSystem
import Heartix.Stdio.Program

/-!
Opening and closing streams over the files of a kernel. Opening makes an entry
for a new descriptor and maybe empties the file; closing changes nothing but
the stream and what its last flush does.
-/

namespace Heartix.Stdio

open FileTable

variable {W : Type} {K : Kernel W}

theorem openFileListAdd_world {s t : Libc W} {p : ℕ} (h : openFileListAdd p s = some t) :
    t.world = s.world := by
  have hmodify : ∀ {s t : Libc W} {q : ℕ} {change : FILE → FILE},
      s.modify q change = some t → t.world = s.world := by
    intro s t q change hmod
    unfold Libc.modify at hmod
    split at hmod
    · cases hmod
    · obtain rfl := Option.some.inj hmod
      rfl
  unfold openFileListAdd at h
  split at h
  · obtain ⟨u, hu, h⟩ := Option.bind_eq_some_iff.mp h
    obtain ⟨v, hv, h⟩ := Option.bind_eq_some_iff.mp h
    obtain rfl := Option.some.inj h
    exact (hmodify hv).trans (hmodify hu)
  · obtain rfl := Option.some.inj h
    rfl

namespace FileSystem

variable {D : FileSystem K}

/-- The stream at `p` is open on the file `name` through a new descriptor. -/
def Opened (D : FileSystem K) (name : String) (flags : ModeFlags) (p : ℕ) (s t : Libc W) :
    Prop :=
  ∃ fd lock, (D.table s.world).position fd = none ∧
    D.table t.world = (D.table s.world).openAt fd name flags.truncate ∧
    (s.put p (some ((default : FILE).opened fd lock flags))).SameBodies t

theorem fopen_opened (D : FileSystem K) {filename mode : String} {flags : ModeFlags}
    (hflags : parseModeFlags mode = some flags) {file res : ℕ} {s t : Libc W}
    (h : fopen K file filename mode s = some (res, t)) (hres : res ≠ 0) :
    res = file ∧ D.Opened filename flags file s t := by
  unfold fopen at h
  by_cases hfile : file = 0
  · rw [if_pos hfile] at h
    obtain ⟨rfl, -⟩ := Prod.mk.inj (Option.some.inj h)
    exact absurd rfl hres
  · rw [if_neg hfile] at h
    obtain ⟨⟨res', u⟩, hstatic, h⟩ := Option.bind_eq_some_iff.mp h
    dsimp only at h
    by_cases hres' : res' = 0
    · rw [if_pos hres'] at h
      obtain ⟨rfl, -⟩ := Prod.mk.inj (Option.some.inj h)
      exact absurd rfl hres
    · rw [if_neg hres'] at h
      obtain ⟨rfl, rfl⟩ := Prod.mk.inj (Option.some.inj h)
      unfold fopenStatic at hstatic
      rw [hflags] at hstatic
      rcases hcall : K.openFile filename flags s.world with ⟨fd, w⟩
      have hworld : (s.put file (some default)).world = s.world := rfl
      simp only [hworld, hcall] at hstatic
      by_cases hfd : fd = -1
      · rw [if_pos hfd] at hstatic
        obtain ⟨rfl, -⟩ := Prod.mk.inj (Option.some.inj hstatic)
        exact absurd rfl hres'
      · rw [if_neg hfd] at hstatic
        obtain ⟨⟨r, v⟩, hfdopen, hstatic⟩ := Option.bind_eq_some_iff.mp hstatic
        dsimp only at hstatic
        by_cases hr : r = 0
        · rw [if_pos hr] at hstatic
          obtain ⟨rfl, rfl⟩ := Prod.mk.inj (Option.some.inj hstatic)
          refine ⟨rfl, fd, ?_⟩
          obtain ⟨hnew, htable⟩ := D.openFile_some _ _ _ _ _ hcall hfd
          unfold fdopenStatic at hfdopen
          rw [hflags] at hfdopen
          have hmutex := D.mutexInitialize_spec w
          generalize K.mutexInitialize w = result at hfdopen hmutex
          obtain ⟨lock, w'⟩ := result
          dsimp only at hfdopen hmutex
          obtain ⟨x, hx, hfdopen⟩ := Option.bind_eq_some_iff.mp hfdopen
          obtain ⟨y, hy, hfdopen⟩ := Option.bind_eq_some_iff.mp hfdopen
          obtain ⟨-, rfl⟩ := Prod.mk.inj (Option.some.inj hfdopen)
          have hself : (s.put file (some default)).files file = some default :=
            Libc.put_self s file _
          obtain rfl := by simpa [Libc.modify, hself] using hx
          obtain ⟨hsame, -⟩ := openFileListAdd_sameBodies hy
          refine ⟨lock, hnew, ?_, fun q => ?_⟩
          · show D.table y.world = _
            rw [openFileListAdd_world hy]
            exact hmutex.trans htable
          · refine (hsame q).trans ?_
            show ((Function.update (Function.update s.files file _) file _) q).map _ = _
            rw [Function.update_idem]
            rfl
        · rw [if_neg hr] at hstatic
          obtain ⟨rfl, -⟩ := Prod.mk.inj (Option.some.inj hstatic)
          exact absurd rfl hres'

theorem exists_links {x : Option FILE} {f : FILE}
    (h : x.map FILE.unlinked = some f.unlinked) :
    ∃ prev next, x = some { f with prev := prev, next := next } := by
  obtain ⟨g, rfl, hg⟩ := Option.map_eq_some_iff.mp h
  exact ⟨g.prev, g.next, congrArg some (FILE.eq_of_unlinked hg)⟩

/-- A stream opened for reading has delivered nothing yet. -/
theorem Opened.input {name : String} {flags : ModeFlags} {p : ℕ} {s t : Libc W}
    (h : D.Opened name flags p s t) (hread : flags.read = true)
    (htruncate : flags.truncate = false) :
    (∃ f, t.files p = some f ∧ D.Input name (D.table t.world) [] ⟨f, t.world⟩) ∧
      (D.table t.world).content = (D.table s.world).content := by
  obtain ⟨fd, lock, _, htable, hsame⟩ := h
  have hself := hsame p
  rw [Libc.put_self, Option.map_some] at hself
  obtain ⟨prev, next, hfile⟩ := exists_links hself
  refine ⟨⟨_, hfile, ?_⟩, ?_⟩
  · have hfresh : FILE.Fresh { (default : FILE).opened fd lock flags with
        prev := prev, next := next } := ⟨rfl, rfl, rfl, rfl, rfl, fun hset => by cases hset⟩
    exact {
      position := by
        refine ⟨0, ?_, ?_⟩
        · rw [htable]
          exact Function.update_self _ _ _
        · rw [FlatFile.read_zero]
          rfl
      content := rfl
      others := .refl _
      sound := hfresh.sound
      readable := hread
      notWriting := rfl }
  · rw [htable]
    exact if_neg (by simp [htruncate])

/-- A stream opened for writing to an emptied file. -/
theorem Opened.sending {name : String} {flags : ModeFlags} {p : ℕ} {s t : Libc W}
    (h : D.Opened name flags p s t) (hwrite : flags.write = true)
    (htruncate : flags.truncate = true) :
    ∃ g, t.files p = some g ∧ D.Sending name (D.table t.world) flags [] ⟨g, t.world⟩ := by
  obtain ⟨fd, lock, _, htable, hsame⟩ := h
  have hself := hsame p
  rw [Libc.put_self, Option.map_some] at hself
  obtain ⟨prev, next, hfile⟩ := exists_links hself
  have hfresh : FILE.FreshOutput { (default : FILE).opened fd lock flags with
      prev := prev, next := next } :=
    ⟨⟨rfl, rfl, rfl, rfl, rfl, fun hset => by cases hset⟩, hwrite, rfl, rfl, rfl⟩
  refine ⟨_, hfile, ?_⟩
  exact {
    position := by
      rw [htable]
      exact Function.update_self _ _ _
    content := by
      rw [htable]
      unfold openAt
      dsimp only
      rw [if_pos htruncate]
      exact Function.update_self _ _ _
    others := .refl _
    sound := hfresh.sound
    live := hfresh.live
    kept := hfresh.kept
    stored := rfl }

/-- Opening one stream leaves an input stream on another file as it was. -/
theorem Opened.input_other {name other : String} {flags : ModeFlags} {p q : ℕ} {s t : Libc W}
    (h : D.Opened other flags p s t) (hname : name ≠ other) (hq : q ≠ p) {f : FILE}
    (hf : s.files q = some f) {given : List UInt8}
    (hin : D.Input name (D.table s.world) given ⟨f, s.world⟩) :
    (∃ g, t.files q = some g ∧ D.Input name (D.table t.world) given ⟨g, t.world⟩) ∧
      (D.table t.world).content name = (D.table s.world).content name := by
  obtain ⟨fd, lock, hnew, htable, hsame⟩ := h
  have hothers := sameExcept_openAt (D.table s.world) fd other flags.truncate
  rw [← htable] at hothers
  have hother := hsame q
  rw [Libc.put_of_ne s hq, hf, Option.map_some] at hother
  obtain ⟨prev, next, hfile⟩ := exists_links hother
  have hfd : f.fileDescriptor ≠ fd := by
    intro heq
    obtain ⟨offset, hoffset, _⟩ := hin.position
    dsimp only at hoffset
    rw [heq, hnew] at hoffset
    cases hoffset
  have hrebased := hin.rebase (w := t.world) hothers hname hfd
  refine ⟨⟨_, hfile, ?_⟩, hothers.content name hname⟩
  exact ⟨hrebased.position, rfl, .refl _, ⟨⟨hin.sound.write_le, hin.sound.offset_le,
    hin.sound.read_le⟩, hin.sound.buffered, hin.sound.unused⟩, hin.readable, hin.notWriting⟩

end FileSystem

/-- `fclose` leaves the other streams alone; the world is that after closing. -/
theorem fclose_others {s t : Libc W} {p : ℕ} {f : FILE} {r : ℤ} (hp : p ≠ 0)
    (hf : s.files p = some f) (h : fclose K p s = some (r, t)) :
    t.world = (closeStream K ⟨f, s.world⟩).2.world ∧ ∀ q, q ≠ p → t.files q = s.files q := by
  unfold fclose at h
  rw [if_neg hp] at h
  obtain ⟨⟨res, u⟩, hstatic, h⟩ := Option.bind_eq_some_iff.mp h
  obtain ⟨hfiles, hworld⟩ := fcloseStaticUnlocked_eq K hf hstatic
  have hothers : ∀ q, q ≠ p → u.files q = s.files q := by
    intro q hq
    rw [hfiles]
    exact Libc.put_of_ne s hq _
  dsimp only at h
  split at h
  · obtain ⟨-, rfl⟩ := Prod.mk.inj (Option.some.inj h)
    exact ⟨hworld, hothers⟩
  · obtain ⟨-, rfl⟩ := Prod.mk.inj (Option.some.inj h)
    exact ⟨hworld, fun q hq => (Libc.put_of_ne u hq _).trans (hothers q hq)⟩

end Heartix.Stdio
