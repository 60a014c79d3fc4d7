import Heartix.Lib.Fields
import Heartix.Stdlib.Environment
import Heartix.Strings.Characters

/-!
`execvp` and the functions below it. What the kernel answers to a path is a
parameter, and so is which allocations succeed. The strings are pieces of memory
with their terminator.
-/

namespace Heartix.Unistd

open Fields Stdlib Strings

def EIO : ℤ := 30
def ENOENT : ℤ := 46
def ENOEXEC : ℤ := 47
def ENOMEM : ℤ := 50
def ENOTDIR : ℤ := 58
def EPERM : ℤ := 68

def G_SPAWN_STATUS_SUCCESSFUL : UInt8 := 0
def G_SPAWN_STATUS_IO_ERROR : UInt8 := 1
def G_SPAWN_STATUS_MEMORY_ERROR : UInt8 := 2
def G_SPAWN_STATUS_FORMAT_ERROR : UInt8 := 3
def G_SPAWN_STATUS_TASKING_ERROR : UInt8 := 4
def G_SPAWN_STATUS_DEPENDENCY_ERROR : UInt8 := 5

def slash : UInt8 := '/'.toUInt8
def separator : UInt8 := ':'.toUInt8

def execveStatusToErrno (status : UInt8) : ℤ :=
  if status = G_SPAWN_STATUS_MEMORY_ERROR then ENOMEM
  else if status = G_SPAWN_STATUS_FORMAT_ERROR then ENOEXEC
  else if status = G_SPAWN_STATUS_DEPENDENCY_ERROR then ENOENT
  else if status = G_SPAWN_STATUS_TASKING_ERROR then EPERM
  else EIO

/-- The return value and `errno` after the calls, and the paths that the kernel was
asked to execute. -/
structure Outcome where
  ret : ℤ
  errno : ℤ
  attempts : List (List UInt8)
  deriving DecidableEq, Repr

section Functions

variable (gExecve : List UInt8 → UInt8) (malloc : ℕ → Bool)

/-- `execve`. Where the kernel is successful it does not return in fact. -/
def execve (path : List UInt8) (errno : ℤ) : ℤ × ℤ :=
  if gExecve path = G_SPAWN_STATUS_SUCCESSFUL then (0, errno)
  else (-1, execveStatusToErrno (gExecve path))

/-- `execv` hands over the environment. -/
def execv (path : List UInt8) (errno : ℤ) : ℤ × ℤ := execve gExecve path errno

/-- Both branches of `execv_try` return what `execv` has returned. -/
def execvTry (path : List UInt8) (errno : ℤ) : ℤ × ℤ :=
  match execv gExecve path errno with
  | (ret, errno) =>
      if ret = -1 ∧ (errno = ENOENT ∨ errno = ENOTDIR) then (-1, errno) else (ret, errno)

/-- The path for one segment, without its terminator. -/
def fullPath (dir file : List UInt8) (seg_len file_len : ℕ) : List UInt8 :=
  (if seg_len = 0 then ['.'.toUInt8] else dir.take seg_len) ++ slash :: file.take file_len

/-- The loop of `execvp` over the segments, with the number of the next allocation.
It has no result where it would read outside of the strings. -/
def execvpLoop (file : List UInt8) (segment : List UInt8) (n : ℕ) (errno : ℤ) : Option Outcome :=
  match _ : segment with
  | [] => none
  | b :: _ =>
      if b = 0 then some ⟨-1, ENOENT, []⟩
      else
        match strchr segment (charValue separator), strlen segment, strlen file with
        | some colon, some len, some file_len =>
            let seg_len := colon.getD len
            if malloc n = false then some ⟨-1, ENOMEM, []⟩
            else
              let full := fullPath segment file seg_len file_len
              match execvTry gExecve full errno with
              | (ret, errno) =>
                  if ret ≠ -1 ∨ errno ≠ ENOENT then some ⟨ret, errno, [full]⟩
                  else
                    match colon with
                    | none => some ⟨-1, ENOENT, [full]⟩
                    | some i =>
                        (execvpLoop file (segment.drop (i + 1)) (n + 1) errno).map fun o =>
                          { o with attempts := full :: o.attempts }
        | _, _, _ => none
termination_by segment.length
decreasing_by
  simp only [*, List.length_drop, List.length_cons]
  omega

def PATH : List UInt8 := bytes "PATH"

def defaultPath : List UInt8 := bytes "/bin:/usr/bin"

/-- `execvp`, where `none` is a NULL name. -/
def execvp (environ : Environ) (file : Option (List UInt8)) (errno : ℤ) : Option Outcome :=
  match file with
  | none => some ⟨-1, ENOENT, []⟩
  | some [] => none
  | some (b :: file) =>
      if b = 0 then some ⟨-1, ENOENT, []⟩
      else
        match strchr (b :: file) (charValue slash) with
        | none => none
        | some (some _) =>
            match strlen (b :: file) with
            | none => none
            | some len =>
                let path := (b :: file).take len
                match execv gExecve path errno with
                | (ret, errno) => some ⟨ret, errno, [path]⟩
        | some none =>
            match getenv (some PATH) environ with
            | none => none
            | some value =>
                let path := if value.getD [] = [] then defaultPath else value.getD []
                execvpLoop gExecve malloc (b :: file) (path ++ [0]) 0 errno

end Functions

section Search

/-- The directory that a segment stands for, and the file in it. -/
def candidate (file segment : List UInt8) : List UInt8 :=
  (if segment = [] then ['.'.toUInt8] else segment) ++ slash :: file

/-- The candidates of a search path; an unset variable stands for the default. -/
def candidates (file : List UInt8) (value : Option (List UInt8)) : List (List UInt8) :=
  ((value.getD defaultPath).splitOn separator).map (candidate file)

/-- The candidates are tried in their order, and the first that exists is executed.
`ENOENT` says that there is none. -/
structure Searches (gExecve : List UInt8 → UInt8) (exist : List UInt8 → Bool)
    (paths : List (List UInt8)) (errno : ℤ) (o : Outcome) : Prop where
  attempts : o.attempts = paths.takeWhile (fun path => !exist path) ++ (paths.find? exist).toList
  executes : ∀ path, paths.find? exist = some path → (o.ret, o.errno) = execve gExecve path errno
  fails : paths.find? exist = none → o.ret = -1
  enoent : o.ret = -1 → o.errno = ENOENT → paths.find? exist = none

variable {gExecve : List UInt8 → UInt8} {malloc : ℕ → Bool} {exist : List UInt8 → Bool}
  {file v : List UInt8} {n : ℕ} {errno : ℤ}

theorem execvTry_eq (path : List UInt8) (errno : ℤ) :
    execvTry gExecve path errno = execve gExecve path errno := by
  unfold execvTry execv
  split
  rename_i ret e heq
  split
  · rename_i hcond
    rw [heq, hcond.1]
  · rw [heq]

theorem execve_eq_enoent_iff (gExecve : List UInt8 → UInt8) (path : List UInt8) (errno : ℤ) :
    ((execve gExecve path errno).1 = -1 ∧ (execve gExecve path errno).2 = ENOENT) ↔
      gExecve path = G_SPAWN_STATUS_DEPENDENCY_ERROR := by
  unfold execve execveStatusToErrno
  by_cases hok : gExecve path = G_SPAWN_STATUS_SUCCESSFUL
  · rw [if_pos hok, hok]
    exact iff_of_false (fun h => absurd h.1 (show (0 : ℤ) ≠ -1 by decide)) (by decide)
  · rw [if_neg hok]
    by_cases hdep : gExecve path = G_SPAWN_STATUS_DEPENDENCY_ERROR
    · rw [hdep]
      decide
    · refine iff_of_false ?_ hdep
      rintro ⟨_, herrno⟩
      rw [if_neg hdep] at herrno
      split at herrno
      · exact absurd herrno (by decide)
      · split at herrno
        · exact absurd herrno (by decide)
        · split at herrno
          · exact absurd herrno (by decide)
          · exact absurd herrno (by decide)

theorem fullPath_eq {a w : List UInt8} :
    fullPath (a ++ w) (file ++ [0]) a.length file.length = candidate file a := by
  unfold fullPath candidate
  rw [List.take_left' rfl, List.take_left' rfl]
  by_cases ha : a = []
  · rw [if_pos ha, if_pos (by rw [ha]; rfl)]
  · rw [if_neg ha, if_neg fun hlen => ha (List.length_eq_zero_iff.1 hlen)]

/-- The answer of one attempt, and whether the loop goes on. -/
def attempt (gExecve : List UInt8 → UInt8) (path : List UInt8) (errno : ℤ)
    (rest : Option Outcome) : Option Outcome :=
  if gExecve path = G_SPAWN_STATUS_DEPENDENCY_ERROR then
    rest.map fun o => { o with attempts := path :: o.attempts }
  else some ⟨(execve gExecve path errno).1, (execve gExecve path errno).2, [path]⟩

/-- One round of the loop, for a segment with these characters. -/
theorem execvpLoop_round {segment a w : List UInt8} {colon : Option ℕ} {len : ℕ}
    (hfile : 0 ∉ file) (hhead : segment.headD 0 ≠ 0) (hsegment : segment = a ++ w)
    (hchr : strchr segment (charValue separator) = some colon)
    (hlen : strlen segment = some len) (ha : colon.getD len = a.length) :
    execvpLoop gExecve malloc (file ++ [0]) segment n errno =
      if malloc n = false then some ⟨-1, ENOMEM, []⟩
      else attempt gExecve (candidate file a) errno
        (match colon with
        | none => some ⟨-1, ENOENT, []⟩
        | some i =>
            execvpLoop gExecve malloc (file ++ [0]) (segment.drop (i + 1)) (n + 1) ENOENT) := by
  have hfull : fullPath segment (file ++ [0]) a.length file.length = candidate file a := by
    rw [hsegment]
    exact fullPath_eq
  rcases segment with _ | ⟨b, segment⟩
  · exact absurd rfl hhead
  · have hb : b ≠ 0 := hhead
    rw [execvpLoop]
    simp only [if_neg hb, hchr, hlen, strlen_terminated hfile [], ha, hfull, execvTry_eq]
    by_cases hmalloc : malloc n = false
    · rw [if_pos hmalloc, if_pos hmalloc]
    · rw [if_neg hmalloc, if_neg hmalloc, attempt]
      have hdep := execve_eq_enoent_iff gExecve (candidate file a) errno
      by_cases hstatus : gExecve (candidate file a) = G_SPAWN_STATUS_DEPENDENCY_ERROR
      · obtain ⟨hret, herrno⟩ := hdep.2 hstatus
        have hcond : ¬((execve gExecve (candidate file a) errno).1 ≠ -1 ∨
            (execve gExecve (candidate file a) errno).2 ≠ ENOENT) := by
          simp [hret, herrno]
        rw [if_pos hstatus, if_neg hcond]
        cases colon with
        | none => rfl
        | some i => simp only [herrno]
      · have hcond : (execve gExecve (candidate file a) errno).1 ≠ -1 ∨
            (execve gExecve (candidate file a) errno).2 ≠ ENOENT := by
          rw [← not_and_or]
          exact mt hdep.1 hstatus
        rw [if_neg hstatus, if_pos hcond]

/-- The last segment. -/
theorem execvpLoop_last (hv : v ≠ []) (h0 : 0 ∉ v) (hfile : 0 ∉ file) (hsep : separator ∉ v) :
    execvpLoop gExecve malloc (file ++ [0]) (v ++ [0]) n errno =
      if malloc n = false then some ⟨-1, ENOMEM, []⟩
      else attempt gExecve (candidate file v) errno (some ⟨-1, ENOENT, []⟩) := by
  have hchr := strchr_charValue h0 [] separator
  rw [if_neg hsep] at hchr
  have hhead : (v ++ [0]).headD 0 ≠ 0 := by
    obtain ⟨b, v', rfl⟩ := List.exists_cons_of_ne_nil hv
    exact fun h => h0 (h ▸ List.mem_cons_self)
  exact execvpLoop_round hfile hhead rfl hchr (strlen_terminated h0 []) rfl

/-- A segment with others behind it. -/
theorem execvpLoop_segment (gExecve : List UInt8 → UInt8) (malloc : ℕ → Bool) (n : ℕ) (errno : ℤ)
    {a w : List UInt8} (h0 : 0 ∉ a ++ separator :: w) (hfile : 0 ∉ file)
    (hsep : separator ∉ a) :
    execvpLoop gExecve malloc (file ++ [0]) (a ++ separator :: w ++ [0]) n errno =
      if malloc n = false then some ⟨-1, ENOMEM, []⟩
      else attempt gExecve (candidate file a) errno
        (execvpLoop gExecve malloc (file ++ [0]) (w ++ [0]) (n + 1) ENOENT) := by
  have hchr := strchr_charValue h0 [] separator
  have hidx : (a ++ separator :: w).idxOf separator = a.length := by
    rw [List.idxOf_append_of_notMem hsep, List.idxOf_cons_self, Nat.add_zero]
  rw [if_pos (List.mem_append_right a List.mem_cons_self), hidx] at hchr
  have hhead : (a ++ separator :: w ++ [0]).headD 0 ≠ 0 := by
    rcases a with _ | ⟨b, a⟩
    · exact show separator ≠ 0 by decide
    · exact fun h => h0 (h ▸ List.mem_cons_self)
  have hdrop : (a ++ separator :: w ++ [0]).drop (a.length + 1) = w ++ [0] := by
    rw [List.append_assoc, List.drop_append, List.drop_eq_nil_of_le (Nat.le_succ _),
      Nat.add_sub_cancel_left]
    rfl
  rw [execvpLoop_round hfile hhead (List.append_assoc a _ _) hchr (strlen_terminated h0 []) rfl]
  simp only [hdrop]

/-- A string up to its first separator. -/
theorem exists_segment (v : List UInt8) :
    separator ∉ v ∨ ∃ a w, separator ∉ a ∧ v = a ++ separator :: w := by
  by_cases hmem : separator ∈ v
  · obtain ⟨a, w, hv, ha⟩ := List.eq_append_cons_of_mem hmem
    exact Or.inr ⟨a, w, ha, hv⟩
  · exact Or.inl hmem

theorem attempt_head {path : List UInt8} {rest o : Outcome}
    (h : attempt gExecve path errno (some rest) = some o) : o.attempts.head? = some path := by
  unfold attempt at h
  split at h
  · obtain rfl := Option.some.inj h
    rfl
  · obtain rfl := Option.some.inj h
    rfl

theorem attempt_errno {path : List UInt8} {rest o : Outcome}
    (hstatus : gExecve path = G_SPAWN_STATUS_IO_ERROR)
    (h : attempt gExecve path errno (some rest) = some o) : o.errno = EIO := by
  rw [attempt, hstatus, if_neg (by decide), Option.some.injEq] at h
  subst h
  unfold execve execveStatusToErrno
  rw [hstatus]
  rfl

theorem attempt_some (gExecve : List UInt8 → UInt8) (path : List UInt8) (errno : ℤ)
    (rest : Outcome) : ∃ o, attempt gExecve path errno (some rest) = some o := by
  unfold attempt
  split
  · exact ⟨_, rfl⟩
  · exact ⟨_, rfl⟩

/-- The loop comes to an end and reads nothing outside of the strings. -/
theorem execvpLoop_some (gExecve : List UInt8 → UInt8) (malloc : ℕ → Bool) (h0 : 0 ∉ v)
    (hfile : 0 ∉ file) (n : ℕ) (errno : ℤ) :
    ∃ o, execvpLoop gExecve malloc (file ++ [0]) (v ++ [0]) n errno = some o := by
  induction hl : v.length using Nat.strongRecOn generalizing v n errno with
  | ind l ih =>
    rcases exists_segment v with hsep | ⟨a, w, hsep, rfl⟩
    · by_cases hv : v = []
      · subst hv
        exact ⟨⟨-1, ENOENT, []⟩, by rw [List.nil_append, execvpLoop]; rfl⟩
      · rw [execvpLoop_last hv h0 hfile hsep]
        split
        · exact ⟨_, rfl⟩
        · exact attempt_some gExecve _ errno _
    · rw [execvpLoop_segment gExecve malloc n errno h0 hfile hsep]
      have hw : 0 ∉ w := fun hmem => h0 (List.mem_append_right a (List.mem_cons_of_mem _ hmem))
      have hlt : w.length < l := by
        rw [← hl, List.length_append, List.length_cons]
        omega
      obtain ⟨o, ho⟩ := ih w.length hlt hw (n + 1) ENOENT rfl
      rw [ho]
      split
      · exact ⟨_, rfl⟩
      · exact attempt_some gExecve _ errno o

/-- The first round on a path: the allocation fails, or the first candidate is
attempted. -/
theorem execvpLoop_first (gExecve : List UInt8 → UInt8) (malloc : ℕ → Bool) (hv : v ≠ [])
    (h0 : 0 ∉ v) (hfile : 0 ∉ file) (n : ℕ) (errno : ℤ) :
    ∃ first others, (v.splitOn separator).map (candidate file) = first :: others ∧
      (others = [] ↔ separator ∉ v) ∧
      ∃ o, execvpLoop gExecve malloc (file ++ [0]) (v ++ [0]) n errno = some o ∧
        ((malloc n = false ∧ o = ⟨-1, ENOMEM, []⟩) ∨
          (malloc n = true ∧ ∃ rest, attempt gExecve first errno (some rest) = some o)) := by
  have hround : ∀ {first rest}, execvpLoop gExecve malloc (file ++ [0]) (v ++ [0]) n errno =
        (if malloc n = false then some ⟨-1, ENOMEM, []⟩
        else attempt gExecve first errno (some rest)) →
      ∃ o, execvpLoop gExecve malloc (file ++ [0]) (v ++ [0]) n errno = some o ∧
        ((malloc n = false ∧ o = ⟨-1, ENOMEM, []⟩) ∨
          (malloc n = true ∧ ∃ rest, attempt gExecve first errno (some rest) = some o)) := by
    intro first rest heq
    by_cases hmalloc : malloc n = false
    · rw [if_pos hmalloc] at heq
      exact ⟨_, heq, Or.inl ⟨hmalloc, rfl⟩⟩
    · rw [if_neg hmalloc] at heq
      obtain ⟨o, ho⟩ := attempt_some gExecve first errno rest
      exact ⟨o, heq.trans ho, Or.inr ⟨Bool.eq_true_of_not_eq_false hmalloc, rest, ho⟩⟩
  rcases exists_segment v with hsep | ⟨a, w, hsep, rfl⟩
  · refine ⟨candidate file v, [], ?_, iff_of_true rfl hsep,
      hround (execvpLoop_last hv h0 hfile hsep)⟩
    rw [List.splitOn_eq_singleton hsep, List.map_singleton]
  · have hw : 0 ∉ w := fun hmem => h0 (List.mem_append_right a (List.mem_cons_of_mem _ hmem))
    obtain ⟨rest, hrest⟩ := execvpLoop_some gExecve malloc hw hfile (n + 1) ENOENT
    have hsegment := execvpLoop_segment gExecve malloc n errno h0 hfile hsep
    rw [hrest] at hsegment
    refine ⟨candidate file a, (w.splitOn separator).map (candidate file), ?_, ?_,
      hround hsegment⟩
    · rw [List.splitOn_append_cons_self_of_not_mem hsep, List.map_cons]
    · refine iff_of_false ?_ fun h => h (List.mem_append_right a List.mem_cons_self)
      simp

end Search

section Result

variable {gExecve : List UInt8 → UInt8} {malloc : ℕ → Bool} {exist : List UInt8 → Bool}
  {file : List UInt8} {paths : List (List UInt8)} {first : List UInt8} {errno : ℤ} {o : Outcome}

/-- A search begins with the first path. -/
theorem Searches.head_eq (h : Searches gExecve exist (first :: paths) errno o) :
    o.attempts.head? = some first := by
  rw [h.attempts]
  by_cases hexist : exist first = true
  · rw [List.find?_cons_of_pos hexist, List.takeWhile_cons_of_neg (by simp [hexist])]
    rfl
  · rw [List.takeWhile_cons_of_pos (by simp [hexist])]
    rfl

/-- Where the first path exists, an attempt that ends there is the search. -/
theorem searches_of_exist (hexist : exist first = true)
    (hstatus : gExecve first ≠ G_SPAWN_STATUS_DEPENDENCY_ERROR) :
    Searches gExecve exist (first :: paths) errno
      ⟨(execve gExecve first errno).1, (execve gExecve first errno).2, [first]⟩ := by
  have hfind : (first :: paths).find? exist = some first := List.find?_cons_of_pos hexist
  refine ⟨?_, ?_, ?_, ?_⟩
  · rw [hfind, List.takeWhile_cons_of_neg (by simp [hexist])]
    rfl
  · intro path hpath
    rw [hfind, Option.some.injEq] at hpath
    rw [hpath]
  · intro hnone
    rw [hfind] at hnone
    exact absurd hnone (by simp)
  · intro hret herrno
    exact absurd ((execve_eq_enoent_iff gExecve first errno).1 ⟨hret, herrno⟩) hstatus

/-- Where it does not exist, that is so only if there is no other path. -/
theorem searches_iff_of_not_exist (hexist : exist first = false)
    (hstatus : gExecve first = G_SPAWN_STATUS_IO_ERROR) :
    Searches gExecve exist (first :: paths) errno
      ⟨(execve gExecve first errno).1, (execve gExecve first errno).2, [first]⟩ ↔
      paths = [] := by
  have hresult : execve gExecve first errno = (-1, EIO) := by
    unfold execve execveStatusToErrno
    rw [hstatus]
    rfl
  rw [hresult]
  constructor
  · intro hsearches
    have hattempts := hsearches.attempts
    rw [List.takeWhile_cons_of_pos (by simp [hexist]), List.find?_cons_of_neg (by simp [hexist]),
      List.cons_append, List.cons.injEq] at hattempts
    have hnil := hattempts.2.symm
    rw [List.append_eq_nil_iff] at hnil
    rcases paths with _ | ⟨path, paths⟩
    · rfl
    · by_cases hpath : exist path = true
      · have hsome := hnil.2
        rw [List.find?_cons_of_pos hpath] at hsome
        exact absurd hsome (by simp)
      · have hcons := hnil.1
        rw [List.takeWhile_cons_of_pos (by simp [hpath])] at hcons
        exact absurd hcons (by simp)
  · rintro rfl
    have hfind : [first].find? exist = none := by
      rw [List.find?_cons_of_neg (by simp [hexist])]
      rfl
    refine ⟨?_, ?_, fun _ => rfl, ?_⟩
    · rw [hfind, List.takeWhile_cons_of_pos (by simp [hexist])]
      rfl
    · intro path hpath
      rw [hfind] at hpath
      exact absurd hpath (by simp)
    · intro _ herrno
      exact absurd herrno (show EIO ≠ ENOENT by decide)

/-- What the first round of the loop leaves of the search. -/
theorem searches_attempt_iff (hopen : ∀ path, exist path = false →
      gExecve path = G_SPAWN_STATUS_IO_ERROR) (paths : List (List UInt8)) {rest : Outcome}
    (h : attempt gExecve first errno (some rest) = some o) :
    Searches gExecve exist (first :: paths) errno o ↔
      (exist first = true ∧ gExecve first ≠ G_SPAWN_STATUS_DEPENDENCY_ERROR) ∨
        (exist first = false ∧ paths = []) := by
  by_cases hdep : gExecve first = G_SPAWN_STATUS_DEPENDENCY_ERROR
  · have hexist : exist first = true := by
      by_contra hnot
      have hio := hopen first (Bool.eq_false_iff.2 hnot)
      rw [hdep] at hio
      exact absurd hio (by decide)
    have hfind : (first :: paths).find? exist = some first := List.find?_cons_of_pos hexist
    refine iff_of_false ?_ (by simp [hdep, hexist])
    intro hsearches
    have hresult := hsearches.executes first hfind
    obtain ⟨hret, herrno⟩ := (execve_eq_enoent_iff gExecve first errno).2 hdep
    rw [← hresult] at hret herrno
    have hnone := hsearches.enoent hret herrno
    rw [hfind] at hnone
    exact absurd hnone (by simp)
  · rw [attempt, if_neg hdep, Option.some.injEq] at h
    subst h
    by_cases hexist : exist first = true
    · exact iff_of_true (searches_of_exist hexist hdep) (Or.inl ⟨hexist, hdep⟩)
    · have hfalse := Bool.eq_false_iff.2 hexist
      rw [searches_iff_of_not_exist hfalse (hopen first hfalse)]
      simp [hexist]

theorem execvp_eq_loop (gExecve : List UInt8 → UInt8) (malloc : ℕ → Bool) (errno : ℤ)
    {environ : Environ} {value : Option (List UInt8)} (hfile : file ≠ []) (h0 : 0 ∉ file)
    (hslash : slash ∉ file) (henv : getenv (some PATH) environ = some value) :
    execvp gExecve malloc environ (some (file ++ [0])) errno =
      execvpLoop gExecve malloc (file ++ [0])
        ((if value.getD [] = [] then defaultPath else value.getD []) ++ [0]) 0 errno := by
  have hchr := strchr_charValue h0 [] slash
  rw [if_neg hslash] at hchr
  obtain ⟨b, rest, rfl⟩ := List.exists_cons_of_ne_nil hfile
  have hb : b ≠ 0 := fun h => h0 (h ▸ List.mem_cons_self)
  rw [List.cons_append] at hchr ⊢
  simp only [execvp, if_neg hb, hchr, henv]

/-- `execvp` searches the path where the first segment has the file and the kernel
does not answer that a dependency is missing, or where there is one segment only.
With `ENOENT` for a file that is in no segment, only the first case is left. -/
theorem execvp_searches_iff (malloc : ℕ → Bool) {environ : Environ}
    {value : Option (List UInt8)}
    (hopen : ∀ path, exist path = false → gExecve path = G_SPAWN_STATUS_IO_ERROR)
    (hfile : file ≠ []) (h0 : 0 ∉ file) (hslash : slash ∉ file)
    (henv : getenv (some PATH) environ = some value) (hvalue : 0 ∉ value.getD []) (errno : ℤ) :
    ∃ first others o, candidates file value = first :: others ∧
      execvp gExecve malloc environ (some (file ++ [0])) errno = some o ∧
      (Searches gExecve exist (candidates file value) errno o ↔
        value ≠ some [] ∧ malloc 0 = true ∧
          ((exist first = true ∧ gExecve first ≠ G_SPAWN_STATUS_DEPENDENCY_ERROR) ∨
            (exist first = false ∧ others = []))) ∧
      (Searches gExecve exist (candidates file value) errno o ∧
          ((candidates file value).find? exist = none → o.errno = ENOENT) ↔
        value ≠ some [] ∧ malloc 0 = true ∧
          exist first = true ∧ gExecve first ≠ G_SPAWN_STATUS_DEPENDENCY_ERROR) := by
  rw [execvp_eq_loop gExecve malloc errno hfile h0 hslash henv]
  by_cases hempty : value = some []
  · subst hempty
    have hsingle : candidates file (some []) = [candidate file []] := rfl
    have hnone : (some ([] : List UInt8)).getD [] = [] := rfl
    rw [if_pos hnone]
    obtain ⟨first, others, hsplit, _, o, hrun, hround⟩ :=
      execvpLoop_first gExecve malloc (v := defaultPath) (by decide) (by decide) h0 0 errno
    have hfirst : candidate file (bytes "/bin") = first := (List.cons.inj hsplit).1
    have hnot : ¬Searches gExecve exist [candidate file []] errno o := by
      intro hsearches
      have hhead := hsearches.head_eq
      rcases hround with ⟨_, hfail⟩ | ⟨_, rest, hattempt⟩
      · rw [hfail] at hhead
        exact absurd hhead (by simp)
      · rw [attempt_head hattempt, ← hfirst, Option.some.injEq] at hhead
        exact absurd (List.cons.inj hhead).1 (by decide)
    refine ⟨candidate file [], [], o, hsingle, hrun, ?_, ?_⟩
    · exact iff_of_false hnot fun h => h.1 rfl
    · exact iff_of_false (fun h => hnot h.1) fun h => h.1 rfl
  · have hpath : (if value.getD [] = [] then defaultPath else value.getD []) =
        value.getD defaultPath := by
      rcases value with _ | v
      · rfl
      · exact if_neg fun hnil => hempty (congrArg some hnil)
    have hpath0 : 0 ∉ value.getD defaultPath := by
      rcases value with _ | v
      · decide
      · exact hvalue
    have hpathne : value.getD defaultPath ≠ [] := by
      rcases value with _ | v
      · decide
      · exact fun hnil => hempty (congrArg some hnil)
    rw [hpath]
    obtain ⟨first, others, hsplit, _, o, hrun, hround⟩ :=
      execvpLoop_first gExecve malloc hpathne hpath0 h0 0 errno
    have hcandidates : candidates file value = first :: others := hsplit
    refine ⟨first, others, o, hcandidates, hrun, ?_⟩
    rw [hcandidates]
    rcases hround with ⟨hmalloc, hfail⟩ | ⟨hmalloc, rest, hattempt⟩
    · have hnot : ¬Searches gExecve exist (first :: others) errno o := by
        intro hsearches
        have hhead := hsearches.head_eq
        rw [hfail] at hhead
        exact absurd hhead (by simp)
      rw [hmalloc]
      exact ⟨iff_of_false hnot (by simp), iff_of_false (fun h => hnot h.1) (by simp)⟩
    · have hiff := searches_attempt_iff hopen others hattempt
      rw [and_iff_right hempty, and_iff_right hmalloc, and_iff_right hempty, and_iff_right hmalloc]
      refine ⟨hiff, ?_, ?_⟩
      · rintro ⟨hsearches, herrno⟩
        rcases hiff.1 hsearches with hfound | ⟨hexist, rfl⟩
        · exact hfound
        · have hfind : [first].find? exist = none := by
            rw [List.find?_cons_of_neg (by simp [hexist])]
            rfl
          rw [attempt_errno (hopen first hexist) hattempt] at herrno
          exact absurd (herrno hfind) (by decide)
      · rintro ⟨hexist, hstatus⟩
        refine ⟨hiff.2 (Or.inl ⟨hexist, hstatus⟩), ?_⟩
        intro hnone
        rw [List.find?_cons_of_pos hexist] at hnone
        exact absurd hnone (by simp)

/-- A file `f` in the second of two directories. -/
def inSecondDirectory (path : List UInt8) : Bool := path = bytes "/b/f"

def twoDirectories : Environ := some [.entry (bytes "PATH=/a:/b"), .null]

def answerOfKernel (path : List UInt8) : UInt8 :=
  if inSecondDirectory path then G_SPAWN_STATUS_SUCCESSFUL else G_SPAWN_STATUS_IO_ERROR

theorem answerOfKernel_missing (path : List UInt8) (h : inSecondDirectory path = false) :
    answerOfKernel path = G_SPAWN_STATUS_IO_ERROR := by
  rw [answerOfKernel, h]
  rfl

theorem execvp_searches_iff_two :
    ∃ first others o, candidates (bytes "f") (some (bytes "/a:/b")) = first :: others ∧
      execvp answerOfKernel (fun _ => true) twoDirectories (some (bytes "f" ++ [0])) 0 = some o ∧
      (Searches answerOfKernel inSecondDirectory (candidates (bytes "f") (some (bytes "/a:/b"))) 0
          o ↔ some (bytes "/a:/b") ≠ some [] ∧ true = true ∧
        ((inSecondDirectory first = true ∧
            answerOfKernel first ≠ G_SPAWN_STATUS_DEPENDENCY_ERROR) ∨
          (inSecondDirectory first = false ∧ others = []))) ∧
      (Searches answerOfKernel inSecondDirectory (candidates (bytes "f") (some (bytes "/a:/b"))) 0
          o ∧ ((candidates (bytes "f") (some (bytes "/a:/b"))).find? inSecondDirectory = none →
            o.errno = ENOENT) ↔
        some (bytes "/a:/b") ≠ some [] ∧ true = true ∧ inSecondDirectory first = true ∧
          answerOfKernel first ≠ G_SPAWN_STATUS_DEPENDENCY_ERROR) :=
  execvp_searches_iff (fun _ => true) answerOfKernel_missing (by decide) (by decide)
    (by decide) (by decide) (by decide) 0

/-- The second directory is not tried. -/
theorem execvp_stops_early : ¬∃ o,
    execvp answerOfKernel (fun _ => true) twoDirectories (some (bytes "f" ++ [0])) 0 = some o ∧
      Searches answerOfKernel inSecondDirectory (candidates (bytes "f") (some (bytes "/a:/b"))) 0
        o := by
  rintro ⟨o, hcall, hsearches⟩
  have henv : getenv (some PATH) twoDirectories = some (some (bytes "/a:/b")) := by decide
  rw [execvp_eq_loop answerOfKernel (fun _ => true) 0 (by decide) (by decide) (by decide) henv,
    if_neg (by decide)] at hcall
  have hsplit : (some (bytes "/a:/b")).getD [] = bytes "/a" ++ separator :: bytes "/b" := by decide
  rw [hsplit, execvpLoop_segment answerOfKernel (fun _ => true) 0 0 (by decide) (by decide)
    (by decide), if_neg (by decide), attempt, if_neg (by decide), Option.some.injEq] at hcall
  have hexecuted := hsearches.executes (bytes "/b/f") (by decide)
  rw [← hcall] at hexecuted
  exact absurd hexecuted (by decide)

end Result

end Heartix.Unistd
