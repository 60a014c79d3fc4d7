import Heartix.Strings.Tokens
import Mathlib.Data.List.Count

/-!
Iterations of `strtok_r` and `strtok`. Between two calls the string is cut into
the tokens returned, which keep their text, and the rest, which is as it was.
-/

namespace Heartix.Strings

open MaximalRuns

/-- The tokens of an iteration, by their first position and the position behind. -/
def Iteration.tokens (x : Iteration) : List (ℕ × ℕ) := runs (inToken x.delimiters) x.content

def Iteration.text (x : Iteration) (token : ℕ × ℕ) : List UInt8 :=
  (x.content.drop token.1).take (token.2 - token.1)

/-- What the call after `m` calls returns. -/
def Iteration.answer (x : Iteration) (m : ℕ) : Option ℕ :=
  x.tokens[m]?.map fun token => x.string + token.1

/-- The memory holds the string and the delimiters. -/
structure Iteration.PlacedIn (x : Iteration) (memory : List UInt8) : Prop where
  string : HoldsAt memory x.string x.content
  delims : HoldsAt memory x.delim x.delimiters

/-- Two strings with their terminators do not overlap. -/
def Apart (a n b m : ℕ) : Prop := a + n < b ∨ b + m < a

/-- After `m` calls the rest of the string begins at the position `k`. -/
structure Progress (memory : List UInt8) (x : Iteration) (m k : ℕ) : Prop where
  within : k ≤ x.content.length
  rest : HoldsAt memory (x.string + k) (x.content.drop k)
  remaining : x.tokens.drop m = runsFrom (inToken x.delimiters) k (x.content.drop k)
  cut : ∀ token ∈ x.tokens.take m,
    token.2 ≤ k ∧ HoldsAt memory (x.string + token.1) (x.text token)
  delims : HoldsAt memory x.delim x.delimiters

section Steps

variable {memory : List UInt8} {x : Iteration} {m k : ℕ}

theorem Iteration.PlacedIn.progress (h : x.PlacedIn memory) : Progress memory x 0 0 :=
  ⟨Nat.zero_le _, h.string, rfl, by simp, h.delims⟩

theorem Iteration.length_text_le (x : Iteration) (token : ℕ × ℕ) :
    (x.text token).length ≤ token.2 - token.1 := by
  rw [Iteration.text, List.length_take]
  exact Nat.min_le_left _ _

theorem Progress.terminator (h : Progress memory x m k) :
    memory[x.string + x.content.length]? = some 0 := by
  have hwithin := h.within
  have hend := h.rest (x.content.length - k) (by rw [List.length_drop])
  rw [Nat.add_assoc, Nat.add_sub_cancel' hwithin] at hend
  rw [hend, ← List.length_drop, List.getElem?_append_right le_rfl, Nat.sub_self]
  rfl

theorem Progress.getElem? (h : Progress memory x m k) {i : ℕ} (hk : k ≤ i)
    (hi : i < x.content.length) : memory[x.string + i]? = some x.content[i] := by
  have hat := h.rest (i - k) (by rw [List.length_drop]; omega)
  rw [Nat.add_assoc, Nat.add_sub_cancel' hk, List.getElem?_append_left
    (by rw [List.length_drop]; omega), List.getElem?_drop, Nat.add_sub_cancel' hk] at hat
  rw [hat, List.getElem?_eq_getElem]

theorem Iteration.content_ne_zero (x : Iteration) {i : ℕ} (hi : i < x.content.length) :
    x.content[i] ≠ 0 :=
  fun hzero => x.content_terminated (hzero ▸ List.getElem_mem hi)

/-- Where `strspn` stops: at the next token, or at the end. -/
theorem Progress.strspn (h : Progress memory x m k) :
    strspn (memory.drop (x.string + k)) (memory.drop x.delim) =
      some (skipped (inToken x.delimiters) (x.content.drop k)) := by
  obtain ⟨rest, hrest⟩ := h.rest.drop_eq
  obtain ⟨rest', hrest'⟩ := h.delims.drop_eq
  rw [hrest, hrest']
  exact strspn_terminated (fun hmem => x.content_terminated (List.mem_of_mem_drop hmem))
    x.delimiters_terminated rest rest'

/-- The rest goes on behind what was skipped. -/
theorem Progress.skip (h : Progress memory x m k)
    {i : ℕ} (hk : k ≤ i) (hi : i ≤ x.content.length) :
    HoldsAt memory (x.string + i) (x.content.drop i) := by
  have hdrop := h.rest.drop (k := i - k) (by rw [List.length_drop]; omega)
  rwa [Nat.add_assoc, Nat.add_sub_cancel' hk, List.drop_drop, Nat.add_sub_cancel' hk] at hdrop

/-- Where `strcspn` stops: behind the token. -/
theorem Progress.strcspn (h : Progress memory x m k) {i : ℕ} (hk : k ≤ i)
    (hi : i ≤ x.content.length) :
    strcspn (memory.drop (x.string + i)) (memory.drop x.delim) =
      some (taken (inToken x.delimiters) (x.content.drop i)) := by
  obtain ⟨rest, hrest⟩ := (h.skip hk hi).drop_eq
  obtain ⟨rest', hrest'⟩ := h.delims.drop_eq
  rw [hrest, hrest']
  exact strcspn_terminated (fun hmem => x.content_terminated (List.mem_of_mem_drop hmem))
    x.delimiters_terminated rest rest'

/-- Without a token in the rest the call ends at the terminator. -/
theorem Progress.exhausted (h : Progress memory x m k)
    (hend : x.content.length ≤ runStart (inToken x.delimiters) x.content k) :
    x.answer m = none ∧ Progress memory x (m + 1) x.content.length := by
  have hnone : x.tokens.drop m = [] := by
    rw [h.remaining, runsFrom_drop_of_end hend]
  have hlen : x.tokens.length ≤ m := List.drop_eq_nil_iff.1 hnone
  refine ⟨?_, le_rfl, h.skip h.within le_rfl, ?_, ?_, h.delims⟩
  · rw [Iteration.answer, List.getElem?_eq_none hlen]
    rfl
  · rw [List.drop_eq_nil_of_le (by omega), List.drop_length, runsFrom_of_end]
    rfl
  · intro token htoken
    rw [List.take_of_length_le (by omega), ← List.take_of_length_le hlen] at htoken
    obtain ⟨hle, hheld⟩ := h.cut token htoken
    exact ⟨le_trans hle h.within, hheld⟩

theorem Progress.next_token (h : Progress memory x m k)
    (hrun : runStart (inToken x.delimiters) x.content k < x.content.length) :
    x.tokens[m]? = some (runStart (inToken x.delimiters) x.content k,
        runEnd (inToken x.delimiters) x.content k) ∧
      x.tokens.drop (m + 1) = runsFrom (inToken x.delimiters)
        (runEnd (inToken x.delimiters) x.content k + 1)
        (x.content.drop (runEnd (inToken x.delimiters) x.content k + 1)) := by
  have hdrop := h.remaining
  rw [runsFrom_drop_of_run hrun] at hdrop
  constructor
  · have hhead : (x.tokens.drop m)[0]? = x.tokens[m]? := by rw [List.getElem?_drop, Nat.add_zero]
    rw [← hhead, hdrop]
    rfl
  · rw [← List.tail_drop, hdrop, List.tail_cons]

/-- The tokens cut so far are kept by a write behind them. -/
theorem Progress.cut_set (h : Progress memory x m k) {e : ℕ} (he : k < e) (b : UInt8)
    {token : ℕ × ℕ} (htoken : token ∈ x.tokens.take m) :
    HoldsAt (memory.set (x.string + e) b) (x.string + token.1) (x.text token) := by
  obtain ⟨hle, hheld⟩ := h.cut token htoken
  have hrun : MaximalRun (inToken x.delimiters) x.content token.1 token.2 :=
    mem_runs_iff.1 (List.mem_of_mem_take htoken)
  have hpos := hrun.nonempty
  have hlen := x.length_text_le token
  exact hheld.set (Or.inr (by omega)) b

theorem mem_take_succ {α : Type*} {l : List α} {a b : α} {m : ℕ} (hb : l[m]? = some b) :
    a ∈ l.take (m + 1) ↔ a ∈ l.take m ∨ a = b := by
  rw [List.take_add_one, hb, List.mem_append, Option.toList_some, List.mem_singleton]

/-- A delimiter ends the token: it becomes the terminator. -/
theorem Progress.cut_token (h : Progress memory x m k)
    (hapart : Apart x.string x.content.length x.delim x.delimiters.length)
    (hend : runEnd (inToken x.delimiters) x.content k < x.content.length) :
    Progress (memory.set (x.string + runEnd (inToken x.delimiters) x.content k) 0) x (m + 1)
      (runEnd (inToken x.delimiters) x.content k + 1) := by
  have hk : k ≤ runStart (inToken x.delimiters) x.content k := Nat.le_add_right k _
  have hle : runStart (inToken x.delimiters) x.content k ≤
      runEnd (inToken x.delimiters) x.content k := Nat.le_add_right _ _
  have hrun : runStart (inToken x.delimiters) x.content k < x.content.length := by omega
  have hlt := runStart_lt_runEnd hrun
  obtain ⟨hget, hremaining⟩ := h.next_token hrun
  generalize runStart (inToken x.delimiters) x.content k = i at *
  generalize runEnd (inToken x.delimiters) x.content k = j at *
  refine ⟨hend, (h.skip (by omega) hend).set (Or.inl (by omega)) 0, hremaining, ?_, ?_⟩
  · intro token htoken
    rcases (mem_take_succ hget).1 htoken with hold | rfl
    · exact ⟨by have hle' := (h.cut token hold).1; omega, h.cut_set (by omega) 0 hold⟩
    · have hheld := (h.skip hk (Nat.le_of_lt hrun)).cut (n := j - i)
        (by rw [List.length_drop]; omega)
      rw [Nat.add_assoc, Nat.add_sub_cancel' hle] at hheld
      exact ⟨Nat.le_succ j, hheld⟩
  · refine h.delims.set ?_ 0
    unfold Apart at hapart
    omega

/-- The end of the string ends the last token. -/
theorem Progress.last_token (h : Progress memory x m k)
    (hrun : runStart (inToken x.delimiters) x.content k < x.content.length)
    (hend : runEnd (inToken x.delimiters) x.content k = x.content.length) :
    Progress memory x (m + 1) x.content.length := by
  have hk : k ≤ runStart (inToken x.delimiters) x.content k := Nat.le_add_right k _
  obtain ⟨hget, hremaining⟩ := h.next_token hrun
  rw [hend] at hget hremaining
  generalize runStart (inToken x.delimiters) x.content k = i at *
  refine ⟨le_rfl, h.skip h.within le_rfl, ?_, ?_, h.delims⟩
  · rw [hremaining, List.drop_eq_nil_of_le (Nat.le_succ _), List.drop_length,
      runsFrom_of_end rfl, runsFrom_of_end rfl]
  · intro token htoken
    rcases (mem_take_succ hget).1 htoken with hold | rfl
    · obtain ⟨hle, hheld⟩ := h.cut token hold
      exact ⟨le_trans hle h.within, hheld⟩
    · refine ⟨le_rfl, ?_⟩
      have hheld := h.skip hk (Nat.le_of_lt hrun)
      rw [Iteration.text, List.take_of_length_le (by rw [List.length_drop])]
      exact hheld

end Steps

section Calls

variable {x : Iteration} {m k : ℕ} {p : Store} {str : Option ℕ}

/-- What a call may change in the memory: one byte of the string. -/
def Cuts (x : Iteration) (memory memory' : List UInt8) : Prop :=
  memory' = memory ∨ ∃ e < x.content.length, memory' = memory.set (x.string + e) 0

/-- One call of `strtok_r`: the next token, from a pointer to the rest of the
string to a pointer to what remains of it. -/
theorem strtok_r_progress (h : Progress p.memory x m k)
    (hapart : Apart x.string x.content.length x.delim x.delimiters.length)
    (hstr : str.or (p.pointer x.saveptr) = some (x.string + k)) :
    ∃ memory' k', strtok_r str (some x.delim) (some x.saveptr) p =
        some (x.answer m, Store.setPointer { p with memory := memory' } x.saveptr
          (some (x.string + k'))) ∧
      Progress memory' x (m + 1) k' ∧ Cuts x p.memory memory' := by
  have hk : k ≤ runStart (inToken x.delimiters) x.content k := Nat.le_add_right k _
  have hstart : x.string + k + skipped (inToken x.delimiters) (x.content.drop k) =
      x.string + runStart (inToken x.delimiters) x.content k := Nat.add_assoc _ _ _
  rcases Nat.lt_or_ge (runStart (inToken x.delimiters) x.content k) x.content.length with
    hrun | hend
  · have hanswer : x.answer m =
        some (x.string + runStart (inToken x.delimiters) x.content k) := by
      rw [Iteration.answer, (h.next_token hrun).1]
      rfl
    have htoken : x.string + runStart (inToken x.delimiters) x.content k +
        taken (inToken x.delimiters)
          (x.content.drop (runStart (inToken x.delimiters) x.content k)) =
        x.string + runEnd (inToken x.delimiters) x.content k := Nat.add_assoc _ _ _
    have hcall := h.strcspn hk (Nat.le_of_lt hrun)
    rcases Nat.lt_or_ge (runEnd (inToken x.delimiters) x.content k) x.content.length with
      hin | hlast
    · have hkend : k ≤ runEnd (inToken x.delimiters) x.content k :=
        le_trans hk (Nat.le_add_right _ _)
      have hbyte := h.getElem? hkend hin
      refine ⟨_, _, ?_, h.cut_token hapart hin, Or.inr ⟨_, hin, rfl⟩⟩
      simp only [strtok_r, hstr, h.strspn, hstart, h.getElem? hk hrun,
        if_neg (x.content_ne_zero hrun), hcall, htoken, hbyte,
        if_neg (x.content_ne_zero hin), hanswer]
      rfl
    · have heq := Nat.le_antisymm (runEnd_le (Nat.le_of_lt hrun)) hlast
      refine ⟨_, _, ?_, h.last_token hrun heq, Or.inl rfl⟩
      simp only [strtok_r, hstr, h.strspn, hstart, h.getElem? hk hrun,
        if_neg (x.content_ne_zero hrun), hcall, htoken, heq, h.terminator, if_true, hanswer]
  · obtain ⟨hanswer, hprogress⟩ := h.exhausted hend
    have heq : runStart (inToken x.delimiters) x.content k = x.content.length := by
      have hle := skipped_le (p := inToken x.delimiters) (x.content.drop k)
      have hwithin := h.within
      rw [List.length_drop] at hle
      unfold runStart at hend ⊢
      omega
    refine ⟨_, _, ?_, hprogress, Or.inl rfl⟩
    simp only [strtok_r, hstr, h.strspn, hstart, heq, h.terminator, if_true, hanswer]

/-- `strtok` does what `strtok_r` does on a pointer with the value of the static
variable, but it keeps NULL where `strtok_r` keeps a pointer to the terminator. -/
theorem strtok_of_strtok_r {delim a : ℕ} {r : Option ℕ} {q : Store}
    (h : strtok_r str (some delim) (some a) (p.setPointer a p.g_strtok_next) = some (r, q)) :
    ∃ next, strtok str (some delim) p =
        some (r, { p with memory := q.memory, g_strtok_next := next }) ∧
      (next = q.pointer a ∨
        (next = none ∧ ∃ e, q.pointer a = some e ∧ q.memory[e]? = some 0)) := by
  simp only [strtok_r, Store.setPointer_self, Store.setPointer_memory] at h
  simp only [strtok]
  rcases hstr : str.or p.g_strtok_next with _ | s
  · simp only [hstr, Option.some.injEq, Prod.mk.injEq] at h
    obtain ⟨rfl, rfl⟩ := h
    exact ⟨p.g_strtok_next, rfl, Or.inl (Store.setPointer_self p a _).symm⟩
  · rcases hspan : strspn (p.memory.drop s) (p.memory.drop delim) with _ | n
    · simp [hstr, hspan] at h
    · rcases hbyte : p.memory[s + n]? with _ | b
      · simp [hstr, hspan, hbyte] at h
      · by_cases hb : b = 0
        · subst hb
          simp only [hstr, hspan, hbyte, if_true, Option.some.injEq, Prod.mk.injEq] at h
          obtain ⟨rfl, rfl⟩ := h
          refine ⟨none, by simp only [hspan, hbyte, if_true]; rfl, Or.inr ⟨rfl, s + n, ?_, hbyte⟩⟩
          exact Store.setPointer_self _ a _
        · rcases hcspan : strcspn (p.memory.drop (s + n)) (p.memory.drop delim) with _ | l
          · simp [hstr, hspan, hbyte, hb, hcspan] at h
          · rcases hend : p.memory[s + n + l]? with _ | e
            · simp [hstr, hspan, hbyte, hb, hcspan, hend] at h
            · by_cases he : e = 0
              · subst he
                simp only [hstr, hspan, hbyte, if_neg hb, hcspan, hend, if_true,
                  Option.some.injEq, Prod.mk.injEq] at h
                obtain ⟨rfl, rfl⟩ := h
                refine ⟨none, by simp only [hspan, hbyte, if_neg hb, hcspan, hend, if_true]; rfl,
                  Or.inr ⟨rfl, s + n + l, ?_, hend⟩⟩
                exact Store.setPointer_self _ a _
              · simp only [hstr, hspan, hbyte, if_neg hb, hcspan, hend, if_neg he,
                  Option.some.injEq, Prod.mk.injEq] at h
                obtain ⟨rfl, rfl⟩ := h
                refine ⟨some (s + n + l + 1),
                  by simp only [hspan, hbyte, if_neg hb, hcspan, hend, if_neg he]; rfl,
                  Or.inl ?_⟩
                exact (Store.setPointer_self _ a _).symm

/-- One call of `strtok`. -/
theorem strtok_progress (h : Progress p.memory x m k)
    (hapart : Apart x.string x.content.length x.delim x.delimiters.length)
    (hstr : str.or p.g_strtok_next = some (x.string + k)) :
    ∃ memory' k' next, strtok str (some x.delim) p =
        some (x.answer m, { p with memory := memory', g_strtok_next := next }) ∧
      Progress memory' x (m + 1) k' ∧
      (next = some (x.string + k') ∨ (next = none ∧ k' = x.content.length)) := by
  obtain ⟨memory', k', hcall, hprogress, _⟩ := strtok_r_progress
    (p := p.setPointer x.saveptr p.g_strtok_next) h hapart (by rw [Store.setPointer_self, hstr])
  obtain ⟨next, hstrtok, hnext⟩ := strtok_of_strtok_r hcall
  refine ⟨memory', k', next, hstrtok, hprogress, ?_⟩
  rw [Store.setPointer_self] at hnext
  rcases hnext with hsome | ⟨hnone, e, he, hzero⟩
  · exact Or.inl hsome
  · refine Or.inr ⟨hnone, ?_⟩
    rw [Option.some.injEq] at he
    subst he
    by_contra hne
    have hlt := Nat.lt_of_le_of_ne hprogress.within hne
    have hget : memory'[x.string + k']? = some 0 := hzero
    rw [hprogress.getElem? le_rfl hlt, Option.some.injEq] at hget
    exact x.content_ne_zero hlt hget

end Calls

section Interleaving

variable {ι : Type*} {iter : ι → Iteration}

/-- The strings do not overlap each other or the delimiters, and the pointers
kept between the calls are different variables. -/
structure Separate (iter : ι → Iteration) : Prop where
  strings : ∀ x y, x ≠ y → Apart (iter x).string (iter x).content.length
    (iter y).string (iter y).content.length
  delims : ∀ x y, Apart (iter x).string (iter x).content.length
    (iter y).delim (iter y).delimiters.length
  saveptrs : ∀ x y, x ≠ y → (iter x).saveptr ≠ (iter y).saveptr

/-- The call of one iteration does not touch another. -/
theorem Progress.frame {memory memory' : List UInt8} {x y : ι} {m k : ℕ}
    (h : Progress memory (iter y) m k) (hsep : Separate iter) (hne : x ≠ y)
    (hcuts : Cuts (iter x) memory memory') : Progress memory' (iter y) m k := by
  rcases hcuts with rfl | ⟨e, he, rfl⟩
  · exact h
  · have hstring := hsep.strings x y hne
    have hdelims := hsep.delims x y
    have hwithin := h.within
    unfold Apart at hstring hdelims
    refine ⟨hwithin, h.rest.set ?_ 0, h.remaining, ?_, h.delims.set (by omega) 0⟩
    · rw [List.length_drop]
      omega
    · intro token htoken
      obtain ⟨hle, hheld⟩ := h.cut token htoken
      have hpos : token.1 < token.2 :=
        (mem_runs_iff.1 (List.mem_of_mem_take htoken)).nonempty
      have hlen := (iter y).length_text_le token
      exact ⟨hle, hheld.set (by omega) 0⟩

/-- Where the iterations stand after some calls of each. -/
def Interleaved (iter : ι → Iteration) (calls : ι → ℕ) (p : Store) : Prop :=
  ∀ x, ∃ k, Progress p.memory (iter x) (calls x) k ∧
    ((iter x).argument (calls x)).or (p.pointer (iter x).saveptr) = some ((iter x).string + k)

theorem interleaved_start {p : Store} (hp : ∀ x, (iter x).PlacedIn p.memory) :
    Interleaved iter (fun _ => 0) p :=
  fun x => ⟨0, (hp x).progress, rfl⟩

variable [DecidableEq ι]

/-- The calls of an iteration in the order of a schedule get its own tokens, one
after the other. -/
def expected (iter : ι → Iteration) : List ι → (ι → ℕ) → List (ι × Option ℕ)
  | [], _ => []
  | x :: schedule, calls =>
      (x, (iter x).answer (calls x)) ::
        expected iter schedule (Function.update calls x (calls x + 1))

/-- A call of one iteration goes on with its tokens and leaves the others. -/
theorem Interleaved.step {calls : ι → ℕ} {p : Store} (h : Interleaved iter calls p)
    (hsep : Separate iter) (x : ι) :
    ∃ p', strtok_r ((iter x).argument (calls x)) (some (iter x).delim) (some (iter x).saveptr) p =
        some ((iter x).answer (calls x), p') ∧
      Interleaved iter (Function.update calls x (calls x + 1)) p' := by
  obtain ⟨k, hprogress, hstr⟩ := h x
  obtain ⟨memory', k', hcall, hnext, hcuts⟩ :=
    strtok_r_progress hprogress (hsep.delims x x) hstr
  refine ⟨_, hcall, ?_⟩
  intro y
  by_cases hxy : y = x
  · subst hxy
    refine ⟨k', by rw [Function.update_self]; exact hnext, ?_⟩
    rw [Function.update_self, Iteration.argument, if_neg (Nat.succ_ne_zero _), Option.none_or,
      Store.setPointer_self]
  · obtain ⟨j, hother, hresume⟩ := h y
    refine ⟨j, ?_, ?_⟩
    · rw [Function.update_of_ne hxy]
      exact hother.frame hsep (Ne.symm hxy) hcuts
    · rw [Function.update_of_ne hxy, Store.setPointer_other _ _ (hsep.saveptrs y x hxy)]
      exact hresume

/-- Every run of the schedule returns the tokens expected. -/
theorem Interleaved.run {calls : ι → ℕ} {p : Store} (h : Interleaved iter calls p)
    (hsep : Separate iter) (schedule : List ι) :
    ∃ p', strtokRCalls iter schedule calls p = some (expected iter schedule calls, p') ∧
      Interleaved iter (fun x => calls x + schedule.count x) p' := by
  induction schedule generalizing calls p with
  | nil => exact ⟨p, rfl, h⟩
  | cons x schedule ih =>
    obtain ⟨p₁, hcall, hnext⟩ := h.step hsep x
    obtain ⟨p₂, hrun, hlast⟩ := ih hnext
    refine ⟨p₂, ?_, ?_⟩
    · simp only [strtokRCalls, hcall, hrun]
      rfl
    · have hcalls : (fun y => Function.update calls x (calls x + 1) y + schedule.count y) =
          fun y => calls y + (x :: schedule).count y := by
        funext y
        by_cases hxy : y = x
        · subst hxy
          rw [Function.update_self, List.count_cons_self]
          omega
        · rw [Function.update_of_ne hxy, List.count_cons_of_ne (Ne.symm hxy)]
      rw [← hcalls]
      exact hlast

/-- The answers that one iteration got. -/
def answersOf (x : ι) (answers : List (ι × Option ℕ)) : List (Option ℕ) :=
  (answers.filter fun answer => answer.1 = x).map Prod.snd

/-- They are its own, whatever the schedule. -/
theorem answersOf_expected (schedule : List ι) (calls : ι → ℕ) (x : ι) :
    answersOf x (expected iter schedule calls) =
      (List.range' (calls x) (schedule.count x)).map (iter x).answer := by
  induction schedule generalizing calls with
  | nil => rfl
  | cons y schedule ih =>
    have hrest := ih (Function.update calls y (calls y + 1))
    by_cases hxy : x = y
    · subst hxy
      rw [Function.update_self] at hrest
      rw [List.count_cons_self, List.range'_succ, List.map_cons, ← hrest, expected, answersOf,
        List.filter_cons_of_pos (by simp), List.map_cons]
      rfl
    · rw [Function.update_of_ne hxy] at hrest
      rw [List.count_cons_of_ne (Ne.symm hxy), ← hrest, expected, answersOf,
        List.filter_cons_of_neg (by simpa using Ne.symm hxy)]
      rfl

end Interleaving

section StaticState

variable {x : Iteration} {m k : ℕ} {p : Store}

/-- Where an iteration of `strtok` stands: the rest is at the static variable, or
there is none. -/
def Resumes (x : Iteration) (m : ℕ) (p : Store) : Prop :=
  ∃ k, Progress p.memory x m k ∧
    ((x.argument m).or p.g_strtok_next = some (x.string + k) ∨
      ((x.argument m).or p.g_strtok_next = none ∧ k = x.content.length))

theorem Resumes.step (h : Resumes x m p)
    (hapart : Apart x.string x.content.length x.delim x.delimiters.length) :
    ∃ p', strtok (x.argument m) (some x.delim) p = some (x.answer m, p') ∧
      Resumes x (m + 1) p' := by
  obtain ⟨k, hprogress, hsome | ⟨hnone, rfl⟩⟩ := h
  · obtain ⟨memory', k', next, hcall, hnext, hkept⟩ := strtok_progress hprogress hapart hsome
    refine ⟨_, hcall, k', hnext, ?_⟩
    rw [Iteration.argument, if_neg (Nat.succ_ne_zero _), Option.none_or]
    exact hkept
  · have hend : x.content.length ≤ runStart (inToken x.delimiters) x.content x.content.length :=
      Nat.le_add_right _ _
    obtain ⟨hanswer, hnext⟩ := hprogress.exhausted hend
    refine ⟨p, ?_, x.content.length, hnext, Or.inr ⟨?_, rfl⟩⟩
    · rw [hanswer]
      simp only [strtok, hnone]
    · rw [Iteration.argument, if_neg (Nat.succ_ne_zero _), Option.none_or]
      exact (Option.or_eq_none_iff.1 hnone).2

theorem Resumes.run (h : Resumes x m p)
    (hapart : Apart x.string x.content.length x.delim x.delimiters.length) (n : ℕ) :
    ∃ p', strtokCalls x n m p = some ((List.range' m n).map x.answer, p') ∧
      Resumes x (m + n) p' := by
  induction n generalizing m p with
  | zero => exact ⟨p, rfl, h⟩
  | succ n ih =>
    obtain ⟨p₁, hcall, hnext⟩ := h.step hapart
    obtain ⟨p₂, hrun, hlast⟩ := ih hnext
    refine ⟨p₂, ?_, by rwa [Nat.add_assoc, Nat.add_comm 1 n] at hlast⟩
    simp only [strtokCalls, hcall, hrun]
    rfl

end StaticState

section Tokenisers

variable {ι : Type*} [DecidableEq ι] {iter : ι → Iteration}

/-- The tokens an iteration has got are in the memory, each with a terminator. -/
def Delivered (x : Iteration) (n : ℕ) (memory : List UInt8) : Prop :=
  ∀ token ∈ x.tokens.take n, HoldsAt memory (x.string + token.1) (x.text token)

theorem Iteration.answer_eq_none_iff (x : Iteration) (m : ℕ) :
    x.answer m = none ↔ x.tokens.length ≤ m := by
  rw [Iteration.answer, Option.map_eq_none_iff, List.getElem?_eq_none_iff]

/-- The tokens are the maximal runs of characters that are no delimiters, from
left to right. The calls of `strtok_r` for any number of strings in any order
return to each of them its own tokens and NULL after the last one, and those of
`strtok` for one string do the same. -/
theorem tokenisers_split (hsep : Separate iter) {p : Store}
    (hp : ∀ x, (iter x).PlacedIn p.memory) :
    (∀ x, (∀ i j, (i, j) ∈ (iter x).tokens ↔
          MaximalRun (inToken (iter x).delimiters) (iter x).content i j) ∧
        (iter x).tokens.Pairwise (·.2 < ·.1) ∧
        ∀ m, (iter x).answer m = none ↔ (iter x).tokens.length ≤ m) ∧
      (∀ schedule, ∃ answers p', strtokRCalls iter schedule (fun _ => 0) p = some (answers, p') ∧
        ∀ x, answersOf x answers = (List.range (schedule.count x)).map (iter x).answer ∧
          Delivered (iter x) (schedule.count x) p'.memory) ∧
      ∀ x n, ∃ p', strtokCalls (iter x) n 0 p = some ((List.range n).map (iter x).answer, p') ∧
        Delivered (iter x) n p'.memory := by
  refine ⟨?_, ?_, ?_⟩
  · intro x
    exact ⟨fun i j => mem_runs_iff, pairwise_runs _, (iter x).answer_eq_none_iff⟩
  · intro schedule
    obtain ⟨p', hrun, hlast⟩ := (interleaved_start hp).run hsep schedule
    refine ⟨_, p', hrun, ?_⟩
    intro x
    constructor
    · rw [answersOf_expected, List.range_eq_range']
    · obtain ⟨k, hprogress, _⟩ := hlast x
      simp only [Nat.zero_add] at hprogress
      exact fun token htoken => (hprogress.cut token htoken).2
  · intro x n
    have hstart : Resumes (iter x) 0 p := ⟨0, (hp x).progress, Or.inl rfl⟩
    obtain ⟨p', hrun, k, hprogress, _⟩ := hstart.run (hsep.delims x x) n
    rw [Nat.zero_add] at hprogress
    rw [← List.range_eq_range'] at hrun
    exact ⟨p', hrun, fun token htoken => (hprogress.cut token htoken).2⟩

/-- Two strings with one delimiter string between them. -/
def twoStrings : Bool → Iteration
  | true => ⟨0, [97, 44, 98], 4, [44], 0, by decide, by decide⟩
  | false => ⟨6, [99], 4, [44], 1, by decide, by decide⟩

def twoStringsStore : Store := ⟨[97, 44, 98, 0, 44, 0, 99, 0], fun _ => none, none⟩

theorem twoStrings_separate : Separate twoStrings := by
  refine ⟨?_, ?_, ?_⟩
  · intro x y
    cases x <;> cases y <;> simp [Apart, twoStrings]
  · intro x y
    cases x <;> cases y <;> simp [Apart, twoStrings]
  · intro x y
    cases x <;> cases y <;> simp [twoStrings]

theorem twoStrings_placed (x : Bool) : (twoStrings x).PlacedIn twoStringsStore.memory := by
  cases x
  · exact ⟨by unfold HoldsAt; decide, by unfold HoldsAt; decide⟩
  · exact ⟨by unfold HoldsAt; decide, by unfold HoldsAt; decide⟩

theorem tokenisers_split_two : ∃ answers p', strtokRCalls twoStrings [true, false, true, false]
      (fun _ => 0) twoStringsStore = some (answers, p') ∧
    ∀ x, answersOf x answers =
        (List.range ([true, false, true, false].count x)).map (twoStrings x).answer ∧
      Delivered (twoStrings x) ([true, false, true, false].count x) p'.memory :=
  (tokenisers_split twoStrings_separate twoStrings_placed).2.1 [true, false, true, false]

end Tokenisers

end Heartix.Strings
