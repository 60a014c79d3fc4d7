import Mathlib.Data.List.Perm.Subperm
import Heartix.Terminal.Document

/-!
The list of lines. A newline puts a line into the list, the other insertions and
the removals change one line, and clearing starts a new list. What each leaves
in memory is said once, and the shape of the list follows.
-/

namespace Heartix.Terminal

open DoublyLinked

namespace Document

def previousOf (d : Document) (p : ℕ) : ℕ :=
  match d.memory p with
  | none => 0
  | some line => line.previous

def nextOf (d : Document) (p : ℕ) : ℕ :=
  match d.memory p with
  | none => 0
  | some line => line.next

/-- The lines met from the last one backwards are a list linked in both
directions. -/
def Chained (d : Document) (list : List ℕ) : Prop :=
  Linked d.previousOf d.nextOf 0 0 d.lines list

/-- The document holds a list of lines. -/
structure Holds (d : Document) (list : List ℕ) : Prop where
  chained : d.Chained list
  alive : ∀ a ∈ list, ∃ line, d.memory a = some line
  below : ∀ a line, d.memory a = some line → a < d.fresh
  nonempty : list ≠ []
  allocated : ∀ a line, d.memory a = some line →
    line.length + line.removals = line.buffer.length

variable {d t : Document} {list : List ℕ} {p q : ℕ}

@[simp] theorem put_memory_self (p : ℕ) (line : Option TerminalLine) (d : Document) :
    (d.put p line).memory p = line :=
  Function.update_self ..

theorem put_memory_of_ne (h : q ≠ p) (line : Option TerminalLine) (d : Document) :
    (d.put p line).memory q = d.memory q :=
  Function.update_of_ne h ..

theorem modify_of_memory {line : TerminalLine} (h : d.memory p = some line)
    (change : TerminalLine → Option TerminalLine) :
    d.modify p change = (change line).map fun line => d.put p (some line) := by
  unfold modify
  rw [h]

theorem previousOf_of_memory {line : TerminalLine} (h : d.memory p = some line) :
    d.previousOf p = line.previous := by
  unfold previousOf
  rw [h]

theorem nextOf_of_memory {line : TerminalLine} (h : d.memory p = some line) :
    d.nextOf p = line.next := by
  unfold nextOf
  rw [h]

theorem previousOf_congr (h : t.memory p = d.memory p) : t.previousOf p = d.previousOf p := by
  unfold previousOf
  rw [h]

theorem nextOf_congr (h : t.memory p = d.memory p) : t.nextOf p = d.nextOf p := by
  unfold nextOf
  rw [h]

/-- Walking back meets the lines of the list in order, and then null. -/
theorem walk_eq {before : ℕ} (h : Linked d.previousOf d.nextOf 0 before p list)
    (halive : ∀ a ∈ list, ∃ line, d.memory a = some line) (n : ℕ) :
    d.walk n p = some (list[n]?.getD 0) := by
  induction n generalizing before p list with
  | zero =>
    cases list with
    | nil => exact congrArg some h
    | cons a list => exact congrArg some h.1
  | succ n ih =>
    unfold walk
    cases list with
    | nil =>
      have hnull : p = 0 := h
      rw [if_pos hnull]
      rfl
    | cons a list =>
      obtain ⟨rfl, hnull, _, hrest⟩ := h
      obtain ⟨line, hline⟩ := halive p List.mem_cons_self
      rw [previousOf_of_memory hline] at hrest
      rw [if_neg hnull, hline, List.getElem?_cons_succ]
      exact ih hrest fun a ha => halive a (List.mem_cons_of_mem p ha)

theorem Holds.getLine_eq (h : d.Holds list) (offsetY : ℤ) :
    d.getLine offsetY = some (list[countdown offsetY]?.getD 0) :=
  walk_eq h.chained h.alive (countdown offsetY)

/-- The length of the line at an address. -/
def lengthOf (d : Document) (p : ℕ) : ℕ :=
  match d.memory p with
  | none => 0
  | some line => line.length

/-- What changing one line alone leaves. -/
theorem Holds.put {line changed : TerminalLine} (h : d.Holds list) (hp : d.memory p = some line)
    (hprevious : changed.previous = line.previous) (hnext : changed.next = line.next)
    (hallocated : changed.length + changed.removals = changed.buffer.length) :
    (d.put p (some changed)).Holds list := by
  have hmem : ∀ a l, (d.put p (some changed)).memory a = some l →
      a = p ∧ l = changed ∨ d.memory a = some l := by
    intro a l hl
    by_cases ha : a = p
    · subst ha
      rw [put_memory_self] at hl
      exact Or.inl ⟨rfl, (Option.some.inj hl).symm⟩
    · rw [put_memory_of_ne ha] at hl
      exact Or.inr hl
  constructor
  · refine Linked.frame h.chained (fun a _ => ?_) (fun a _ => ?_)
    · by_cases ha : a = p
      · subst ha
        rw [previousOf_of_memory (put_memory_self ..), previousOf_of_memory hp, hprevious]
      · exact previousOf_congr (put_memory_of_ne ha ..)
    · by_cases ha : a = p
      · subst ha
        rw [nextOf_of_memory (put_memory_self ..), nextOf_of_memory hp, hnext]
      · exact nextOf_congr (put_memory_of_ne ha ..)
  · intro a ha
    by_cases hap : a = p
    · subst hap
      exact ⟨changed, put_memory_self ..⟩
    · obtain ⟨l, hl⟩ := h.alive a ha
      exact ⟨l, (put_memory_of_ne hap ..).trans hl⟩
  · intro a l hl
    rcases hmem a l hl with ⟨rfl, _⟩ | hold
    · exact h.below a line hp
    · exact h.below a l hold
  · exact h.nonempty
  · intro a l hl
    rcases hmem a l hl with ⟨_, rfl⟩ | hold
    · exact hallocated
    · exact h.allocated a l hold

theorem lengthOf_put_self (line : TerminalLine) :
    (d.put p (some line)).lengthOf p = line.length := by
  unfold lengthOf
  rw [put_memory_self]

theorem lengthOf_put_of_ne (h : q ≠ p) (line : Option TerminalLine) :
    (d.put p line).lengthOf q = d.lengthOf q := by
  unfold lengthOf
  rw [put_memory_of_ne h]

end Document

namespace TerminalLine

variable {line changed : TerminalLine} {position : ℤ} {c : UInt8}

theorem insert_isSome_iff :
    (line.insert position c).isSome ↔ 0 ≤ position ∧ position + 1 < 2 ^ 31 ∨
      0 ≤ position ∧ position < line.length := by
  unfold TerminalLine.insert
  by_cases hlong : line.length ≤ position
  · rw [if_pos hlong]
    by_cases hint : position + 1 < 2 ^ 31
    · rw [if_pos hint]
      simp only [Option.isSome_some, true_iff]
      omega
    · rw [if_neg hint]
      simp only [Option.isSome_none, Bool.false_eq_true, false_iff]
      omega
  · rw [if_neg hlong]
    by_cases hpos : 0 ≤ position
    · rw [if_pos hpos]
      simp only [Option.isSome_some, true_iff]
      omega
    · rw [if_neg hpos]
      simp only [Option.isSome_none, Bool.false_eq_true, false_iff]
      omega

/-- An insertion keeps the links, and the buffer has room for what the line has
lost since it was allocated. -/
theorem insert_spec (hallocated : line.length + line.removals = line.buffer.length)
    (h : line.insert position c = some changed) :
    changed.length + changed.removals = changed.buffer.length ∧
      changed.previous = line.previous ∧ changed.next = line.next ∧
      changed.length = max line.length (position + 1).toNat := by
  unfold TerminalLine.insert at h
  by_cases hlong : line.length ≤ position
  · rw [if_pos hlong] at h
    by_cases hint : position + 1 < 2 ^ 31
    · rw [if_pos hint] at h
      obtain rfl := Option.some.inj h
      refine ⟨?_, rfl, rfl, ?_⟩
      · simp only [List.length_append, List.length_take, List.length_replicate,
          List.length_singleton]
        omega
      · dsimp only
        omega
    · rw [if_neg hint] at h
      cases h
  · rw [if_neg hlong] at h
    by_cases hpos : 0 ≤ position
    · rw [if_pos hpos] at h
      obtain rfl := Option.some.inj h
      refine ⟨?_, rfl, rfl, ?_⟩
      · rw [List.length_set]
        exact hallocated
      · dsimp only
        omega
    · rw [if_neg hpos] at h
      cases h

/-- What an insertion leaves at each position of the line: only the character itself
depends on it. -/
theorem insert_text_eq (hallocated : line.length + line.removals = line.buffer.length)
    (h : line.insert position c = some changed) (i : ℕ) :
    (changed.buffer.take changed.length)[i]? =
      if (i : ℤ) = position then some c
      else if i < line.length then line.buffer[i]?
      else if i < position then some 0 else none := by
  unfold TerminalLine.insert at h
  by_cases hlong : line.length ≤ position
  · rw [if_pos hlong] at h
    by_cases hint : position + 1 < 2 ^ 31
    · rw [if_pos hint] at h
      obtain rfl := Option.some.inj h
      dsimp only
      have htake : (line.buffer.take line.length).length = line.length := by
        rw [List.length_take]
        omega
      have hwhole : (line.buffer.take line.length ++
          List.replicate (position.toNat - line.length) 0 ++ [c]).length = position.toNat + 1 := by
        rw [List.length_append, List.length_append, htake, List.length_replicate,
          List.length_singleton]
        omega
      rw [List.take_of_length_le (Nat.le_of_eq hwhole), List.append_assoc]
      by_cases hi : i < line.length
      · rw [List.getElem?_append_left (by omega), List.getElem?_take_of_lt hi, if_neg (by omega),
          if_pos hi]
      · rw [List.getElem?_append_right (by omega), htake, if_neg hi]
        by_cases hgap : (i : ℤ) < position
        · rw [List.getElem?_append_left (by rw [List.length_replicate]; omega),
            List.getElem?_replicate_of_lt (by omega), if_neg (by omega), if_pos hgap]
        · rw [List.getElem?_append_right (by rw [List.length_replicate]; omega),
            List.length_replicate, if_neg hgap]
          by_cases hat : (i : ℤ) = position
          · have hzero : i - line.length - (position.toNat - line.length) = 0 := by omega
            rw [if_pos hat, hzero]
            rfl
          · rw [if_neg hat, List.getElem?_eq_none (by rw [List.length_singleton]; omega)]
    · rw [if_neg hint] at h
      cases h
  · rw [if_neg hlong] at h
    by_cases hpos : 0 ≤ position
    · rw [if_pos hpos] at h
      obtain rfl := Option.some.inj h
      dsimp only
      by_cases hi : i < line.length
      · rw [List.getElem?_take_of_lt hi, if_pos hi]
        by_cases hat : (i : ℤ) = position
        · have hindex : position.toNat = i := by omega
          rw [if_pos hat, hindex, List.getElem?_set_self (by omega)]
        · rw [if_neg hat, List.getElem?_set_ne (by omega)]
      · rw [List.getElem?_eq_none (by rw [List.length_take]; omega), if_neg (by omega),
          if_neg hi, if_neg (by omega)]
    · rw [if_neg hpos] at h
      cases h

theorem remove_isSome_iff :
    (line.remove position).isSome ↔
      line.length = 0 ∨ 0 ≤ position ∧ position < line.length := by
  unfold TerminalLine.remove
  by_cases hempty : 0 < line.length
  · rw [if_pos hempty]
    by_cases hin : 0 ≤ position ∧ position < line.length
    · rw [if_pos hin]
      simp only [Option.isSome_some, true_iff]
      exact Or.inr hin
    · rw [if_neg hin]
      simp only [Option.isSome_none, Bool.false_eq_true, false_iff]
      omega
  · rw [if_neg hempty]
    simp only [Option.isSome_some, true_iff]
    omega

theorem remove_spec (hallocated : line.length + line.removals = line.buffer.length)
    (h : line.remove position = some changed) :
    changed.length + changed.removals = changed.buffer.length ∧
      changed.previous = line.previous ∧ changed.next = line.next ∧
      changed.length ≤ line.length := by
  unfold TerminalLine.remove at h
  by_cases hempty : 0 < line.length
  · rw [if_pos hempty] at h
    by_cases hin : 0 ≤ position ∧ position < line.length
    · rw [if_pos hin] at h
      obtain rfl := Option.some.inj h
      refine ⟨?_, rfl, rfl, ?_⟩
      · simp only [List.length_append, List.length_take, List.length_drop]
        omega
      · dsimp only
        omega
    · rw [if_neg hin] at h
      cases h
  · rw [if_neg hempty] at h
    obtain rfl := Option.some.inj h
    exact ⟨hallocated, rfl, rfl, le_refl _⟩

end TerminalLine

/-- What a line holds, without its links. -/
def TerminalLine.contents (line : TerminalLine) : List UInt8 × ℕ × ℕ :=
  (line.buffer, line.length, line.removals)

namespace Document

variable {d t : Document} {list front back : List ℕ} {a b p q : ℕ}

theorem memory_put (d : Document) (p q : ℕ) (line : Option TerminalLine) :
    (d.put p line).memory q = if q = p then line else d.memory q :=
  Function.update_apply ..

theorem previousOf_put (d : Document) (p q : ℕ) (line : TerminalLine) :
    (d.put p (some line)).previousOf q = if q = p then line.previous else d.previousOf q := by
  by_cases h : q = p
  · rw [if_pos h, h, previousOf_of_memory (put_memory_self ..)]
  · rw [if_neg h, previousOf_congr (put_memory_of_ne h ..)]

theorem nextOf_put (d : Document) (p q : ℕ) (line : TerminalLine) :
    (d.put p (some line)).nextOf q = if q = p then line.next else d.nextOf q := by
  by_cases h : q = p
  · rw [if_pos h, h, nextOf_of_memory (put_memory_self ..)]
  · rw [if_neg h, nextOf_congr (put_memory_of_ne h ..)]

theorem contents_put (d : Document) (p q : ℕ) (line : TerminalLine) :
    ((d.put p (some line)).memory q).map TerminalLine.contents =
      if q = p then some line.contents else (d.memory q).map TerminalLine.contents := by
  rw [memory_put]
  split <;> rfl

/-- A new line was put after the line `a`. -/
structure Inserted (a : ℕ) (d t : Document) : Prop where
  fresh : t.fresh = d.fresh + 1
  lines : t.lines = if d.nextOf a = 0 then d.fresh else d.lines
  previous_new : t.previousOf d.fresh = a
  next_new : t.nextOf d.fresh = d.nextOf a
  next_self : t.nextOf a = d.fresh
  previous_link : d.nextOf a ≠ 0 → t.previousOf (d.nextOf a) = d.fresh
  previous : ∀ b, b ≠ d.fresh → d.nextOf a = 0 ∨ b ≠ d.nextOf a →
    t.previousOf b = d.previousOf b
  next : ∀ b, b ≠ d.fresh → b ≠ a → t.nextOf b = d.nextOf b
  contents_new : (t.memory d.fresh).map TerminalLine.contents = some ([], 0, 0)
  contents : ∀ b, b ≠ d.fresh →
    (t.memory b).map TerminalLine.contents = (d.memory b).map TerminalLine.contents

/-- The document with the new line, which no other line is linked with yet. -/
def withNewLine (d : Document) (previous next : ℕ) : Document :=
  { d with fresh := d.fresh + 1 }.put d.fresh
    (some { TerminalLine.construct with previous, next })

theorem withNewLine_memory_of_ne (ha : a ≠ d.fresh) (p n : ℕ) :
    (d.withNewLine p n).memory a = d.memory a := put_memory_of_ne ha ..

theorem previousOf_withNewLine (d : Document) (p n b : ℕ) :
    (d.withNewLine p n).previousOf b = if b = d.fresh then p else d.previousOf b :=
  previousOf_put ..

theorem nextOf_withNewLine (d : Document) (p n b : ℕ) :
    (d.withNewLine p n).nextOf b = if b = d.fresh then n else d.nextOf b := nextOf_put ..

theorem contents_withNewLine (d : Document) (p n b : ℕ) :
    ((d.withNewLine p n).memory b).map TerminalLine.contents =
      if b = d.fresh then some ([], 0, 0) else (d.memory b).map TerminalLine.contents :=
  contents_put ..

/-- A newline after the last line. -/
theorem insertLine_inserted_last (ha : a ≠ d.fresh) {line : TerminalLine}
    (hline : d.memory a = some line) (hnull : line.next = 0) :
    ∃ t, d.insertLine a = some t ∧ Inserted a d t := by
  have hnextOf := nextOf_of_memory hline
  have hmodify := modify_of_memory (d := { d.withNewLine a line.next with lines := d.fresh })
    ((withNewLine_memory_of_ne ha a line.next).trans hline)
    fun line => some { line with next := d.fresh }
  have hrun : d.insertLine a = some ({ d.withNewLine a line.next with lines := d.fresh }.put a
      (some { line with next := d.fresh })) := by
    unfold insertLine
    rw [hline]
    dsimp only
    rw [if_neg (by simp [hnull])]
    exact hmodify
  refine ⟨_, hrun, ?_⟩
  constructor
  · rfl
  · rw [hnextOf, if_pos hnull]
    rfl
  · rw [previousOf_put, if_neg ha.symm]
    exact (previousOf_withNewLine ..).trans (if_pos rfl)
  · rw [nextOf_put, if_neg ha.symm, hnextOf]
    exact (nextOf_withNewLine ..).trans (if_pos rfl)
  · rw [nextOf_put, if_pos rfl]
  · rw [hnextOf]
    exact fun h => absurd hnull h
  · intro b hb _
    rw [previousOf_put]
    by_cases hba : b = a
    · rw [if_pos hba, hba, previousOf_of_memory hline]
    · rw [if_neg hba]
      exact (previousOf_withNewLine ..).trans (if_neg hb)
  · intro b hb hba
    rw [nextOf_put, if_neg hba]
    exact (nextOf_withNewLine ..).trans (if_neg hb)
  · rw [contents_put, if_neg ha.symm]
    exact (contents_withNewLine ..).trans (if_pos rfl)
  · intro b hb
    rw [contents_put]
    by_cases hba : b = a
    · rw [if_pos hba, hba, hline]
      rfl
    · rw [if_neg hba]
      exact (contents_withNewLine ..).trans (if_neg hb)

/-- A newline between two lines. -/
theorem insertLine_inserted_between (ha : a ≠ d.fresh) {line next : TerminalLine}
    (hline : d.memory a = some line) (hnull : line.next ≠ 0) (hne : line.next ≠ a)
    (hfresh : line.next ≠ d.fresh) (hnext : d.memory line.next = some next) :
    ∃ t, d.insertLine a = some t ∧ Inserted a d t := by
  have hnextOf := nextOf_of_memory hline
  have hlinked := modify_of_memory (d := d.withNewLine a line.next)
    ((withNewLine_memory_of_ne hfresh a line.next).trans hnext)
    fun next => some { next with previous := d.fresh }
  have hmodify := modify_of_memory
    (d := (d.withNewLine a line.next).put line.next (some { next with previous := d.fresh }))
    ((put_memory_of_ne hne.symm ..).trans
      ((withNewLine_memory_of_ne ha a line.next).trans hline))
    fun line => some { line with next := d.fresh }
  have hrun : d.insertLine a = some (((d.withNewLine a line.next).put line.next
      (some { next with previous := d.fresh })).put a (some { line with next := d.fresh })) := by
    unfold insertLine
    rw [hline]
    dsimp only
    unfold withNewLine at hlinked hmodify
    rw [if_pos hnull, hlinked]
    exact hmodify
  refine ⟨_, hrun, ?_⟩
  constructor
  · rfl
  · rw [hnextOf, if_neg hnull]
    rfl
  · rw [previousOf_put, if_neg ha.symm, previousOf_put, if_neg hfresh.symm,
      previousOf_withNewLine, if_pos rfl]
  · rw [nextOf_put, if_neg ha.symm, nextOf_put, if_neg hfresh.symm, hnextOf,
      nextOf_withNewLine, if_pos rfl]
  · rw [nextOf_put, if_pos rfl]
  · intro _
    rw [hnextOf, previousOf_put, if_neg hne, previousOf_put, if_pos rfl]
  · intro b hb hor
    rw [hnextOf] at hor
    rw [previousOf_put, previousOf_put, if_neg (hor.resolve_left hnull)]
    by_cases hba : b = a
    · rw [if_pos hba, hba, previousOf_of_memory hline]
    · rw [if_neg hba, previousOf_withNewLine, if_neg hb]
  · intro b hb hba
    rw [nextOf_put, if_neg hba, nextOf_put]
    by_cases hbn : b = line.next
    · rw [if_pos hbn, hbn, nextOf_of_memory hnext]
    · rw [if_neg hbn, nextOf_withNewLine, if_neg hb]
  · rw [contents_put, if_neg ha.symm, contents_put, if_neg hfresh.symm,
      contents_withNewLine, if_pos rfl]
  · intro b hb
    rw [contents_put, contents_put]
    by_cases hba : b = a
    · rw [if_pos hba, hba, hline]
      rfl
    · rw [if_neg hba]
      by_cases hbn : b = line.next
      · rw [if_pos hbn, hbn, hnext]
        rfl
      · rw [if_neg hbn, contents_withNewLine, if_neg hb]

/-- A newline after a line whose neighbours are alive. -/
theorem insertLine_inserted (hbelow : ∀ b line, d.memory b = some line → b < d.fresh)
    {line : TerminalLine} (hline : d.memory a = some line)
    (hnext : line.next ≠ 0 → line.next ≠ a ∧ ∃ next, d.memory line.next = some next) :
    ∃ t, d.insertLine a = some t ∧ Inserted a d t := by
  have ha := hbelow a line hline
  by_cases hnull : line.next = 0
  · exact insertLine_inserted_last (by omega) hline hnull
  · obtain ⟨hne, next, hnextLine⟩ := hnext hnull
    have hfresh := hbelow line.next next hnextLine
    exact insertLine_inserted_between (by omega) hline hnull hne (by omega) hnextLine

theorem Holds.ne_fresh (h : d.Holds list) {b : ℕ} (hb : b ∈ list) : b ≠ d.fresh := by
  obtain ⟨line, hline⟩ := h.alive b hb
  have hlt := h.below b line hline
  omega

theorem Holds.fresh_ne_zero (h : d.Holds list) : d.fresh ≠ 0 := by
  obtain ⟨b, hb⟩ := List.exists_mem_of_ne_nil list h.nonempty
  obtain ⟨line, hline⟩ := h.alive b hb
  have hlt := h.below b line hline
  omega

/-- A line is the last one if no other line is met before it. -/
theorem Holds.nextOf_eq_zero_iff (h : d.Holds (front ++ a :: back)) :
    d.nextOf a = 0 ↔ front = [] := by
  constructor
  · intro hzero
    by_contra hne
    have hmem := h.chained.prev_mem hne
    exact h.chained.ne_null (List.mem_append_left _ hmem) hzero
  · rintro rfl
    exact h.chained.prev_head

theorem memory_of_contents {line : TerminalLine} (h : t.memory p = some line)
    (hcontents : (t.memory p).map TerminalLine.contents =
      (d.memory p).map TerminalLine.contents) :
    ∃ old, d.memory p = some old ∧ line.contents = old.contents := by
  rw [h] at hcontents
  obtain ⟨old, hold, heq⟩ := Option.map_eq_some_iff.mp hcontents.symm
  exact ⟨old, hold, heq.symm⟩

/-- Read backwards, the new line stands before the line it was put after. -/
theorem Inserted.holds (h : Inserted a d t) (hd : d.Holds (front ++ a :: back)) :
    t.Holds (front ++ d.fresh :: a :: back) := by
  constructor
  · have hlines : t.lines = if front = [] then d.fresh else d.lines := by
      rw [h.lines]
      simp only [hd.nextOf_eq_zero_iff]
    unfold Chained
    rw [hlines]
    refine hd.chained.insert (fun hmem => hd.ne_fresh hmem rfl) hd.fresh_ne_zero h.previous_new
      h.next_new h.next_self (fun hne => ?_) (fun b hb hor => ?_) (fun b hb hba => ?_)
    · exact h.previous_link (fun hzero => hne (hd.nextOf_eq_zero_iff.mp hzero))
    · exact h.previous b (hd.ne_fresh hb) (hor.imp_left hd.nextOf_eq_zero_iff.mpr)
    · exact h.next b (hd.ne_fresh hb) hba
  · intro b hb
    by_cases hnew : b = d.fresh
    · obtain ⟨line, hline, _⟩ := Option.map_eq_some_iff.mp h.contents_new
      exact ⟨line, hnew ▸ hline⟩
    · have hold : b ∈ front ++ a :: back := by
        simp only [List.mem_append, List.mem_cons] at hb ⊢
        exact hb.imp_right fun hb => hb.resolve_left hnew
      obtain ⟨line, hline⟩ := hd.alive b hold
      have hcontents := h.contents b hnew
      rw [hline] at hcontents
      obtain ⟨new, hnewLine, _⟩ := Option.map_eq_some_iff.mp hcontents
      exact ⟨new, hnewLine⟩
  · intro b line hline
    rw [h.fresh]
    by_cases hnew : b = d.fresh
    · omega
    · obtain ⟨old, hold, _⟩ := memory_of_contents hline (h.contents b hnew)
      have hlt := hd.below b old hold
      omega
  · exact List.append_ne_nil_of_right_ne_nil front (List.cons_ne_nil _ _)
  · intro b line hline
    by_cases hnew : b = d.fresh
    · have hcontents := h.contents_new
      rw [← hnew, hline] at hcontents
      simp only [TerminalLine.contents, Option.map_some, Option.some.injEq,
        Prod.mk.injEq] at hcontents
      rw [hcontents.1, hcontents.2.1, hcontents.2.2]
      rfl
    · obtain ⟨old, hold, heq⟩ := memory_of_contents hline (h.contents b hnew)
      have hallocated := hd.allocated b old hold
      simp only [TerminalLine.contents, Prod.mk.injEq] at heq
      rw [heq.1, heq.2.1, heq.2.2]
      exact hallocated

/-- The line that an offset addresses, if there is one. -/
def addressed (list : List ℕ) (offsetY : ℤ) : Option ℕ := list[countdown offsetY]?

theorem Holds.getLine_addressed (h : d.Holds list) (offsetY : ℤ) :
    (addressed list offsetY = none ∧ d.getLine offsetY = some 0) ∨
      ∃ a, addressed list offsetY = some a ∧ a ∈ list ∧ a ≠ 0 ∧ d.getLine offsetY = some a := by
  rw [h.getLine_eq]
  unfold addressed
  cases hget : list[countdown offsetY]? with
  | none => exact Or.inl ⟨rfl, rfl⟩
  | some a =>
    have ha := List.mem_of_getElem? hget
    exact Or.inr ⟨a, rfl, ha, h.chained.ne_null ha, rfl⟩

theorem insert_of_getLine (ha : a ≠ 0) {x offsetY : ℤ} {c : UInt8}
    (h : d.getLine offsetY = some a) :
    d.insert x offsetY c = if c = '\n'.toUInt8 then d.insertLine a
      else d.modify a fun line => line.insert x c := by
  unfold insert
  rw [h]
  cases a with
  | zero => exact absurd rfl ha
  | succ a => rfl

theorem remove_of_getLine (ha : a ≠ 0) {x offsetY : ℤ} (h : d.getLine offsetY = some a) :
    d.remove x offsetY = d.modify a fun line => line.remove x := by
  unfold remove
  rw [h]
  cases a with
  | zero => exact absurd rfl ha
  | succ a => rfl

/-- A newline after any line of the document. -/
theorem Holds.insertLine_inserted (h : d.Holds list) (ha : a ∈ list) :
    ∃ t, d.insertLine a = some t ∧ Inserted a d t := by
  obtain ⟨front, back, rfl⟩ := List.append_of_mem ha
  obtain ⟨line, hline⟩ := h.alive a ha
  refine Document.insertLine_inserted h.below hline fun hnext => ?_
  rw [← nextOf_of_memory hline] at hnext ⊢
  have hfront : front ≠ [] := fun hnil => hnext (h.nextOf_eq_zero_iff.mpr hnil)
  have hmem := h.chained.prev_mem hfront
  refine ⟨?_, h.alive _ (List.mem_append_left _ hmem)⟩
  intro heq
  have hnodup := List.nodup_append.mp h.chained.nodup
  exact hnodup.2.2 (d.nextOf a) hmem a List.mem_cons_self heq

/-- Deleting the lines of a list, and nothing else. -/
theorem deleteLines_spec {before fuel : ℕ} (h : Linked d.previousOf d.nextOf 0 before p list)
    (halive : ∀ a ∈ list, ∃ line, d.memory a = some line) (hfuel : list.length ≤ fuel) :
    ∃ t, deleteLines fuel p d = some t ∧ t.lines = d.lines ∧ t.fresh = d.fresh ∧
      ∀ b, t.memory b = if b ∈ list then none else d.memory b := by
  induction list generalizing d p before fuel with
  | nil =>
    have hnull : p = 0 := h
    refine ⟨d, ?_, rfl, rfl, fun b => by simp⟩
    unfold deleteLines
    rw [if_pos hnull]
  | cons a list ih =>
    have hnodup := List.nodup_cons.mp h.nodup
    obtain ⟨rfl, hnull, _, hrest⟩ := h
    obtain ⟨line, hline⟩ := halive p List.mem_cons_self
    obtain ⟨fuel, rfl⟩ : ∃ n, fuel = n + 1 := ⟨fuel - 1, by
      rw [List.length_cons] at hfuel
      omega⟩
    rw [previousOf_of_memory hline] at hrest
    have hne : ∀ b ∈ list, b ≠ p := by
      rintro b hb rfl
      exact hnodup.1 hb
    have hframe := hrest.frame
      (fun b hb => previousOf_congr (put_memory_of_ne (hne b hb) none d))
      (fun b hb => nextOf_congr (put_memory_of_ne (hne b hb) none d))
    obtain ⟨t, hrun, hlines, hfresh, hmem⟩ := ih hframe
      (fun b hb => by
        rw [put_memory_of_ne (hne b hb)]
        exact halive b (List.mem_cons_of_mem p hb))
      (by simpa using hfuel)
    refine ⟨t, ?_, hlines, hfresh, fun b => ?_⟩
    · unfold deleteLines
      rw [if_neg hnull, hline]
      exact hrun
    · rw [hmem b, memory_put]
      by_cases hbp : b = p
      · simp [hbp]
      · simp [hbp]

/-- The addresses of a list are different and have been allocated. -/
theorem Holds.length_lt (h : d.Holds list) : list.length < d.fresh := by
  have hnodup : (0 :: list).Nodup :=
    List.nodup_cons.mpr ⟨fun hmem => h.chained.ne_null hmem rfl, h.chained.nodup⟩
  have hsub : 0 :: list ⊆ List.range d.fresh := by
    intro b hb
    rw [List.mem_range]
    rcases List.mem_cons.mp hb with rfl | hb
    · exact Nat.pos_of_ne_zero h.fresh_ne_zero
    · obtain ⟨line, hline⟩ := h.alive b hb
      exact h.below b line hline
  have hle := (hnodup.subperm hsub).length_le
  rw [List.length_cons, List.length_range] at hle
  omega

/-- Clearing leaves one new line. -/
theorem Holds.clear (h : d.Holds list) :
    ∃ t, d.clear = some t ∧ t.Holds [d.fresh] ∧ t.lengthOf d.fresh = 0 := by
  let new := { d with
    lines := d.fresh
    fresh := d.fresh + 1 }.put d.fresh (some TerminalLine.construct)
  have hold : ∀ b ∈ list, new.memory b = d.memory b := fun b hb =>
    put_memory_of_ne (h.ne_fresh hb) ..
  have hframe : Linked new.previousOf new.nextOf 0 0 d.lines list :=
    h.chained.frame (fun b hb => previousOf_congr (hold b hb))
      (fun b hb => nextOf_congr (hold b hb))
  obtain ⟨t, hrun, hlines, hfresh, hmem⟩ := deleteLines_spec hframe
    (fun b hb => by
      rw [hold b hb]
      exact h.alive b hb)
    (show list.length ≤ new.fresh from Nat.le_succ_of_le (Nat.le_of_lt h.length_lt))
  have hself : t.memory d.fresh = some TerminalLine.construct := by
    rw [hmem d.fresh, if_neg fun hb => h.ne_fresh hb rfl]
    exact put_memory_self ..
  have hother : ∀ b line, t.memory b = some line → b = d.fresh ∨ d.memory b = some line := by
    intro b line hline
    by_cases hb : b = d.fresh
    · exact Or.inl hb
    · rw [hmem b] at hline
      split at hline
      · cases hline
      · exact Or.inr ((put_memory_of_ne hb ..).symm.trans hline)
  refine ⟨t, hrun, ?_, by unfold lengthOf; rw [hself]; rfl⟩
  constructor
  · refine ⟨hlines, h.fresh_ne_zero, nextOf_of_memory hself, ?_⟩
    exact previousOf_of_memory hself
  · intro b hb
    rw [List.mem_singleton] at hb
    exact ⟨_, hb ▸ hself⟩
  · intro b line hline
    rw [hfresh]
    change b < d.fresh + 1
    rcases hother b line hline with rfl | hline
    · omega
    · have hlt := h.below b line hline
      omega
  · exact List.cons_ne_nil _ _
  · intro b line hline
    rcases hother b line hline with rfl | hline
    · obtain rfl := Option.some.inj (hself.symm.trans hline)
      rfl
    · exact h.allocated b line hline

theorem construct_holds : Document.construct.Holds [1] := by
  have hself : Document.construct.memory 1 = some TerminalLine.construct := rfl
  have honly : ∀ b line, Document.construct.memory b = some line →
      b = 1 ∧ line = TerminalLine.construct := by
    intro b line hline
    by_cases hb : b = 1
    · subst hb
      exact ⟨rfl, (Option.some.inj hline).symm⟩
    · have hnone : Document.construct.memory b = none := by
        unfold Document.construct
        dsimp only
        rw [Function.update_of_ne hb]
      rw [hnone] at hline
      cases hline
  constructor
  · exact ⟨rfl, by decide, nextOf_of_memory hself, previousOf_of_memory hself⟩
  · intro b hb
    rw [List.mem_singleton] at hb
    exact ⟨_, hb ▸ hself⟩
  · intro b line hline
    rw [(honly b line hline).1]
    decide
  · exact List.cons_ne_nil _ _
  · intro b line hline
    rw [(honly b line hline).2]
    rfl

end Document

end Heartix.Terminal
