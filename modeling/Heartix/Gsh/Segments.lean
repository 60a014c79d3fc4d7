import Heartix.Gsh.Text

/-!
The verdict of the parser on every line. A line is cut at the pipes that stand
neither in quotation marks nor behind a backslash of an argument, and the parser
finds one call in each segment, or reports a segment of blanks.
-/

namespace Heartix.Gsh

/-- Where a character stands: before or in the word of a program, before an
argument, or in one, with the two flags of the argument. -/
inductive Mode where
  | beforeProgram
  | program
  | beforeArgument
  | argument (instr escaped : Bool)
  deriving DecidableEq, Repr

/-- The mode behind a character of an argument. -/
def Mode.inArgument (instr escaped : Bool) (c : UInt8) : Mode :=
  if escaped = true then .argument instr false
  else if c = backslash then .argument instr true
  else if c = quotationMark then .argument (!instr) false
  else if instr = false ∧ c = space then .beforeArgument
  else .argument instr false

/-- The mode behind a character that does not cut. -/
def Mode.next : Mode → UInt8 → Mode
  | beforeProgram, c => if isspace c = true then beforeProgram else program
  | program, c => if isspace c = true then beforeArgument else program
  | beforeArgument, c => if isspace c = true then beforeArgument else inArgument false false c
  | argument instr escaped, c => inArgument instr escaped c

/-- Neither in quotation marks nor behind a backslash. -/
def Mode.unquoted : Mode → Bool
  | argument instr escaped => !instr && !escaped
  | _ => true

/-- A pipe cuts the line unless it is a part of an argument. -/
def Mode.Cuts (m : Mode) (c : UInt8) : Prop := c = pipe ∧ m.unquoted = true

instance (m : Mode) (c : UInt8) : Decidable (m.Cuts c) := inferInstanceAs (Decidable (_ ∧ _))

/-- The segments of a line that is read from a mode on. -/
def segments : Mode → List UInt8 → List (List UInt8)
  | _, [] => [[]]
  | m, c :: s =>
      if m.Cuts c then [] :: segments .beforeProgram s
      else (segments (m.next c) s).modifyHead (c :: ·)

/-- The number of pipes that cut. -/
def cuts : Mode → List UInt8 → ℕ
  | _, [] => 0
  | m, c :: s => if m.Cuts c then cuts .beforeProgram s + 1 else cuts (m.next c) s

def Nonblank (g : List UInt8) : Prop := ∃ c ∈ g, isspace c = false

instance (g : List UInt8) : Decidable (Nonblank g) :=
  inferInstanceAs (Decidable (∃ c ∈ g, isspace c = false))

theorem length_segments (m : Mode) (s : List UInt8) : (segments m s).length = cuts m s + 1 := by
  induction s generalizing m with
  | nil => rfl
  | cons c s ih =>
    rw [segments, cuts]
    split
    · rw [List.length_cons, ih]
    · rw [List.length_modifyHead, ih]

section Reading

variable {m : Mode} {c : UInt8} {s t : List UInt8}

theorem segments_of_cuts (h : m.Cuts c) : segments m (c :: s) = [] :: segments .beforeProgram s :=
  if_pos h

theorem tail_segments (h : ¬ m.Cuts c) :
    (segments m (c :: s)).tail = (segments (m.next c) s).tail := by
  rw [segments, if_neg h]
  cases segments (m.next c) s <;> rfl

theorem ne_pipe_of_isspace (h : isspace c = true) : c ≠ pipe := by
  rintro rfl
  exact absurd h (by decide)

/-- Blanks before an argument belong to its segment. -/
theorem tail_segments_blanks (s : List UInt8) :
    (segments .beforeArgument s).tail =
      (segments .beforeArgument (s.dropWhile isspace)).tail := by
  induction s with
  | nil => rfl
  | cons c s ih =>
    by_cases hc : isspace c = true
    · rw [List.dropWhile_cons_of_pos hc, ← ih,
        tail_segments fun h => ne_pipe_of_isspace hc h.1, Mode.next, if_pos hc]
    · rw [List.dropWhile_cons_of_neg hc]

/-- An argument belongs to the segment in which it begins. -/
theorem tail_segments_argument (instr escaped : Bool) (s : List UInt8) :
    (segments (.argument instr escaped) s).tail =
      (segments .beforeArgument (scanArgument instr escaped s).2).tail := by
  induction s generalizing instr escaped with
  | nil => rfl
  | cons c s ih =>
    -- the mode behind a character that the scanner takes is the one it goes on in
    have htaken (instr' escaped' : Bool)
        (hnot : ¬ (Mode.argument instr escaped).Cuts c)
        (hnext : Mode.inArgument instr escaped c = .argument instr' escaped') :
        (segments (.argument instr escaped) (c :: s)).tail =
          (segments .beforeArgument (scanArgument instr' escaped' s).2).tail := by
      rw [tail_segments hnot, Mode.next, hnext, ih]
    rw [scanArgument]
    split
    · next h =>
      obtain ⟨rfl, rfl⟩ := h
      exact htaken instr true (fun h => absurd h.1 (by decide)) rfl
    · next hplain =>
      split
      · next hinstr =>
        subst hinstr
        have hnot : ¬ (Mode.argument true escaped).Cuts c := by
          rintro ⟨_, h⟩
          cases h
        split
        · next h =>
          obtain ⟨rfl, rfl⟩ := h
          exact htaken false false hnot rfl
        · next hquote =>
          refine htaken true false hnot ?_
          cases escaped with
          | true => rfl
          | false =>
            have hbackslash : c ≠ backslash := fun h => hplain ⟨rfl, h⟩
            have hmark : c ≠ quotationMark := fun h => hquote ⟨h, rfl⟩
            simp [Mode.inArgument, hbackslash, hmark]
      · next hinstr =>
        obtain rfl : instr = false := Bool.eq_false_of_not_eq_true hinstr
        split
        · next h =>
          obtain ⟨rfl, rfl | rfl⟩ := h
          · rw [segments_of_cuts ⟨rfl, rfl⟩, segments_of_cuts ⟨rfl, rfl⟩]
          · rw [tail_segments fun h => absurd h.1 (by decide),
              tail_segments fun h => absurd h.1 (by decide)]
            rfl
        · next hstop =>
          have hnot : ¬ (Mode.argument false escaped).Cuts c := by
            rintro ⟨hpipe, hunquoted⟩
            exact hstop ⟨by simpa [Mode.unquoted] using hunquoted, .inl hpipe⟩
          split
          · next h =>
            obtain ⟨rfl, rfl⟩ := h
            exact htaken true false hnot rfl
          · next hquote =>
            refine htaken false false hnot ?_
            cases escaped with
            | true => rfl
            | false =>
              have hbackslash : c ≠ backslash := fun h => hplain ⟨rfl, h⟩
              have hmark : c ≠ quotationMark := fun h => hquote ⟨h, rfl⟩
              have hspace : c ≠ space := fun h => hstop ⟨rfl, .inr h⟩
              simp [Mode.inArgument, hbackslash, hmark, hspace]

/-- So do all arguments up to a pipe or the end. -/
theorem tail_segments_arguments (s : List UInt8) :
    (segments .beforeArgument s).tail = (segments .beforeArgument (scanArguments s).2).tail := by
  induction s using scanArguments.induct with
  | case1 s h => rw [tail_segments_blanks, scanArguments_of_end h, h]
  | case2 s t h => rw [tail_segments_blanks, scanArguments_of_pipe h, h]
  | case3 s c t h hc r ih =>
    have hfirst : (segments .beforeArgument (c :: t)).tail =
        (segments (.argument false false) (c :: t)).tail := by
      rw [tail_segments fun hcut => hc hcut.1, tail_segments fun hcut => hc hcut.1, Mode.next,
        isspace_head h]
      rfl
    rw [tail_segments_blanks, scanArguments_of_char h hc, h, hfirst, tail_segments_argument]
    exact ih

/-- The rest of a program word belongs to its segment. -/
theorem tail_segments_word (s : List UInt8) :
    (segments .program s).tail = (segments .beforeArgument (s.dropWhile inWord)).tail := by
  induction s with
  | nil => rfl
  | cons c s ih =>
    by_cases hc : inWord c = true
    · obtain ⟨hpipe, hspace⟩ : c ≠ pipe ∧ isspace c = false := of_decide_eq_true hc
      rw [tail_segments fun h => hpipe h.1, Mode.next, hspace, List.dropWhile_cons_of_pos hc]
      exact ih
    · rw [List.dropWhile_cons_of_neg hc]
      by_cases hpipe : c = pipe
      · subst hpipe
        rw [segments_of_cuts ⟨rfl, rfl⟩, segments_of_cuts ⟨rfl, rfl⟩]
      · have hspace : isspace c = true := by
          by_contra hnot
          exact hc (decide_eq_true ⟨hpipe, Bool.eq_false_of_not_eq_true hnot⟩)
        rw [tail_segments fun h => hpipe h.1, tail_segments fun h => hpipe h.1, Mode.next,
          Mode.next, if_pos hspace, if_pos hspace]

/-- A segment with a program word is one segment, whatever it holds. -/
theorem segments_word (h : s.dropWhile isspace = c :: t) (hc : inWord c = true) :
    ∃ g, Nonblank g ∧ segments .beforeProgram s =
      g :: (segments .beforeArgument (t.dropWhile inWord)).tail := by
  induction s with
  | nil => cases h
  | cons b s ih =>
    by_cases hb : isspace b = true
    · rw [List.dropWhile_cons_of_pos hb] at h
      obtain ⟨g, ⟨d, hd, hspace⟩, hg⟩ := ih h
      refine ⟨b :: g, ⟨d, List.mem_cons_of_mem b hd, hspace⟩, ?_⟩
      rw [segments, if_neg fun hcut => ne_pipe_of_isspace hb hcut.1, Mode.next, if_pos hb, hg]
      rfl
    · rw [List.dropWhile_cons_of_neg hb] at h
      obtain ⟨rfl, rfl⟩ := List.cons.inj h
      obtain ⟨hpipe, hspace⟩ : b ≠ pipe ∧ isspace b = false := of_decide_eq_true hc
      rw [segments, if_neg fun hcut => hpipe hcut.1, Mode.next, if_neg hb, ← tail_segments_word]
      cases hseg : segments .program s with
      | nil =>
        have hlen := length_segments .program s
        rw [hseg] at hlen
        cases hlen
      | cons g gs => exact ⟨b :: g, ⟨b, List.mem_cons_self, hspace⟩, rfl⟩

/-- A segment without a program word is blank. -/
theorem segments_blank (h : (s.dropWhile isspace).takeWhile inWord = []) :
    ∃ g gs, segments .beforeProgram s = g :: gs ∧ ¬ Nonblank g := by
  have hempty : ¬ Nonblank [] := fun ⟨_, hd, _⟩ => by cases hd
  induction s with
  | nil => exact ⟨[], [], rfl, hempty⟩
  | cons c s ih =>
    by_cases hc : isspace c = true
    · rw [List.dropWhile_cons_of_pos hc] at h
      obtain ⟨g, gs, hg, hblank⟩ := ih h
      refine ⟨c :: g, gs, ?_, ?_⟩
      · rw [segments, if_neg fun hcut => ne_pipe_of_isspace hc hcut.1, Mode.next, if_pos hc, hg]
        rfl
      · rintro ⟨d, hd, hspace⟩
        rcases List.mem_cons.mp hd with rfl | hd
        · rw [hc] at hspace
          cases hspace
        · exact hblank ⟨d, hd, hspace⟩
    · rw [List.dropWhile_cons_of_neg hc] at h
      have hpipe : c = pipe := by
        by_contra hne
        have hword : inWord c = true := decide_eq_true ⟨hne, Bool.eq_false_of_not_eq_true hc⟩
        rw [List.takeWhile_cons_of_pos hword] at h
        cases h
      exact ⟨[], _, segments_of_cuts ⟨hpipe, rfl⟩, hempty⟩

/-- The scanner finds a call in each segment, or a blank segment. -/
theorem scanCalls_segments (s : List UInt8) :
    ((scanCalls s).isSome = true ↔ ∀ g ∈ segments .beforeProgram s, Nonblank g) ∧
      ∀ calls, scanCalls s = some calls → calls.length = (segments .beforeProgram s).length := by
  induction hlen : s.length using Nat.strong_induction_on generalizing s with
  | _ n ih =>
    obtain ⟨⟨arguments, rest⟩, harguments⟩ :
        ∃ r, scanArguments ((s.dropWhile isspace).dropWhile inWord) = r := ⟨_, rfl⟩
    have hscan := scanCalls_eq s rfl harguments
    cases hword : (s.dropWhile isspace).takeWhile inWord with
    | nil =>
      obtain ⟨g, gs, hg, hblank⟩ := segments_blank hword
      rw [if_pos hword] at hscan
      rw [hscan, hg]
      refine ⟨iff_of_false (by simp) fun hall => hblank (hall g List.mem_cons_self), ?_⟩
      intro calls hnone
      cases hnone
    | cons c w =>
      have hne : (s.dropWhile isspace).takeWhile inWord ≠ [] := by
        rw [hword]
        exact List.cons_ne_nil _ _
      rw [if_neg hne] at hscan
      obtain ⟨t, htext, hc⟩ : ∃ t, s.dropWhile isspace = c :: t ∧ inWord c = true := by
        cases hdrop : s.dropWhile isspace with
        | nil =>
          rw [hdrop] at hword
          cases hword
        | cons d t =>
          rw [hdrop, List.takeWhile_cons] at hword
          split at hword
          · next hd =>
            obtain ⟨rfl, -⟩ := List.cons.inj hword
            exact ⟨t, rfl, hd⟩
          · cases hword
      obtain ⟨g, hnonblank, hg⟩ := segments_word htext hc
      rw [htext, List.dropWhile_cons_of_pos hc] at harguments
      have htail := tail_segments_arguments (t.dropWhile inWord)
      rw [harguments] at htail
      rw [hscan, hg, htail]
      have hstop := scanArguments_rest (t.dropWhile inWord)
      rw [harguments] at hstop
      rcases hstop with rfl | ⟨t', rfl⟩
      · refine ⟨iff_of_true rfl ?_, fun calls hcalls => ?_⟩
        · intro g' hg'
          obtain rfl := List.mem_singleton.mp hg'
          exact hnonblank
        · obtain rfl := Option.some.inj hcalls
          rfl
      · have hshort : t'.length < n := by
          have hrest_le := length_scanArguments_le (t.dropWhile inWord)
          have hword_le := (List.dropWhile_suffix inWord (l := t)).length_le
          have hblank_le := (List.dropWhile_suffix isspace (l := s)).length_le
          rw [harguments, List.length_cons] at hrest_le
          rw [htext, List.length_cons] at hblank_le
          omega
        obtain ⟨hsome, hcount⟩ := ih t'.length hshort t' rfl
        rw [segments_of_cuts ⟨rfl, rfl⟩, List.tail_cons, List.forall_mem_cons,
          and_iff_right hnonblank, ← hsome]
        dsimp only
        rw [Option.isSome_map]
        refine ⟨Iff.rfl, fun calls hcalls => ?_⟩
        obtain ⟨more, hmore, rfl⟩ := Option.map_eq_some_iff.mp hcalls
        rw [List.length_cons, List.length_cons, hcount more hmore]

end Reading

/-- On every line without the byte 255: no character is unexpected, the line is
accepted exactly if no segment is blank, and then there is one call for each
segment. -/
theorem pipeExpression_verdict (input : List UInt8) (h : endOfInput ∉ input) :
    (∀ c, (Parser.new input).pipeExpression ≠ .error (.unexpectedCharacter c)) ∧
    ((∃ calls, (Parser.new input).pipeExpression = .ok calls) ↔
      ∀ g ∈ segments .beforeProgram input, Nonblank g) ∧
    ∀ calls, (Parser.new input).pipeExpression = .ok calls →
      calls.length = (segments .beforeProgram input).length ∧
      calls.length = cuts .beforeProgram input + 1 := by
  have hagrees := pipeExpression_agrees h
  obtain ⟨hsome, hcount⟩ := scanCalls_segments input
  rw [← hsome, ← length_segments]
  generalize (Parser.new input).pipeExpression = result at hagrees ⊢
  cases hscan : scanCalls input with
  | none =>
    rw [hscan] at hagrees
    obtain ⟨position, rfl⟩ := hagrees
    refine ⟨fun c hc => (by cases hc), iff_of_false ?_ (by simp), fun calls hcalls => ?_⟩
    · rintro ⟨calls, hcalls⟩
      cases hcalls
    · cases hcalls
  | some calls =>
    rw [hscan] at hagrees
    obtain rfl := hagrees
    refine ⟨fun c hc => (by cases hc), iff_of_true ⟨_, rfl⟩ rfl, fun calls' hcalls => ?_⟩
    cases hcalls
    exact ⟨hcount calls hscan, hcount calls hscan⟩

/-- The line `e "|"|e`, in which the first pipe is an argument. -/
theorem pipeExpression_verdict_quoted :
    ∃ calls, (Parser.new [101, 32, 34, 124, 34, 124, 101]).pipeExpression = .ok calls ∧
      calls.length = 2 := by
  obtain ⟨_, haccepted, hcount⟩ :=
    pipeExpression_verdict [101, 32, 34, 124, 34, 124, 101] (by decide)
  obtain ⟨calls, hcalls⟩ := haccepted.mpr (by decide)
  exact ⟨calls, hcalls, (hcount calls hcalls).2⟩

end Heartix.Gsh
