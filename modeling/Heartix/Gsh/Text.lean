import Mathlib.Data.List.Basic
import Heartix.Gsh.Parser

/-!
The parser as a function of the text that it has not read yet. On a line without
the byte that is taken for the end of the input, the parser goes the same way as a
scanner over the rest of the line, and a scanner needs no position.
-/

namespace Heartix.Gsh

/-- What a parser still has to read, the current character included. -/
inductive Parser.Reads : Parser → List UInt8 → Prop
  | atEnd {p : Parser} (hcurrent : p.current = endOfInput)
      (hdrop : p.input.drop p.position = []) : Reads p []
  | atChar {p : Parser} {s : List UInt8} (hclean : endOfInput ∉ p.current :: s)
      (hdrop : p.input.drop p.position = s) : Reads p (p.current :: s)

/-- A character of a program word. -/
def inWord (c : UInt8) : Bool := c ≠ pipe ∧ isspace c = false

/-- An argument from its first character on, and what is behind it. -/
def scanArgument : (instr escaped : Bool) → List UInt8 → List UInt8 × List UInt8
  | _, _, [] => ([], [])
  | instr, escaped, c :: s =>
      if escaped = false ∧ c = backslash then scanArgument instr true s
      else if instr = true then
        if c = quotationMark ∧ escaped = false then scanArgument false false s
        else (scanArgument true false s).map (c :: ·) id
      else if escaped = false ∧ (c = pipe ∨ c = space) then ([], c :: s)
      else if c = quotationMark ∧ escaped = false then scanArgument true false s
      else (scanArgument false false s).map (c :: ·) id

theorem length_scanArgument_le (instr escaped : Bool) (s : List UInt8) :
    (scanArgument instr escaped s).2.length ≤ s.length := by
  fun_induction scanArgument instr escaped s with
  | case1 | case5 => exact le_rfl
  | case2 | case3 | case4 | case6 | case7 =>
    rename_i ih
    exact Nat.le_succ_of_le ih

/-- An argument takes the character it begins with. -/
theorem length_scanArgument_lt {c : UInt8} {s : List UInt8} (hpipe : c ≠ pipe)
    (hspace : c ≠ space) : (scanArgument false false (c :: s)).2.length < (c :: s).length := by
  have hstop : ¬ (c = pipe ∨ c = space) := not_or.mpr ⟨hpipe, hspace⟩
  rw [scanArgument, List.length_cons]
  simp only [Bool.false_eq_true, if_false, hstop, and_false]
  split
  · exact Nat.lt_succ_of_le (length_scanArgument_le ..)
  · split
    · exact Nat.lt_succ_of_le (length_scanArgument_le ..)
    · exact Nat.lt_succ_of_le (length_scanArgument_le ..)

theorem isspace_head {c : UInt8} {s t : List UInt8} (h : s.dropWhile isspace = c :: t) :
    isspace c = false := by
  have hhead := List.head_dropWhile_not isspace (w := by rw [h]; exact List.cons_ne_nil _ _)
  simpa [h] using hhead

theorem ne_space_of_isspace {c : UInt8} (h : isspace c = false) : c ≠ space := by
  rintro rfl
  exact absurd h (by decide)

/-- The arguments up to a pipe or the end, and what is behind them. -/
def scanArguments (s : List UInt8) : List (List UInt8) × List UInt8 :=
  match _ : s.dropWhile isspace with
  | [] => ([], [])
  | c :: t =>
      if _ : c = pipe then ([], c :: t)
      else
        let r := scanArgument false false (c :: t)
        (scanArguments r.2).map (r.1 :: ·) id
termination_by s.length
decreasing_by
  have hlt := length_scanArgument_lt (s := t) ‹_› (ne_space_of_isspace (isspace_head ‹_›))
  have hle := (List.dropWhile_suffix isspace (l := s)).length_le
  rw [‹s.dropWhile isspace = c :: t›] at hle
  omega

theorem scanArguments_of_end {s : List UInt8} (h : s.dropWhile isspace = []) :
    scanArguments s = ([], []) := by
  unfold scanArguments
  split
  · rfl
  · next heq => exact absurd (h.symm.trans heq) (List.cons_ne_nil _ _).symm

theorem scanArguments_of_pipe {s t : List UInt8} (h : s.dropWhile isspace = pipe :: t) :
    scanArguments s = ([], pipe :: t) := by
  unfold scanArguments
  split
  · next heq => exact absurd (h.symm.trans heq) (List.cons_ne_nil _ _)
  · next c t' heq =>
    obtain ⟨rfl, rfl⟩ := List.cons.inj (h.symm.trans heq)
    exact dif_pos rfl

theorem scanArguments_of_char {c : UInt8} {s t : List UInt8} (h : s.dropWhile isspace = c :: t)
    (hc : c ≠ pipe) :
    scanArguments s = (scanArguments (scanArgument false false (c :: t)).2).map
      ((scanArgument false false (c :: t)).1 :: ·) id := by
  conv_lhs => unfold scanArguments
  split
  · next heq => exact absurd (h.symm.trans heq) (List.cons_ne_nil _ _)
  · next c' t' heq =>
    obtain ⟨rfl, rfl⟩ := List.cons.inj (h.symm.trans heq)
    exact dif_neg hc

theorem length_scanArguments_le (s : List UInt8) : (scanArguments s).2.length ≤ s.length := by
  have hdrop (s : List UInt8) : (s.dropWhile isspace).length ≤ s.length :=
    (List.dropWhile_suffix isspace).length_le
  induction s using scanArguments.induct with
  | case1 s h =>
    rw [scanArguments_of_end h]
    exact Nat.zero_le _
  | case2 s t h =>
    rw [scanArguments_of_pipe h, ← h]
    exact hdrop s
  | case3 s c t h hc r ih =>
    rw [scanArguments_of_char h hc]
    have hle := length_scanArgument_le false false (c :: t)
    have hs := hdrop s
    rw [h] at hs
    exact (ih.trans hle).trans hs

/-- Behind the arguments stands a pipe or nothing. -/
theorem scanArguments_rest (s : List UInt8) :
    (scanArguments s).2 = [] ∨ ∃ t, (scanArguments s).2 = pipe :: t := by
  induction s using scanArguments.induct with
  | case1 s hs => exact .inl (by rw [scanArguments_of_end hs])
  | case2 s t hs => exact .inr ⟨t, by rw [scanArguments_of_pipe hs]⟩
  | case3 s c t hs hc r ih =>
    rw [scanArguments_of_char hs hc]
    exact ih

/-- The calls of a line, if there is one between any two pipes. -/
def scanCalls (s : List UInt8) : Option (List ProgramCall) :=
  let word := s.dropWhile isspace
  if word.takeWhile inWord = [] then none
  else
    let r := scanArguments (word.dropWhile inWord)
    let call : ProgramCall := ⟨word.takeWhile inWord, r.1⟩
    match _ : r.2 with
    | [] => some [call]
    | _ :: t => (scanCalls t).map (call :: ·)
termination_by s.length
decreasing_by
  have hle := length_scanArguments_le ((s.dropWhile isspace).dropWhile inWord)
  have hword := (List.dropWhile_suffix inWord (l := s.dropWhile isspace)).length_le
  have hblank := (List.dropWhile_suffix isspace (l := s)).length_le
  have hlen := congrArg List.length ‹r.2 = _ :: t›
  rw [List.length_cons] at hlen
  change r.2.length ≤ _ at hle
  omega

/-- The equation of the scanner: a word, its arguments, and what follows a pipe. -/
theorem scanCalls_eq (s : List UInt8) {word rest : List UInt8} {arguments : List (List UInt8)}
    (hword : (s.dropWhile isspace).takeWhile inWord = word)
    (harguments : scanArguments ((s.dropWhile isspace).dropWhile inWord) = (arguments, rest)) :
    scanCalls s =
      if word = [] then none
      else
        match rest with
        | [] => some [⟨word, arguments⟩]
        | _ :: t => (scanCalls t).map (⟨word, arguments⟩ :: ·) := by
  conv_lhs => unfold scanCalls
  simp only [hword]
  by_cases hempty : word = []
  · rw [if_pos hempty, if_pos hempty]
  · rw [if_neg hempty, if_neg hempty]
    split
    · next hrest =>
      rw [harguments] at hrest ⊢
      subst hrest
      rfl
    · next c t hrest =>
      rw [harguments] at hrest ⊢
      subst hrest
      rfl

namespace Parser

variable {p : Parser} {c : UInt8} {s : List UInt8}

theorem Reads.current (h : p.Reads (c :: s)) : p.current = c := by
  cases h with
  | atChar => rfl

theorem Reads.current_nil (h : p.Reads []) : p.current = endOfInput := by
  cases h with
  | atEnd hcurrent _ => exact hcurrent

theorem Reads.ne_end (h : p.Reads (c :: s)) : c ≠ endOfInput := by
  cases h with
  | atChar hclean _ =>
    intro heq
    exact hclean (heq ▸ List.mem_cons_self)

theorem reads_of_drop {p : Parser} (hclean : endOfInput ∉ p.input.drop p.position) :
    p.step.Reads (p.input.drop p.position) := by
  unfold Parser.step
  cases hget : p.input[p.position]? with
  | none =>
    have hdrop : p.input.drop p.position = [] :=
      List.drop_eq_nil_of_le (List.getElem?_eq_none_iff.mp hget)
    rw [hdrop]
    exact .atEnd rfl hdrop
  | some c =>
    have hdrop : p.input.drop p.position = c :: p.input.drop (p.position + 1) := by
      rw [List.drop_eq_getElem?_toList_append, hget]
      rfl
    rw [hdrop] at hclean ⊢
    exact .atChar hclean rfl

theorem Reads.step (h : p.Reads (c :: s)) : p.step.Reads s := by
  cases h with
  | atChar hclean hdrop =>
    rw [← hdrop]
    exact reads_of_drop fun hmem => hclean (List.mem_cons_of_mem _ (hdrop ▸ hmem))

theorem reads_new {input : List UInt8} (h : endOfInput ∉ input) : (new input).Reads input :=
  reads_of_drop (p := ⟨input, 0, endOfInput⟩) h

theorem Reads.skipWhitespace (h : p.Reads s) : p.skipWhitespace.Reads (s.dropWhile isspace) := by
  induction s generalizing p with
  | nil =>
    rw [Parser.skipWhitespace, dif_neg (by rw [h.current_nil]; decide)]
    exact h
  | cons c s ih =>
    by_cases hc : isspace c = true
    · rw [Parser.skipWhitespace, dif_pos (by rw [h.current]; exact hc),
        List.dropWhile_cons_of_pos hc]
      exact ih h.step
    · rw [Parser.skipWhitespace, dif_neg (by rw [h.current]; exact hc),
        List.dropWhile_cons_of_neg hc]
      exact h

theorem Reads.programLoop (h : p.Reads s) (program : List UInt8) :
    (programLoop program p).1 = program ++ s.takeWhile inWord ∧
      (programLoop program p).2.Reads (s.dropWhile inWord) := by
  induction s generalizing p program with
  | nil =>
    rw [Parser.programLoop, dif_neg fun hnot => hnot.1 h.current_nil]
    exact ⟨(List.append_nil _).symm, h⟩
  | cons c s ih =>
    by_cases hc : inWord c = true
    · have hword : c ≠ pipe ∧ isspace c = false := of_decide_eq_true hc
      rw [Parser.programLoop, dif_pos (by rw [h.current]; exact ⟨h.ne_end, hword⟩),
        List.takeWhile_cons_of_pos hc, List.dropWhile_cons_of_pos hc, h.current]
      obtain ⟨hprogram, hrest⟩ := ih h.step (program ++ [c])
      exact ⟨hprogram.trans (List.append_assoc _ _ _), hrest⟩
    · have hword : ¬ (c ≠ pipe ∧ isspace c = false) := fun hword => hc (decide_eq_true hword)
      rw [Parser.programLoop, dif_neg (by rw [h.current]; exact fun hnot => hword hnot.2),
        List.takeWhile_cons_of_neg hc, List.dropWhile_cons_of_neg hc]
      exact ⟨(List.append_nil _).symm, h⟩

/-- The argument loop goes the way of the scanner, in each state of its two flags. -/
theorem Reads.argumentLoop (h : p.Reads s) (arg : List UInt8) (instr escaped : Bool) :
    (argumentLoop arg instr escaped p).1 = arg ++ (scanArgument instr escaped s).1 ∧
      (argumentLoop arg instr escaped p).2.Reads (scanArgument instr escaped s).2 := by
  induction s generalizing p arg instr escaped with
  | nil =>
    rw [Parser.argumentLoop, dif_pos h.current_nil, scanArgument]
    exact ⟨(List.append_nil _).symm, h⟩
  | cons c s ih =>
    rw [Parser.argumentLoop, dif_neg (by rw [h.current]; exact h.ne_end), scanArgument, h.current]
    have hkept (instr : Bool) :
        (argumentLoop (arg ++ [c]) instr false p.step).1 =
            arg ++ ((scanArgument instr false s).map (c :: ·) id).1 ∧
          (argumentLoop (arg ++ [c]) instr false p.step).2.Reads
            ((scanArgument instr false s).map (c :: ·) id).2 := by
      obtain ⟨harg, hrest⟩ := ih h.step (arg ++ [c]) instr false
      exact ⟨harg.trans (List.append_assoc _ _ _), hrest⟩
    split
    · exact ih h.step arg instr true
    · split
      · split
        · exact ih h.step arg false false
        · exact hkept true
      · split
        · exact ⟨(List.append_nil _).symm, h⟩
        · split
          · exact ih h.step arg true false
          · exact hkept false

theorem Reads.argument_of_end (h : p.Reads s) (hs : s.dropWhile isspace = []) :
    p.argument.1 = none ∧ p.argument.2.Reads [] := by
  have hskip := h.skipWhitespace
  rw [hs] at hskip
  unfold Parser.argument
  dsimp only
  rw [if_pos hskip.current_nil]
  exact ⟨rfl, hskip⟩

theorem Reads.argument_of_pipe {t : List UInt8} (h : p.Reads s)
    (hs : s.dropWhile isspace = pipe :: t) :
    p.argument.1 = none ∧ p.argument.2.Reads (pipe :: t) := by
  have hskip := h.skipWhitespace
  rw [hs] at hskip
  unfold Parser.argument
  dsimp only
  rw [if_neg (by rw [hskip.current]; decide), if_pos hskip.current]
  exact ⟨rfl, hskip⟩

theorem Reads.argument_of_char {t : List UInt8} (h : p.Reads s)
    (hs : s.dropWhile isspace = c :: t) (hc : c ≠ pipe) :
    p.argument.1 = some (scanArgument false false (c :: t)).1 ∧
      p.argument.2.Reads (scanArgument false false (c :: t)).2 := by
  have hskip := h.skipWhitespace
  rw [hs] at hskip
  obtain ⟨harg, hrest⟩ := hskip.argumentLoop [] false false
  unfold Parser.argument
  dsimp only
  rw [if_neg (by rw [hskip.current]; exact hskip.ne_end),
    if_neg (by rw [hskip.current]; exact hc)]
  exact ⟨congrArg some harg, hrest⟩

theorem argumentsLoop_of_none (h : p.argument.1 = none) (arguments : List (List UInt8)) :
    argumentsLoop arguments p = (arguments, p.argument.2) := by
  unfold Parser.argumentsLoop
  split
  · next q heq => rw [heq]
  · next arg q heq =>
    rw [heq] at h
    cases h

theorem argumentsLoop_of_some {arg : List UInt8} (h : p.argument.1 = some arg)
    (arguments : List (List UInt8)) :
    argumentsLoop arguments p = argumentsLoop (arguments ++ [arg]) p.argument.2 := by
  conv_lhs => unfold Parser.argumentsLoop
  split
  · next q heq =>
    rw [heq] at h
    cases h
  · next arg' q heq =>
    rw [heq] at h ⊢
    cases h
    rfl

theorem Reads.argumentsLoop (h : p.Reads s) (arguments : List (List UInt8)) :
    (argumentsLoop arguments p).1 = arguments ++ (scanArguments s).1 ∧
      (argumentsLoop arguments p).2.Reads (scanArguments s).2 := by
  induction s using scanArguments.induct generalizing p arguments with
  | case1 s hs =>
    obtain ⟨hnone, hrest⟩ := h.argument_of_end hs
    rw [argumentsLoop_of_none hnone, scanArguments_of_end hs]
    exact ⟨(List.append_nil _).symm, hrest⟩
  | case2 s t hs =>
    obtain ⟨hnone, hrest⟩ := h.argument_of_pipe hs
    rw [argumentsLoop_of_none hnone, scanArguments_of_pipe hs]
    exact ⟨(List.append_nil _).symm, hrest⟩
  | case3 s c t hs hc r =>
    rename_i ih
    obtain ⟨harg, hrest⟩ := h.argument_of_char hs hc
    rw [argumentsLoop_of_some harg, scanArguments_of_char hs hc]
    obtain ⟨harguments, hrest⟩ := ih hrest (arguments ++ [(scanArgument false false (c :: t)).1])
    exact ⟨harguments.trans (List.append_assoc _ _ _), hrest⟩

theorem Reads.programCall (h : p.Reads s) {word rest : List UInt8}
    {arguments : List (List UInt8)} (hword : s.takeWhile inWord = word)
    (harguments : scanArguments (s.dropWhile inWord) = (arguments, rest)) :
    p.programCall.1 = (if word = [] then none else some ⟨word, arguments⟩) ∧
      (word ≠ [] → p.programCall.2.Reads rest) := by
  obtain ⟨hprogram, hdrop⟩ := h.programLoop []
  obtain ⟨hlist, hrest⟩ := hdrop.argumentsLoop []
  rw [hword, List.nil_append] at hprogram
  rw [harguments] at hlist hrest
  unfold Parser.programCall
  generalize Parser.programLoop [] p = result at hprogram hlist hrest ⊢
  obtain ⟨program, q⟩ := result
  dsimp only at hprogram hlist hrest ⊢
  subst hprogram
  by_cases hempty : program = []
  · rw [if_pos hempty, if_pos hempty]
    exact ⟨rfl, fun hne => absurd hempty hne⟩
  · rw [if_neg hempty, if_neg hempty]
    exact ⟨by rw [hlist]; rfl, fun _ => hrest⟩

/-- The verdict of the scanner as one of the parser. -/
def Agrees (calls : List ProgramCall) :
    Option (List ProgramCall) → Except ParseError (List ProgramCall) → Prop
  | some more, result => result = .ok (calls ++ more)
  | none, result => ∃ position, result = .error (.expectedProgramCall position)

theorem pipeExpressionLoop_of_none (h : p.skipWhitespace.programCall.1 = none)
    (calls : List ProgramCall) :
    pipeExpressionLoop calls p =
      .error (.expectedProgramCall p.skipWhitespace.programCall.2.position) := by
  unfold Parser.pipeExpressionLoop
  split
  · next q heq => rw [heq]
  · next call q heq =>
    rw [heq] at h
    cases h

theorem pipeExpressionLoop_of_some {call : ProgramCall}
    (h : p.skipWhitespace.programCall.1 = some call) (calls : List ProgramCall) :
    pipeExpressionLoop calls p =
      let q := p.skipWhitespace.programCall.2.skipWhitespace
      if q.current = pipe then pipeExpressionLoop (calls ++ [call]) q.step
      else if q.current = endOfInput then .ok (calls ++ [call])
      else .error (.unexpectedCharacter q.current) := by
  conv_lhs => unfold Parser.pipeExpressionLoop
  split
  · next q heq =>
    rw [heq] at h
    cases h
  · next call' q heq =>
    rw [heq] at h ⊢
    cases h
    rfl

/-- The parser and the scanner find the same calls. -/
theorem Reads.pipeExpressionLoop (h : p.Reads s) (calls : List ProgramCall) :
    Agrees calls (scanCalls s) (pipeExpressionLoop calls p) := by
  induction hlen : s.length using Nat.strong_induction_on generalizing p s calls with
  | _ n ih =>
    obtain ⟨word, hword⟩ : ∃ word, (s.dropWhile isspace).takeWhile inWord = word := ⟨_, rfl⟩
    obtain ⟨⟨arguments, rest⟩, harguments⟩ :
        ∃ r, scanArguments ((s.dropWhile isspace).dropWhile inWord) = r := ⟨_, rfl⟩
    obtain ⟨hcall, hrest⟩ := h.skipWhitespace.programCall hword harguments
    have hstop := scanArguments_rest ((s.dropWhile isspace).dropWhile inWord)
    rw [harguments] at hstop
    rw [scanCalls_eq s hword harguments]
    by_cases hempty : word = []
    · rw [if_pos hempty] at hcall ⊢
      rw [pipeExpressionLoop_of_none hcall]
      exact ⟨_, rfl⟩
    · rw [if_neg hempty] at hcall ⊢
      rw [pipeExpressionLoop_of_some hcall]
      have hskip := (hrest hempty).skipWhitespace
      rcases hstop with rfl | ⟨t, rfl⟩
      · dsimp only
        rw [if_neg (by rw [hskip.current_nil]; decide), if_pos hskip.current_nil]
        rfl
      · rw [List.dropWhile_cons_of_neg (by decide)] at hskip
        have hshort : t.length < n := by
          have hrest_le := length_scanArguments_le ((s.dropWhile isspace).dropWhile inWord)
          have hword_le := (List.dropWhile_suffix inWord (l := s.dropWhile isspace)).length_le
          have hblank_le := (List.dropWhile_suffix isspace (l := s)).length_le
          rw [harguments, List.length_cons] at hrest_le
          omega
        have hmore := ih t.length hshort hskip.step (calls ++ [⟨word, arguments⟩]) rfl
        dsimp only
        rw [if_pos hskip.current]
        cases hscan : scanCalls t with
        | none =>
          rw [hscan] at hmore
          exact hmore
        | some more =>
          rw [hscan] at hmore
          exact hmore.trans (congrArg Except.ok (List.append_assoc _ _ _))

end Parser

/-- On a line without the byte for the end of the input, `pipe_expression` finds the
calls that the scanner finds, or reports that one is missing. -/
theorem pipeExpression_agrees {input : List UInt8} (h : endOfInput ∉ input) :
    Parser.Agrees [] (scanCalls input) (Parser.new input).pipeExpression :=
  (Parser.reads_new h).pipeExpressionLoop []

end Heartix.Gsh
