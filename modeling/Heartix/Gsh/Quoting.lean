import Heartix.Gsh.Text

/-!
Writing calls as a line that the parser reads back. Each argument stands between
quotation marks, with a backslash before the characters that end or escape there.
-/

namespace Heartix.Gsh

def escape (c : UInt8) : List UInt8 :=
  if c = backslash ∨ c = quotationMark then [backslash, c] else [c]

def quote (a : List UInt8) : List UInt8 := quotationMark :: (a.flatMap escape ++ [quotationMark])

def renderCall (call : ProgramCall) : List UInt8 :=
  [space].intercalate (call.program :: call.arguments.map quote)

def render (calls : List ProgramCall) : List UInt8 :=
  [space, pipe, space].intercalate (calls.map renderCall)

/-- The program is a word, and no byte is taken for the end of the input. -/
structure Renderable (call : ProgramCall) : Prop where
  program_ne : call.program ≠ []
  program_word : ∀ c ∈ call.program, isspace c = false ∧ c ≠ pipe ∧ c ≠ endOfInput
  arguments_clean : ∀ a ∈ call.arguments, endOfInput ∉ a

section Arguments

variable {a s : List UInt8}

/-- Within quotation marks, escaped characters are read back up to the closing
mark. -/
theorem scanArgument_escaped (a s : List UInt8) :
    scanArgument true false (a.flatMap escape ++ quotationMark :: s) =
      (scanArgument false false s).map (a ++ ·) id := by
  induction a with
  | nil => rfl
  | cons c a ih =>
    rw [List.flatMap_cons, escape]
    by_cases hc : c = backslash ∨ c = quotationMark
    · rw [if_pos hc, List.append_assoc, List.cons_append, List.singleton_append]
      have hkept : scanArgument true false (backslash :: c ::
          (a.flatMap escape ++ quotationMark :: s)) =
          (scanArgument true false (a.flatMap escape ++ quotationMark :: s)).map (c :: ·) id := by
        simp [scanArgument]
      rw [hkept, ih]
      rfl
    · obtain ⟨hbackslash, hmark⟩ := not_or.mp hc
      rw [if_neg hc, List.append_assoc, List.singleton_append]
      have hkept : scanArgument true false (c :: (a.flatMap escape ++ quotationMark :: s)) =
          (scanArgument true false (a.flatMap escape ++ quotationMark :: s)).map (c :: ·) id := by
        simp [scanArgument, hbackslash, hmark]
      rw [hkept, ih]
      rfl

/-- What may stand behind an argument. -/
def Stops (s : List UInt8) : Prop := s = [] ∨ ∃ t, s = space :: t

theorem scanArgument_quote (hs : Stops s) :
    scanArgument false false (quote a ++ s) = (a, s) := by
  have hstop : scanArgument false false s = ([], s) := by
    rcases hs with rfl | ⟨t, rfl⟩
    · rfl
    · rfl
  have hopen : scanArgument false false (quote a ++ s) =
      scanArgument true false (a.flatMap escape ++ quotationMark :: s) := by
    rw [quote, List.cons_append, List.append_assoc]
    rfl
  rw [hopen, scanArgument_escaped, hstop]
  exact congrArg (·, s) (List.append_nil a)

/-- The arguments of a call, each behind a space. -/
def renderArguments (args : List (List UInt8)) : List UInt8 :=
  args.flatMap fun a => space :: quote a

theorem stops_renderArguments (args : List (List UInt8)) (hs : Stops s) :
    Stops (renderArguments args ++ s) := by
  cases args with
  | nil => exact hs
  | cons a args => exact .inr ⟨_, rfl⟩

theorem scanArguments_render (args : List (List UInt8)) (hs : Stops s)
    (hpipe : s.dropWhile isspace = [] ∨ ∃ t, s.dropWhile isspace = pipe :: t) :
    scanArguments (renderArguments args ++ s) = (args, s.dropWhile isspace) := by
  induction args with
  | nil =>
    rcases hpipe with hend | ⟨t, ht⟩
    · exact (scanArguments_of_end hend).trans (by rw [hend])
    · exact (scanArguments_of_pipe ht).trans (by rw [ht])
  | cons a args ih =>
    have htext : renderArguments (a :: args) ++ s =
        space :: (quote a ++ (renderArguments args ++ s)) := by
      rw [renderArguments, List.flatMap_cons, List.append_assoc]
      rfl
    have hfirst : (space :: (quote a ++ (renderArguments args ++ s))).dropWhile isspace =
        quotationMark ::
          (a.flatMap escape ++ [quotationMark] ++ (renderArguments args ++ s)) := rfl
    rw [htext, scanArguments_of_char hfirst (by decide)]
    have hquote := scanArgument_quote (a := a) (stops_renderArguments args hs)
    rw [quote, List.cons_append] at hquote
    rw [hquote, ih]
    rfl

end Arguments

section Lines

variable {call : ProgramCall} {calls : List ProgramCall} {s : List UInt8}

theorem renderCall_eq (call : ProgramCall) :
    renderCall call = call.program ++ renderArguments call.arguments := by
  have hjoin (w : List UInt8) (l : List (List UInt8)) :
      [space].intercalate (w :: l) = w ++ l.flatMap (space :: ·) := by
    induction l generalizing w with
    | nil => rw [List.intercalate_singleton, List.flatMap_nil, List.append_nil]
    | cons a l ih =>
      rw [List.intercalate_cons_cons, ih, List.flatMap_cons, List.append_assoc]
      rfl
  rw [renderCall, hjoin, List.flatMap_map]
  rfl

/-- What follows the first call of a line. -/
def renderRest : List ProgramCall → List UInt8
  | [] => []
  | call :: calls => space :: pipe :: space :: render (call :: calls)

theorem render_cons (call : ProgramCall) (calls : List ProgramCall) :
    render (call :: calls) = renderCall call ++ renderRest calls := by
  unfold render
  cases calls with
  | nil =>
    rw [List.map_cons, List.map_nil, List.intercalate_singleton]
    exact (List.append_nil _).symm
  | cons next calls =>
    rw [List.map_cons, List.map_cons, List.intercalate_cons_cons, List.append_assoc]
    rfl

theorem stops_renderRest : Stops (renderRest calls) := by
  cases calls with
  | nil => exact .inl rfl
  | cons call calls => exact .inr ⟨_, rfl⟩

theorem scanCalls_blank (s : List UInt8) : scanCalls (space :: s) = scanCalls s := by
  rw [scanCalls_eq (space :: s) rfl rfl, scanCalls_eq s rfl rfl,
    List.dropWhile_cons_of_pos (by decide)]

/-- A program word is read up to what stops it. -/
theorem scan_word (h : Renderable call) (hs : Stops s) :
    (call.program ++ s).dropWhile isspace = call.program ++ s ∧
      (call.program ++ s).takeWhile inWord = call.program ∧
      (call.program ++ s).dropWhile inWord = s := by
  have hword : ∀ c ∈ call.program, inWord c = true := fun c hc =>
    decide_eq_true ⟨(h.program_word c hc).2.1, (h.program_word c hc).1⟩
  have hstop : s.takeWhile inWord = [] ∧ s.dropWhile inWord = s := by
    rcases hs with rfl | ⟨t, rfl⟩
    · exact ⟨rfl, rfl⟩
    · exact ⟨rfl, rfl⟩
  refine ⟨?_, ?_, ?_⟩
  · obtain ⟨c, w, hcw⟩ := List.exists_cons_of_ne_nil h.program_ne
    have hspace := (h.program_word c (hcw ▸ List.mem_cons_self)).1
    rw [hcw, List.cons_append]
    exact List.dropWhile_cons_of_neg (by rw [hspace]; exact Bool.false_ne_true)
  · rw [List.takeWhile_append_of_pos hword, hstop.1, List.append_nil]
  · rw [List.dropWhile_append_of_pos hword, hstop.2]

/-- The scanner reads the calls back. -/
theorem scanCalls_render (hne : calls ≠ []) (h : ∀ call ∈ calls, Renderable call) :
    scanCalls (render calls) = some calls := by
  induction calls with
  | nil => exact absurd rfl hne
  | cons call calls ih =>
    have hcall := h call List.mem_cons_self
    have hstops : Stops (renderArguments call.arguments ++ renderRest calls) :=
      stops_renderArguments call.arguments stops_renderRest
    obtain ⟨hblank, hword, hrest⟩ := scan_word hcall hstops
    have hpipe : (renderRest calls).dropWhile isspace = [] ∨
        ∃ t, (renderRest calls).dropWhile isspace = pipe :: t := by
      cases calls with
      | nil => exact .inl rfl
      | cons next calls => exact .inr ⟨_, rfl⟩
    have harguments := scanArguments_render call.arguments stops_renderRest hpipe
    have htext : render (call :: calls) =
        call.program ++ (renderArguments call.arguments ++ renderRest calls) := by
      rw [render_cons, renderCall_eq, List.append_assoc]
    rw [htext, scanCalls_eq _ (by rw [hblank, hword]) (by rw [hblank, hrest, harguments]),
      if_neg hcall.program_ne]
    cases calls with
    | nil => rfl
    | cons next calls =>
      have hnext := ih (List.cons_ne_nil _ _) fun c hc => h c (List.mem_cons_of_mem _ hc)
      change (scanCalls (space :: render (next :: calls))).map _ = _
      rw [scanCalls_blank, hnext]
      rfl

theorem endOfInput_notMem_quote {a : List UInt8} (ha : endOfInput ∉ a) :
    endOfInput ∉ quote a := by
  intro hmem
  rw [quote, List.mem_cons, List.mem_append, List.mem_flatMap, List.mem_singleton] at hmem
  rcases hmem with h | ⟨c, hc, h⟩ | h
  · exact absurd h (by decide)
  · unfold escape at h
    split at h
    · rcases List.mem_cons.mp h with h | h
      · exact absurd h (by decide)
      · exact ha (List.mem_singleton.mp h ▸ hc)
    · exact ha (List.mem_singleton.mp h ▸ hc)
  · exact absurd h (by decide)

theorem endOfInput_notMem_renderCall (h : Renderable call) : endOfInput ∉ renderCall call := by
  rw [renderCall_eq, List.mem_append, renderArguments, List.mem_flatMap]
  rintro (hmem | ⟨a, ha, hmem⟩)
  · exact (h.program_word _ hmem).2.2 rfl
  · rcases List.mem_cons.mp hmem with heq | hmem
    · exact absurd heq (by decide)
    · exact endOfInput_notMem_quote (h.arguments_clean a ha) hmem

theorem endOfInput_notMem_render (h : ∀ call ∈ calls, Renderable call) :
    endOfInput ∉ render calls := by
  induction calls with
  | nil => exact List.not_mem_nil
  | cons call calls ih =>
    have hcall := endOfInput_notMem_renderCall (h call List.mem_cons_self)
    have hmore := ih fun c hc => h c (List.mem_cons_of_mem _ hc)
    rw [render_cons, List.mem_append, not_or]
    refine ⟨hcall, ?_⟩
    cases calls with
    | nil => exact List.not_mem_nil
    | cons next calls =>
      intro hmem
      rcases List.mem_append.mp (show endOfInput ∈ [space, pipe, space] ++ _ from hmem) with h | h
      · exact absurd h (by decide)
      · exact hmore h

end Lines

/-- A line written from calls is parsed to the same calls. -/
theorem pipeExpression_render (calls : List ProgramCall) (hne : calls ≠ [])
    (h : ∀ call ∈ calls, Renderable call) :
    (Parser.new (render calls)).pipeExpression = .ok calls := by
  have hagrees := pipeExpression_agrees (endOfInput_notMem_render h)
  rw [scanCalls_render hne h] at hagrees
  exact hagrees

/-- The calls `e "\"\\" ""` and `f`. -/
theorem pipeExpression_render_quoted :
    (Parser.new (render [⟨[101], [[34, 92], []]⟩, ⟨[102], []⟩])).pipeExpression =
      .ok [⟨[101], [[34, 92], []]⟩, ⟨[102], []⟩] := by
  refine pipeExpression_render _ (by decide) ?_
  intro call hcall
  rcases List.mem_cons.mp hcall with rfl | hcall
  · exact ⟨by decide, List.forall_mem_singleton.mpr (by decide), by decide⟩
  · obtain rfl := List.mem_singleton.mp hcall
    exact ⟨by decide, List.forall_mem_singleton.mpr (by decide), by decide⟩

end Heartix.Gsh
