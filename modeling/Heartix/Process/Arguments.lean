import Heartix.Lib.Fields
import Mathlib.Data.List.TakeWhile

/-!
The way of the command line arguments into a program. The caller joins them to
one string with unit separators, the kernel hands the string over, and
`parseargs` takes it apart again before `main` is called. A string is the list
of its bytes before the terminating NUL; the kernel returns from
`g_cli_args_release` what it was given when the program was spawned. `execve`
packs the whole argument vector, program name included, while `parseargs` puts
a program name of its own in front.
-/

namespace Heartix.Process

open Fields

def G_CLIARGS_BUFFER_LENGTH : ℕ := 1024
def G_CLIARGS_SEPARATOR : UInt8 := 0x1F

def backslash : UInt8 := 92
def quotationMark : UInt8 := 34

/-- What a reader of a NUL-terminated string sees of a piece of memory. -/
def cString (memory : List UInt8) : List UInt8 := memory.takeWhile (· ≠ 0)

theorem cString_terminated {s rest : List UInt8} (hs : 0 ∉ s) : cString (s ++ 0 :: rest) = s := by
  have hall : ∀ c ∈ s, decide (c ≠ 0) = true := by
    intro c hc
    exact decide_eq_true fun hzero => hs (hzero ▸ hc)
  unfold cString
  rw [List.takeWhile_append_of_pos hall]
  exact List.append_nil s

/-- The rest of the line from the next separator on. -/
def toSeparator (pos : List UInt8) : List UInt8 := pos.dropWhile (· ≠ G_CLIARGS_SEPARATOR)

theorem length_toSeparator_le (pos : List UInt8) : (toSeparator pos).length ≤ pos.length :=
  (List.dropWhile_sublist _).length_le

/-- The counting loop of `parseargs`. -/
def countArguments (pos : List UInt8) (argc : ℕ) : ℕ :=
  if _ : pos = [] then argc else countArguments (toSeparator pos).tail (argc + 1)
termination_by pos.length
decreasing_by
  have hpos := List.length_pos_of_ne_nil ‹¬pos = []›
  have hle := length_toSeparator_le pos
  simp only [List.length_tail]
  omega

/-- The splitting loop of `parseargs`, which ends each argument with a NUL. -/
def splitArguments (pos : List UInt8) : List (List UInt8) :=
  if _ : pos = [] then []
  else
    let arg := pos.takeWhile (· ≠ G_CLIARGS_SEPARATOR)
    match toSeparator pos with
    | [] => [arg]
    | _ :: _ => arg :: splitArguments (toSeparator pos).tail
termination_by pos.length
decreasing_by
  have hpos := List.length_pos_of_ne_nil ‹¬pos = []›
  have hle := length_toSeparator_le pos
  simp only [List.length_tail]
  omega

/-- The cleaning loop of `parseargs` on one argument. Moving the rest of the
argument one place to the left removes a character. -/
def cleanArgument (arg : List UInt8) (p : ℕ) (esc : Bool) : List UInt8 :=
  if _ : p < arg.length then
    if esc = false ∧ arg[p] = backslash then cleanArgument (arg.eraseIdx p) p true
    else if esc = false ∧ arg[p] = quotationMark then cleanArgument (arg.eraseIdx p) p false
    else cleanArgument arg (p + 1) false
  else arg
termination_by arg.length - p
decreasing_by
  · rw [List.length_eraseIdx_of_lt ‹_›]
    omega
  · rw [List.length_eraseIdx_of_lt ‹_›]
    omega
  · omega

/-- `parseargs`: the argument count and vector, or `none` where it returns -1. -/
def parseargs (malloc : ℕ → Bool) (executableName commandLine : List UInt8) :
    Option (ℕ × List (List UInt8)) :=
  if malloc G_CLIARGS_BUFFER_LENGTH = false then none
  else
    let unparsedCommandLine := cString commandLine
    let argc := countArguments unparsedCommandLine 1
    if malloc (8 * (argc + 1)) = false then none
    else
      let argv := executableName :: splitArguments unparsedCommandLine
      some (argc, argv.mapIdx fun i arg =>
        if 1 ≤ i ∧ i < argc then cleanArgument arg 0 false else arg)

/-- The first loop of `g_execve_pack_arguments`. -/
def packedLength : List (List UInt8) → ℕ
  | [] => 0
  | arg :: argv => arg.length + (if argv = [] then 0 else 1) + packedLength argv

/-- The second loop of `g_execve_pack_arguments`. -/
def packLoop : List (List UInt8) → List UInt8
  | [] => []
  | arg :: argv => arg ++ (if argv = [] then [] else [G_CLIARGS_SEPARATOR]) ++ packLoop argv

/-- `g_execve_pack_arguments`. -/
def packArguments (malloc : ℕ → Bool) (argv : Option (List (List UInt8))) :
    Option (List UInt8) :=
  match argv with
  | none => if malloc 1 = true then some [] else none
  | some argv => if malloc (packedLength argv + 1) = true then some (packLoop argv) else none

/-- What the new image's `main` is called with after `g_execve`, if it is. -/
def execveArguments (malloc malloc' : ℕ → Bool) (executableName : List UInt8)
    (argv : Option (List (List UInt8))) : Option (ℕ × List (List UInt8)) :=
  match packArguments malloc argv with
  | none => none
  | some packedArgs => parseargs malloc' executableName packedArgs

/-- The argument without its quotation marks and backslashes, except those that
a backslash stands before. -/
def unquoted : (esc : Bool) → List UInt8 → List UInt8
  | _, [] => []
  | esc, c :: arg =>
      if esc = false ∧ c = backslash then unquoted true arg
      else if esc = false ∧ c = quotationMark then unquoted false arg
      else c :: unquoted false arg

/-- The part of a line before its first separator, and the rest. -/
theorem takeWhile_append_toSeparator (pos : List UInt8) :
    pos.takeWhile (· ≠ G_CLIARGS_SEPARATOR) ++ toSeparator pos = pos :=
  List.takeWhile_append_dropWhile

theorem separator_notMem_takeWhile (pos : List UInt8) :
    G_CLIARGS_SEPARATOR ∉ pos.takeWhile (· ≠ G_CLIARGS_SEPARATOR) := by
  intro hmem
  have hne := List.mem_takeWhile_imp hmem
  simp at hne

theorem toSeparator_head {pos rest : List UInt8} {c : UInt8} (h : toSeparator pos = c :: rest) :
    c = G_CLIARGS_SEPARATOR := by
  unfold toSeparator at h
  have hhead := List.head_dropWhile_not (fun x => decide (x ≠ G_CLIARGS_SEPARATOR))
    (by rw [h]; exact List.cons_ne_nil c rest)
  simpa only [h, List.head_cons, decide_eq_false_iff_not, not_not] using hhead

/-- One round over a line that is not empty yields its first field. -/
theorem fields_cases (pos : List UInt8) (hpos : pos ≠ []) :
    (toSeparator pos = [] ∧ fields G_CLIARGS_SEPARATOR pos =
      [pos.takeWhile (· ≠ G_CLIARGS_SEPARATOR)]) ∨
    (toSeparator pos ≠ [] ∧ fields G_CLIARGS_SEPARATOR pos =
      pos.takeWhile (· ≠ G_CLIARGS_SEPARATOR) ::
        fields G_CLIARGS_SEPARATOR (toSeparator pos).tail) := by
  have happend := takeWhile_append_toSeparator pos
  have hnot := separator_notMem_takeWhile pos
  rcases hrest : toSeparator pos with _ | ⟨c, rest⟩
  · left
    rw [hrest, List.append_nil] at happend
    refine ⟨rfl, ?_⟩
    rw [happend] at hnot ⊢
    exact fields_of_notMem hnot hpos
  · right
    obtain rfl := toSeparator_head hrest
    refine ⟨List.cons_ne_nil _ _, ?_⟩
    have hfields := fields_append_cons hnot rest
    rw [← hrest, happend] at hfields
    exact hfields

theorem splitArguments_eq (pos : List UInt8) :
    splitArguments pos = fields G_CLIARGS_SEPARATOR pos := by
  induction pos using splitArguments.induct with
  | case1 => simp [splitArguments]
  | case2 pos hpos hrest =>
    rw [splitArguments, dif_neg hpos]
    rcases fields_cases pos hpos with ⟨_, hfields⟩ | ⟨hne, _⟩
    · simp only [hrest, hfields]
    · exact absurd hrest hne
  | case3 pos hpos c rest hrest ih =>
    rw [splitArguments, dif_neg hpos]
    rcases fields_cases pos hpos with ⟨hnil, _⟩ | ⟨_, hfields⟩
    · simp [hrest] at hnil
    · rw [hfields, ← ih]
      simp only [hrest]

theorem countArguments_eq (pos : List UInt8) (argc : ℕ) :
    countArguments pos argc = argc + (fields G_CLIARGS_SEPARATOR pos).length := by
  induction pos, argc using countArguments.induct with
  | case1 argc => simp [countArguments]
  | case2 pos argc hpos ih =>
    rw [countArguments, dif_neg hpos, ih]
    rcases fields_cases pos hpos with ⟨hnil, hfields⟩ | ⟨_, hfields⟩
    · simp [hfields, hnil]
    · rw [hfields, List.length_cons]
      omega

/-- The cleaning loop at `p` keeps what lies before and unquotes the rest. -/
theorem cleanArgument_eq (front rest : List UInt8) (esc : Bool) :
    cleanArgument (front ++ rest) front.length esc = front ++ unquoted esc rest := by
  induction rest generalizing front esc with
  | nil => simp [cleanArgument, unquoted]
  | cons c rest ih =>
    have hlt : front.length < (front ++ c :: rest).length := by simp
    have hget : (front ++ c :: rest)[front.length] = c := by simp
    have herase : (front ++ c :: rest).eraseIdx front.length = front ++ rest := by
      simp [List.eraseIdx_append_of_length_le]
    have hkeep := ih (front ++ [c]) false
    rw [cleanArgument, dif_pos hlt, hget, herase]
    unfold unquoted
    split
    · exact ih front true
    · split
      · exact ih front false
      · simpa using hkeep

theorem length_unquoted_le (esc : Bool) (arg : List UInt8) :
    (unquoted esc arg).length ≤ arg.length := by
  induction arg generalizing esc with
  | nil => exact Nat.le_refl _
  | cons c arg ih =>
    have htrue := ih true
    have hfalse := ih false
    unfold unquoted
    split
    · exact Nat.le_succ_of_le htrue
    · split
      · exact Nat.le_succ_of_le hfalse
      · simpa using hfalse

/-- An argument stays as it is exactly when there is nothing to remove. -/
theorem unquoted_eq_self_iff (arg : List UInt8) :
    unquoted false arg = arg ↔ backslash ∉ arg ∧ quotationMark ∉ arg := by
  induction arg with
  | nil => simp [unquoted]
  | cons c arg ih =>
    have htrue := length_unquoted_le true arg
    have hfalse := length_unquoted_le false arg
    unfold unquoted
    by_cases hback : c = backslash
    · subst hback
      simp only [and_self, if_true, List.mem_cons, true_or, not_true_eq_false, false_and,
        iff_false]
      intro heq
      have hlen := congrArg List.length heq
      simp only [List.length_cons] at hlen
      omega
    · by_cases hquote : c = quotationMark
      · subst hquote
        simp only [hback, and_false, if_false, and_self, if_true, List.mem_cons, true_or,
          not_true_eq_false, iff_false]
        intro heq
        have hlen := congrArg List.length heq
        simp only [List.length_cons] at hlen
        omega
      · simp [hback, hquote, ih, Ne.symm hback, Ne.symm hquote]

/-- What `parseargs` makes of a command line: the fields, each unquoted. -/
theorem parseargs_eq {malloc : ℕ → Bool} (hmalloc : ∀ size, malloc size = true)
    (executableName commandLine : List UInt8) :
    parseargs malloc executableName commandLine =
      some ((fields G_CLIARGS_SEPARATOR (cString commandLine)).length + 1,
        executableName ::
          (fields G_CLIARGS_SEPARATOR (cString commandLine)).map (unquoted false)) := by
  have hclean : ∀ arg, cleanArgument arg 0 false = unquoted false arg := by
    intro arg
    simpa using cleanArgument_eq [] arg false
  unfold parseargs
  simp only [hmalloc, Bool.true_eq_false, if_false, countArguments_eq, splitArguments_eq]
  generalize fields G_CLIARGS_SEPARATOR (cString commandLine) = units
  have hmap : (units.mapIdx fun i arg =>
      if 1 ≤ i + 1 ∧ i + 1 < units.length + 1 then cleanArgument arg 0 false else arg) =
      units.map (unquoted false) := by
    apply List.ext_getElem
    · simp
    · intro i hi _
      have hi' : i < units.length := by simpa using hi
      have hrange : 1 ≤ i + 1 ∧ i + 1 < units.length + 1 := by omega
      rw [List.getElem_mapIdx, List.getElem_map, if_pos hrange, hclean]
  have hname : ¬ (1 ≤ 0 ∧ 0 < units.length + 1) := by omega
  rw [Nat.add_comm 1 units.length, List.mapIdx_cons, if_neg hname, hmap]

theorem packLoop_eq (argv : List (List UInt8)) :
    packLoop argv = [G_CLIARGS_SEPARATOR].intercalate argv := by
  induction argv with
  | nil => simp [packLoop]
  | cons a argv ih =>
    rw [packLoop, ih]
    cases argv with
    | nil => simp
    | cons b argv => simp [List.intercalate_cons_cons]

/-- The packed arguments fill the memory allocated for them. -/
theorem length_packLoop (argv : List (List UInt8)) :
    (packLoop argv).length = packedLength argv := by
  induction argv with
  | nil => rfl
  | cons a argv ih =>
    rw [packLoop, packedLength, List.length_append, List.length_append, ih]
    split <;> rfl

/-- Strings without NUL and separator. -/
def Clean (arg : List UInt8) : Prop := 0 ∉ arg ∧ G_CLIARGS_SEPARATOR ∉ arg

instance (arg : List UInt8) : Decidable (Clean arg) := by
  unfold Clean
  infer_instance

theorem mem_intercalate {sep x : UInt8} {l : List (List UInt8)}
    (h : x ∈ [sep].intercalate l) : x = sep ∨ ∃ a ∈ l, x ∈ a := by
  induction l with
  | nil => simp at h
  | cons a l ih =>
    cases l with
    | nil => exact Or.inr ⟨a, by simp, by simpa using h⟩
    | cons b l =>
      rw [List.intercalate_cons_cons] at h
      simp only [List.mem_append, List.mem_singleton] at h
      rcases h with (h | h) | h
      · exact Or.inr ⟨a, List.mem_cons_self, h⟩
      · exact Or.inl h
      · rcases ih h with h | ⟨c, hc, hx⟩
        · exact Or.inl h
        · exact Or.inr ⟨c, List.mem_cons_of_mem a hc, hx⟩

/-- Joined clean arguments are read back, up to an empty last one. -/
theorem fields_joined {l : List (List UInt8)} (h : ∀ a ∈ l, Clean a) :
    fields G_CLIARGS_SEPARATOR (cString ([G_CLIARGS_SEPARATOR].intercalate l)) =
      trimmed l := by
  have hnul : cString ([G_CLIARGS_SEPARATOR].intercalate l) =
      [G_CLIARGS_SEPARATOR].intercalate l := by
    apply List.takeWhile_eq_self_iff.mpr
    intro x hx
    rcases mem_intercalate hx with rfl | ⟨a, ha, hxa⟩
    · decide
    · have hne : x ≠ 0 := by
        rintro rfl
        exact (h a ha).1 hxa
      simpa using hne
  rw [hnul]
  exact fields_intercalate fun a ha => (h a ha).2

/-- The main of the new image gets the arguments of the vector exactly when the
last one is empty, which makes up for the program name that is passed along,
and each other one is what unquoting makes of its predecessor. -/
theorem execve_arguments_iff (malloc malloc' : ℕ → Bool)
    (hmalloc : ∀ size, malloc size = true) (hmalloc' : ∀ size, malloc' size = true)
    (executableName : List UInt8) (argv : List (List UInt8)) (hne : argv ≠ [])
    (hclean : ∀ a ∈ argv, Clean a) :
    (∃ argv', execveArguments malloc malloc' executableName (some argv) =
        some (argv.length, argv') ∧
      ∀ i, 1 ≤ i → i < argv.length → argv'[i]? = argv[i]?) ↔
    argv.getLast? = some [] ∧ argv.tail = argv.dropLast.map (unquoted false) := by
  have hexec : execveArguments malloc malloc' executableName (some argv) =
      some ((trimmed argv).length + 1,
        executableName :: (trimmed argv).map (unquoted false)) := by
    simp only [execveArguments, packArguments, hmalloc, if_true, packLoop_eq]
    rw [parseargs_eq hmalloc', fields_joined hclean]
  have hpos := List.length_pos_of_ne_nil hne
  rw [hexec]
  constructor
  · rintro ⟨argv', heq, hargs⟩
    obtain ⟨hlen, rfl⟩ := Prod.mk.inj (Option.some.inj heq)
    have hlast : argv.getLast? = some [] := by
      by_contra hnot
      rw [trimmed_of_last_ne hnot] at hlen
      omega
    rw [trimmed_of_last_empty hlast] at hargs
    refine ⟨hlast, List.ext_getElem? fun i => ?_⟩
    rw [List.getElem?_tail]
    by_cases hi : i + 1 < argv.length
    · exact (hargs (i + 1) (by omega) hi).symm
    · rw [List.getElem?_eq_none (by omega), List.getElem?_eq_none]
      simp only [List.length_map, List.length_dropLast]
      omega
  · rintro ⟨hlast, htail⟩
    rw [trimmed_of_last_empty hlast]
    refine ⟨_, by rw [List.length_dropLast, Nat.sub_add_cancel hpos], fun i hi _ => ?_⟩
    obtain ⟨j, rfl⟩ := Nat.exists_eq_add_of_le' hi
    rw [List.getElem?_cons_succ, ← htail, List.getElem?_tail]

theorem execve_arguments_iff_chain :
    (∃ argv', execveArguments (fun _ => true) (fun _ => true) [112] (some [[34], []]) =
        some (2, argv') ∧ ∀ i, 1 ≤ i → i < 2 → argv'[i]? = [[34], ([] : List UInt8)][i]?) ↔
    [[34], ([] : List UInt8)].getLast? = some [] ∧
      [[34], ([] : List UInt8)].tail = [[34], ([] : List UInt8)].dropLast.map (unquoted false) :=
  execve_arguments_iff (fun _ => true) (fun _ => true) (fun _ => rfl) (fun _ => rfl) [112]
    [[34], []] (by decide) (by decide)

/-- `execve` with the vector `ls`, `x`: main is called with three arguments, and
the one after the program name is `ls`. -/
theorem execve_arguments_shifted :
    execveArguments (fun _ => true) (fun _ => true) [108, 115] (some [[108, 115], [120]]) =
      some (3, [[108, 115], [108, 115], [120]]) ∧
    ¬ ∃ argv', execveArguments (fun _ => true) (fun _ => true) [108, 115]
        (some [[108, 115], [120]]) = some (2, argv') ∧
      ∀ i, 1 ≤ i → i < 2 → argv'[i]? = [[108, 115], ([120] : List UInt8)][i]? := by
  have hrun : execveArguments (fun _ => true) (fun _ => true) [108, 115]
      (some [[108, 115], [120]]) = some (3, [[108, 115], [108, 115], [120]]) := by
    decide +kernel
  refine ⟨hrun, ?_⟩
  rintro ⟨argv', heq, _⟩
  rw [hrun] at heq
  have hlen := (Prod.mk.inj (Option.some.inj heq)).1
  omega

end Heartix.Process
