import Mathlib.Data.List.TakeWhile
import Heartix.Unistd.GetoptLong
import Heartix.Unistd.OptionScan

/-!
The calls of `getopt_long` against the reference scan. What keeps the two scanners
apart is that `getopt` never stops inside a word that begins with two hyphens.
-/

namespace Heartix.Unistd

open Strings

namespace LongOption

/-- The option with the terminator behind its name. -/
def terminated (opt : LongOption) : LongOption := { opt with name := opt.name ++ [0] }

/-- What a call returns for the option. -/
def returned (opt : LongOption) : ℤ :=
  match opt.flag with
  | none => opt.val
  | some _ => 0

theorem answer_eq (opt : LongOption) (s : GetoptLong) :
    opt.answer s = (opt.returned, { s with
      flags := match opt.flag with
        | none => s.flags
        | some address => Function.update s.flags address opt.val }) := by
  unfold answer returned
  cases opt.flag <;> rfl

end LongOption

namespace LongWord

variable {w : LongWord} {longopts : List LongOption}

theorem findIdx_equalsSign (text : List UInt8) :
    text.findIdx (fun c => !decide (c ≠ equalsSign)) = text.idxOf equalsSign := by
  unfold List.idxOf
  congr 1
  funext c
  by_cases hc : c = equalsSign <;> simp [hc]

theorem length_name (w : LongWord) : w.name.length = w.text.idxOf equalsSign := by
  unfold name
  rw [List.takeWhile_eq_take_findIdx_not, List.length_take, findIdx_equalsSign]
  exact Nat.min_eq_left List.idxOf_le_length

theorem name_eq_take (w : LongWord) : w.text.take w.name.length = w.name :=
  (List.prefix_iff_eq_take.mp (List.takeWhile_prefix _)).symm

theorem length_name_le (w : LongWord) : w.name.length ≤ w.text.length :=
  (List.takeWhile_prefix _).length_le

theorem value_eq (w : LongWord) :
    w.value = if equalsSign ∈ w.text then some (w.text.drop (w.text.idxOf equalsSign + 1))
      else none := by
  have hdrop : w.text.dropWhile (· ≠ equalsSign) = w.text.drop (w.text.idxOf equalsSign) := by
    rw [List.dropWhile_eq_drop_findIdx_not, findIdx_equalsSign]
  unfold value
  rw [hdrop]
  split
  · rename_i hmem
    have hlt : w.text.idxOf equalsSign < w.text.length := List.idxOf_lt_length_iff.mpr hmem
    rw [List.drop_eq_getElem_cons hlt]
    rfl
  · rename_i hnot
    rw [List.drop_eq_nil_of_le (Nat.le_of_eq (List.idxOf_eq_length hnot).symm)]
    rfl

/-- The loop finds the first entry with the name. -/
theorem matchIndex_eq (w : LongWord) (hnames : ∀ opt ∈ longopts, 0 ∉ opt.name) (i : ℕ) :
    matchIndex (w.text ++ [0]) w.name.length i (longopts.map LongOption.terminated) =
      some (((longopts.zipIdx i).find? fun p => p.1.name = w.name).map fun p =>
        (p.1.terminated, p.2)) := by
  induction longopts generalizing i with
  | nil => rfl
  | cons opt longopts ih =>
    have hname : 0 ∉ opt.name := hnames opt List.mem_cons_self
    have hrest := ih (fun o ho => hnames o (List.mem_cons_of_mem opt ho)) (i + 1)
    have hlen : strlen opt.terminated.name = some opt.name.length := strlen_terminated hname []
    rw [List.map_cons, matchIndex, hlen, List.zipIdx_cons, List.find?_cons]
    dsimp only
    by_cases hlength : opt.name.length = w.name.length
    · obtain ⟨r, hr, hzero⟩ := strncmp_eq_zero_iff hname (t := w.text) (Nat.le_of_eq hlength.symm)
        w.length_name_le [0] [0]
      rw [← hlength, List.take_length, hlength, w.name_eq_take] at hzero
      have hcmp : strncmp opt.terminated.name (w.text ++ [0]) w.name.length = some r := hr
      rw [if_pos hlength, hcmp]
      dsimp only
      by_cases heq : opt.name = w.name
      · rw [if_pos (hzero.mpr heq), decide_eq_true heq]
        rfl
      · rw [if_neg (mt hzero.mp heq), decide_eq_false heq]
        exact hrest
    · have hne : opt.name ≠ w.name := fun heq => hlength (congrArg List.length heq)
      rw [if_neg hlength, decide_eq_false hne]
      exact hrest

end LongWord

section Words

variable {argv : List (List UInt8)} {optstring : List UInt8} {longopts : List LongOption}
  {s : GetoptLong} {w : LongWord}

/-- The variables stand where there is this left to scan. An argument with some of its
characters passed does not begin with two hyphens. -/
structure LongAt (argv : List (List UInt8)) (s : Getopt) (scan : Scan) : Prop where
  stands : At argv s scan
  inside : scan.cluster ≠ [] → ∃ c rest, argv[s.optind]? = some (hyphen :: c :: rest) ∧ c ≠ hyphen

/-- A call tells an event: by what it returns, and for an option by the variables. -/
def LongEvent.ShownBy (argv : List (List UInt8)) (optstring : List UInt8)
    (call : Call GetoptLong) : LongEvent → Prop
  | .selected opt i argument =>
      call.result = opt.returned ∧
        call.after.flags = (match opt.flag with
          | none => call.before.flags
          | some address => Function.update call.before.flags address opt.val) ∧
        call.after.longindex = call.before.longindex.map (fun _ => (i : ℤ)) ∧
        call.after.getopt.optarg.map (textAt argv) = argument.map some
  | .unknown => call.result = charValue questionMark
  | .missing _ _ =>
      call.result = charValue (if optstring.head? = some colon then colon else questionMark)
  | .refused _ _ => call.result = charValue questionMark

/-- What a call for a long word tells. It does not refuse a value. -/
def LongWord.Told (argv : List (List UInt8)) (optstring : List UInt8) (longopts : List LongOption)
    (w : LongWord) (call : Call GetoptLong) : Prop :=
  match w.event longopts with
  | .refused opt _ => call.result = opt.returned
  | event => event.ShownBy argv optstring call

/-- The value behind the first `=`, where the word is an argument. -/
theorem textAt_value {k : ℕ} (hget : argv[k]? = some (hyphen :: hyphen :: w.text)) :
    (if equalsSign ∈ w.text then
      some (⟨k, 2 + w.text.idxOf equalsSign + 1⟩ : CharPtr) else none).map (textAt argv) =
        w.value.map some := by
  rw [w.value_eq]
  split_ifs
  · have hoffset : 2 + w.text.idxOf equalsSign + 1 = w.text.idxOf equalsSign + 1 + 2 := by omega
    rw [Option.map_some, Option.map_some, textAt, hget, hoffset]
    rfl
  · rfl

/-- A call at an argument that is neither an operand nor `--`. -/
theorem getoptLong_of_second {argv : List (List UInt8)} {arg : List UInt8} {second : UInt8}
    (hmem : argv[s.getopt.optind]? = some arg) (hbegin : beginOf arg = some .options)
    (hsecond : arg[1]? = some second) :
    getoptLong argv optstring longopts s =
      if second = hyphen then s.longName argv optstring longopts arg 2 second
      else s.handOver argv optstring := by
  unfold getoptLong getoptLongInternal
  rw [hmem]
  dsimp only
  rw [hbegin]
  dsimp only
  rw [hsecond, Option.bind_eq_bind, Option.bind_some, if_neg fun h => absurd h.1 (by decide),
    Option.bind_eq_bind, Option.bind_some, if_neg (by decide)]
  by_cases hlong : second = hyphen
  · rw [if_pos (Or.inl hlong), if_pos hlong, if_pos hlong]
  · have hnot : ¬ (second = hyphen ∨ false = true) := by
      rintro (h | h)
      · exact hlong h
      · cases h
    rw [if_neg hnot, if_neg hlong]

/-- The call at a word with two hyphens, from the entry of the table on. -/
theorem getoptLong_of_hyphens (hget : argv[s.getopt.optind]? = some (hyphen :: hyphen :: w.text))
    (hword : 0 ∉ w.text) (hne : w.text ≠ []) (hnames : ∀ opt ∈ longopts, 0 ∉ opt.name) :
    getoptLong (terminated argv) (optstring ++ [0]) (longopts.map LongOption.terminated) s =
      match w.entry longopts with
      | none => some (charValue questionMark, { s with
          getopt := { s.getopt with optopt := 0, optind := s.getopt.optind + 1 } })
      | some (opt, i) => s.option argv.length (optstring ++ [0]) opt.terminated i
          (if equalsSign ∈ w.text then
            some ⟨s.getopt.optind, 2 + w.text.idxOf equalsSign + 1⟩ else none) := by
  have hzero : (0 : UInt8) ∉ hyphen :: hyphen :: w.text := by
    intro hmem
    rcases List.mem_cons.mp hmem with h | h
    · exact absurd h (by decide)
    · rcases List.mem_cons.mp h with h | h
      · exact absurd h (by decide)
      · exact hword h
  have hmem : (terminated argv)[s.getopt.optind]? =
      some (hyphen :: hyphen :: w.text ++ [0]) := by
    rw [terminated, List.getElem?_map, hget]
    rfl
  have hbegin := beginOf_terminated hzero
  have hterminator : hyphen :: hyphen :: w.text ≠ [hyphen, hyphen] := by
    intro heq
    exact hne (List.cons.inj (List.cons.inj heq).2).2
  rw [if_pos ⟨rfl, Nat.le_add_left 2 _⟩, if_neg hterminator] at hbegin
  obtain ⟨c, text, htext⟩ := List.exists_cons_of_ne_nil hne
  have hc : c ≠ 0 := by
    intro heq
    exact hword (by rw [htext, heq]; exact List.mem_cons_self)
  have hfirst : (hyphen :: hyphen :: w.text ++ [0])[2]? = some c := by
    rw [htext]
    rfl
  have hdrop : (hyphen :: hyphen :: w.text ++ [0]).drop 2 = w.text ++ [0] := rfl
  have hequals := strchr_charValue hword [] equalsSign
  have hlength : (terminated argv).length = argv.length := List.length_map _
  have hnameLen : nameLength (w.text ++ [0])
      (if equalsSign ∈ w.text then some (w.text.idxOf equalsSign) else none) =
        some w.name.length := by
    rw [w.length_name]
    split_ifs with hvalue
    · rfl
    · rw [List.idxOf_eq_length hvalue]
      exact strlen_terminated hword []
  rw [getoptLong_of_second hmem hbegin rfl, if_pos rfl]
  unfold GetoptLong.longName
  rw [hfirst, Option.bind_eq_bind, Option.bind_some, if_neg hc, hdrop, hequals, Option.bind_eq_bind,
    Option.bind_some, hnameLen, Option.bind_eq_bind, Option.bind_some, w.matchIndex_eq hnames,
    Option.bind_eq_bind, Option.bind_some, hlength,
    show (longopts.zipIdx.find? fun p => p.1.name = w.name) = w.entry longopts from rfl]
  rcases w.entry longopts with _ | ⟨opt, i⟩
  · exact if_pos rfl
  · dsimp only [Option.map_some]
    split_ifs with hvalue
    · rfl
    · rfl

/-- The variables stand at a long word. -/
structure OnWord (argv : List (List UInt8)) (s : Getopt) (w : LongWord) : Prop where
  word_eq : argv[s.optind]? = some (hyphen :: hyphen :: w.text)
  words_eq : w.words = argv.drop (s.optind + 1)
  optpos_eq : s.optpos = 1

theorem LongAt.onWord {scan : Scan} (h : LongAt argv s.getopt scan) (hcluster : scan.cluster = [])
    (hwords : scan.words = (hyphen :: hyphen :: w.text) :: w.words) : OnWord argv s.getopt w := by
  obtain ⟨hpos, hdrop⟩ : s.getopt.optpos = 1 ∧ scan.words = argv.drop s.getopt.optind := by
    rcases h.stands with ⟨_, hpos, _, hdrop⟩ | ⟨hsome, _⟩
    · exact ⟨hpos, hdrop⟩
    · exact absurd hcluster hsome
  have hlt : s.getopt.optind < argv.length := by
    by_contra hge
    rw [List.drop_eq_nil_of_le (Nat.le_of_not_lt hge), hwords] at hdrop
    cases hdrop
  rw [hwords, List.drop_eq_getElem_cons hlt] at hdrop
  obtain ⟨hword, hrest⟩ := List.cons.inj hdrop
  exact ⟨by rw [List.getElem?_eq_getElem hlt, hword], hrest, hpos⟩

/-- Behind the word. -/
theorem OnWord.past (h : OnWord argv s.getopt w) (optarg : Option CharPtr) (optopt : ℤ) :
    LongAt argv ⟨optarg, s.getopt.optind + 1, optopt, s.getopt.optpos⟩ ⟨[], w.words⟩ := by
  have hlt := (List.getElem?_eq_some_iff.mp h.word_eq).1
  exact ⟨Or.inl ⟨rfl, h.optpos_eq, hlt, h.words_eq⟩, fun hnil => absurd rfl hnil⟩

variable {opt : LongOption} {i : ℕ} {ptr : Option CharPtr}

/-- An option that needs the next argument takes it, or finds none. -/
theorem OnWord.option_next (h : OnWord argv s.getopt w)
    (hentry : w.entry longopts = some (opt, i)) (hrequired : opt.hasArg = required_argument)
    (hnone : w.value = none) :
    ∃ r t, s.option argv.length (optstring ++ [0]) opt.terminated i none = some (r, t) ∧
      LongAt argv t.getopt ⟨[], w.after longopts⟩ ∧
      w.Told argv optstring longopts ⟨s, r, t⟩ := by
  have hafter : w.after longopts = w.words.tail := by
    unfold LongWord.after
    rw [hentry]
    exact if_pos ⟨hrequired, hnone⟩
  have hterminated : opt.terminated.hasArg = required_argument := hrequired
  unfold GetoptLong.option LongWord.Told LongWord.event
  dsimp only
  rw [hafter, hentry, if_pos hterminated]
  dsimp only
  rw [if_pos hrequired, hnone]
  by_cases hlast : s.getopt.optind + 1 < argv.length
  · have htail : w.words = argv[s.getopt.optind + 1] :: argv.drop (s.getopt.optind + 2) := by
      rw [h.words_eq]
      exact List.drop_eq_getElem_cons hlast
    rw [if_pos hlast, LongOption.answer_eq, htail]
    refine ⟨_, _, rfl, ⟨Or.inl ⟨rfl, h.optpos_eq, hlast, rfl⟩, fun hnil => absurd rfl hnil⟩, rfl,
      rfl, rfl, ?_⟩
    change some (argv[s.getopt.optind + 1]?.map (List.drop 0)) = _
    rw [List.getElem?_eq_getElem hlast]
    rfl
  · have hnil : w.words = [] := by
      rw [h.words_eq]
      exact List.drop_eq_nil_of_le (Nat.le_of_not_lt hlast)
    have hpast := h.past none opt.val
    rw [if_neg hlast, getElem?_zero_terminated, hnil]
    rw [hnil] at hpast
    refine ⟨_, _, rfl, hpast, ?_⟩
    simp only [headD_eq_colon_iff]
    rfl

/-- An option that takes its value from the word, or takes none. -/
theorem OnWord.option_value (h : OnWord argv s.getopt w)
    (hentry : w.entry longopts = some (opt, i))
    (hown : ¬ (opt.hasArg = required_argument ∧ w.value = none))
    (hvalue : ptr.map (textAt argv) = w.value.map some) :
    ∃ r t, s.option argv.length (optstring ++ [0]) opt.terminated i ptr = some (r, t) ∧
      LongAt argv t.getopt ⟨[], w.after longopts⟩ ∧
      w.Told argv optstring longopts ⟨s, r, t⟩ := by
  have hafter : w.after longopts = w.words := by
    unfold LongWord.after
    rw [hentry]
    exact if_neg hown
  unfold GetoptLong.option LongWord.Told LongWord.event
  rw [hafter, hentry]
  dsimp only
  change ∃ r t, (if opt.hasArg = required_argument then _ else
    if opt.hasArg = optional_argument then _ else _) = some (r, t) ∧ _
  by_cases hrequired : opt.hasArg = required_argument
  · rw [if_pos hrequired, if_pos hrequired]
    obtain ⟨value, hsome⟩ := Option.ne_none_iff_exists'.mp fun hnone => hown ⟨hrequired, hnone⟩
    rw [hsome, Option.map_some, Option.map_eq_some_iff] at hvalue
    obtain ⟨behind, rfl, htextAt⟩ := hvalue
    rw [hsome]
    dsimp only
    rw [LongOption.answer_eq]
    exact ⟨_, _, rfl, h.past _ _, rfl, rfl, rfl, congrArg some htextAt⟩
  · rw [if_neg hrequired, if_neg hrequired]
    by_cases hoptional : opt.hasArg = optional_argument
    · rw [if_pos hoptional, if_pos hoptional, LongOption.answer_eq]
      exact ⟨_, _, rfl, h.past _ _, rfl, rfl, rfl, hvalue⟩
    · rw [if_neg hoptional, if_neg hoptional, LongOption.answer_eq]
      refine ⟨_, _, rfl, h.past _ _, ?_⟩
      by_cases hnone : w.value = none
      · rw [if_pos hnone]
        exact ⟨rfl, rfl, rfl, rfl⟩
      · rw [if_neg hnone]
        rfl

/-- A call for a long word takes it whole. -/
theorem OnWord.call (h : OnWord argv s.getopt w) (hargv : ∀ word ∈ argv, 0 ∉ word)
    (hnames : ∀ opt ∈ longopts, 0 ∉ opt.name) (hne : w.text ≠ []) :
    ∃ r t, getoptLong (terminated argv) (optstring ++ [0])
        (longopts.map LongOption.terminated) s = some (r, t) ∧
      LongAt argv t.getopt ⟨[], w.after longopts⟩ ∧
      w.Told argv optstring longopts ⟨s, r, t⟩ := by
  have htext : 0 ∉ w.text := by
    intro hmem
    exact hargv _ (List.mem_of_getElem? h.word_eq)
      (List.mem_cons_of_mem _ (List.mem_cons_of_mem _ hmem))
  have hvalue := textAt_value h.word_eq
  rw [getoptLong_of_hyphens h.word_eq htext hne hnames]
  rcases hentry : w.entry longopts with _ | ⟨opt, i⟩
  · unfold LongWord.Told LongWord.event LongWord.after
    rw [hentry]
    exact ⟨_, _, rfl, h.past _ _, rfl⟩
  · dsimp only
    by_cases hnext : opt.hasArg = required_argument ∧ w.value = none
    · rw [hnext.2, Option.map_none, Option.map_eq_none_iff] at hvalue
      rw [hvalue]
      exact h.option_next hentry hnext.1 hnext.2
    · exact h.option_value hentry hnext hvalue

end Words

section Characters

variable {argv : List (List UInt8)} {optstring : List UInt8} {longopts : List LongOption}
  {s : GetoptLong} {scan : Scan} {m : Met}

/-- Where the variables of a call for an option character stand. -/
theorem At.position {s : Getopt} (h : At argv s scan) (hnext : scan.next = some m) :
    s.optind + (m.words.length + 1) = argv.length := by
  rcases Scan.next_cases hnext with ⟨hcluster, hwords⟩ | ⟨hcluster, hwords, _⟩
  · rcases h with ⟨hnil, _⟩ | ⟨_, _, hdrop, word, hword, _⟩
    · rw [hcluster] at hnil
      cases hnil
    · have hlt := (List.getElem?_eq_some_iff.mp hword).1
      rw [← hwords, hdrop, List.length_drop]
      omega
  · rcases h with ⟨_, _, hle, hdrop⟩ | ⟨hsome, _⟩
    · have hlength := congrArg List.length (hwords.symm.trans hdrop)
      rw [List.length_cons, List.length_drop] at hlength
      omega
    · exact absurd hcluster hsome

/-- The argument of an option character does not begin with two hyphens. -/
theorem LongAt.word (h : LongAt argv s.getopt scan) (hshort : scan.encounter = some (.short m)) :
    ∃ c rest, argv[s.getopt.optind]? = some (hyphen :: c :: rest) ∧ c ≠ hyphen := by
  by_cases hcluster : scan.cluster = []
  · rcases Scan.encounter_cases hshort with ⟨m', heq, hnext⟩ | ⟨w, heq, _⟩
    · rcases Scan.next_cases hnext with ⟨hcons, _⟩ | ⟨_, hwords, hne⟩
      · rw [hcluster] at hcons
        cases hcons
      · rcases h.stands with ⟨_, _, _, hdrop⟩ | ⟨hsome, _⟩
        · refine ⟨m'.char, m'.rest, ?_, ?_⟩
          · have hhead : (argv.drop s.getopt.optind)[0]? = some (hyphen :: m'.char :: m'.rest) := by
              rw [← hdrop, hwords]
              rfl
            rwa [List.getElem?_drop, Nat.add_zero] at hhead
          · intro hchar
            have hnonempty : m'.rest ≠ [] := by
              intro hnil
              exact hne (by rw [hchar, hnil])
            obtain ⟨c, text, hrest⟩ := List.exists_cons_of_ne_nil hnonempty
            have hlong : (⟨[], (hyphen :: hyphen :: c :: text) :: m'.words⟩ : Scan).encounter =
                some (.long ⟨c :: text, m'.words⟩) := by
              unfold Scan.encounter
              exact if_pos ⟨rfl, rfl⟩
            rw [hchar, hrest] at hwords
            rw [← hwords, ← hcluster, hshort] at hlong
            cases hlong
        · exact absurd hcluster hsome
    · cases heq
  · exact h.inside hcluster

/-- A call for an option character is handed to `getopt`. -/
theorem LongAt.call_short (h : LongAt argv s.getopt scan) (hargv : ∀ word ∈ argv, 0 ∉ word)
    (hopt : 0 ∉ optstring) (hshort : scan.encounter = some (.short m)) :
    ∃ r t, getoptLong (terminated argv) (optstring ++ [0]) longopts s = some (r, t) ∧
      LongAt argv t.getopt (m.after (kindOf optstring m.char)) ∧
      getopt (terminated argv) (optstring ++ [0]) s.getopt = some (r, t.getopt) ∧
      Shows argv optstring r t.getopt (m.event (kindOf optstring m.char)) := by
  obtain ⟨c, rest, hget, hc⟩ := h.word hshort
  have hnext : scan.next = some m := by
    rcases Scan.encounter_cases hshort with ⟨m', heq, hnext⟩ | ⟨w, heq, _⟩
    · rw [Encounter.short.inj heq]
      exact hnext
    · cases heq
  obtain ⟨r, t, hcall, hshows, hat⟩ := h.stands.getopt_of_next hargv hopt hnext
  have hmem : (terminated argv)[s.getopt.optind]? = some (hyphen :: c :: rest ++ [0]) := by
    rw [terminated, List.getElem?_map, hget]
    rfl
  have hbegin := beginOf_terminated (hargv _ (List.mem_of_getElem? hget))
  have hterminator : hyphen :: c :: rest ≠ [hyphen, hyphen] := by
    intro heq
    exact hc (List.cons.inj (List.cons.inj heq).2).1
  rw [if_pos ⟨rfl, Nat.le_add_left 2 _⟩, if_neg hterminator] at hbegin
  refine ⟨r, { s with getopt := t }, ?_, ⟨hat, ?_⟩, hcall, hshows⟩
  · rw [getoptLong_of_second hmem hbegin rfl, if_neg hc]
    unfold GetoptLong.handOver
    rw [hcall]
    rfl
  · intro hcluster
    have hplace := h.stands.position hnext
    have hwords : (m.after (kindOf optstring m.char)).words = m.words := by
      cases hkind : kindOf optstring m.char with
      | unknown => rfl
      | flag => rfl
      | optional =>
        rw [hkind] at hcluster
        exact absurd rfl hcluster
      | required =>
        rw [hkind] at hcluster
        exact absurd rfl hcluster
    rcases hat with ⟨hnil, _⟩ | ⟨_, _, hdrop, word, hword, _⟩
    · exact absurd hnil hcluster
    · have hlt := (List.getElem?_eq_some_iff.mp hword).1
      have hlength := congrArg List.length (hwords.symm.trans hdrop)
      rw [List.length_drop] at hlength
      have hsame : t.optind = s.getopt.optind := by omega
      change ∃ c rest, argv[t.optind]? = some (hyphen :: c :: rest) ∧ c ≠ hyphen
      rw [hsame]
      exact ⟨c, rest, hget, hc⟩

/-- Where the scan ends, the call returns -1, as the one of `getopt` does. -/
theorem LongAt.call_end (h : LongAt argv s.getopt scan) (hargv : ∀ word ∈ argv, 0 ∉ word)
    (hend : scan.encounter = none) (optstring : List UInt8) (longopts : List LongOption) :
    ∃ t, getoptLong (terminated argv) (optstring ++ [0]) longopts s = some (-1, t) ∧
      getopt (terminated argv) (optstring ++ [0]) s.getopt = some (-1, t.getopt) ∧
      t.getopt.optind ≤ argv.length := by
  have hnext : scan.next = none := by
    unfold Scan.encounter at hend
    split at hend
    · split at hend
      · cases hend
      · exact Option.map_eq_none_iff.mp hend
    · exact Option.map_eq_none_iff.mp hend
  obtain ⟨hpos, hcluster, hdrop⟩ :
      s.getopt.optpos = 1 ∧ scan.cluster = [] ∧ scan.words = argv.drop s.getopt.optind := by
    rcases h.stands with ⟨hcluster, hpos, _, hdrop⟩ | ⟨hcluster, _⟩
    · exact ⟨hpos, hcluster, hdrop⟩
    · obtain ⟨c, rest, hcons⟩ := List.exists_cons_of_ne_nil hcluster
      obtain ⟨cluster, words⟩ := scan
      obtain rfl : cluster = c :: rest := hcons
      cases hnext
  obtain ⟨t, hcall, _, hle⟩ := h.stands.getopt_of_end hargv hnext optstring
  refine ⟨{ s with getopt := t }, ?_, hcall, hle⟩
  unfold getopt at hcall
  unfold getoptLong getoptLongInternal
  cases hmem : (terminated argv)[s.getopt.optind]? with
  | none =>
    rw [hmem] at hcall
    obtain rfl : s.getopt = t := (Prod.mk.inj (Option.some.inj hcall)).2
    rfl
  | some arg =>
    rw [hmem] at hcall
    dsimp only at hcall ⊢
    rw [if_pos hpos] at hcall
    cases hbegin : beginOf arg with
    | none =>
      rw [hbegin] at hcall
      cases hcall
    | some begins =>
      rw [hbegin] at hcall
      cases begins with
      | operand =>
        obtain rfl : s.getopt = t := (Prod.mk.inj (Option.some.inj hcall)).2
        rfl
      | terminator =>
        obtain rfl : _ = t := (Prod.mk.inj (Option.some.inj hcall)).2
        rfl
      | options =>
        -- an argument with options would not end the scan
        rw [terminated, List.getElem?_map, Option.map_eq_some_iff] at hmem
        obtain ⟨word, hword, rfl⟩ := hmem
        rw [beginOf_terminated (hargv _ (List.mem_of_getElem? hword))] at hbegin
        obtain ⟨cluster, words⟩ := scan
        obtain rfl : cluster = [] := hcluster
        obtain rfl : words = _ := hdrop
        have hlt := (List.getElem?_eq_some_iff.mp hword).1
        have hcons : argv.drop s.getopt.optind = word :: argv.drop (s.getopt.optind + 1) := by
          rw [List.drop_eq_getElem_cons hlt, (List.getElem?_eq_some_iff.mp hword).2]
        rw [hcons] at hnext
        split at hbegin
        · rename_i hoptions
          split at hbegin
          · cases hbegin
          · rename_i hne
            exact absurd (Scan.eq_of_next_none hoptions.1 hoptions.2 hnext) hne
        · cases hbegin

end Characters

end Heartix.Unistd
