import Heartix.Changes.Tracking

/-!
The command line of `changes`. A flag is followed by a value, except for the three that
stand alone, and of several values for one flag the last one is kept. The flags are then
gone through in the order of the map, so it does not matter in which order they were given.
-/

namespace Heartix.Changes

/-- A flag as a string literal has it. -/
def literal (s : String) : Path := s.toList.map Char.toUInt8

def DEFAULT_TABLEPATH : Path := literal ".changes"
def FLAG_CHECK : Path := literal "-c"
def FLAG_CHECK_L : Path := literal "--check"
def FLAG_STORE : Path := literal "-s"
def FLAG_STORE_L : Path := literal "--store"
def FLAG_OUT : Path := literal "-o"
def FLAG_OUT_L : Path := literal "--output"
def FLAG_HELP : Path := literal "--help"
def FLAG_VERSION : Path := literal "--version"
def FLAG_CLEAR : Path := literal "--clear"

/-- `map<string, string>` -/
abbrev Params := Std.ExtTreeMap Path Path

/-- The flags that no value follows. -/
def StandsAlone (flag : Path) : Prop :=
  flag = FLAG_HELP ∨ flag = FLAG_VERSION ∨ flag = FLAG_CLEAR

instance (flag : Path) : Decidable (StandsAlone flag) := by
  unfold StandsAlone
  infer_instance

/-- The variables of `parse_commands`. -/
structure Parsing where
  values : Params
  flag : Path
  atflag : Bool

def parseParam (s : Parsing) (param : Path) : Parsing :=
  if param = [] then s
  else if s.atflag then
    if StandsAlone param then { s with flag := param, values := s.values.insert param [] }
    else { s with flag := param, atflag := false }
  else { s with values := s.values.insert s.flag param, atflag := true }

/-- `parse_commands`, for the arguments behind the name of the program. -/
def parseCommands (argv : List Path) : Params :=
  let s := argv.foldl parseParam ⟨∅, [], true⟩
  if s.atflag then s.values else s.values.insert s.flag []

/-- `changes_mode_t` -/
inductive Mode
  | none
  | store
  | check
  | clear
  deriving DecidableEq

/-- What a flag is compared with, in this order. -/
inductive Role
  | mode (mode : Mode)
  | out
  | help
  | version
  | unknown
  deriving DecidableEq

def role (flag : Path) : Role :=
  if flag = FLAG_CHECK ∨ flag = FLAG_CHECK_L then .mode .check
  else if flag = FLAG_STORE ∨ flag = FLAG_STORE_L then .mode .store
  else if flag = FLAG_CLEAR then .mode .clear
  else if flag = FLAG_OUT ∨ flag = FLAG_OUT_L then .out
  else if flag = FLAG_HELP then .help
  else if flag = FLAG_VERSION then .version
  else .unknown

/-- The variables of `main` that the parameters set. -/
structure Settings where
  mode : Mode
  file : Path
  tablepath : Path

/-- Where the loop over the parameters ends, or what has been set after it. -/
inductive Choice
  | usage
  | help
  | version
  | unknown (flag : Path)
  | settings (s : Settings)

/-- The loop over the parameters. -/
def readParameters : List (Path × Path) → Settings → Choice
  | [], s => .settings s
  | (flag, value) :: entries, s =>
      match role flag with
      | .mode mode =>
          if s.mode ≠ .none then .usage
          else readParameters entries { s with
            mode := mode
            file := if mode = .clear then s.file else value }
      | .out => readParameters entries { s with tablepath := value }
      | .help => .help
      | .version => .version
      | .unknown => .unknown flag

def chosen (argv : List Path) : Choice :=
  readParameters (parseCommands argv).toList ⟨.none, [], DEFAULT_TABLEPATH⟩

/-- The words of a command line as pairs of a flag and its value. A flag at the end has no
value. -/
def pairs : List Path → List (Path × Path)
  | [] => []
  | [flag] => [(flag, [])]
  | flag :: value :: words =>
      if StandsAlone flag then (flag, []) :: pairs (value :: words)
      else (flag, value) :: pairs words

/-- The last value that a command line gives a flag. Empty arguments do not count. -/
def said (argv : List Path) (flag : Path) : Option Path :=
  ((pairs (argv.filter (· ≠ []))).reverse.find? (·.1 = flag)).map Prod.snd

/-- The settings that given values mean: there is one mode, and besides it no flag but those
for the table, of which the short one has precedence. -/
structure Says (value : Path → Option Path) (t : Settings) : Prop where
  known : ∀ flag, (value flag).isSome = true → (∃ mode, role flag = .mode mode) ∨ role flag = .out
  mode : ∃ flag v, value flag = some v ∧ role flag = .mode t.mode ∧
    t.file = (if t.mode = .clear then [] else v) ∧
    ∀ other, (value other).isSome = true → ∀ mode, role other = .mode mode → other = flag
  tablepath : t.tablepath =
    ((value FLAG_OUT).or (value FLAG_OUT_L)).getD DEFAULT_TABLEPATH

section Parse

variable {s : Parsing} {argv words : List Path}

/-- Empty arguments are passed over. -/
theorem foldl_filter (argv : List Path) (s : Parsing) :
    argv.foldl parseParam s = (argv.filter (· ≠ [])).foldl parseParam s := by
  induction argv generalizing s with
  | nil => rfl
  | cons param argv ih =>
    by_cases h : param = []
    · have hskip : parseParam s param = s := if_pos h
      rw [List.foldl_cons, hskip, List.filter_cons_of_neg (by simp [h]), ih]
    · rw [List.filter_cons_of_pos (by simp [h]), List.foldl_cons, List.foldl_cons, ih]

/-- The values that are kept are the ones of the pairs. -/
theorem parse_pairs (h : [] ∉ words) (hs : s.atflag = true) :
    (let t := words.foldl parseParam s
      if t.atflag then t.values else t.values.insert t.flag []) =
      (pairs words).foldl (fun values p => values.insert p.1 p.2) s.values := by
  induction words using pairs.induct generalizing s with
  | case1 => exact if_pos hs
  | case2 flag =>
    have hflag : flag ≠ [] := fun heq => h (heq ▸ List.mem_cons_self)
    by_cases halone : StandsAlone flag
    · have hstep : parseParam s flag = ⟨s.values.insert flag [], flag, true⟩ := by
        unfold parseParam
        rw [if_neg hflag, if_pos hs, if_pos halone, hs]
      rw [List.foldl_cons, hstep]
      rfl
    · have hstep : parseParam s flag = ⟨s.values, flag, false⟩ := by
        unfold parseParam
        rw [if_neg hflag, if_pos hs, if_neg halone]
      rw [List.foldl_cons, hstep]
      rfl
  | case3 flag value words halone ih =>
    have hflag : flag ≠ [] := fun heq => h (heq ▸ List.mem_cons_self)
    have hstep : parseParam s flag = ⟨s.values.insert flag [], flag, true⟩ := by
      unfold parseParam
      rw [if_neg hflag, if_pos hs, if_pos halone, hs]
    rw [List.foldl_cons, hstep, pairs, if_pos halone]
    exact ih (fun hmem => h (List.mem_cons_of_mem flag hmem)) rfl
  | case4 flag value words halone ih =>
    have hflag : flag ≠ [] := fun heq => h (heq ▸ List.mem_cons_self)
    have hvalue : value ≠ [] := fun heq =>
      h (List.mem_cons_of_mem flag (heq ▸ List.mem_cons_self))
    have hstep : parseParam (parseParam s flag) value =
        ⟨s.values.insert flag value, flag, true⟩ := by
      have hfirst : parseParam s flag = ⟨s.values, flag, false⟩ := by
        unfold parseParam
        rw [if_neg hflag, if_pos hs, if_neg halone]
      rw [hfirst]
      unfold parseParam
      rw [if_neg hvalue, if_neg Bool.false_ne_true]
    rw [List.foldl_cons, List.foldl_cons, hstep, pairs, if_neg halone]
    exact ih (fun hmem => h (List.mem_cons_of_mem flag (List.mem_cons_of_mem value hmem))) rfl

/-- After insertions a map has the last value that was inserted. -/
theorem getElem?_foldl_insert (ps : List (Path × Path)) (m : Params) (flag : Path) :
    (ps.foldl (fun values p => values.insert p.1 p.2) m)[flag]? =
      ((ps.reverse.find? (·.1 = flag)).map Prod.snd).or m[flag]? := by
  induction ps generalizing m with
  | nil => rfl
  | cons p ps ih =>
    rw [List.foldl_cons, ih, List.reverse_cons, List.find?_append,
      Std.ExtTreeMap.getElem?_insert]
    cases ps.reverse.find? (·.1 = flag) with
    | some q => rfl
    | none =>
      by_cases hp : p.1 = flag
      · rw [if_pos (Std.LawfulEqCmp.compare_eq_iff_eq.mpr hp)]
        simp [hp]
      · rw [if_neg (mt Std.LawfulEqCmp.compare_eq_iff_eq.mp hp)]
        simp [hp]

/-- The map has the last value that the command line gives. -/
theorem getElem?_parseCommands (argv : List Path) (flag : Path) :
    (parseCommands argv)[flag]? = said argv flag := by
  have hwords : [] ∉ argv.filter (· ≠ []) := by
    intro hmem
    exact absurd rfl (of_decide_eq_true (List.mem_filter.mp hmem).2)
  unfold parseCommands
  rw [foldl_filter]
  have hpairs := parse_pairs (s := ⟨∅, [], true⟩) hwords rfl
  dsimp only at hpairs ⊢
  rw [hpairs, getElem?_foldl_insert, Std.ExtTreeMap.getElem?_empty, Option.or_none]
  rfl

end Parse

section Choose

variable {entries : List (Path × Path)} {s t : Settings} {params : Params}

/-- The entries that choose a mode. -/
def modes (entries : List (Path × Path)) : List (Path × Path) :=
  entries.filter fun e => match role e.1 with
    | .mode _ => true
    | _ => false

/-- The entries for the path of the table. -/
def outs (entries : List (Path × Path)) : List (Path × Path) :=
  entries.filter fun e => role e.1 = .out

/-- Flags that settings can be made of. -/
def Known (flag : Path) : Prop := (∃ mode, role flag = .mode mode) ∨ role flag = .out

/-- The last path for the table. -/
def lastOut (entries : List (Path × Path)) (tablepath : Path) : Path :=
  (((outs entries).getLast?).map Prod.snd).getD tablepath

/-- Settings to which the entries have added a mode, or none. -/
def Adds (entries : List (Path × Path)) (s t : Settings) : Prop :=
  modes entries = [] ∧ t.mode = s.mode ∧ t.file = s.file ∨
    s.mode = .none ∧ ∃ e, modes entries = [e] ∧ role e.1 = .mode t.mode ∧
      t.file = if t.mode = .clear then s.file else e.2

theorem lastOut_cons_of_out {e : Path × Path} (h : role e.1 = .out) (tablepath : Path) :
    lastOut (e :: entries) tablepath = lastOut entries e.2 := by
  unfold lastOut outs
  rw [List.filter_cons_of_pos (by simp [h]), List.getLast?_cons]
  cases (entries.filter fun e => role e.1 = .out).getLast? <;> rfl

theorem lastOut_cons_of_ne {e : Path × Path} (h : role e.1 ≠ .out) (tablepath : Path) :
    lastOut (e :: entries) tablepath = lastOut entries tablepath := by
  unfold lastOut outs
  rw [List.filter_cons_of_neg (by simp [h])]

theorem role_ne_mode_none (flag : Path) : role flag ≠ .mode .none := by
  unfold role
  repeat' split
  all_goals nofun

theorem modes_cons_of_mode {e : Path × Path} {mode : Mode} (h : role e.1 = .mode mode) :
    modes (e :: entries) = e :: modes entries := by
  unfold modes
  rw [List.filter_cons_of_pos (by simp only [h])]

theorem modes_cons_of_out {e : Path × Path} (h : role e.1 = .out) :
    modes (e :: entries) = modes entries := by
  unfold modes
  rw [List.filter_cons_of_neg (by simp only [h]; exact Bool.false_ne_true)]

/-- An entry that chooses the mode. -/
theorem adds_cons_of_mode {e : Path × Path} {mode : Mode} (h : role e.1 = .mode mode) :
    Adds (e :: entries) s t ↔ s.mode = .none ∧
      Adds entries ⟨mode, if mode = .clear then s.file else e.2, s.tablepath⟩ t := by
  unfold Adds
  rw [modes_cons_of_mode h]
  have hne : mode ≠ .none := by
    rintro rfl
    exact role_ne_mode_none e.1 h
  constructor
  · rintro (⟨hnil, _⟩ | ⟨hmode, e', hlist, hrole, hfile⟩)
    · cases hnil
    · obtain ⟨rfl, hrest⟩ := List.cons.inj hlist
      obtain rfl := Role.mode.inj (h.symm.trans hrole)
      exact ⟨hmode, Or.inl ⟨hrest, rfl, hfile⟩⟩
  · rintro ⟨hmode, ⟨hnil, htmode, htfile⟩ | ⟨hbad, _⟩⟩
    · refine Or.inr ⟨hmode, e, by rw [hnil], ?_, ?_⟩
      · rw [htmode]
        exact h
      · rw [htmode]
        exact htfile
    · exact absurd hbad hne

/-- The loop ends with settings exactly if it knows all flags and sees one mode at most. -/
theorem readParameters_eq_settings_iff :
    readParameters entries s = .settings t ↔
      (∀ e ∈ entries, Known e.1) ∧ Adds entries s t ∧
        t.tablepath = lastOut entries s.tablepath := by
  induction entries generalizing s with
  | nil =>
    constructor
    · intro h
      obtain rfl := Choice.settings.inj h
      exact ⟨nofun, Or.inl ⟨rfl, rfl, rfl⟩, rfl⟩
    · rintro ⟨_, ⟨_, hmode, hfile⟩ | ⟨_, e, hnil, _⟩, htable⟩
      · obtain ⟨mode, file, tablepath⟩ := t
        dsimp only at hmode hfile
        obtain rfl : tablepath = s.tablepath := htable
        rw [hmode, hfile]
        rfl
      · cases hnil
  | cons e entries ih =>
    obtain ⟨flag, value⟩ := e
    rw [List.forall_mem_cons]
    unfold readParameters
    cases hrole : role flag with
    | mode mode =>
      rw [adds_cons_of_mode (e := (flag, value)) hrole,
        lastOut_cons_of_ne (e := (flag, value)) (by rw [hrole]; nofun)]
      dsimp only
      by_cases hmode : s.mode = .none
      · rw [if_neg (not_not.mpr hmode), ih]
        exact ⟨fun ⟨hknown, hadds, htable⟩ =>
            ⟨⟨Or.inl ⟨mode, hrole⟩, hknown⟩, ⟨hmode, hadds⟩, htable⟩,
          fun ⟨⟨_, hknown⟩, ⟨_, hadds⟩, htable⟩ => ⟨hknown, hadds, htable⟩⟩
      · rw [if_pos hmode]
        exact ⟨nofun, fun ⟨_, ⟨hnone, _⟩, _⟩ => absurd hnone hmode⟩
    | out =>
      have hadds : Adds ((flag, value) :: entries) s t ↔
          Adds entries { s with tablepath := value } t := by
        unfold Adds
        rw [modes_cons_of_out (e := (flag, value)) hrole]
      rw [hadds, lastOut_cons_of_out (e := (flag, value)) hrole]
      dsimp only
      rw [ih]
      exact ⟨fun ⟨hknown, hadds, htable⟩ => ⟨⟨Or.inr hrole, hknown⟩, hadds, htable⟩,
        fun ⟨⟨_, hknown⟩, hadds, htable⟩ => ⟨hknown, hadds, htable⟩⟩
    | help => exact ⟨nofun, fun ⟨⟨hknown, _⟩, _⟩ => by simp [Known, hrole] at hknown⟩
    | version => exact ⟨nofun, fun ⟨⟨hknown, _⟩, _⟩ => by simp [Known, hrole] at hknown⟩
    | unknown => exact ⟨nofun, fun ⟨⟨hknown, _⟩, _⟩ => by simp [Known, hrole] at hknown⟩

theorem role_eq_out_iff (flag : Path) : role flag = .out ↔ flag = FLAG_OUT ∨ flag = FLAG_OUT_L := by
  constructor
  · intro h
    unfold role at h
    split at h
    · cases h
    split at h
    · cases h
    split at h
    · cases h
    split at h
    · next hflag => exact hflag
    split at h
    · cases h
    split at h
    · cases h
    · cases h
  · rintro (rfl | rfl)
    · decide
    · decide

/-- The last element of an ordered list is the one that nothing lies above. -/
theorem getLast?_of_pairwise {α : Type} {R : α → α → Prop} {l : List α} {x : α}
    (hpairwise : l.Pairwise R) (hx : x ∈ l) (hlast : ∀ y ∈ l, ¬ R x y) : l.getLast? = some x := by
  obtain ⟨as, bs, rfl⟩ := List.append_of_mem hx
  cases bs with
  | nil => exact List.getLast?_concat
  | cons b bs =>
    have hbehind := (List.pairwise_append.mp hpairwise).2.1
    have hb := List.rel_of_pairwise_cons hbehind List.mem_cons_self
    exact absurd hb (hlast b (List.mem_append_right as (List.mem_cons_of_mem x List.mem_cons_self)))

theorem mem_outs_toList {e : Path × Path} :
    e ∈ outs params.toList ↔ params[e.1]? = some e.2 ∧ (e.1 = FLAG_OUT ∨ e.1 = FLAG_OUT_L) := by
  unfold outs
  rw [List.mem_filter, Std.ExtTreeMap.mem_toList_iff_getElem?_eq_some, decide_eq_true_iff,
    role_eq_out_iff]

/-- In the order of the map the long flag for the table comes before the short one. -/
theorem lastOut_toList (params : Params) (tablepath : Path) :
    lastOut params.toList tablepath =
      (params[FLAG_OUT]?.or params[FLAG_OUT_L]?).getD tablepath := by
  have hordered : (outs params.toList).Pairwise fun a b => compare a.1 b.1 = .lt :=
    Std.ExtTreeMap.ordered_keys_toList.filter _
  have hirrefl (flag : Path) : compare flag flag ≠ .lt := by
    have hself : compare flag flag = .eq := Std.ReflCmp.compare_self
    rw [hself]
    nofun
  unfold lastOut
  cases hshort : params[FLAG_OUT]? with
  | some v =>
    have hlast : (outs params.toList).getLast? = some (FLAG_OUT, v) := by
      apply getLast?_of_pairwise hordered (mem_outs_toList.mpr ⟨hshort, Or.inl rfl⟩)
      intro e he hlt
      dsimp only at hlt
      rcases (mem_outs_toList.mp he).2 with heq | heq
      · rw [heq] at hlt
        exact hirrefl _ hlt
      · rw [heq] at hlt
        exact absurd hlt (by decide)
    rw [hlast]
    rfl
  | none =>
    have hkey (e : Path × Path) (he : e ∈ outs params.toList) : e.1 = FLAG_OUT_L := by
      obtain ⟨hget, hflag⟩ := mem_outs_toList.mp he
      refine hflag.resolve_left fun heq => ?_
      rw [heq, hshort] at hget
      cases hget
    cases hlong : params[FLAG_OUT_L]? with
    | some v =>
      have hlast : (outs params.toList).getLast? = some (FLAG_OUT_L, v) := by
        apply getLast?_of_pairwise hordered (mem_outs_toList.mpr ⟨hlong, Or.inr rfl⟩)
        intro e he hlt
        dsimp only at hlt
        rw [hkey e he] at hlt
        exact hirrefl _ hlt
      rw [hlast]
      rfl
    | none =>
      have hnil : outs params.toList = [] := by
        apply List.eq_nil_iff_forall_not_mem.mpr
        intro e he
        have hget := (mem_outs_toList.mp he).1
        rw [hkey e he, hlong] at hget
        cases hget
      rw [hnil]
      rfl

theorem mem_modes_toList {e : Path × Path} :
    e ∈ modes params.toList ↔ params[e.1]? = some e.2 ∧ ∃ mode, role e.1 = .mode mode := by
  unfold modes
  rw [List.mem_filter, Std.ExtTreeMap.mem_toList_iff_getElem?_eq_some]
  refine and_congr_right fun _ => ?_
  cases role e.1 with
  | mode mode => exact ⟨fun _ => ⟨mode, rfl⟩, fun _ => rfl⟩
  | _ => exact ⟨nofun, nofun⟩

/-- There is one entry that chooses a mode. -/
theorem modes_toList_iff (params : Params) (e : Path × Path) :
    modes params.toList = [e] ↔ params[e.1]? = some e.2 ∧ (∃ mode, role e.1 = .mode mode) ∧
      ∀ other ∈ params, ∀ mode, role other = .mode mode → other = e.1 := by
  constructor
  · intro h
    obtain ⟨hget, hmode⟩ := mem_modes_toList.mp (h ▸ List.mem_singleton_self e)
    refine ⟨hget, hmode, fun other hother mode hrole => ?_⟩
    obtain ⟨v, hv⟩ := Option.isSome_iff_exists.mp (Std.ExtTreeMap.mem_iff_isSome_getElem?.mp hother)
    have hmem : (other, v) ∈ modes params.toList := mem_modes_toList.mpr ⟨hv, mode, hrole⟩
    rw [h] at hmem
    exact congrArg Prod.fst (List.mem_singleton.mp hmem)
  · rintro ⟨hget, hmode, hall⟩
    have hmem : e ∈ modes params.toList := mem_modes_toList.mpr ⟨hget, hmode⟩
    have hordered : (modes params.toList).Pairwise fun a b => ¬ compare a.1 b.1 = .eq :=
      Std.ExtTreeMap.distinct_keys_toList.filter _
    have hsame (a : Path × Path) (ha : a ∈ modes params.toList) : a.1 = e.1 := by
      obtain ⟨hv, mode, hrole⟩ := mem_modes_toList.mp ha
      exact hall a.1 (Std.ExtTreeMap.mem_iff_isSome_getElem?.mpr (by rw [hv]; rfl)) mode hrole
    cases hlist : modes params.toList with
    | nil =>
      rw [hlist] at hmem
      cases hmem
    | cons a as =>
      rw [hlist] at hmem hordered hsame
      cases as with
      | nil => rw [List.mem_singleton.mp hmem]
      | cons b bs =>
        have hne := List.rel_of_pairwise_cons hordered List.mem_cons_self
        rw [hsame a List.mem_cons_self,
          hsame b (List.mem_cons_of_mem a List.mem_cons_self)] at hne
        exact absurd Std.ReflCmp.compare_self hne

/-- The settings a command line is understood to mean, if it means any, are those that its last
values say, in whichever order and spelling it gives them. -/
theorem chosen_iff_says (argv : List Path) (t : Settings) (h : t.mode ≠ .none) :
    chosen argv = .settings t ↔ Says (said argv) t := by
  have hget := getElem?_parseCommands argv
  have hmem (flag : Path) : flag ∈ parseCommands argv ↔ (said argv flag).isSome = true := by
    rw [Std.ExtTreeMap.mem_iff_isSome_getElem?, hget]
  unfold chosen
  rw [readParameters_eq_settings_iff, lastOut_toList, hget, hget]
  constructor
  · rintro ⟨hknown, hadds, htable⟩
    refine ⟨fun flag hflag => ?_, ?_, htable⟩
    · obtain ⟨v, hv⟩ := Option.isSome_iff_exists.mp hflag
      have hentry : (flag, v) ∈ (parseCommands argv).toList :=
        Std.ExtTreeMap.mem_toList_iff_getElem?_eq_some.mpr ((hget flag).trans hv)
      exact hknown (flag, v) hentry
    · rcases hadds with ⟨_, hmode, _⟩ | ⟨_, e, hlist, hrole, hfile⟩
      · exact absurd hmode h
      · obtain ⟨hvalue, _, hall⟩ := (modes_toList_iff _ e).mp hlist
        exact ⟨e.1, e.2, (hget e.1).symm.trans hvalue, hrole, hfile,
          fun other hother => hall other ((hmem other).mpr hother)⟩
  · rintro ⟨hknown, ⟨flag, v, hvalue, hrole, hfile, hall⟩, htable⟩
    refine ⟨fun e he => ?_, Or.inr ⟨rfl, (flag, v), ?_, hrole, hfile⟩, htable⟩
    · have hentry := Std.ExtTreeMap.mem_toList_iff_getElem?_eq_some.mp he
      apply hknown
      rw [← hget, hentry]
      rfl
    · exact (modes_toList_iff _ (flag, v)).mpr ⟨(hget flag).trans hvalue, ⟨_, hrole⟩,
        fun other hother => hall other ((hmem other).mp hother)⟩

/-- A file and a table, with an empty argument between them. -/
theorem chosen_iff_says_table :
    chosen [literal "-o", literal "t", [], literal "--check", literal "f"] =
        .settings ⟨.check, literal "f", literal "t"⟩ ↔
      Says (said [literal "-o", literal "t", [], literal "--check", literal "f"])
        ⟨.check, literal "f", literal "t"⟩ :=
  chosen_iff_says _ _ (by decide)

end Choose

end Heartix.Changes
