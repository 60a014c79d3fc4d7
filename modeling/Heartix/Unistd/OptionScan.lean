import Heartix.Unistd.Getopt

/-!
The calls of `getopt` against the reference scan. A call treats a character as
it is declared in the option string, the colon included, and leaves the place
where the scan goes on.
-/

namespace Heartix.Unistd

open Strings

/-- The arguments in memory, each with its terminator. -/
def terminated (argv : List (List UInt8)) : List (List UInt8) := argv.map (· ++ [0])

def textAt (argv : List (List UInt8)) (ptr : CharPtr) : Option (List UInt8) :=
  argv[ptr.word]?.map fun word => word.drop ptr.offset

/-- A call tells an event: by what it returns, `optarg` for an option, and `optopt`
for an error. -/
def Shows (argv : List (List UInt8)) (optstring : List UInt8) (r : ℤ) (s : Getopt) : Event → Prop
  | .option c argument => r = charValue c ∧ s.optarg.map (textAt argv) = argument.map some
  | .unknown c => r = charValue questionMark ∧ s.optopt = charValue c
  | .missing c =>
      r = charValue (if optstring.head? = some colon then colon else questionMark) ∧
        s.optopt = charValue c

/-- The variables stand where there is this left to scan. -/
def At (argv : List (List UInt8)) (s : Getopt) (scan : Scan) : Prop :=
  (scan.cluster = [] ∧ s.optpos = 1 ∧ s.optind ≤ argv.length ∧
      scan.words = argv.drop s.optind) ∨
    (scan.cluster ≠ [] ∧ 1 < s.optpos ∧ scan.words = argv.drop (s.optind + 1) ∧
      ∃ word, argv[s.optind]? = some word ∧ word.drop s.optpos = scan.cluster)

/-- They stand at an option character of an argument. -/
structure OnChar (argv : List (List UInt8)) (s : Getopt) (word : List UInt8) (m : Met) :
    Prop where
  word_eq : argv[s.optind]? = some word
  drop_eq : word.drop s.optpos = m.char :: m.rest
  words_eq : m.words = argv.drop (s.optind + 1)
  optpos_pos : 1 ≤ s.optpos

section Reads

variable {argv : List (List UInt8)} {s t : Getopt} {word : List UInt8} {m : Met} {scan : Scan}

theorem At.optind_le (h : At argv s scan) : s.optind ≤ argv.length := by
  rcases h with ⟨_, _, hle, _⟩ | ⟨_, _, _, word, hword, _⟩
  · exact hle
  · exact Nat.le_of_lt (List.getElem?_eq_some_iff.1 hword).1

theorem OnChar.optind_lt (h : OnChar argv s word m) : s.optind < argv.length :=
  (List.getElem?_eq_some_iff.1 h.word_eq).1

theorem OnChar.optpos_lt (h : OnChar argv s word m) : s.optpos < word.length := by
  by_contra hle
  have hdrop := h.drop_eq
  rw [List.drop_eq_nil_of_le (Nat.le_of_not_lt hle)] at hdrop
  exact List.cons_ne_nil _ _ hdrop.symm

theorem OnChar.drop_succ (h : OnChar argv s word m) : word.drop (s.optpos + 1) = m.rest := by
  rw [← List.tail_drop, h.drop_eq, List.tail_cons]

/-- The option character. -/
theorem OnChar.getElem? (h : OnChar argv s word m) : (word ++ [0])[s.optpos]? = some m.char := by
  have hhead : (word.drop s.optpos)[0]? = some m.char := by
    rw [h.drop_eq]
    rfl
  rw [List.getElem?_append_left h.optpos_lt, ← hhead, List.getElem?_drop, Nat.add_zero]

theorem getElem?_zero_terminated (s : List UInt8) : (s ++ [0])[0]? = some (s.headD 0) := by
  cases s with
  | nil => rfl
  | cons b s => rfl

theorem getElem?_drop_terminated (s : List UInt8) {k : ℕ} (hk : k ≤ s.length) :
    (s ++ [0])[k]? = some ((s.drop k).headD 0) := by
  have hdrop : (s ++ [0])[k]? = ((s ++ [0]).drop k)[0]? := by rw [List.getElem?_drop, Nat.add_zero]
  rw [hdrop, List.drop_append_of_le_length hk, getElem?_zero_terminated]

/-- What comes behind the option character, the terminator at the end. -/
theorem OnChar.getElem?_succ (h : OnChar argv s word m) :
    (word ++ [0])[s.optpos + 1]? = some (m.rest.headD 0) := by
  rw [getElem?_drop_terminated word h.optpos_lt, h.drop_succ]

theorem headD_eq_colon_iff (s : List UInt8) : s.headD 0 = colon ↔ s.head? = some colon := by
  have hcolon : (0 : UInt8) ≠ colon := by decide
  cases s with
  | nil => simp [hcolon]
  | cons b s => simp

theorem headD_eq_zero_iff {s : List UInt8} (hs : 0 ∉ s) : s.headD 0 = 0 ↔ s = [] := by
  cases s with
  | nil => simp
  | cons b s =>
    have hb : b ≠ 0 := fun h => hs (h ▸ List.mem_cons_self)
    simp [hb]

theorem OnChar.rest_terminated (h : OnChar argv s word m) (hword : 0 ∉ word) : 0 ∉ m.rest := by
  intro hmem
  rw [← h.drop_succ] at hmem
  exact hword (List.mem_of_mem_drop hmem)

/-- `nextChar` goes to the rest of the argument, or to the next argument. -/
theorem OnChar.nextChar (h : OnChar argv s word m) (hword : 0 ∉ word)
    (hind : t.optind = s.optind) (hpos : t.optpos = s.optpos) :
    ∃ u, nextChar (word ++ [0]) t = some u ∧ At argv u ⟨m.rest, m.words⟩ ∧
      u.optarg = t.optarg ∧ u.optopt = t.optopt := by
  have hrest := h.rest_terminated hword
  rw [Unistd.nextChar, hpos, h.getElem?_succ]
  by_cases hnil : m.rest = []
  · rw [hnil]
    refine ⟨_, rfl, Or.inl ⟨rfl, rfl, ?_, ?_⟩, rfl, rfl⟩
    · have hlt := h.optind_lt
      change t.optind + 1 ≤ argv.length
      omega
    · change m.words = argv.drop (t.optind + 1)
      rw [h.words_eq, hind]
  · have hne : m.rest.headD 0 ≠ 0 := mt (headD_eq_zero_iff hrest).1 hnil
    simp only [if_neg hne]
    refine ⟨_, rfl, Or.inr ⟨hnil, Nat.lt_succ_of_le (hpos ▸ h.optpos_pos), ?_, word, ?_, ?_⟩,
      rfl, rfl⟩
    · change m.words = argv.drop (t.optind + 1)
      rw [h.words_eq, hind]
    · change argv[t.optind]? = some word
      rw [hind, h.word_eq]
    · exact h.drop_succ

end Reads

section Characters

variable {argv : List (List UInt8)} {optstring : List UInt8} {s : Getopt} {word : List UInt8}
  {m : Met}

/-- The option argument in the rest of the word. -/
theorem OnChar.restAsArgument (h : OnChar argv s word m) :
    (restAsArgument s).optarg.map (textAt argv) = some (some m.rest) ∧
      At argv (restAsArgument s) ⟨[], m.words⟩ := by
  constructor
  · simp only [Unistd.restAsArgument, Option.map_some, textAt, h.word_eq, h.drop_succ]
  · refine Or.inl ⟨rfl, rfl, ?_, h.words_eq⟩
    have hlt := h.optind_lt
    change s.optind + 1 ≤ argv.length
    omega

theorem OnChar.optionalArgument (h : OnChar argv s word m) (hword : 0 ∉ word)
    (optstring : List UInt8) :
    ∃ t, optionalArgument (word ++ [0]) (charValue m.char) s = some (charValue m.char, t) ∧
      Shows argv optstring (charValue m.char) t (m.event .optional) ∧
      At argv t (m.after .optional) := by
  have hrest := h.rest_terminated hword
  rw [Unistd.optionalArgument, h.getElem?_succ]
  by_cases hnil : m.rest = []
  · obtain ⟨u, hnext, hat, harg, _⟩ :=
      h.nextChar (t := { s with optarg := none }) hword rfl rfl
    have hzero : m.rest.headD 0 = 0 := (headD_eq_zero_iff hrest).2 hnil
    refine ⟨u, ?_, ⟨rfl, ?_⟩, ?_⟩
    · simp only [ne_eq, hzero, not_true, if_false, hnext, Option.map_some]
    · rw [harg, if_pos hnil]
      rfl
    · rw [hnil] at hat
      exact hat
  · have hne : m.rest.headD 0 ≠ 0 := mt (headD_eq_zero_iff hrest).1 hnil
    refine ⟨Unistd.restAsArgument s, ?_, ⟨rfl, ?_⟩, h.restAsArgument.2⟩
    · simp only [ne_eq, hne, not_false_eq_true, if_true]
    · rw [h.restAsArgument.1, if_neg hnil]
      rfl

theorem OnChar.requiredArgument (h : OnChar argv s word m) (hword : 0 ∉ word) :
    ∃ r t, requiredArgument (terminated argv).length (word ++ [0]) (optstring ++ [0])
        (charValue m.char) s = some (r, t) ∧
      Shows argv optstring r t (m.event .required) ∧ At argv t (m.after .required) := by
  have hrest := h.rest_terminated hword
  have hlt := h.optind_lt
  have hlength : (terminated argv).length = argv.length := List.length_map _
  rw [Unistd.requiredArgument, h.getElem?_succ, hlength]
  by_cases hnil : m.rest = []
  · have hzero : m.rest.headD 0 = 0 := (headD_eq_zero_iff hrest).2 hnil
    simp only [ne_eq, hzero, not_true, if_false]
    by_cases hlast : s.optind + 1 < argv.length
    · have hwords : m.words = argv[s.optind + 1] :: argv.drop (s.optind + 2) := by
        rw [h.words_eq, List.drop_eq_getElem_cons hlast]
      rw [if_pos hlast]
      refine ⟨_, _, rfl, ?_, ?_⟩
      · simp only [Met.event, if_pos hnil, hwords, Shows, Option.map_some, textAt,
          List.getElem?_eq_getElem hlast, List.drop_zero, true_and]
      · refine Or.inl ⟨rfl, rfl, hlast, ?_⟩
        simp only [Met.after, if_pos hnil, hwords, List.tail_cons]
    · have hwords : m.words = [] := by
        rw [h.words_eq]
        exact List.drop_eq_nil_of_le (by omega)
      rw [if_neg hlast, getElem?_zero_terminated]
      refine ⟨_, _, rfl, ?_, ?_⟩
      · simp only [Met.event, if_pos hnil, hwords, Shows, headD_eq_colon_iff, true_and]
      · refine Or.inl ⟨rfl, rfl, hlt, ?_⟩
        simp only [Met.after, if_pos hnil, hwords, List.tail_nil]
        exact (List.drop_eq_nil_of_le (by omega)).symm
  · have hne : m.rest.headD 0 ≠ 0 := mt (headD_eq_zero_iff hrest).1 hnil
    simp only [ne_eq, hne, not_false_eq_true, if_true]
    refine ⟨_, _, rfl, ?_, ?_⟩
    · simp only [Met.event, if_neg hnil, Shows, h.restAsArgument.1, Option.map_some, true_and]
    · simp only [Met.after, if_neg hnil]
      exact h.restAsArgument.2

/-- From an option character on, a call treats it as the option string declares
it, and stops where the scan goes on. -/
theorem OnChar.getoptChar (h : OnChar argv s word m) (hword : 0 ∉ word) (hopt : 0 ∉ optstring) :
    ∃ r t, getoptChar (terminated argv).length (word ++ [0]) (optstring ++ [0]) s = some (r, t) ∧
      Shows argv optstring r t (m.event (kindOf optstring m.char)) ∧
      At argv t (m.after (kindOf optstring m.char)) := by
  simp only [Unistd.getoptChar, h.getElem?, strchr_charValue hopt [] m.char]
  by_cases hmem : m.char ∈ optstring
  · have hidx : optstring.idxOf m.char < optstring.length := List.idxOf_lt_length_iff.2 hmem
    have hfirst := getElem?_drop_terminated optstring (k := optstring.idxOf m.char + 1) hidx
    have htail : (optstring.drop (optstring.idxOf m.char + 1)).tail =
        optstring.drop (optstring.idxOf m.char + 2) := List.tail_drop
    simp only [if_pos hmem, hfirst, kindOf, declared, htail, headD_eq_colon_iff]
    by_cases hcolon : (optstring.drop (optstring.idxOf m.char + 1)).head? = some colon
    · have hlen : optstring.idxOf m.char + 2 ≤ optstring.length := by
        by_contra hshort
        rw [List.drop_eq_nil_of_le (by omega)] at hcolon
        exact absurd hcolon (by simp)
      have hsecond := getElem?_drop_terminated optstring hlen
      simp only [if_pos hcolon, hsecond, headD_eq_colon_iff]
      by_cases htwice : (optstring.drop (optstring.idxOf m.char + 2)).head? = some colon
      · simp only [if_pos htwice]
        obtain ⟨t, hcall, hshows, hat⟩ := h.optionalArgument hword optstring
        exact ⟨_, t, hcall, hshows, hat⟩
      · simp only [if_neg htwice]
        exact h.requiredArgument hword
    · simp only [if_neg hcolon]
      obtain ⟨u, hnext, hat, harg, _⟩ :=
        h.nextChar (t := { s with optarg := none }) hword rfl rfl
      refine ⟨_, u, by simp only [hnext, Option.map_some], ⟨rfl, ?_⟩, hat⟩
      rw [harg]
      rfl
  · obtain ⟨u, hnext, hat, _, hoptopt⟩ :=
      h.nextChar (t := { s with optopt := charValue m.char }) hword rfl rfl
    rw [if_neg hmem, kindOf, if_neg hmem]
    refine ⟨_, u, ?_, ⟨rfl, hoptopt⟩, hat⟩
    simp only [hnext, Option.map_some]

end Characters

section Steps

variable {argv : List (List UInt8)} {optstring : List UInt8} {s : Getopt} {scan : Scan}

theorem beginOf_terminated {word : List UInt8} (hword : 0 ∉ word) :
    beginOf (word ++ [0]) = some
      (if word.head? = some hyphen ∧ 2 ≤ word.length then
        if word = [hyphen, hyphen] then .terminator else .options
      else .operand) := by
  have hzero : (0 : UInt8) ≠ hyphen := by decide
  rcases word with _ | ⟨first, _ | ⟨second, rest⟩⟩
  · rfl
  · by_cases hfirst : first = hyphen
    · subst hfirst
      rfl
    · simp [beginOf, hfirst]
  · by_cases hfirst : first = hyphen
    · have hsecond : second ≠ 0 := fun h => hword (by simp [h])
      obtain ⟨r, hr, hiff⟩ := strcmp_eq_zero_iff hword
        (show (0 : UInt8) ∉ [hyphen, hyphen] by decide) [] []
      have hcmp : strcmp (first :: second :: rest ++ [0]) [hyphen, hyphen, 0] = some r := hr
      simp only [beginOf, List.cons_append, List.getElem?_cons_zero, List.getElem?_cons_succ,
        ne_eq, hfirst, not_true, if_false, if_neg hsecond, List.head?_cons, List.length_cons]
      rw [hfirst] at hcmp hiff
      simp only [List.cons_append] at hcmp
      rw [hcmp, if_pos ⟨trivial, by omega⟩, Option.map_some]
      by_cases hr0 : r = 0
      · rw [if_pos hr0, if_pos (hiff.1 hr0)]
      · rw [if_neg hr0, if_neg (mt hiff.2 hr0)]
    · simp [beginOf, hfirst]

/-- A word with options ends the scan only if it is the terminator. -/
theorem Scan.eq_of_next_none {word : List UInt8} {words : List (List UInt8)}
    (hhead : word.head? = some hyphen) (hlen : 2 ≤ word.length)
    (h : (⟨[], word :: words⟩ : Scan).next = none) : word = [hyphen, hyphen] := by
  rcases word with _ | ⟨first, _ | ⟨second, rest⟩⟩
  · exact absurd hlen (by simp)
  · exact absurd hlen (by simp)
  · obtain rfl : first = hyphen := by simpa using hhead
    by_contra hne
    have hcond : hyphen = hyphen ∧ second :: rest ≠ [hyphen] :=
      ⟨rfl, fun heq => hne (by rw [heq])⟩
    have hsome : (⟨[], (hyphen :: second :: rest) :: words⟩ : Scan).next =
        some ⟨second, rest, words⟩ := if_pos hcond
    rw [h] at hsome
    exact absurd hsome (by simp)

/-- Where the scan goes on, the call is one for the option character. -/
theorem At.getopt_of_next (h : At argv s scan) (hargv : ∀ word ∈ argv, 0 ∉ word)
    (hopt : 0 ∉ optstring) {m : Met} (hnext : scan.next = some m) :
    ∃ r t, getopt (terminated argv) (optstring ++ [0]) s = some (r, t) ∧
      Shows argv optstring r t (m.event (kindOf optstring m.char)) ∧
      At argv t (m.after (kindOf optstring m.char)) := by
  rcases h with ⟨hcluster, hpos, hle, hwords⟩ | ⟨hcluster, hpos, hwords, word, hword, hdrop⟩
  · rcases Scan.next_cases hnext with ⟨hcons, _⟩ | ⟨_, hcons, hne⟩
    · exact absurd (hcluster.symm.trans hcons) (List.cons_ne_nil _ _).symm
    · have hlt : s.optind < argv.length := by
        by_contra hge
        rw [List.drop_eq_nil_of_le (Nat.le_of_not_lt hge)] at hwords
        rw [hwords] at hcons
        exact absurd hcons (List.cons_ne_nil _ _).symm
      rw [hwords, List.drop_eq_getElem_cons hlt] at hcons
      obtain ⟨hword, hrest⟩ := List.cons.inj hcons
      have hget : argv[s.optind]? = some (hyphen :: m.char :: m.rest) := by
        rw [List.getElem?_eq_getElem hlt, hword]
      have hon : OnChar argv s (hyphen :: m.char :: m.rest) m :=
        ⟨hget, by rw [hpos]; rfl, hrest.symm, Nat.le_of_eq hpos.symm⟩
      have hterm := hargv _ (List.mem_of_getElem? hget)
      have hbegin := beginOf_terminated hterm
      rw [if_pos ⟨rfl, Nat.le_add_left 2 _⟩,
        if_neg fun heq => hne (List.cons.inj heq).2] at hbegin
      have hmem : (terminated argv)[s.optind]? = some (hyphen :: m.char :: m.rest ++ [0]) := by
        rw [terminated, List.getElem?_map, hget]
        rfl
      simp only [getopt, hmem, if_pos hpos, hbegin]
      exact hon.getoptChar hterm hopt
  · rcases Scan.next_cases hnext with ⟨hcons, hsame⟩ | ⟨hnil, _⟩
    · have hon : OnChar argv s word m :=
        ⟨hword, hdrop.trans hcons, hsame.symm.trans hwords, Nat.le_of_lt hpos⟩
      have hmem : (terminated argv)[s.optind]? = some (word ++ [0]) := by
        rw [terminated, List.getElem?_map, hword]
        rfl
      simp only [getopt, hmem, if_neg (Nat.ne_of_gt hpos)]
      exact hon.getoptChar (hargv _ (List.mem_of_getElem? hword)) hopt
    · exact absurd hnil hcluster

/-- Where the scan ends, the call returns -1 and `optind` is at the operands. -/
theorem At.getopt_of_end (h : At argv s scan) (hargv : ∀ word ∈ argv, 0 ∉ word)
    (hnext : scan.next = none) (optstring : List UInt8) :
    ∃ t, getopt (terminated argv) (optstring ++ [0]) s = some (-1, t) ∧
      argv.drop t.optind = scan.operands optstring ∧ t.optind ≤ argv.length := by
  have hoperands : scan.operands optstring =
      if scan.words.head? = some [hyphen, hyphen] then scan.words.tail else scan.words := by
    rw [Scan.operands]
    split
    · rfl
    · rename_i m hm
      rw [hnext] at hm
      exact absurd hm (by simp)
  rcases h with ⟨hcluster, hpos, hle, hwords⟩ | ⟨hcluster, _, _, _⟩
  · rw [hoperands, hwords]
    rcases Nat.lt_or_ge s.optind argv.length with hlt | hge
    · have hcons := List.drop_eq_getElem_cons hlt
      have hmem : (terminated argv)[s.optind]? = some (argv[s.optind] ++ [0]) := by
        rw [terminated, List.getElem?_map, List.getElem?_eq_getElem hlt]
        rfl
      have hbegin := beginOf_terminated (hargv _ (List.getElem_mem hlt))
      rw [hcons, List.head?_cons, List.tail_cons]
      simp only [Option.some.injEq]
      by_cases hterm : argv[s.optind] = [hyphen, hyphen]
      · rw [if_pos hterm]
        rw [hterm, if_pos ⟨rfl, by decide⟩, if_pos rfl, ← hterm] at hbegin
        refine ⟨{ s with optind := s.optind + 1 }, ?_, rfl, hlt⟩
        simp only [getopt, hmem, if_pos hpos, hbegin]
      · rw [if_neg hterm]
        have hoperand : ¬(argv[s.optind].head? = some hyphen ∧ 2 ≤ argv[s.optind].length) := by
          rintro ⟨hhead, hlen⟩
          obtain ⟨cluster, words⟩ := scan
          simp only at hcluster hwords
          rw [hcluster, hwords, hcons] at hnext
          exact hterm (Scan.eq_of_next_none hhead hlen hnext)
        rw [if_neg hoperand] at hbegin
        refine ⟨s, ?_, hcons, hle⟩
        simp only [getopt, hmem, if_pos hpos, hbegin]
    · have hmem : (terminated argv)[s.optind]? = none := by
        rw [terminated, List.getElem?_map, List.getElem?_eq_none hge]
        rfl
      have hnil := List.drop_eq_nil_of_le hge
      refine ⟨s, ?_, ?_, hle⟩
      · simp only [getopt, hmem]
      · rw [hnil]
        rfl
  · obtain ⟨cluster, words⟩ := scan
    rcases cluster with _ | ⟨c, rest⟩
    · exact absurd rfl hcluster
    · exact absurd hnext (by simp [Scan.next])

end Steps

section Enumeration

variable {argv : List (List UInt8)} {optstring : List UInt8} {s : Getopt} {scan : Scan}

/-- The events of the reference scan. -/
def Scan.events (optstring : List UInt8) (scan : Scan) : List Event :=
  (scan.met optstring).map fun m => m.event (optionKind optstring m.char)

/-- The calls end, read nothing outside of the strings, tell the events of the
scan one after the other, and stop at its operands. -/
def Conforms (argv : List (List UInt8)) (optstring : List UInt8) (s : Getopt) (scan : Scan) :
    Prop :=
  s.optind ≤ argv.length ∧ ∃ n results final,
    getoptLoop (terminated argv) (optstring ++ [0]) n s = some (results, final) ∧
      List.Forall₂ (fun call event => Shows argv optstring call.1 call.2 event) results
        (scan.events optstring) ∧
      argv.drop final.optind = scan.operands optstring ∧
      (∀ call ∈ results, call.2.optind ≤ argv.length) ∧ final.optind ≤ argv.length

/-- `getopt` enumerates the options from its initial state. The first argument is
the name of the program. -/
def Enumerates (argv : List (List UInt8)) (optstring : List UInt8) : Prop :=
  Conforms argv optstring Getopt.initial ⟨[], argv.tail⟩

/-- An option character that is no trouble: a colon is not declared, or it is so as
an option with an argument that is missing; and an option is not returned as -1. -/
def Fine (optstring : List UInt8) (m : Met) : Prop :=
  (m.char = colon → colon ∈ optstring → m.rest = [] ∧ m.words = [] ∧
      kindOf optstring colon = .required ∧ optstring.head? ≠ some colon) ∧
    ∀ argument, m.event (optionKind optstring m.char) = .option m.char argument →
      charValue m.char ≠ -1

theorem Scan.met_of_next {m : Met} (h : scan.next = some m) :
    scan.met optstring = m :: (m.after (optionKind optstring m.char)).met optstring := by
  rw [Scan.met]
  split
  · rename_i hm
    rw [h] at hm
    exact absurd hm (by simp)
  · rename_i m' hm
    rw [h, Option.some.injEq] at hm
    rw [hm]

theorem Scan.met_of_end (h : scan.next = none) : scan.met optstring = [] := by
  rw [Scan.met]
  split
  · rfl
  · rename_i m hm
    rw [h] at hm
    exact absurd hm (by simp)

theorem Scan.operands_of_next {m : Met} (h : scan.next = some m) :
    scan.operands optstring = (m.after (optionKind optstring m.char)).operands optstring := by
  rw [Scan.operands]
  split
  · rename_i hm
    rw [h] at hm
    exact absurd hm (by simp)
  · rename_i m' hm
    rw [h, Option.some.injEq] at hm
    rw [hm]

theorem charValue_colon : charValue colon = 58 := by decide

theorem charValue_questionMark : charValue questionMark = 63 := by decide

theorem kindOf_eq_optionKind {m : Met} (h : m.char = colon → colon ∉ optstring) :
    kindOf optstring m.char = optionKind optstring m.char := by
  unfold optionKind
  by_cases hcolon : m.char = colon
  · rw [if_pos hcolon, kindOf, hcolon, if_neg (h hcolon)]
  · rw [if_neg hcolon]

/-- An error is not told by -1, and an option is told by its character. -/
theorem Shows.eq_neg_one_iff {r : ℤ} {event : Event} (h : Shows argv optstring r s event) :
    r = -1 ↔ ∃ c argument, event = .option c argument ∧ charValue c = -1 := by
  cases event with
  | option c argument =>
    rw [h.1]
    constructor
    · exact fun hc => ⟨c, argument, rfl, hc⟩
    · rintro ⟨c', argument', heq, hc⟩
      rw [(Event.option.inj heq).1]
      exact hc
  | unknown c =>
    rw [h.1, charValue_questionMark]
    simp
  | missing c =>
    rw [h.1]
    split
    · rw [charValue_colon]
      simp
    · rw [charValue_questionMark]
      simp

theorem Met.event_option_char {m : Met} {kind : Kind} {c : UInt8} {argument : Option (List UInt8)}
    (h : m.event kind = .option c argument) : c = m.char := by
  cases kind with
  | unknown => exact Event.noConfusion h
  | flag => exact (Event.option.inj h).1.symm
  | optional => exact (Event.option.inj h).1.symm
  | required =>
    simp only [Met.event] at h
    split at h
    · split at h
      · exact Event.noConfusion h
      · exact (Event.option.inj h).1.symm
    · exact (Event.option.inj h).1.symm

theorem kindOf_ne_unknown {c : UInt8} (h : c ∈ optstring) : kindOf optstring c ≠ .unknown := by
  rw [kindOf, if_pos h, declared]
  split
  · split
    · exact Kind.noConfusion
    · exact Kind.noConfusion
  · exact Kind.noConfusion

/-- A declared colon is told as an unknown option only where it is the last
character and its argument is missing. -/
theorem shows_unknown_colon_iff {r : ℤ} {m : Met} (hchar : m.char = colon)
    (hmem : colon ∈ optstring) (h : Shows argv optstring r s (m.event (kindOf optstring colon))) :
    Shows argv optstring r s (.unknown colon) ↔
      m.rest = [] ∧ m.words = [] ∧ kindOf optstring colon = .required ∧
        optstring.head? ≠ some colon := by
  have hoption : r = charValue m.char → ¬Shows argv optstring r s (.unknown colon) := by
    intro hr hshows
    have hvalue := hr.symm.trans hshows.1
    rw [hchar, charValue_colon, charValue_questionMark] at hvalue
    exact absurd hvalue (by decide)
  cases hkind : kindOf optstring colon with
  | unknown => exact absurd hkind (kindOf_ne_unknown hmem)
  | flag =>
    rw [hkind] at h
    exact iff_of_false (hoption h.1) fun hcond => Kind.noConfusion hcond.2.2.1
  | optional =>
    rw [hkind] at h
    exact iff_of_false (hoption h.1) fun hcond => Kind.noConfusion hcond.2.2.1
  | required =>
    rw [hkind] at h
    simp only [Met.event] at h
    by_cases hrest : m.rest = []
    · rw [if_pos hrest] at h
      rcases hwords : m.words with _ | ⟨word, words⟩
      · rw [hwords] at h
        obtain ⟨hr, hoptopt⟩ := h
        rw [hchar] at hoptopt
        by_cases hhead : optstring.head? = some colon
        · rw [if_pos hhead, ← hchar] at hr
          exact iff_of_false (hoption hr) fun hcond => hcond.2.2.2 hhead
        · rw [if_neg hhead] at hr
          exact iff_of_true ⟨hr, hoptopt⟩ ⟨hrest, rfl, rfl, hhead⟩
      · rw [hwords] at h
        exact iff_of_false (hoption h.1) fun hcond => List.cons_ne_nil _ _ hcond.2.1
    · rw [if_neg hrest] at h
      exact iff_of_false (hoption h.1) fun hcond => hrest hcond.1

/-- What a call tells is right where the option character is no trouble. -/
theorem fine_iff {r : ℤ} {m : Met}
    (h : Shows argv optstring r s (m.event (kindOf optstring m.char))) :
    Fine optstring m ↔ r ≠ -1 ∧
      Shows argv optstring r s (m.event (optionKind optstring m.char)) := by
  by_cases hcolon : m.char = colon ∧ colon ∈ optstring
  · obtain ⟨hchar, hmem⟩ := hcolon
    have hkind : optionKind optstring m.char = .unknown := if_pos hchar
    rw [Fine, hkind]
    rw [hchar] at h
    have hiff := shows_unknown_colon_iff hchar hmem h
    constructor
    · rintro ⟨hfirst, _⟩
      have hshows := hiff.2 (hfirst hchar hmem)
      refine ⟨?_, ?_⟩
      · rw [hshows.1, charValue_questionMark]
        decide
      · rw [← hchar] at hshows
        exact hshows
    · rintro ⟨_, hshows⟩
      have hunknown : Shows argv optstring r s (.unknown colon) := by
        rw [← hchar]
        exact hshows
      exact ⟨fun _ _ => hiff.1 hunknown, fun _ heq => Event.noConfusion heq⟩
  · have hkind : kindOf optstring m.char = optionKind optstring m.char :=
      kindOf_eq_optionKind fun hchar hmem => hcolon ⟨hchar, hmem⟩
    rw [hkind] at h
    have hminus := h.eq_neg_one_iff
    rw [Fine, and_iff_left h]
    constructor
    · rintro ⟨_, hoption⟩ hr
      obtain ⟨c, argument, hevent, hc⟩ := hminus.1 hr
      have hchar := Met.event_option_char hevent
      subst hchar
      exact hoption argument hevent hc
    · intro hnone
      refine ⟨fun hchar hmem => absurd ⟨hchar, hmem⟩ hcolon, ?_⟩
      intro argument hevent hc
      exact hnone (hminus.2 ⟨m.char, argument, hevent, hc⟩)

theorem Fine.after_eq {m : Met} (h : Fine optstring m) :
    m.after (kindOf optstring m.char) = m.after (optionKind optstring m.char) := by
  by_cases hcolon : m.char = colon ∧ colon ∈ optstring
  · obtain ⟨hrest, hwords, hkind, _⟩ := h.1 hcolon.1 hcolon.2
    rw [hcolon.1, hkind, optionKind, if_pos rfl]
    simp only [Met.after, hrest, hwords, if_true, List.tail_nil]
  · rw [kindOf_eq_optionKind fun hchar hmem => hcolon ⟨hchar, hmem⟩]

/-- One call of a run. -/
theorem conforms_of_next {m : Met} {r : ℤ} {t : Getopt} (hnext : scan.next = some m)
    (hle : s.optind ≤ argv.length)
    (hcall : getopt (terminated argv) (optstring ++ [0]) s = some (r, t)) :
    Conforms argv optstring s scan ↔ r ≠ -1 ∧
      Shows argv optstring r t (m.event (optionKind optstring m.char)) ∧
      Conforms argv optstring t (m.after (optionKind optstring m.char)) := by
  have hevents : scan.events optstring = m.event (optionKind optstring m.char) ::
      (m.after (optionKind optstring m.char)).events optstring := by
    rw [Scan.events, Scan.met_of_next hnext, List.map_cons]
    rfl
  rw [Conforms, hevents, Scan.operands_of_next hnext]
  constructor
  · rintro ⟨_, n, results, final, hrun, hshows, hoperands, hinds, hfinal⟩
    cases n with
    | zero => exact absurd hrun (by simp [getoptLoop])
    | succ n =>
      simp only [getoptLoop, hcall] at hrun
      by_cases hr : r = -1
      · rw [if_pos hr, Option.some.injEq, Prod.mk.injEq] at hrun
        rw [← hrun.1] at hshows
        exact absurd hshows (by simp)
      · rw [if_neg hr, Option.map_eq_some_iff] at hrun
        obtain ⟨rest, hrest, heq⟩ := hrun
        obtain ⟨rfl, rfl⟩ := Prod.mk.inj heq
        obtain ⟨hfirst, hothers⟩ := List.forall₂_cons.1 hshows
        exact ⟨hr, hfirst, hinds _ List.mem_cons_self, n, rest.1, rest.2, hrest, hothers,
          hoperands, fun call hmem => hinds call (List.mem_cons_of_mem _ hmem), hfinal⟩
  · rintro ⟨hr, hfirst, hind, n, results, final, hrun, hshows, hoperands, hinds, hfinal⟩
    refine ⟨hle, n + 1, (r, t) :: results, final, ?_, List.Forall₂.cons hfirst hshows,
      hoperands, ?_, hfinal⟩
    · simp only [getoptLoop, hcall, if_neg hr, hrun, Option.map_some]
    · intro call hmem
      rcases List.mem_cons.1 hmem with rfl | hold
      · exact hind
      · exact hinds call hold

/-- From every place of the scan on, the calls conform where all option characters
behind it are no trouble. -/
theorem At.conforms_iff (h : At argv s scan) (hargv : ∀ word ∈ argv, 0 ∉ word)
    (hopt : 0 ∉ optstring) :
    Conforms argv optstring s scan ↔ ∀ m ∈ scan.met optstring, Fine optstring m := by
  induction hn : scan.size using Nat.strongRecOn generalizing s scan with
  | ind n ih =>
    rcases hnext : scan.next with _ | m
    · obtain ⟨t, hcall, hoperands, hle⟩ := h.getopt_of_end hargv hnext optstring
      rw [Scan.met_of_end hnext]
      refine iff_of_true ⟨h.optind_le, 1, [], t, ?_, ?_, hoperands, ?_, hle⟩ ?_
      · simp only [getoptLoop, hcall, if_true]
      · rw [Scan.events, Scan.met_of_end hnext]
        exact List.Forall₂.nil
      · exact fun call hmem => absurd hmem List.not_mem_nil
      · exact fun m hmem => absurd hmem List.not_mem_nil
    · obtain ⟨r, t, hcall, hshows, hat⟩ := h.getopt_of_next hargv hopt hnext
      have hsize := Scan.size_next hnext (optionKind optstring m.char)
      rw [conforms_of_next hnext h.optind_le hcall, Scan.met_of_next hnext,
        List.forall_mem_cons, ← and_assoc, ← fine_iff hshows]
      refine and_congr_right fun hfine => ?_
      rw [hfine.after_eq] at hat
      exact ih _ (hn ▸ hsize) hat rfl

/-- `getopt` enumerates the options as the scan finds them where there is a program
name and no option character is trouble. -/
theorem getopt_enumerates_iff (hargv : ∀ word ∈ argv, 0 ∉ word) (hopt : 0 ∉ optstring) :
    Enumerates argv optstring ↔ argv ≠ [] ∧
      ∀ m ∈ (⟨[], argv.tail⟩ : Scan).met optstring, Fine optstring m := by
  rcases argv with _ | ⟨program, arguments⟩
  · refine iff_of_false ?_ fun h => h.1 rfl
    rintro ⟨hle, _⟩
    exact absurd hle (by decide)
  · have hat : At (program :: arguments) Getopt.initial ⟨[], arguments⟩ :=
      Or.inl ⟨rfl, rfl, Nat.le_add_left 1 _, rfl⟩
    rw [and_iff_right (List.cons_ne_nil program arguments)]
    exact hat.conforms_iff hargv hopt

theorem getopt_enumerates_iff_cluster : Enumerates [[112], [45, 97, 98]] [97, 98, 58] ↔
    ([[112], [45, 97, 98]] : List (List UInt8)) ≠ [] ∧
      ∀ m ∈ (⟨[], [[45, 97, 98]]⟩ : Scan).met [97, 98, 58], Fine [97, 98, 58] m :=
  getopt_enumerates_iff (by decide) (by decide)

/-- The argument `-:` with the option string `a:`. -/
theorem getopt_accepts_colon : ¬Enumerates [[112], [45, 58]] [97, 58] := by
  rintro ⟨_, n, results, final, hrun, hshows, _⟩
  have hnext : (⟨[], [[45, 58]]⟩ : Scan).next = some ⟨58, [], []⟩ := by decide
  rw [List.tail_cons, Scan.events, Scan.met_of_next hnext] at hshows
  obtain ⟨call, rest, hfirst, _, rfl⟩ := List.forall₂_cons_right_iff.1 hshows
  cases n with
  | zero => exact absurd hrun (by simp [getoptLoop])
  | succ n =>
    have hcall : getopt (terminated [[112], [45, 58]]) ([97, 58] ++ [0]) Getopt.initial =
        some (58, ⟨none, 2, 0, 1⟩) := by decide
    simp only [getoptLoop, hcall] at hrun
    rw [if_neg (by decide), Option.map_eq_some_iff] at hrun
    obtain ⟨_, _, heq⟩ := hrun
    have hvalue : call.1 = 58 := by
      rw [← (List.cons.inj (Prod.mk.inj heq).1).1]
    have hquestion : call.1 = 63 := hfirst.1.trans charValue_questionMark
    rw [hvalue] at hquestion
    exact absurd hquestion (by decide)

end Enumeration

end Heartix.Unistd
