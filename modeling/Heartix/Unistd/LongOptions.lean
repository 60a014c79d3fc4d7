import Heartix.Unistd.LongScan

/-!
Runs of `getopt_long`. Each call goes to the next encounter of the reference scan, so a
run consumes the long words one by one, as far as no option is answered with the -1
that means the end. A value that an option does not take is accepted, though.
-/

namespace Heartix.Unistd

open Strings

section Words

variable {optstring : List UInt8} {longopts : List LongOption} {scan : Scan} {e : Encounter}

theorem Scan.encounters_of_some (h : scan.encounter = some e) :
    scan.encounters optstring longopts =
      e :: (e.after optstring longopts).encounters optstring longopts := by
  rw [encounters]
  split
  · rename_i hnone
    rw [h] at hnone
    cases hnone
  · rename_i e' he'
    rw [h] at he'
    rw [Option.some.inj he']

theorem Scan.encounters_of_none (h : scan.encounter = none) :
    scan.encounters optstring longopts = [] := by
  rw [encounters]
  split
  · rfl
  · rename_i e he
    rw [h] at he
    cases he

theorem Encounter.length_after_le (e : Encounter) (optstring : List UInt8)
    (longopts : List LongOption) : (e.after optstring longopts).words.length ≤ e.words.length := by
  cases e with
  | long w => exact w.length_after_le longopts
  | short m =>
    change (m.after (kindOf optstring m.char)).words.length ≤ m.words.length
    unfold Met.after
    split
    · exact le_refl _
    · exact le_refl _
    · exact le_refl _
    · dsimp only
      split
      · rw [List.length_tail]
        exact Nat.sub_le _ _
      · exact le_refl _

theorem Encounter.length_words_le (h : scan.encounter = some e) :
    e.words.length ≤ scan.words.length := by
  rcases Scan.encounter_cases h with ⟨m, rfl, hm⟩ | ⟨w, rfl, _, _, hwords⟩
  · rcases Scan.next_cases hm with ⟨_, hwords⟩ | ⟨_, hwords, _⟩
    · exact Nat.le_of_eq (congrArg List.length hwords).symm
    · rw [hwords]
      exact Nat.le_succ _
  · rw [hwords]
    exact Nat.le_succ _

/-- The long words of a scan are among its arguments. -/
theorem Scan.longWords_lt {w : LongWord} (hw : w ∈ scan.longWords optstring longopts) :
    w.words.length < scan.words.length := by
  induction hn : scan.size using Nat.strongRecOn generalizing scan with
  | ind n ih =>
    unfold longWords at hw
    cases hnext : scan.encounter with
    | none =>
      rw [encounters_of_none hnext] at hw
      cases hw
    | some e =>
      have hle := Encounter.length_words_le hnext
      have hafter := e.length_after_le optstring longopts
      rw [encounters_of_some hnext, List.mem_filterMap] at hw
      obtain ⟨e', hmem, he'⟩ := hw
      rcases List.mem_cons.mp hmem with rfl | hrest
      · rcases encounter_cases hnext with ⟨m, rfl, _⟩ | ⟨w', rfl, _, _, hwords⟩
        · cases he'
        · obtain rfl : w' = w := Option.some.inj he'
          rw [hwords]
          exact Nat.lt_succ_self _
      · have hlt := ih _ (hn ▸ size_encounter hnext optstring longopts)
          (List.mem_filterMap.mpr ⟨e', hrest, he'⟩) rfl
        omega

end Words

section Calls

variable {argv : List (List UInt8)} {optstring : List UInt8} {longopts : List LongOption}
  {s : GetoptLong} {scan : Scan} {e : Encounter}

/-- What a call for an encounter tells. -/
def Encounter.Told (argv : List (List UInt8)) (optstring : List UInt8)
    (longopts : List LongOption) (call : Call GetoptLong) : Encounter → Prop
  | .short m =>
      getopt (terminated argv) (optstring ++ [0]) call.before.getopt =
          some (call.result, call.after.getopt) ∧
        Shows argv optstring call.result call.after.getopt (m.event (kindOf optstring m.char))
  | .long w => w.Told argv optstring longopts call

/-- An option that takes no argument gets none, or the value it returns is the one
that reports an error. -/
def Encounter.Accepted (longopts : List LongOption) : Encounter → Prop
  | .short _ => True
  | .long w => ∀ opt i, w.event longopts = .refused opt i → opt.returned = charValue questionMark

/-- An option that is returned as the end of the options. -/
def Encounter.EndsEarly (optstring : List UInt8) (longopts : List LongOption) :
    Encounter → Prop
  | .short m =>
      charValue m.char = -1 ∧
        ∃ argument, m.event (kindOf optstring m.char) = .option m.char argument
  | .long w => ∃ opt i argument, w.event longopts = .selected opt i argument ∧ opt.returned = -1

theorem LongAt.call (h : LongAt argv s.getopt scan) (hargv : ∀ word ∈ argv, 0 ∉ word)
    (hopt : 0 ∉ optstring) (hnames : ∀ opt ∈ longopts, 0 ∉ opt.name)
    (hnext : scan.encounter = some e) :
    ∃ r t, getoptLong (terminated argv) (optstring ++ [0])
        (longopts.map LongOption.terminated) s = some (r, t) ∧
      LongAt argv t.getopt (e.after optstring longopts) ∧
      e.Told argv optstring longopts ⟨s, r, t⟩ := by
  rcases Scan.encounter_cases hnext with ⟨m, rfl, _⟩ | ⟨w, rfl, hcluster, hne, hwords⟩
  · exact h.call_short hargv hopt hnext
  · exact (h.onWord hcluster hwords).call hargv hnames hne

theorem LongAt.position (h : LongAt argv s.getopt scan) (hnext : scan.encounter = some e) :
    s.getopt.optind + (e.words.length + 1) = argv.length := by
  rcases Scan.encounter_cases hnext with ⟨m, rfl, hm⟩ | ⟨w, rfl, hcluster, _, hwords⟩
  · exact h.stands.position hm
  · rcases h.stands with ⟨_, _, hle, hdrop⟩ | ⟨hsome, _⟩
    · have hlength := congrArg List.length (hwords.symm.trans hdrop)
      rw [List.length_cons, List.length_drop] at hlength
      change s.getopt.optind + (w.words.length + 1) = argv.length
      omega
    · exact absurd hcluster hsome

theorem charValue_error_ne (c : UInt8) (hc : c = colon ∨ c = questionMark) :
    charValue c ≠ -1 := by
  rcases hc with rfl | rfl
  · rw [charValue_colon]
    decide
  · rw [charValue_questionMark]
    decide

/-- Only an option is returned as the end of the options. -/
theorem Encounter.Told.eq_neg_one_iff {call : Call GetoptLong}
    (h : e.Told argv optstring longopts call) (haccepted : e.Accepted longopts) :
    call.result = -1 ↔ e.EndsEarly optstring longopts := by
  cases e with
  | short m =>
    rw [h.2.eq_neg_one_iff]
    constructor
    · rintro ⟨c, argument, hevent, hc⟩
      obtain rfl := Met.event_option_char hevent
      exact ⟨hc, argument, hevent⟩
    · rintro ⟨hc, argument, hevent⟩
      exact ⟨_, argument, hevent, hc⟩
  | long w =>
    have hnot {r : ℤ} (event : LongEvent) (hr : r ≠ -1) (hcall : call.result = r)
        (hevent : ∀ opt i argument, event ≠ .selected opt i argument) :
        call.result = -1 ↔
          ∃ opt i argument, event = .selected opt i argument ∧ opt.returned = -1 := by
      refine iff_of_false (hcall ▸ hr) ?_
      rintro ⟨opt, i, argument, hselected, _⟩
      exact hevent opt i argument hselected
    unfold Encounter.Told LongWord.Told at h
    unfold Encounter.Accepted at haccepted
    unfold Encounter.EndsEarly
    dsimp only at h haccepted ⊢
    generalize w.event longopts = event at h haccepted ⊢
    cases event with
    | selected opt i argument =>
      rw [h.1]
      constructor
      · intro hr
        exact ⟨opt, i, argument, rfl, hr⟩
      · rintro ⟨_, _, _, heq, hr⟩
        cases heq
        exact hr
    | unknown => exact hnot .unknown (charValue_error_ne _ (Or.inr rfl)) h fun _ _ _ => nofun
    | missing opt i =>
      refine hnot (.missing opt i) (charValue_error_ne _ ?_) h fun _ _ _ => nofun
      split
      · exact Or.inl rfl
      · exact Or.inr rfl
    | refused opt i =>
      have hreturned := haccepted opt i rfl
      exact hnot (.refused opt i) (charValue_error_ne _ (Or.inr rfl)) (h.trans hreturned)
        fun _ _ _ => nofun

/-- What is told of a long word is right where it is accepted. -/
theorem LongWord.Told.shownBy_iff {w : LongWord} {call : Call GetoptLong}
    (h : w.Told argv optstring longopts call) :
    (w.event longopts).ShownBy argv optstring call ↔ (Encounter.long w).Accepted longopts := by
  unfold Told at h
  unfold Encounter.Accepted
  dsimp only
  generalize w.event longopts = event at h ⊢
  cases event with
  | selected opt i argument => exact iff_of_true h fun _ _ => nofun
  | unknown => exact iff_of_true h fun _ _ => nofun
  | missing opt i => exact iff_of_true h fun _ _ => nofun
  | refused opt i =>
    have hcall : call.result = opt.returned := h
    constructor
    · intro hshown opt' i' heq
      cases heq
      exact hcall.symm.trans hshown
    · intro haccepted
      exact hcall.trans (haccepted opt i rfl)

end Calls

section Runs

variable {argv : List (List UInt8)} {optstring : List UInt8} {longopts : List LongOption}
  {s : GetoptLong} {scan : Scan} {e : Encounter} {calls : List (Call GetoptLong)}
  {call : Call GetoptLong} {w : LongWord}

/-- A single call is made at the word. It takes the word whole, and tells its event. -/
def Consumed (argv : List (List UInt8)) (optstring : List UInt8) (longopts : List LongOption)
    (calls : List (Call GetoptLong)) (w : LongWord) : Prop :=
  ∃ call, (calls.filter fun call => call.before.getopt.optind = w.position argv.length) = [call] ∧
    argv.drop call.after.getopt.optind = w.after longopts ∧
    (w.event longopts).ShownBy argv optstring call

/-- The calls end with one that returns -1 and leave `optind` in the argument vector,
every long word of the scan is consumed, and where there is none the calls are those of
`getopt`. -/
def Extends (argv : List (List UInt8)) (optstring : List UInt8) (longopts : List LongOption)
    (s : GetoptLong) (scan : Scan) : Prop :=
  s.getopt.optind ≤ argv.length ∧ ∃ n calls,
    callsUntilEnd (getoptLong (terminated argv) (optstring ++ [0])
      (longopts.map LongOption.terminated)) n s = some calls ∧
    (∀ call ∈ calls, call.after.getopt.optind ≤ argv.length) ∧
    (∀ w ∈ scan.longWords optstring longopts, Consumed argv optstring longopts calls w) ∧
    (scan.longWords optstring longopts = [] →
      callsUntilEnd (getopt (terminated argv) (optstring ++ [0])) n s.getopt =
        some (calls.map (Call.map GetoptLong.getopt)))

/-- Every long word is accepted, and no option that is returned as the end of the
options is in front of a long word. -/
def Acceptable (optstring : List UInt8) (longopts : List LongOption) : List Encounter → Prop
  | [] => True
  | e :: later =>
      e.Accepted longopts ∧
        (e.EndsEarly optstring longopts → later.filterMap Encounter.longWord = []) ∧
        Acceptable optstring longopts later

theorem acceptable_of_short {later : List Encounter}
    (h : later.filterMap Encounter.longWord = []) : Acceptable optstring longopts later := by
  induction later with
  | nil => trivial
  | cons e later ih =>
    cases e with
    | long w => cases h
    | short m => exact ⟨trivial, fun _ => h, ih h⟩

theorem not_consumed_nil : ¬ Consumed argv optstring longopts [] w := by
  rintro ⟨_, hfilter, _⟩
  cases hfilter

/-- A call at another place says nothing of the word. -/
theorem consumed_cons_iff (hne : call.before.getopt.optind ≠ w.position argv.length) :
    Consumed argv optstring longopts (call :: calls) w ↔
      Consumed argv optstring longopts calls w := by
  unfold Consumed
  rw [List.filter_cons_of_neg (by simpa using hne)]

/-- The call at the word, where all others are made behind it. -/
theorem consumed_head_iff (heq : call.before.getopt.optind = w.position argv.length)
    (hbehind : ∀ c ∈ calls, call.before.getopt.optind < c.before.getopt.optind) :
    Consumed argv optstring longopts (call :: calls) w ↔
      argv.drop call.after.getopt.optind = w.after longopts ∧
        (w.event longopts).ShownBy argv optstring call := by
  have hrest : (calls.filter fun c => c.before.getopt.optind = w.position argv.length) = [] := by
    apply List.filter_eq_nil_iff.mpr
    intro c hc
    have hlt := hbehind c hc
    simpa using by omega
  unfold Consumed
  rw [List.filter_cons_of_pos (by simpa using heq), hrest]
  constructor
  · rintro ⟨c, hc, hword⟩
    obtain rfl := List.singleton_inj.mp hc
    exact hword
  · intro hword
    exact ⟨call, rfl, hword⟩

/-- What the first call of a run means for the long words. -/
theorem LongAt.consumed_iff (h : LongAt argv s.getopt scan) (hnext : scan.encounter = some e)
    {r : ℤ} {t : GetoptLong} (hat : LongAt argv t.getopt (e.after optstring longopts))
    (htold : e.Told argv optstring longopts ⟨s, r, t⟩)
    (hbehind : ∀ c ∈ calls, t.getopt.optind ≤ c.before.getopt.optind) :
    (∀ w ∈ scan.longWords optstring longopts,
        Consumed argv optstring longopts (⟨s, r, t⟩ :: calls) w) ↔
      e.Accepted longopts ∧ ∀ w ∈ (e.after optstring longopts).longWords optstring longopts,
        Consumed argv optstring longopts calls w := by
  have hplace := h.position hnext
  have hle := e.length_after_le optstring longopts
  have hlater : ∀ w ∈ (e.after optstring longopts).longWords optstring longopts,
      (Consumed argv optstring longopts (⟨s, r, t⟩ :: calls) w ↔
        Consumed argv optstring longopts calls w) := by
    intro w hw
    apply consumed_cons_iff
    have hlt := Scan.longWords_lt hw
    change s.getopt.optind ≠ argv.length - (w.words.length + 1)
    omega
  have hwords : scan.longWords optstring longopts = e.longWord.toList ++
      (e.after optstring longopts).longWords optstring longopts := by
    unfold Scan.longWords
    rw [Scan.encounters_of_some hnext]
    cases e <;> rfl
  rw [hwords, List.forall_mem_append, forall₂_congr hlater]
  apply and_congr_left'
  cases e with
  | short m => exact iff_of_true (fun w hw => nomatch hw) trivial
  | long w =>
    have hdrop : argv.drop t.getopt.optind = w.after longopts := by
      rcases hat.stands with ⟨_, _, _, hdrop⟩ | ⟨hcluster, _⟩
      · exact hdrop.symm
      · exact absurd rfl hcluster
    have hbefore : s.getopt.optind = w.position argv.length := by
      change s.getopt.optind + (w.words.length + 1) = argv.length at hplace
      unfold LongWord.position
      omega
    have hmoved : s.getopt.optind < t.getopt.optind := by
      have hlength := congrArg List.length hdrop
      change (w.after longopts).length ≤ w.words.length at hle
      change s.getopt.optind + (w.words.length + 1) = argv.length at hplace
      rw [List.length_drop] at hlength
      omega
    change (∀ w' ∈ [w], _) ↔ _
    rw [List.forall_mem_singleton, consumed_head_iff hbefore, and_iff_right hdrop,
      LongWord.Told.shownBy_iff htold]
    intro c hc
    exact Nat.lt_of_lt_of_le hmoved (hbehind c hc)

/-- A run of one call, which returns -1, consumes the long words of the scan if they are
acceptable: none may come later. -/
theorem LongAt.consumed_last_iff (h : LongAt argv s.getopt scan)
    (hnext : scan.encounter = some e) {t : GetoptLong}
    (hat : LongAt argv t.getopt (e.after optstring longopts))
    (htold : e.Told argv optstring longopts ⟨s, -1, t⟩) :
    (∀ w ∈ scan.longWords optstring longopts,
        Consumed argv optstring longopts [⟨s, -1, t⟩] w) ↔
      Acceptable optstring longopts (scan.encounters optstring longopts) := by
  rw [Scan.encounters_of_some hnext,
    h.consumed_iff hnext hat htold (fun c (hc : c ∈ []) => nomatch hc)]
  constructor
  · rintro ⟨haccepted, hall⟩
    have hnone : (e.after optstring longopts).longWords optstring longopts = [] := by
      apply List.eq_nil_iff_forall_not_mem.mpr
      intro w hw
      exact not_consumed_nil (hall w hw)
    exact ⟨haccepted, fun _ => hnone, acceptable_of_short hnone⟩
  · rintro ⟨haccepted, hearly, _⟩
    have hnone : (e.after optstring longopts).longWords optstring longopts = [] :=
      hearly ((htold.eq_neg_one_iff haccepted).mp rfl)
    rw [hnone]
    exact ⟨haccepted, fun w hw => nomatch hw⟩

/-- A call that returns something else goes before a run that consumes the later words. -/
theorem LongAt.consumed_more_iff (h : LongAt argv s.getopt scan)
    (hnext : scan.encounter = some e) {r : ℤ} {t : GetoptLong}
    (hat : LongAt argv t.getopt (e.after optstring longopts))
    (htold : e.Told argv optstring longopts ⟨s, r, t⟩) (hr : r ≠ -1)
    (hbehind : ∀ c ∈ calls, t.getopt.optind ≤ c.before.getopt.optind)
    (hcalls : (∀ w ∈ (e.after optstring longopts).longWords optstring longopts,
        Consumed argv optstring longopts calls w) ↔
      Acceptable optstring longopts ((e.after optstring longopts).encounters optstring longopts)) :
    (∀ w ∈ scan.longWords optstring longopts,
        Consumed argv optstring longopts (⟨s, r, t⟩ :: calls) w) ↔
      Acceptable optstring longopts (scan.encounters optstring longopts) := by
  rw [Scan.encounters_of_some hnext, h.consumed_iff hnext hat htold hbehind, hcalls]
  constructor
  · rintro ⟨haccepted, hlater⟩
    have hearly : ¬ e.EndsEarly optstring longopts :=
      mt (htold.eq_neg_one_iff haccepted).mpr hr
    exact ⟨haccepted, fun hends => absurd hends hearly, hlater⟩
  · rintro ⟨haccepted, _, hlater⟩
    exact ⟨haccepted, hlater⟩

/-- A call goes forward. -/
theorem LongAt.optind_le (h : LongAt argv s.getopt scan) (hnext : scan.encounter = some e)
    {t : Getopt} (hat : LongAt argv t (e.after optstring longopts)) :
    s.getopt.optind ≤ t.optind := by
  have hplace := h.position hnext
  have hle := e.length_after_le optstring longopts
  rcases hat.stands with ⟨_, _, _, hdrop⟩ | ⟨_, _, hdrop, _⟩
  · have hlength := congrArg List.length hdrop
    rw [List.length_drop] at hlength
    omega
  · have hlength := congrArg List.length hdrop
    rw [List.length_drop] at hlength
    omega

/-- From every place of the scan on, the calls end, and they consume the long words
exactly where these are acceptable. -/
theorem LongAt.run (h : LongAt argv s.getopt scan) (hargv : ∀ word ∈ argv, 0 ∉ word)
    (hopt : 0 ∉ optstring) (hnames : ∀ opt ∈ longopts, 0 ∉ opt.name) :
    ∃ n calls, callsUntilEnd (getoptLong (terminated argv) (optstring ++ [0])
        (longopts.map LongOption.terminated)) n s = some calls ∧
      (∀ call ∈ calls, s.getopt.optind ≤ call.before.getopt.optind ∧
        call.after.getopt.optind ≤ argv.length) ∧
      ((∀ w ∈ scan.longWords optstring longopts, Consumed argv optstring longopts calls w) ↔
        Acceptable optstring longopts (scan.encounters optstring longopts)) ∧
      (scan.longWords optstring longopts = [] →
        callsUntilEnd (getopt (terminated argv) (optstring ++ [0])) n s.getopt =
          some (calls.map (Call.map GetoptLong.getopt))) := by
  induction hn : scan.size using Nat.strongRecOn generalizing s scan with
  | ind n ih =>
    cases hnext : scan.encounter with
    | none =>
      obtain ⟨t, hcall, hgetopt, hle⟩ :=
        h.call_end hargv hnext optstring (longopts.map LongOption.terminated)
      have hnone : scan.longWords optstring longopts = [] := by
        unfold Scan.longWords
        rw [Scan.encounters_of_none hnext]
        rfl
      refine ⟨1, [⟨s, -1, t⟩], ?_, ?_, ?_, ?_⟩
      · simp only [callsUntilEnd, hcall, if_true]
      · intro call hmem
        obtain rfl := List.mem_singleton.mp hmem
        exact ⟨le_refl _, hle⟩
      · rw [hnone, Scan.encounters_of_none hnext]
        exact iff_of_true (fun w hw => nomatch hw) trivial
      · intro _
        simp only [callsUntilEnd, hgetopt, if_true]
        rfl
    | some e =>
      obtain ⟨r, t, hcall, hat, htold⟩ := h.call hargv hopt hnames hnext
      have hforward := h.optind_le hnext hat
      have hshort (hnone : scan.longWords optstring longopts = []) :
          getopt (terminated argv) (optstring ++ [0]) s.getopt = some (r, t.getopt) ∧
            (e.after optstring longopts).longWords optstring longopts = [] := by
        unfold Scan.longWords at hnone
        rw [Scan.encounters_of_some hnext] at hnone
        cases e with
        | short m => exact ⟨htold.1, hnone⟩
        | long w => cases hnone
      by_cases hr : r = -1
      · subst hr
        refine ⟨1, [⟨s, -1, t⟩], ?_, ?_, h.consumed_last_iff hnext hat htold, ?_⟩
        · simp only [callsUntilEnd, hcall, if_true]
        · intro call hmem
          obtain rfl := List.mem_singleton.mp hmem
          exact ⟨le_refl _, hat.stands.optind_le⟩
        · intro hnone
          simp only [callsUntilEnd, (hshort hnone).1, if_true]
          rfl
      · obtain ⟨k, calls, hrun, hbounds, hiff, hsame⟩ :=
          ih _ (hn ▸ Scan.size_encounter hnext optstring longopts) hat rfl
        refine ⟨k + 1, ⟨s, r, t⟩ :: calls, ?_, ?_,
          h.consumed_more_iff hnext hat htold hr (fun c hc => (hbounds c hc).1) hiff, ?_⟩
        · simp only [callsUntilEnd, hcall, if_neg hr, hrun, Option.map_some]
        · intro call hmem
          rcases List.mem_cons.mp hmem with rfl | hrest
          · exact ⟨le_refl _, hat.stands.optind_le⟩
          · exact ⟨hforward.trans (hbounds call hrest).1, (hbounds call hrest).2⟩
        · intro hnone
          have hrest := hsame (hshort hnone).2
          simp only [callsUntilEnd, (hshort hnone).1, if_neg hr, hrest, Option.map_some]
          rfl

/-- Two runs from one state are the same calls. -/
theorem callsUntilEnd_unique {σ : Type*} {step : σ → Option (ℤ × σ)} {m n : ℕ} {s : σ}
    {xs ys : List (Call σ)} (hx : callsUntilEnd step m s = some xs)
    (hy : callsUntilEnd step n s = some ys) : xs = ys := by
  induction m generalizing n s xs ys with
  | zero => cases hx
  | succ m ih =>
    cases n with
    | zero => cases hy
    | succ n =>
      unfold callsUntilEnd at hx hy
      rcases hstep : step s with _ | ⟨r, t⟩
      · rw [hstep] at hx
        cases hx
      · rw [hstep] at hx hy
        dsimp only at hx hy
        by_cases hr : r = -1
        · rw [if_pos hr] at hx hy
          exact Option.some.inj (hx.symm.trans hy)
        · rw [if_neg hr] at hx hy
          obtain ⟨xs', hxs, rfl⟩ := Option.map_eq_some_iff.mp hx
          obtain ⟨ys', hys, rfl⟩ := Option.map_eq_some_iff.mp hy
          rw [ih hxs hys]

/-- `getopt_long` extends `getopt` where there is a program name, no long word gives a
value to an option that takes none, and no option in front of a long word is returned
as the end of the options. -/
theorem getopt_long_extends_iff (hargv : ∀ word ∈ argv, 0 ∉ word) (hopt : 0 ∉ optstring)
    (hnames : ∀ opt ∈ longopts, 0 ∉ opt.name) (longindex : Option ℤ) (flags : ℕ → ℤ) :
    Extends argv optstring longopts (GetoptLong.initial longindex flags) ⟨[], argv.tail⟩ ↔
      argv ≠ [] ∧ Acceptable optstring longopts
        ((⟨[], argv.tail⟩ : Scan).encounters optstring longopts) := by
  rcases argv with _ | ⟨program, arguments⟩
  · refine iff_of_false ?_ fun h => h.1 rfl
    rintro ⟨hle, _⟩
    exact absurd hle (Nat.not_succ_le_zero 0)
  · have hat : LongAt (program :: arguments) (GetoptLong.initial longindex flags).getopt
        ⟨[], arguments⟩ :=
      ⟨Or.inl ⟨rfl, rfl, Nat.le_add_left 1 _, rfl⟩, fun hnil => absurd rfl hnil⟩
    obtain ⟨n, calls, hrun, hbounds, hiff, hsame⟩ := hat.run hargv hopt hnames
    rw [and_iff_right (List.cons_ne_nil program arguments), List.tail_cons, ← hiff]
    constructor
    · rintro ⟨_, m, calls', hrun', _, hwords, _⟩
      rw [callsUntilEnd_unique hrun hrun']
      exact hwords
    · intro hwords
      exact ⟨hat.stands.optind_le, n, calls, hrun, fun call hmem => (hbounds call hmem).2,
        hwords, hsame⟩

theorem getopt_long_extends_iff_value :
    Extends [[112], [45, 45, 102, 61, 120]] [] [⟨[102], required_argument, none, 102⟩]
        (GetoptLong.initial (some 0) fun _ => 0) ⟨[], [[45, 45, 102, 61, 120]]⟩ ↔
      ([[112], [45, 45, 102, 61, 120]] : List (List UInt8)) ≠ [] ∧
        Acceptable [] [⟨[102], required_argument, none, 102⟩]
          ((⟨[], [[45, 45, 102, 61, 120]]⟩ : Scan).encounters []
            [⟨[102], required_argument, none, 102⟩]) :=
  getopt_long_extends_iff (by decide) (by decide) (by decide) (some 0) fun _ => 0

/-- The argument `--v=1` with an option `v` that takes no argument. -/
theorem getopt_long_accepts_value :
    ¬ Extends [[112], [45, 45, 118, 61, 49]] [] [⟨[118], no_argument, none, 118⟩]
      (GetoptLong.initial (some 0) fun _ => 0) ⟨[], [[45, 45, 118, 61, 49]]⟩ := by
  rintro ⟨_, m, calls, hrun, _, hwords, _⟩
  have hat : LongAt [[112], [45, 45, 118, 61, 49]]
      (GetoptLong.initial (some 0) fun _ => 0).getopt ⟨[], [[45, 45, 118, 61, 49]]⟩ :=
    ⟨Or.inl ⟨rfl, rfl, by decide, rfl⟩, fun hnil => absurd rfl hnil⟩
  have hopt : (0 : UInt8) ∉ ([] : List UInt8) := by decide
  have hnames : ∀ opt ∈ [(⟨[118], no_argument, none, 118⟩ : LongOption)], 0 ∉ opt.name := by
    decide
  obtain ⟨n, calls', hrun', _, hiff, _⟩ := hat.run (by decide) hopt hnames
  rw [callsUntilEnd_unique hrun hrun'] at hwords
  have hnext : (⟨[], [[45, 45, 118, 61, 49]]⟩ : Scan).encounter =
      some (.long ⟨[118, 61, 49], []⟩) := by decide
  have hacceptable := hiff.mp hwords
  rw [Scan.encounters_of_some hnext] at hacceptable
  have hreturned := hacceptable.1 ⟨[118], no_argument, none, 118⟩ 0 (by decide)
  exact absurd hreturned (by decide)

end Runs

end Heartix.Unistd
