import Heartix.Terminal.Framebuffer
import Heartix.Terminal.Headless
import Heartix.Terminal.Window

/-!
The colors of a program's two outputs. A coloring of a screen says what each of its
operations does to the colors it draws with. A character on the standard error is
drawn in red, and the color that the screen remembers is restored. The framebuffer
screen remembers the color it was constructed with, whatever was set since.
-/

namespace Heartix.Terminal

open Runs

variable {σ γ : Type*}

/-- An operation on a screen that may be lost leaves its colors. -/
def Neutral (colors : σ → γ × γ) (Kept : σ → Prop) (f : Option σ → Option σ) : Prop :=
  ∀ o t, f o = some t → ∃ s, o = some s ∧ colors t = colors s ∧ (Kept s → Kept t)

/-- The colors a screen draws with, of the characters and behind them. The getter
gives the remembered color, as long as what is kept holds. -/
structure Coloring (S : Screen (Option σ)) (γ : Type*) where
  color : ℤ → γ
  colors : σ → γ × γ
  withForeground : γ → σ → σ
  withBackground : γ → σ → σ
  remembered : γ → γ
  Kept : σ → Prop
  colors_withForeground : ∀ g s, colors (withForeground g s) = (g, (colors s).2)
  colors_withBackground : ∀ g s, colors (withBackground g s) = ((colors s).1, g)
  kept_withForeground : ∀ g s, Kept s → Kept (withForeground g s)
  kept_withBackground : ∀ g s, Kept s → Kept (withBackground g s)
  setColorForeground : ∀ n o, S.setColorForeground n o = o.map (withForeground (color n))
  setColorBackground : ∀ n o, S.setColorBackground n o = o.map (withBackground (color n))
  getColorForeground : ∀ s, Kept s →
    color (S.getColorForeground (some s)) = remembered (colors s).1
  write : ∀ c, Neutral colors Kept (S.write c)
  remove : Neutral colors Kept S.remove
  clean : Neutral colors Kept S.clean
  flush : Neutral colors Kept S.flush
  setCursor : ∀ x y, Neutral colors Kept (S.setCursor x y)
  setCursorVisible : ∀ visible, Neutral colors Kept (S.setCursorVisible visible)
  setScrollAreaScreen : Neutral colors Kept S.setScrollAreaScreen
  setScrollArea : ∀ start stop, Neutral colors Kept (S.setScrollArea start stop)
  scroll : ∀ n, Neutral colors Kept (S.scroll n)

/-- A byte outside the sequences that is drawn as a character. -/
def StreamControlStatus.Plain (status : StreamControlStatus) (c : UInt8) : Prop :=
  status.status = .text ∧ c ≠ '\r'.toUInt8 ∧ c ≠ '\t'.toUInt8 ∧ c ≠ G_TERMKEY_ESC

instance (status : StreamControlStatus) (c : UInt8) : Decidable (status.Plain c) :=
  inferInstanceAs (Decidable (_ ∧ _ ∧ _ ∧ _))

/-- What a parameter of a color sequence makes of the two colors that are set. -/
def colorsAfterMode (param : ℤ) (set : ℤ × ℤ) : ℤ × ℤ :=
  if param = 0 then (SC_WHITE, SC_BLACK)
  else if 30 ≤ param ∧ param < 40 then (terminalColorFromVt100 (param - 30), set.2)
  else if 40 ≤ param ∧ param < 50 then (set.1, terminalColorFromVt100 (param - 40))
  else set

/-- What a byte makes of the two colors that are set. -/
def colorsAfter (status : StreamControlStatus) (c : UInt8) (set : ℤ × ℤ) : ℤ × ℤ :=
  if status.status = .withinVt100 ∧ Char.ofUInt8 c = 'm' then
    (status.parameters.toList.take status.parameterCount.toNat).foldl
      (fun set param => colorsAfterMode param set) set
  else set

/-- The decoders of the two outputs, that of the standard error at `true`, the server,
and the colors that the sequences so far have set. -/
structure Outputs (σ : Type*) where
  decoder : Bool → StreamControlStatus
  server : Server (Option σ)
  set : ℤ × ℤ

namespace Outputs

/-- The server with a screen, before the first byte. -/
def start (parameters : Bool → Vector ℤ TERMINAL_STREAM_CONTROL_MAX_PARAMETERS)
    (controlCharacter : Bool → UInt8) (screen : σ) : Outputs σ where
  decoder isStderr := .construct (parameters isStderr) (controlCharacter isStderr)
  server :=
    { screen := some screen
      inputMode := G_TERMINAL_MODE_DEFAULT
      inputEcho := true
      controlProcess := G_PID_NONE
      shellStdin := [] }
  set := (SC_WHITE, SC_BLACK)

/-- A byte of one of the outputs, undefined where the screen is lost. -/
def step (S : Screen (Option σ)) : Outputs σ → Bool × UInt8 → Option (Unit × Outputs σ)
  | o, (isStderr, c) =>
      (ghshProcessOutput S isStderr (o.decoder isStderr, o.server) c).bind fun (status, t) =>
        if t.screen.isSome then
          some ((),
            { decoder := Function.update o.decoder isStderr status
              server := t
              set := colorsAfter (o.decoder isStderr) c o.set })
        else none

theorem step_eq_some {S : Screen (Option σ)} {o o' : Outputs σ} {b : Bool × UInt8} {a : Unit}
    (h : step S o b = some (a, o')) :
    ∃ status, ghshProcessOutput S b.1 (o.decoder b.1, o.server) b.2 = some (status, o'.server) ∧
      o'.server.screen.isSome ∧ o'.set = colorsAfter (o.decoder b.1) b.2 o.set := by
  obtain ⟨isStderr, c⟩ := b
  obtain ⟨⟨status, t⟩, hprocess, hsome⟩ := Option.bind_eq_some_iff.mp h
  dsimp only at hsome
  split at hsome
  · rename_i hscreen
    obtain ⟨_, rfl⟩ := Prod.mk.inj (Option.some.inj hsome)
    exact ⟨status, hprocess, hscreen, rfl⟩
  · cases hsome

end Outputs

/-- A color of the palette. -/
def IsColor (n : ℤ) : Prop := 0 ≤ n ∧ n < 16

theorem isColor_fromVt100 (n : ℤ) : IsColor (terminalColorFromVt100 n) := by
  unfold terminalColorFromVt100 IsColor
  split <;> decide

theorem isColor_colorsAfterMode {set : ℤ × ℤ} (h : IsColor set.1) (param : ℤ) :
    IsColor (colorsAfterMode param set).1 := by
  unfold colorsAfterMode
  split
  · exact ⟨by decide, by decide⟩
  · split
    · exact isColor_fromVt100 _
    · split <;> exact h

theorem isColor_colorsAfter {set : ℤ × ℤ} (h : IsColor set.1) (status : StreamControlStatus)
    (c : UInt8) : IsColor (colorsAfter status c set).1 := by
  unfold colorsAfter
  split
  · generalize status.parameters.toList.take status.parameterCount.toNat = parameters
    induction parameters generalizing set with
    | nil => exact h
    | cons param parameters ih => exact ih (isColor_colorsAfterMode h param)
  · exact h

theorem colorsAfter_of_status {status : StreamControlStatus} (h : status.status ≠ .withinVt100)
    (c : UInt8) (set : ℤ × ℤ) : colorsAfter status c set = set :=
  if_neg fun hm => h hm.1

theorem colorsAfter_of_ne {c : UInt8} (h : Char.ofUInt8 c ≠ 'm') (status : StreamControlStatus)
    (set : ℤ × ℤ) : colorsAfter status c set = set :=
  if_neg fun hm => h hm.2

theorem ne_finish_of_within {c : UInt8} (h : isDigit c ∨ c = ';'.toUInt8) :
    Char.ofUInt8 c ≠ 'm' := by
  intro hm
  have hval : c.toNat = 109 := by
    have htoNat : (Char.ofUInt8 c).toNat = c.toNat := UInt8.toNat_toUInt32 c
    rw [← htoNat, hm]
    rfl
  rcases h with hdigit | hsep
  · have hle : c ≤ '9'.toUInt8 := (of_decide_eq_true hdigit).2
    rw [UInt8.le_iff_toNat_le, hval] at hle
    exact absurd hle (by decide)
  · rw [hsep] at hval
    exact absurd hval (by decide)

section Neutral

variable {colors : σ → γ × γ} {Kept : σ → Prop} {f g : Option σ → Option σ}

theorem Neutral.comp (hg : Neutral colors Kept g) (hf : Neutral colors Kept f) :
    Neutral colors Kept fun o => g (f o) := by
  intro o u hu
  obtain ⟨t, ht, hcolors, hkept⟩ := hg (f o) u hu
  obtain ⟨s, hs, hcolors', hkept'⟩ := hf o t ht
  exact ⟨s, hs, hcolors.trans hcolors', fun h => hkept (hkept' h)⟩

theorem neutral_id : Neutral colors Kept fun o => o :=
  fun _ t ht => ⟨t, ht, rfl, id⟩

theorem neutral_bind {f : σ → Option σ}
    (hf : ∀ s t, f s = some t → colors t = colors s ∧ (Kept s → Kept t)) :
    Neutral colors Kept fun o => o.bind f := by
  intro o t ht
  obtain ⟨s, hs, hst⟩ := Option.bind_eq_some_iff.mp ht
  exact ⟨s, hs, hf s t hst⟩

theorem neutral_map {f : σ → σ} (hf : ∀ s, colors (f s) = colors s ∧ (Kept s → Kept (f s))) :
    Neutral colors Kept fun o => o.map f := by
  intro o t ht
  obtain ⟨s, hs, rfl⟩ := Option.map_eq_some_iff.mp ht
  exact ⟨s, hs, hf s⟩

end Neutral

namespace Coloring

variable {S : Screen (Option σ)} (K : Coloring S γ)

/-- The screen draws with the colors that are set. -/
def Shows (set : ℤ × ℤ) (o : Option σ) : Prop :=
  ∃ s, o = some s ∧ K.colors s = (K.color set.1, K.color set.2)

/-- The character is written in red, and the foreground color before it is restored. -/
def DrawnInRed (c : UInt8) (before after : Option σ) : Prop :=
  ∃ s t, before = some s ∧ S.write c (some (K.withForeground (K.color SC_RED) s)) = some t ∧
    after = some (K.withForeground (K.colors s).1 t)

/-- A step draws a character of the standard error in red, and the screen draws with
the colors that are set after it. -/
def Steady (o : Outputs σ) (b : Bool × UInt8) (o' : Outputs σ) : Prop :=
  (b.1 = true → (o.decoder true).Plain b.2 →
    K.DrawnInRed b.2 o.server.screen o'.server.screen) ∧ K.Shows o'.set o'.server.screen

/-- What the steps keep: the colors, and what the getter relies on. -/
def Tracks (set : ℤ × ℤ) (o : Option σ) : Prop :=
  ∃ s, o = some s ∧ K.colors s = (K.color set.1, K.color set.2) ∧ K.Kept s

variable {K} {set : ℤ × ℤ} {o o' : Option σ} {f : Option σ → Option σ}

theorem Tracks.shows (h : K.Tracks set o) : K.Shows set o := by
  obtain ⟨s, hs, hcolors, _⟩ := h
  exact ⟨s, hs, hcolors⟩

theorem Tracks.neutral (h : K.Tracks set o) (hf : Neutral K.colors K.Kept f)
    (hsome : (f o).isSome) : K.Tracks set (f o) := by
  obtain ⟨t, ht⟩ := Option.isSome_iff_exists.mp hsome
  obtain ⟨s, hs, hcolors, hkept⟩ := hf o t ht
  obtain ⟨s', hs', hcolors', hkept'⟩ := h
  obtain rfl := Option.some.inj (hs.symm.trans hs')
  exact ⟨t, ht, hcolors.trans hcolors', hkept hkept'⟩

theorem Tracks.setColorForeground (h : K.Tracks set o) (n : ℤ) :
    K.Tracks (n, set.2) (S.setColorForeground n o) := by
  obtain ⟨s, rfl, hcolors, hkept⟩ := h
  refine ⟨K.withForeground (K.color n) s, K.setColorForeground n (some s), ?_,
    K.kept_withForeground _ s hkept⟩
  rw [K.colors_withForeground, hcolors]

theorem Tracks.setColorBackground (h : K.Tracks set o) (n : ℤ) :
    K.Tracks (set.1, n) (S.setColorBackground n o) := by
  obtain ⟨s, rfl, hcolors, hkept⟩ := h
  refine ⟨K.withBackground (K.color n) s, K.setColorBackground n (some s), ?_,
    K.kept_withBackground _ s hkept⟩
  rw [K.colors_withBackground, hcolors]

theorem Tracks.setMode (h : K.Tracks set o) (param : ℤ) :
    K.Tracks (colorsAfterMode param set) (S.setMode param o) := by
  unfold colorsAfterMode Screen.setMode
  split
  · exact (h.setColorBackground SC_BLACK).setColorForeground SC_WHITE
  · split
    · exact h.setColorForeground _
    · split
      · exact h.setColorBackground _
      · exact h

theorem Tracks.setModes {status : StreamControlStatus} {i n : ℕ} (h : K.Tracks set o)
    (hmodes : S.setModes status i n o = some o') :
    K.Tracks (((status.parameters.toList.drop i).take n).foldl
      (fun set param => colorsAfterMode param set) set) o' := by
  induction n generalizing i o set with
  | zero =>
    obtain rfl := Option.some.inj hmodes
    rw [List.take_zero]
    exact h
  | succ n ih =>
    unfold Screen.setModes at hmodes
    cases hparam : status.parameter i with
    | none =>
      rw [hparam] at hmodes
      cases hmodes
    | some param =>
      rw [hparam] at hmodes
      have hget : status.parameters.toList[i]? = some param := by
        unfold StreamControlStatus.parameter at hparam
        rw [if_pos (Int.natCast_nonneg i), Int.toNat_natCast] at hparam
        rw [← hparam]
        exact Vector.getElem?_toList
      obtain ⟨hi, hparam'⟩ := List.getElem?_eq_some_iff.mp hget
      rw [List.drop_eq_getElem_cons hi, hparam', List.take_succ_cons, List.foldl_cons]
      exact ih (h.setMode param) hmodes

variable {status status' : StreamControlStatus} {t u : Server (Option σ)} {c : UInt8}
  {isStderr : Bool}

theorem neutral_moveCursor (K : Coloring S γ) (dx dy : ℤ) :
    Neutral K.colors K.Kept (S.moveCursor dx dy) := by
  intro o v hv
  obtain ⟨w, hw, hcolors, hkept⟩ := K.flush _ v hv
  obtain ⟨s, hs, hcolors', hkept'⟩ := K.setCursor _ _ o w hw
  exact ⟨s, hs, hcolors.trans hcolors', fun h => hkept (hkept' h)⟩

theorem neutral_writeTab (K : Coloring S γ) : Neutral K.colors K.Kept S.writeTab := by
  have hblank := K.write ' '.toUInt8
  exact hblank.comp (hblank.comp (hblank.comp hblank))

theorem Tracks.processSequenceVt100 (h : K.Tracks set t.screen)
    (hvt : status.status = .withinVt100)
    (hstep : processSequenceVt100 S { status with controlCharacter := c } t = some u)
    (hsome : u.screen.isSome) : K.Tracks (colorsAfter status c set) u.screen := by
  unfold Terminal.processSequenceVt100 at hstep
  unfold colorsAfter
  rw [hvt]
  dsimp only at hstep
  generalize Char.ofUInt8 c = d at hstep ⊢
  split at hstep
  · obtain rfl := Option.some.inj hstep
    exact h.neutral (neutral_moveCursor K _ _) hsome
  · obtain rfl := Option.some.inj hstep
    exact h.neutral (neutral_moveCursor K _ _) hsome
  · obtain rfl := Option.some.inj hstep
    exact h.neutral (neutral_moveCursor K _ _) hsome
  · obtain rfl := Option.some.inj hstep
    exact h.neutral (neutral_moveCursor K _ _) hsome
  · obtain ⟨v, hv, rfl⟩ := Option.map_eq_some_iff.mp hstep
    exact h.setModes hv
  · split at hstep
    · obtain rfl := Option.some.inj hstep
      exact h.neutral K.clean hsome
    · obtain rfl := Option.some.inj hstep
      exact h
  · obtain rfl := Option.some.inj hstep
    exact h.neutral (K.setCursor _ _) hsome
  · split at hstep <;> obtain rfl := Option.some.inj hstep <;> exact h
  · split at hstep
    · obtain rfl := Option.some.inj hstep
      exact h.neutral K.setScrollAreaScreen hsome
    · obtain rfl := Option.some.inj hstep
      exact h.neutral (K.setScrollArea _ _) hsome
  · obtain rfl := Option.some.inj hstep
    exact h.neutral (K.scroll _) hsome
  · obtain rfl := Option.some.inj hstep
    exact h.neutral (K.scroll _) hsome
  · rename_i hm _ _ _ _ _ _
    obtain rfl := Option.some.inj hstep
    rw [if_neg fun hfinish => hm hfinish.2]
    exact h

theorem Tracks.processSequenceGhostterm (h : K.Tracks set t.screen)
    (hsome : (processSequenceGhostterm S status t).screen.isSome) :
    K.Tracks set (processSequenceGhostterm S status t).screen := by
  revert hsome
  unfold Terminal.processSequenceGhostterm
  dsimp only
  split
  · exact fun _ => h
  · exact fun _ => h
  · exact fun _ => h
  · exact h.neutral (K.write _)
  · exact h.neutral K.remove
  · exact fun _ => h
  · split
    · exact h.neutral (K.setCursorVisible _)
    · exact fun _ => h
  · exact fun _ => h

theorem Tracks.processFinish (h : K.Tracks set t.screen)
    (hstep : processFinish S status t c = some (status', u)) (hsome : u.screen.isSome) :
    K.Tracks (colorsAfter status c set) u.screen := by
  unfold Terminal.processFinish at hstep
  dsimp only at hstep
  split at hstep
  · rename_i hvt
    obtain ⟨v, hv, heq⟩ := Option.map_eq_some_iff.mp hstep
    obtain ⟨_, rfl⟩ := Prod.mk.inj heq
    exact h.processSequenceVt100 hvt hv hsome
  · rename_i hghost
    obtain ⟨_, rfl⟩ := Prod.mk.inj (Option.some.inj hstep)
    rw [colorsAfter_of_status hghost]
    exact h.processSequenceGhostterm hsome

theorem Tracks.processWithin (h : K.Tracks set t.screen)
    (hstep : processWithin S status t c = some (status', u)) (hsome : u.screen.isSome) :
    K.Tracks (colorsAfter status c set) u.screen := by
  unfold Terminal.processWithin at hstep
  by_cases hdigit : isDigit c
  · rw [if_pos hdigit] at hstep
    obtain ⟨_, _, heq⟩ := Option.map_eq_some_iff.mp hstep
    obtain ⟨_, rfl⟩ := Prod.mk.inj heq
    rw [colorsAfter_of_ne (ne_finish_of_within (Or.inl hdigit))]
    exact h
  · rw [if_neg hdigit] at hstep
    by_cases hsep : c = ';'.toUInt8
    · rw [if_pos hsep] at hstep
      obtain ⟨_, rfl⟩ := Prod.mk.inj (Option.some.inj hstep)
      rw [colorsAfter_of_ne (ne_finish_of_within (Or.inr hsep))]
      exact h
    · rw [if_neg hsep] at hstep
      exact h.processFinish hstep hsome

/-- A character outside the sequences is the only byte of plain text that draws one. -/
theorem Tracks.processText (h : K.Tracks set t.screen) (hstatus : status.status = .text)
    (hplain : status.Plain c → isStderr = false)
    (hsome : (processText S isStderr status t c).2.screen.isSome) :
    K.Tracks set (processText S isStderr status t c).2.screen := by
  revert hsome
  unfold Terminal.processText
  by_cases hcr : c = '\r'.toUInt8
  · rw [if_pos hcr]
    exact fun _ => h
  · rw [if_neg hcr]
    by_cases htab : c = '\t'.toUInt8
    · rw [if_pos htab]
      exact h.neutral (neutral_writeTab K)
    · rw [if_neg htab]
      by_cases hesc : c = G_TERMKEY_ESC
      · rw [if_pos hesc]
        exact fun _ => h
      · rw [if_neg hesc, hplain ⟨hstatus, hcr, htab, hesc⟩]
        exact h.neutral (K.write c)

/-- Every byte but a character of the standard error leaves the colors that are set. -/
theorem Tracks.processOutput (h : K.Tracks set t.screen)
    (hplain : status.Plain c → isStderr = false)
    (hstep : ghshProcessOutput S isStderr (status, t) c = some (status', u))
    (hsome : u.screen.isSome) : K.Tracks (colorsAfter status c set) u.screen := by
  unfold ghshProcessOutput Terminal.processOutput at hstep
  dsimp only at hstep
  cases hstatus : status.status with
  | text =>
    rw [hstatus] at hstep
    have heq := congrArg Prod.snd (Option.some.inj hstep)
    dsimp only at heq
    rw [← heq] at hsome ⊢
    rw [colorsAfter_of_status (by rw [hstatus]; decide)]
    exact h.processText hstatus hplain hsome
  | lastWasEsc =>
    rw [hstatus] at hstep
    obtain ⟨_, rfl⟩ := Prod.mk.inj (Option.some.inj hstep)
    rw [colorsAfter_of_status (by rw [hstatus]; decide)]
    exact h
  | withinVt100 =>
    rw [hstatus] at hstep
    exact h.processWithin hstep hsome
  | withinGhostterm =>
    rw [hstatus] at hstep
    exact h.processWithin hstep hsome

/-- A character of the standard error: the remembered color is restored. -/
theorem Tracks.writeText (h : K.Tracks set t.screen) (hplain : status.Plain c)
    (hstep : ghshProcessOutput S true (status, t) c = some (status', u))
    (hsome : u.screen.isSome) :
    ∃ s v, t.screen = some s ∧ K.colors s = (K.color set.1, K.color set.2) ∧
      S.write c (some (K.withForeground (K.color SC_RED) s)) = some v ∧
      u.screen = some (K.withForeground (K.remembered (K.color set.1)) v) ∧
      (K.colors v).2 = K.color set.2 ∧ K.Kept v := by
  obtain ⟨hstatus, hcr, htab, hesc⟩ := hplain
  obtain ⟨s, hs, hcolors, hkept⟩ := h
  unfold ghshProcessOutput Terminal.processOutput Terminal.processText at hstep
  dsimp only at hstep
  rw [hstatus] at hstep
  dsimp only at hstep
  rw [if_neg hcr, if_neg htab, if_neg hesc] at hstep
  obtain ⟨_, rfl⟩ := Prod.mk.inj (Option.some.inj hstep)
  have hscreen : (t.onScreen (S.writeText true c)).screen =
      (S.write c (some (K.withForeground (K.color SC_RED) s))).map
        (K.withForeground (K.remembered (K.color set.1))) := by
    have hget := K.getColorForeground s hkept
    unfold Server.onScreen Screen.writeText
    dsimp only
    rw [if_pos rfl, hs, K.setColorForeground, K.setColorForeground, hget, hcolors]
    rfl
  rw [hscreen, Option.isSome_map] at hsome
  obtain ⟨v, hv⟩ := Option.isSome_iff_exists.mp hsome
  obtain ⟨w, hw, hcolors', hkept'⟩ := K.write c _ v hv
  obtain rfl := Option.some.inj hw
  refine ⟨s, v, hs, hcolors, hv, ?_, ?_, hkept' (K.kept_withForeground _ s hkept)⟩
  · rw [hscreen, hv]
    rfl
  · rw [hcolors', K.colors_withForeground, hcolors]

/-- What the steps keep of the two outputs. -/
structure Faithful (K : Coloring S γ) (o : Outputs σ) : Prop where
  isColor : IsColor o.set.1
  tracks : K.Tracks o.set o.server.screen

variable {out out' : Outputs σ} {b : Bool × UInt8} {a : Unit}

/-- A step is steady where the remembered color is the one that is set. -/
theorem Faithful.step (h : K.Faithful out) (hstep : out.step S b = some (a, out'))
    (hguard : b.1 = true → (out.decoder true).Plain b.2 →
      K.remembered (K.color out.set.1) = K.color out.set.1) :
    K.Steady out b out' ∧ K.Faithful out' := by
  obtain ⟨status, hprocess, hsome, hset⟩ := Outputs.step_eq_some hstep
  obtain ⟨isStderr, c⟩ := b
  have hisColor : IsColor out'.set.1 := by
    rw [hset]
    exact isColor_colorsAfter h.isColor _ _
  by_cases herror : isStderr = true ∧ (out.decoder true).Plain c
  · obtain ⟨rfl, hplain⟩ := herror
    obtain ⟨s, v, hs, hcolors, hv, hafter, hbackground, hkept⟩ :=
      h.tracks.writeText hplain hprocess hsome
    have hsame : out'.set = out.set := by
      rw [hset, colorsAfter_of_status (by rw [hplain.1]; decide)]
    rw [hguard rfl hplain] at hafter
    have htracks : K.Tracks out'.set out'.server.screen := by
      refine ⟨_, hafter, ?_, K.kept_withForeground _ v hkept⟩
      rw [K.colors_withForeground, hbackground, hsame]
    refine ⟨⟨fun _ _ => ⟨s, v, hs, hv, ?_⟩, htracks.shows⟩, hisColor, htracks⟩
    rw [hafter, hcolors]
  · have hplain : (out.decoder isStderr).Plain c → isStderr = false := by
      intro hplain
      cases isStderr with
      | false => rfl
      | true => exact absurd ⟨rfl, hplain⟩ herror
    have htracks : K.Tracks out'.set out'.server.screen := by
      rw [hset]
      exact h.tracks.processOutput hplain hprocess hsome
    exact ⟨⟨fun herr hpl => absurd ⟨herr, hpl⟩ herror, htracks.shows⟩, hisColor, htracks⟩

/-- A character of the standard error shows the remembered color. -/
theorem Faithful.not_steady (h : K.Faithful out) (hstep : out.step S b = some (a, out'))
    (hstderr : b.1 = true) (hplain : (out.decoder true).Plain b.2)
    (hguard : K.remembered (K.color out.set.1) ≠ K.color out.set.1) :
    ¬ K.Steady out b out' := by
  obtain ⟨isStderr, c⟩ := b
  obtain rfl : isStderr = true := hstderr
  obtain ⟨status, hprocess, hsome, hset⟩ := Outputs.step_eq_some hstep
  obtain ⟨_, v, _, _, _, hafter, _, _⟩ := h.tracks.writeText hplain hprocess hsome
  intro hsteady
  obtain ⟨v', hv', hcolors⟩ := hsteady.2
  obtain rfl := Option.some.inj (hafter.symm.trans hv')
  have hsame : out'.set = out.set := by
    rw [hset, colorsAfter_of_status (by rw [hplain.1]; decide)]
  rw [K.colors_withForeground, hsame] at hcolors
  exact hguard (Prod.mk.inj hcolors).1

/-- The outputs are steady along exactly the runs in which every character of the
standard error finds a color set that the screen remembers. -/
theorem steady_iff (K : Coloring S γ) {R : ℤ → Prop}
    (hR : ∀ n, IsColor n → (K.remembered (K.color n) = K.color n ↔ R n))
    (bytes : List (Bool × UInt8)) (h : K.Faithful out) :
    Throughout (Outputs.step S) (fun out b _ out' => K.Steady out b out') (fun _ => True)
        bytes out ↔
      Throughout (Outputs.step S)
        (fun out b _ _ => b.1 = true → (out.decoder true).Plain b.2 → R out.set.1)
        (fun _ => True) bytes out := by
  refine throughout_iff (I := K.Faithful) ?_ ?_ (fun _ _ => Iff.rfl) bytes h
  · intro out b a out' hI hstep hguard
    exact hI.step hstep fun herr hpl => (hR _ hI.isColor).mpr (hguard herr hpl)
  · intro out b a out' hI hstep hguard
    push Not at hguard
    obtain ⟨hstderr, hplain, hnot⟩ := hguard
    exact hI.not_steady hstep hstderr hplain fun hsame => hnot ((hR _ hI.isColor).mp hsame)

theorem faithful_start (K : Coloring S γ)
    (parameters : Bool → Vector ℤ TERMINAL_STREAM_CONTROL_MAX_PARAMETERS)
    (controlCharacter : Bool → UInt8) {s : σ} (hkept : K.Kept s)
    (hcolors : K.colors s = (K.color SC_WHITE, K.color SC_BLACK)) :
    K.Faithful (Outputs.start parameters controlCharacter s) :=
  ⟨show IsColor SC_WHITE from ⟨by decide, by decide⟩, s, rfl, hcolors, hkept⟩

end Coloring

section Headless

namespace HeadlessScreen

/-- A screen when the server starts: its initialization and the server clean it. -/
def started (output : Vector UInt8 screenSize) : HeadlessScreen := (construct output).clean.clean

def setColorForeground (c : ℤ) (s : HeadlessScreen) : HeadlessScreen :=
  { s with colorForeground := UInt8.ofInt c }

def setColorBackground (c : ℤ) (s : HeadlessScreen) : HeadlessScreen :=
  { s with colorBackground := UInt8.ofInt c }

def getColorForeground (s : HeadlessScreen) : ℤ := s.colorForeground.toNat

def colors (s : HeadlessScreen) : UInt8 × UInt8 := (s.colorForeground, s.colorBackground)

theorem put_colors {s t : HeadlessScreen} {b : UInt8} (h : s.put b = some t) :
    t.colors = s.colors := by
  unfold put at h
  split at h
  · obtain rfl := Option.some.inj h
    rfl
  · cases h

theorem normalize_colors (s : HeadlessScreen) : s.normalize.colors = s.colors := by
  unfold normalize
  split <;> rfl

theorem write_colors {s t : HeadlessScreen} {c : UInt8} (h : s.write c = some t) :
    t.colors = s.colors := by
  unfold write at h
  split at h
  · obtain rfl := Option.some.inj h
    exact normalize_colors _
  · obtain ⟨u, hu, hrest⟩ := Option.bind_eq_some_iff.mp h
    obtain ⟨v, hv, hend⟩ := Option.bind_eq_some_iff.mp hrest
    obtain rfl := Option.some.inj hend
    rw [normalize_colors, put_colors hv, put_colors hu]

theorem remove_colors {s t : HeadlessScreen} (h : s.remove = some t) : t.colors = s.colors := by
  obtain ⟨u, hu, hend⟩ := Option.bind_eq_some_iff.mp h
  obtain rfl := Option.some.inj hend
  have hcolors : u.colors = s.colors := put_colors hu
  exact hcolors

theorem setCursor_colors (x y : ℤ) (s : HeadlessScreen) : (s.setCursor x y).colors = s.colors := by
  unfold setCursor
  dsimp only
  split
  · rfl
  · split <;> rfl

end HeadlessScreen

def headlessScreen : Screen (Option HeadlessScreen) where
  write c o := o.bind (HeadlessScreen.write c)
  remove o := o.bind HeadlessScreen.remove
  clean o := o.map HeadlessScreen.clean
  flush o := o
  setCursor x y o := o.map (HeadlessScreen.setCursor x y)
  getCursorX o := (o.map HeadlessScreen.getCursorX).getD 0
  getCursorY o := (o.map HeadlessScreen.getCursorY).getD 0
  setCursorVisible _ o := o
  setScrollAreaScreen o := o
  setScrollArea _ _ o := o
  scroll _ o := o
  getColumns _ := SCREEN_WIDTH
  getRows _ := SCREEN_HEIGHT
  setColorForeground c o := o.map (HeadlessScreen.setColorForeground c)
  setColorBackground c o := o.map (HeadlessScreen.setColorBackground c)
  getColorForeground o := (o.map HeadlessScreen.getColorForeground).getD 0

theorem ofInt_toNat (c : UInt8) : UInt8.ofInt (c.toNat : ℤ) = c := by
  have hlt := c.toNat_lt
  apply UInt8.toNat_inj.mp
  unfold UInt8.ofInt
  rw [UInt8.toNat_ofNat']
  omega

/-- The text mode screen remembers the color that was set last. -/
def headlessColoring : Coloring headlessScreen UInt8 where
  color := UInt8.ofInt
  colors := HeadlessScreen.colors
  withForeground g s := { s with colorForeground := g }
  withBackground g s := { s with colorBackground := g }
  remembered g := g
  Kept _ := True
  colors_withForeground _ _ := rfl
  colors_withBackground _ _ := rfl
  kept_withForeground _ _ _ := trivial
  kept_withBackground _ _ _ := trivial
  setColorForeground _ _ := rfl
  setColorBackground _ _ := rfl
  getColorForeground s _ := ofInt_toNat s.colorForeground
  write _ := neutral_bind fun _ _ h => ⟨HeadlessScreen.write_colors h, id⟩
  remove := neutral_bind fun _ _ h => ⟨HeadlessScreen.remove_colors h, id⟩
  clean := neutral_map fun _ => ⟨rfl, id⟩
  flush := neutral_id
  setCursor x y := neutral_map fun s => ⟨HeadlessScreen.setCursor_colors x y s, id⟩
  setCursorVisible _ := neutral_id
  setScrollAreaScreen := neutral_id
  setScrollArea _ _ := neutral_id
  scroll _ := neutral_id

end Headless

section Framebuffer

namespace Framebuffer

/-- A screen when the server starts. -/
def started (mode : VideoMode) (frame : ℕ → UInt8) : Option Framebuffer :=
  ((construct frame).initializeScreen mode).map clean

/-- The colors the screen draws with, and the one its getter gives. -/
def inks (s : Framebuffer) : UInt32 × UInt32 × UInt8 := (s.fgColor, s.bgColor, s.colorForeground)

variable {s t : Framebuffer} {font : ℕ → ℕ → UInt8} {c : UInt8} {x y : ℤ}

theorem clearPixels_inks (s : Framebuffer) : s.clearPixels.inks = s.inks := by
  unfold clearPixels
  split <;> rfl

theorem clean_inks (s : Framebuffer) : s.clean.inks = s.inks := clearPixels_inks s

theorem scrollUp_inks (h : s.scrollUp = some t) : t.inks = s.inks := by
  unfold scrollUp at h
  split at h
  · obtain rfl := Option.some.inj h
    rfl
  · dsimp only at h
    split at h
    · obtain rfl := Option.some.inj h
      rfl
    · cases h

theorem drawChar_inks (h : s.drawChar font x y c = some t) : t.inks = s.inks := by
  unfold drawChar at h
  dsimp only at h
  split at h
  · obtain rfl := Option.some.inj h
    rfl
  · obtain ⟨frame, _, rfl⟩ := Option.map_eq_some_iff.mp h
    rfl

theorem nextRow_inks (h : s.nextRow = some t) : t.inks = s.inks := by
  unfold nextRow at h
  dsimp only at h
  split at h
  · obtain ⟨u, hu, rfl⟩ := Option.map_eq_some_iff.mp h
    have hinks : u.inks = s.inks := scrollUp_inks (s := { s with
      cursorX := 0
      cursorY := s.cursorY + 1 }) hu
    exact hinks
  · obtain rfl := Option.some.inj h
    rfl

theorem write_inks (h : s.write font c = some t) : t.inks = s.inks := by
  unfold write at h
  split at h
  · exact nextRow_inks h
  · obtain ⟨u, hu, hrest⟩ := Option.bind_eq_some_iff.mp h
    have hinks : u.inks = s.inks := drawChar_inks hu
    dsimp only at hrest
    split at hrest
    · exact (nextRow_inks hrest).trans hinks
    · obtain rfl := Option.some.inj hrest
      exact hinks

theorem scrolls_inks {n : ℕ} (h : scrolls n s = some t) : t.inks = s.inks := by
  induction n generalizing s with
  | zero =>
    obtain rfl := Option.some.inj h
    rfl
  | succ n ih =>
    obtain ⟨u, hu, hrest⟩ := Option.bind_eq_some_iff.mp h
    rw [ih hrest, scrollUp_inks hu]

/-- The end of `setCursor`, at any row and column. -/
theorem placed_inks {row column : ℤ} {n : ℕ}
    (h : (if s.rows ≤ row then
        (scrolls n s).map fun s => { s with
          cursorX := column
          cursorY := s.rows - 1 }
      else some { s with
        cursorX := column
        cursorY := row }) = some t) : t.inks = s.inks := by
  split at h
  · obtain ⟨u, hu, rfl⟩ := Option.map_eq_some_iff.mp h
    have hinks : u.inks = s.inks := scrolls_inks hu
    exact hinks
  · obtain rfl := Option.some.inj h
    rfl

theorem setCursor_inks (h : s.setCursor x y = some t) : t.inks = s.inks := by
  unfold setCursor at h
  by_cases hempty : s.columns ≤ 0 ∨ s.rows ≤ 0
  · rw [if_pos hempty] at h
    obtain rfl := Option.some.inj h
    rfl
  · rw [if_neg hempty] at h
    exact placed_inks h

theorem started_inks {mode : VideoMode} {frame : ℕ → UInt8} (h : started mode frame = some s) :
    s.inks = (mapColor (UInt8.ofInt SC_WHITE), mapColor (UInt8.ofInt SC_BLACK), 0xF) := by
  obtain ⟨u, hu, rfl⟩ := Option.map_eq_some_iff.mp h
  obtain ⟨v, hv, rfl⟩ := Option.map_eq_some_iff.mp hu
  unfold initializeVideo at hv
  dsimp only at hv
  split at hv
  · cases hv
  · obtain rfl := Option.some.inj hv
    rw [clean_inks]
    unfold clearPixels
    split <;> rfl

theorem mapColor_eq_white_iff {n : ℤ} (h : IsColor n) :
    mapColor (UInt8.ofInt SC_WHITE) = mapColor (UInt8.ofInt n) ↔ n = SC_WHITE := by
  obtain ⟨hlow, hhigh⟩ := h
  interval_cases n <;> decide

end Framebuffer

def framebufferScreen (font : ℕ → ℕ → UInt8) : Screen (Option Framebuffer) where
  write c o := o.bind (Framebuffer.write font c)
  remove o := o.bind (Framebuffer.remove font)
  clean o := o.map Framebuffer.clean
  flush o := o
  setCursor x y o := o.bind (Framebuffer.setCursor x y)
  getCursorX o := (o.map Framebuffer.cursorX).getD 0
  getCursorY o := (o.map Framebuffer.cursorY).getD 0
  setCursorVisible _ o := o
  setScrollAreaScreen o := o
  setScrollArea _ _ o := o
  scroll _ o := o
  getColumns o := (o.map Framebuffer.columns).getD 0
  getRows o := (o.map Framebuffer.rows).getD 0
  setColorForeground c o := o.map (Framebuffer.setColorForeground c)
  setColorBackground c o := o.map (Framebuffer.setColorBackground c)
  getColorForeground o := (o.map Framebuffer.getColorForeground).getD 0

namespace Framebuffer

def colors (s : Framebuffer) : UInt32 × UInt32 := (s.fgColor, s.bgColor)

/-- The member that the getter reads is the one of the construction. -/
def Unset (s : Framebuffer) : Prop := s.colorForeground = 0xF

theorem colors_of_inks {s t : Framebuffer} (h : t.inks = s.inks) :
    t.colors = s.colors ∧ (s.Unset → t.Unset) := by
  obtain ⟨hfg, hrest⟩ := Prod.mk.inj h
  obtain ⟨hbg, hmember⟩ := Prod.mk.inj hrest
  exact ⟨Prod.ext hfg hbg, fun hunset => hmember.trans hunset⟩

end Framebuffer

/-- The framebuffer screen remembers white, whatever was set. -/
def framebufferColoring (font : ℕ → ℕ → UInt8) : Coloring (framebufferScreen font) UInt32 where
  color n := Framebuffer.mapColor (UInt8.ofInt n)
  colors := Framebuffer.colors
  withForeground g s := { s with fgColor := g }
  withBackground g s := { s with bgColor := g }
  remembered _ := Framebuffer.mapColor (UInt8.ofInt SC_WHITE)
  Kept := Framebuffer.Unset
  colors_withForeground _ _ := rfl
  colors_withBackground _ _ := rfl
  kept_withForeground _ _ h := h
  kept_withBackground _ _ h := h
  setColorForeground _ _ := rfl
  setColorBackground _ _ := rfl
  getColorForeground s h := by
    change Framebuffer.mapColor (UInt8.ofInt (s.colorForeground.toNat : ℤ)) = _
    rw [h]
    rfl
  write _ := neutral_bind fun _ _ h => Framebuffer.colors_of_inks (Framebuffer.write_inks h)
  remove := neutral_bind fun _ _ h => Framebuffer.colors_of_inks (Framebuffer.drawChar_inks h)
  clean := neutral_map fun s => Framebuffer.colors_of_inks (Framebuffer.clean_inks s)
  flush := neutral_id
  setCursor _ _ := neutral_bind fun _ _ h =>
    Framebuffer.colors_of_inks (Framebuffer.setCursor_inks h)
  setCursorVisible _ := neutral_id
  setScrollAreaScreen := neutral_id
  setScrollArea _ _ := neutral_id
  scroll _ := neutral_id

end Framebuffer

variable (parameters : Bool → Vector ℤ TERMINAL_STREAM_CONTROL_MAX_PARAMETERS)
  (controlCharacter : Bool → UInt8)

theorem headless_steady (output : Vector UInt8 screenSize) (bytes : List (Bool × UInt8)) :
    Throughout (Outputs.step headlessScreen)
      (fun out b _ out' => headlessColoring.Steady out b out') (fun _ => True) bytes
      (Outputs.start parameters controlCharacter (HeadlessScreen.started output)) := by
  have hstart : headlessColoring.Faithful
      (Outputs.start parameters controlCharacter (HeadlessScreen.started output)) :=
    headlessColoring.faithful_start parameters controlCharacter trivial rfl
  have hremembers (n : ℤ) (_ : IsColor n) :
      headlessColoring.remembered (headlessColoring.color n) = headlessColoring.color n ↔ True :=
    iff_of_true rfl trivial
  apply (headlessColoring.steady_iff hremembers bytes hstart).mpr
  exact throughout_of_forall (fun _ _ _ _ _ _ => trivial) (fun _ => trivial) bytes _

theorem framebuffer_faithful (font : ℕ → ℕ → UInt8) (mode : VideoMode) (frame : ℕ → UInt8)
    {s : Framebuffer} (hs : Framebuffer.started mode frame = some s) :
    (framebufferColoring font).Faithful (Outputs.start parameters controlCharacter s) := by
  obtain ⟨hfg, hrest⟩ := Prod.mk.inj (Framebuffer.started_inks hs)
  obtain ⟨hbg, hmember⟩ := Prod.mk.inj hrest
  exact (framebufferColoring font).faithful_start parameters controlCharacter hmember
    (Prod.ext hfg hbg)

/-- With the text mode screen, every interleaving of the two outputs is steady. With
the framebuffer screen, those are in which every character of the standard error finds
white as the foreground color that is set. -/
theorem error_output_iff (output : Vector UInt8 screenSize) (font : ℕ → ℕ → UInt8)
    (mode : VideoMode) (frame : ℕ → UInt8) {s : Framebuffer}
    (hs : Framebuffer.started mode frame = some s) (bytes : List (Bool × UInt8)) :
    Throughout (Outputs.step headlessScreen)
        (fun out b _ out' => headlessColoring.Steady out b out') (fun _ => True) bytes
        (Outputs.start parameters controlCharacter (HeadlessScreen.started output)) ∧
      (Throughout (Outputs.step (framebufferScreen font))
          (fun out b _ out' => (framebufferColoring font).Steady out b out') (fun _ => True) bytes
          (Outputs.start parameters controlCharacter s) ↔
        Throughout (Outputs.step (framebufferScreen font))
          (fun out b _ _ => b.1 = true → (out.decoder true).Plain b.2 → out.set.1 = SC_WHITE)
          (fun _ => True) bytes (Outputs.start parameters controlCharacter s)) := by
  refine ⟨headless_steady parameters controlCharacter output bytes, ?_⟩
  exact (framebufferColoring font).steady_iff (fun n hn => Framebuffer.mapColor_eq_white_iff hn)
    bytes (framebuffer_faithful parameters controlCharacter font mode frame hs)

/-- A mode of the size the screen asks for. -/
def bootMode : VideoMode := ⟨1024, 768, 32, 4096, 0xE0000000⟩

/-- The sequence that sets the foreground to green. -/
def greenSequence : List UInt8 :=
  [G_TERMKEY_ESC, '['.toUInt8, '3'.toUInt8, '2'.toUInt8, 'm'.toUInt8]

/-- A character on the standard error, and green set on the standard output after it. -/
theorem error_output_iff_before_green : ∃ s,
    Framebuffer.started bootMode (fun _ => 0) = some s ∧
      Throughout (Outputs.step (framebufferScreen fun _ _ => 0))
        (fun out b _ out' => (framebufferColoring fun _ _ => 0).Steady out b out') (fun _ => True)
        ((true, 'x'.toUInt8) :: greenSequence.map (false, ·))
        (Outputs.start (fun _ => Vector.replicate _ 0) (fun _ => 0) s) := by
  refine ⟨_, rfl, ?_⟩
  apply (error_output_iff _ _ (Vector.replicate _ 0) _ bootMode (fun _ => 0) rfl _).2.mpr
  decide +kernel

/-- Green set on the standard output, and a character on the standard error after it. -/
theorem error_output_whitens : ¬ ∀ parameters controlCharacter output font mode frame s,
    Framebuffer.started mode frame = some s → ∀ bytes,
      Throughout (Outputs.step headlessScreen)
          (fun out b _ out' => headlessColoring.Steady out b out') (fun _ => True) bytes
          (Outputs.start parameters controlCharacter (HeadlessScreen.started output)) ∧
        Throughout (Outputs.step (framebufferScreen font))
          (fun out b _ out' => (framebufferColoring font).Steady out b out') (fun _ => True) bytes
          (Outputs.start parameters controlCharacter s) := by
  intro h
  have hsteady := (h (fun _ => Vector.replicate _ 0) (fun _ => 0) (Vector.replicate _ 0)
    (fun _ _ => 0) bootMode (fun _ => 0) _ rfl
    (greenSequence.map (false, ·) ++ [(true, 'x'.toUInt8)])).2
  have hguard := ((framebufferColoring fun _ _ => 0).steady_iff
    (fun n hn => Framebuffer.mapColor_eq_white_iff hn) _
    (framebuffer_faithful _ _ (fun _ _ => 0) bootMode (fun _ => 0) rfl)).mp hsteady
  revert hguard
  decide +kernel

end Heartix.Terminal
