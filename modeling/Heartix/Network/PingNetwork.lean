import Heartix.Lib.Runs
import Heartix.Network.Ping

/-!
The runs of `ping`, a round of one of its two loops at a time, and a network on which any
number of stations run it. The network may lose frames, deliver them late, in another
order or more than once, and put bytes behind them. It does not make up frames.
-/

namespace Heartix.Network

/-- The place of a program: before the first frame, in the loop of `resolveTargetMac` or in
the loop of `awaitIcmpReply`, with the number of the next attempt, or at its end. -/
inductive Phase
  | ready
  | resolving (attempt : ℕ)
  | awaiting (targetMac : Mac) (attempt : ℕ)
  | returned (code : ℤ)
  deriving DecidableEq

def Phase.Running : Phase → Prop
  | .resolving _ => True
  | .awaiting _ _ => True
  | _ => False

/-- What `receiveFrame` yields in a round, if it does, and whether the driver takes what is
written in it. -/
structure Round where
  received : Option (List UInt8)
  wrote : Bool

/-- A frame that is not sent is none of the result. -/
def sendFrame (size : ℕ) (payload : List UInt8) (wrote : Bool) : List (List UInt8) :=
  if payload.length > size then [] else if wrote then [payload] else []

namespace Station

variable (size : ℕ) (station : Station)

def defaultMask : UInt32 := 0xFFFFFF00

def SameNetwork : Prop := station.targetIp &&& defaultMask = station.localIp &&& defaultMask

instance decidableSameNetwork : Decidable station.SameNetwork :=
  inferInstanceAs (Decidable (_ = _))

/-- From the check of the addresses in `main` to the first request. -/
def start (initialized wrote : Bool) : Phase × List (List UInt8) :=
  if ¬ station.SameNetwork then (.returned (-1), [])
  else if initialized = false then (.returned (-1), [])
  else (.resolving 0, sendFrame size station.sendArpRequest wrote)

def nextAttempt (attempt : ℕ) : Phase :=
  if attempt + 1 < 400 then .resolving (attempt + 1) else .returned (-1)

/-- The end of a round in which nothing was received that is for this program. -/
def retry (attempt : ℕ) (wrote : Bool) : Phase × List (List UInt8) :=
  (nextAttempt attempt,
    if attempt % 100 = 0 then sendFrame size station.sendArpRequest wrote else [])

/-- The target is known: the echo request is sent. -/
def resolved (targetMac : Mac) (wrote : Bool) : Phase × List (List UInt8) :=
  match sendFrame size (station.sendIcmpEcho 1 targetMac) wrote with
  | [] => (.returned (-1), [])
  | sent => (.awaiting targetMac 0, sent)

def resolveTargetMac (attempt : ℕ) (round : Round) : Phase × List (List UInt8) :=
  match round.received with
  | some frame =>
      match station.handleArpRequest frame with
      | some reply => (nextAttempt attempt, sendFrame size reply round.wrote)
      | none =>
          match station.tryParseArpReply frame with
          | some mac => station.resolved size mac round.wrote
          | none => station.retry size attempt round.wrote
  | none => station.retry size attempt round.wrote

def nextAwait (targetMac : Mac) (attempt : ℕ) : Phase :=
  if attempt + 1 < 500 then .awaiting targetMac (attempt + 1) else .returned (-1)

def awaitIcmpReply (targetMac : Mac) (attempt : ℕ) (round : Round) : Phase × List (List UInt8) :=
  match round.received with
  | some frame =>
      match station.handleArpRequest frame with
      | some reply => (nextAwait targetMac attempt, sendFrame size reply round.wrote)
      | none =>
          if station.tryHandleIcmpReply frame 1 then (.returned 0, [])
          else (nextAwait targetMac attempt, [])
  | none => (nextAwait targetMac attempt, [])

def step (phase : Phase) (round : Round) : Phase × List (List UInt8) :=
  match phase with
  | .ready => (.ready, [])
  | .resolving attempt => station.resolveTargetMac size attempt round
  | .awaiting targetMac attempt => station.awaitIcmpReply size targetMac attempt round
  | .returned code => (.returned code, [])

/-- The phase after a round that decides nothing. -/
def nextPhase : Phase → Phase
  | .ready => .ready
  | .resolving attempt => nextAttempt attempt
  | .awaiting targetMac attempt => nextAwait targetMac attempt
  | .returned code => .returned code

/-- All that a round can do. -/
inductive Does (round : Round) : Phase → Phase → List (List UInt8) → Prop
  | answers {phase : Phase} {frame reply : List UInt8} : phase.Running →
      round.received = some frame →
      station.handleArpRequest frame = some reply →
      Does round phase (nextPhase phase) (sendFrame size reply round.wrote)
  | resolves {attempt : ℕ} {frame : List UInt8} {mac : Mac} : round.received = some frame →
      station.tryParseArpReply frame = some mac →
      Does round (.resolving attempt) (.awaiting mac 0) [station.sendIcmpEcho 1 mac]
  | fails {attempt : ℕ} : Does round (.resolving attempt) (.returned (-1)) []
  | asks {attempt : ℕ} : attempt % 100 = 0 →
      Does round (.resolving attempt) (nextAttempt attempt)
        (sendFrame size station.sendArpRequest round.wrote)
  | waits {phase : Phase} : Does round phase (nextPhase phase) []
  | receives {mac : Mac} {attempt : ℕ} {frame : List UInt8} : round.received = some frame →
      station.tryHandleIcmpReply frame 1 = true →
      Does round (.awaiting mac attempt) (.returned 0) []

/-- The frames of some rounds, and the phase after them. -/
def run : Phase → List Round → Phase × List (List UInt8)
  | phase, [] => (phase, [])
  | phase, round :: rounds =>
      let (next, sent) := station.step size phase round
      let (last, more) := run next rounds
      (last, sent ++ more)

section Rounds

variable {size station}

theorem mem_sendFrame {payload frame : List UInt8} {wrote : Bool}
    (h : frame ∈ sendFrame size payload wrote) : frame = payload := by
  unfold sendFrame at h
  split at h
  · cases h
  · split at h
    · exact List.mem_singleton.mp h
    · cases h

theorem sendFrame_cons {payload frame : List UInt8} {sent : List (List UInt8)} {wrote : Bool}
    (h : sendFrame size payload wrote = frame :: sent) : frame = payload ∧ sent = [] := by
  unfold sendFrame at h
  split at h
  · cases h
  · split at h
    · obtain ⟨rfl, rfl⟩ := List.cons.inj h
      exact ⟨rfl, rfl⟩
    · cases h

theorem does_retry (attempt : ℕ) (round : Round) :
    station.Does size round (.resolving attempt) (station.retry size attempt round.wrote).1
      (station.retry size attempt round.wrote).2 := by
  unfold retry
  by_cases hattempt : attempt % 100 = 0
  · rw [if_pos hattempt]
    exact .asks hattempt
  · rw [if_neg hattempt]
    exact .waits

theorem does_resolved {attempt : ℕ} {round : Round} {frame : List UInt8} {mac : Mac}
    (hreceived : round.received = some frame) (hmac : station.tryParseArpReply frame = some mac) :
    station.Does size round (.resolving attempt) (station.resolved size mac round.wrote).1
      (station.resolved size mac round.wrote).2 := by
  unfold resolved
  cases hsent : sendFrame size (station.sendIcmpEcho 1 mac) round.wrote with
  | nil => exact .fails
  | cons frame sent =>
    obtain ⟨rfl, rfl⟩ := sendFrame_cons hsent
    exact .resolves hreceived hmac

theorem does_step (phase : Phase) (round : Round) :
    station.Does size round phase (station.step size phase round).1
      (station.step size phase round).2 := by
  cases phase with
  | ready => exact .waits
  | resolving attempt =>
    unfold step resolveTargetMac
    dsimp only
    cases hreceived : round.received with
    | none => exact does_retry attempt round
    | some frame =>
      dsimp only
      cases hrequest : station.handleArpRequest frame with
      | some reply => exact .answers trivial hreceived hrequest
      | none =>
        dsimp only
        cases hreply : station.tryParseArpReply frame with
        | some mac => exact does_resolved hreceived hreply
        | none => exact does_retry attempt round
  | awaiting targetMac attempt =>
    unfold step awaitIcmpReply
    dsimp only
    cases hreceived : round.received with
    | none => exact .waits
    | some frame =>
      dsimp only
      cases hrequest : station.handleArpRequest frame with
      | some reply => exact .answers trivial hreceived hrequest
      | none =>
        dsimp only
        by_cases hreply : station.tryHandleIcmpReply frame 1 = true
        · rw [if_pos hreply]
          exact .receives hreceived hreply
        · rw [if_neg hreply]
          exact .waits
  | returned code => exact .waits

theorem run_nil (phase : Phase) : station.run size phase [] = (phase, []) := rfl

theorem run_cons (phase : Phase) (round : Round) (rounds : List Round) :
    station.run size phase (round :: rounds) =
      ((station.run size (station.step size phase round).1 rounds).1,
        (station.step size phase round).2 ++
          (station.run size (station.step size phase round).1 rounds).2) := rfl

/-- What each round takes from a budget, all rounds together take from it. -/
theorem run_budget {cost : List UInt8 → Bool} {budget : Phase → ℕ} {P : Phase → Prop}
    (hkeep : ∀ phase round, P phase → P (station.step size phase round).1)
    (hstep : ∀ phase round, P phase → (station.step size phase round).2.countP cost +
      budget (station.step size phase round).1 ≤ budget phase) {phase : Phase} (hphase : P phase)
    (rounds : List Round) : (station.run size phase rounds).2.countP cost +
      budget (station.run size phase rounds).1 ≤ budget phase := by
  induction rounds generalizing phase with
  | nil => exact (Nat.zero_add _).le
  | cons round rounds ih =>
    have hfirst := hstep phase round hphase
    have hrest := ih (hkeep phase round hphase)
    rw [run_cons, List.countP_append]
    dsimp only
    omega

end Rounds

section Budget

/-- Kinds of frames, as any receiver sees them. -/
def isArp (oper : UInt16) (frame : List UInt8) : Bool :=
  (ethernetHeader frame).ethertype = ETHERTYPE_ARP ∧ (arpPacket frame).oper = oper

def isIpv4 (frame : List UInt8) : Bool := (ethernetHeader frame).ethertype.toNat = ETHERTYPE_IPV4

/-- The retries of `resolveTargetMac` that are left. -/
def requestsLeft : Phase → ℕ
  | .resolving attempt => 4 - (attempt + 99) / 100
  | _ => 0

def echoesLeft : Phase → ℕ
  | .resolving _ => 1
  | _ => 0

def roundsLeft : Phase → ℕ
  | .resolving attempt => 900 - attempt
  | .awaiting _ attempt => 500 - attempt
  | _ => 0

/-- The loops' counters are within their bounds. -/
def InLoop : Phase → Prop
  | .ready => False
  | .resolving attempt => attempt < 400
  | .awaiting _ attempt => attempt < 500
  | .returned _ => True

variable {size station}

theorem isArp_frame {eth : EthernetHeader} {arp : ArpPacket} (h : eth.ethertype = ETHERTYPE_ARP)
    (oper : UInt16) : isArp oper (eth.bytes ++ arp.bytes) = decide (arp.oper = oper) := by
  unfold isArp
  rw [ethernetHeader_bytes, arpPacket_frame]
  exact decide_eq_decide.mpr (and_iff_right h)

theorem isIpv4_frame {eth : EthernetHeader} {arp : ArpPacket}
    (h : eth.ethertype = ETHERTYPE_ARP) : isIpv4 (eth.bytes ++ arp.bytes) = false := by
  unfold isIpv4
  rw [ethernetHeader_bytes, h]
  exact decide_eq_false arp_ne_ipv4

theorem isArp_sendIcmpEcho (oper sequence : UInt16) (mac : Mac) :
    isArp oper (station.sendIcmpEcho sequence mac) = false := by
  have heth := ethernetHeader_sendIcmpEcho station sequence mac []
  rw [List.append_nil] at heth
  unfold isArp
  rw [heth]
  exact decide_eq_false fun h => ipv4_ne_arp h.1

theorem countP_sendFrame_le (size : ℕ) (cost : List UInt8 → Bool) (payload : List UInt8)
    (wrote : Bool) :
    (sendFrame size payload wrote).countP cost ≤ 1 := by
  unfold sendFrame
  split
  · exact Nat.zero_le 1
  · split
    · exact List.countP_le_length
    · exact Nat.zero_le 1

theorem countP_sendFrame {cost : List UInt8 → Bool} {payload : List UInt8}
    (h : cost payload = false) (wrote : Bool) :
    (sendFrame size payload wrote).countP cost = 0 := by
  apply List.countP_eq_zero.mpr
  intro frame hframe
  rw [mem_sendFrame hframe, h]
  exact Bool.false_ne_true

theorem inLoop_next {phase : Phase} (h : InLoop phase) : InLoop (nextPhase phase) := by
  cases phase with
  | ready => exact h
  | resolving attempt =>
    unfold nextPhase nextAttempt
    dsimp only
    split
    · assumption
    · trivial
  | awaiting targetMac attempt =>
    unfold nextPhase nextAwait
    dsimp only
    split
    · assumption
    · trivial
  | returned code => trivial

theorem inLoop_does {round : Round} {phase next : Phase} {sent : List (List UInt8)}
    (h : station.Does size round phase next sent) (hphase : InLoop phase) : InLoop next := by
  cases h with
  | answers _ _ _ => exact inLoop_next hphase
  | resolves _ _ => exact Nat.zero_lt_succ 499
  | fails => trivial
  | asks _ => exact inLoop_next hphase
  | waits => exact inLoop_next hphase
  | receives _ _ => trivial

theorem requestsLeft_next (phase : Phase) :
    requestsLeft (nextPhase phase) ≤ requestsLeft phase := by
  cases phase with
  | ready => exact le_rfl
  | resolving attempt =>
    unfold nextPhase nextAttempt
    dsimp only
    split
    · unfold requestsLeft
      dsimp only
      omega
    · exact Nat.zero_le _
  | awaiting targetMac attempt =>
    unfold nextPhase nextAwait
    dsimp only
    split <;> exact le_rfl
  | returned code => exact le_rfl

/-- A retry is one of those that are left. -/
theorem requestsLeft_asks {attempt : ℕ} (h : attempt % 100 = 0) (hattempt : attempt < 400) :
    1 + requestsLeft (nextAttempt attempt) ≤ requestsLeft (.resolving attempt) := by
  unfold nextAttempt
  split
  · unfold requestsLeft
    dsimp only
    omega
  · unfold requestsLeft
    dsimp only
    omega

theorem requests_does {round : Round} {phase next : Phase} {sent : List (List UInt8)}
    (h : station.Does size round phase next sent) (hphase : InLoop phase) :
    sent.countP (isArp ARP_OPER_REQUEST) + requestsLeft next ≤ requestsLeft phase := by
  cases h with
  | answers _ _ hreply =>
    obtain ⟨_, _, rfl⟩ := handleArpRequest_some _ hreply
    rw [countP_sendFrame, Nat.zero_add]
    · exact requestsLeft_next phase
    · unfold sendArpReply
      rw [isArp_frame rfl]
      exact decide_eq_false request_ne_reply.symm
  | resolves _ _ =>
    rw [List.countP_singleton, isArp_sendIcmpEcho]
    exact Nat.zero_le _
  | fails => exact Nat.zero_le _
  | asks hattempt =>
    have hcount := countP_sendFrame_le size (isArp ARP_OPER_REQUEST)
      station.sendArpRequest round.wrote
    have hleft := requestsLeft_asks hattempt hphase
    omega
  | waits => exact (Nat.zero_add _).trans_le (requestsLeft_next phase)
  | receives _ _ => exact Nat.zero_le _

theorem echoesLeft_next (phase : Phase) : echoesLeft (nextPhase phase) ≤ echoesLeft phase := by
  cases phase with
  | ready => exact le_rfl
  | resolving attempt =>
    unfold nextPhase nextAttempt
    dsimp only
    split
    · exact le_rfl
    · exact Nat.zero_le _
  | awaiting targetMac attempt =>
    unfold nextPhase nextAwait
    dsimp only
    split <;> exact le_rfl
  | returned code => exact le_rfl

theorem echoes_does {round : Round} {phase next : Phase} {sent : List (List UInt8)}
    (h : station.Does size round phase next sent) :
    sent.countP isIpv4 + echoesLeft next ≤ echoesLeft phase := by
  cases h with
  | answers _ _ hreply =>
    obtain ⟨_, _, rfl⟩ := handleArpRequest_some _ hreply
    rw [countP_sendFrame, Nat.zero_add]
    · exact echoesLeft_next phase
    · exact isIpv4_frame rfl
  | resolves _ _ => exact List.countP_le_length
  | fails => exact Nat.zero_le _
  | asks _ =>
    rw [countP_sendFrame, Nat.zero_add]
    · exact echoesLeft_next (.resolving _)
    · exact isIpv4_frame rfl
  | waits => exact (Nat.zero_add _).trans_le (echoesLeft_next phase)
  | receives _ _ => exact Nat.zero_le _

/-- In this round somebody asks for the station's address. -/
def asksFor (station : Station) (round : Round) : Bool :=
  (round.received.bind station.handleArpRequest).isSome

theorem replies_does {round : Round} {phase next : Phase} {sent : List (List UInt8)}
    (h : station.Does size round phase next sent) :
    sent.countP (isArp ARP_OPER_REPLY) ≤ (if asksFor station round then 1 else 0) := by
  cases h with
  | answers _ hframe hreply =>
    have hasks : asksFor station round = true := by
      unfold asksFor
      rw [hframe, Option.bind_some, hreply]
      rfl
    rw [if_pos hasks]
    exact countP_sendFrame_le _ _ _ _
  | resolves _ _ =>
    rw [List.countP_singleton, isArp_sendIcmpEcho]
    exact Nat.zero_le _
  | fails => exact Nat.zero_le _
  | asks _ =>
    rw [countP_sendFrame]
    · exact Nat.zero_le _
    · unfold sendArpRequest
      rw [isArp_frame rfl]
      exact decide_eq_false request_ne_reply
  | waits => exact Nat.zero_le _
  | receives _ _ => exact Nat.zero_le _

theorem replies_run (size : ℕ) (station : Station) (phase : Phase) (rounds : List Round) :
    (station.run size phase rounds).2.countP (isArp ARP_OPER_REPLY) ≤
      rounds.countP (asksFor station) := by
  induction rounds generalizing phase with
  | nil => exact le_rfl
  | cons round rounds ih =>
    have hdoes : station.Does size round phase _ _ := does_step phase round
    have hfirst := replies_does hdoes
    have hrest := ih (station.step size phase round).1
    rw [run_cons, List.countP_append, List.countP_cons]
    omega

theorem roundsLeft_next {phase : Phase} (h : InLoop phase) :
    roundsLeft (nextPhase phase) ≤ roundsLeft phase - 1 := by
  cases phase with
  | ready => exact h.elim
  | resolving attempt =>
    have hattempt : attempt < 400 := h
    unfold nextPhase nextAttempt
    dsimp only
    split
    · unfold roundsLeft
      dsimp only
      omega
    · exact Nat.zero_le _
  | awaiting targetMac attempt =>
    unfold nextPhase nextAwait
    dsimp only
    split
    · unfold roundsLeft
      dsimp only
      omega
    · exact Nat.zero_le _
  | returned code => exact Nat.zero_le _

theorem roundsLeft_does {round : Round} {phase next : Phase} {sent : List (List UInt8)}
    (h : station.Does size round phase next sent) (hphase : InLoop phase) :
    roundsLeft next ≤ roundsLeft phase - 1 := by
  cases h with
  | answers _ _ _ => exact roundsLeft_next hphase
  | resolves _ _ =>
    unfold InLoop at hphase
    unfold roundsLeft
    dsimp only
    omega
  | fails => exact Nat.zero_le _
  | asks _ => exact roundsLeft_next hphase
  | waits => exact roundsLeft_next hphase
  | receives _ _ => exact Nat.zero_le _

theorem inLoop_step (phase : Phase) (round : Round) (h : InLoop phase) :
    InLoop (station.step size phase round).1 := inLoop_does (does_step phase round) h

theorem roundsLeft_run (size : ℕ) (station : Station) {phase : Phase} (h : InLoop phase)
    (rounds : List Round) :
    InLoop (station.run size phase rounds).1 ∧
      roundsLeft (station.run size phase rounds).1 ≤ roundsLeft phase - rounds.length := by
  induction rounds generalizing phase with
  | nil => exact ⟨h, le_rfl⟩
  | cons round rounds ih =>
    have hdoes : station.Does size round phase _ _ := does_step phase round
    have hfirst := roundsLeft_does hdoes h
    obtain ⟨hloop, hrest⟩ := ih (inLoop_does hdoes h)
    rw [run_cons, List.length_cons]
    dsimp only
    exact ⟨hloop, by omega⟩

theorem requests_run (size : ℕ) (station : Station) {phase : Phase} (h : InLoop phase)
    (rounds : List Round) :
    (station.run size phase rounds).2.countP (isArp ARP_OPER_REQUEST) +
      requestsLeft (station.run size phase rounds).1 ≤ requestsLeft phase := by
  apply run_budget inLoop_step _ h
  intro phase round hphase
  exact requests_does (does_step phase round) hphase

theorem echoes_run (size : ℕ) (station : Station) {phase : Phase} (h : InLoop phase)
    (rounds : List Round) :
    (station.run size phase rounds).2.countP isIpv4 +
      echoesLeft (station.run size phase rounds).1 ≤ echoesLeft phase := by
  apply run_budget inLoop_step _ h
  intro phase round _
  exact echoes_does (does_step phase round)

theorem returned_of_roundsLeft {phase : Phase} (h : InLoop phase) (hleft : roundsLeft phase = 0) :
    ∃ code, phase = .returned code := by
  cases phase with
  | ready => exact h.elim
  | resolving attempt =>
    unfold InLoop at h
    unfold roundsLeft at hleft
    dsimp only at h hleft
    omega
  | awaiting targetMac attempt =>
    unfold InLoop at h
    unfold roundsLeft at hleft
    dsimp only at h hleft
    omega
  | returned code => exact ⟨code, rfl⟩

end Budget

section Success

variable {size station}

/-- A round in which the target's answer to the echo request is taken. -/
def Answered (station : Station) (round : Round) : Prop :=
  ∃ frame, round.received = some frame ∧ station.tryHandleIcmpReply frame 1 = true

def Resolved (station : Station) (mac : Mac) (round : Round) : Prop :=
  ∃ frame, round.received = some frame ∧ station.tryParseArpReply frame = some mac

theorem run_returned (code : ℤ) (rounds : List Round) :
    station.run size (.returned code) rounds = (.returned code, []) := by
  induction rounds with
  | nil => rfl
  | cons round rounds ih =>
    have hstep : station.step size (.returned code) round = (.returned code, []) := rfl
    rw [run_cons, hstep, ih]
    rfl

/-- How a program that is to return 0 gets there from its phase. -/
def Reports (station : Station) (rounds : List Round) (sent : List (List UInt8)) : Phase → Prop
  | .ready => False
  | .resolving _ => ∃ mac asked answered, [asked, answered].Sublist rounds ∧
      Resolved station mac asked ∧ station.sendIcmpEcho 1 mac ∈ sent ∧ Answered station answered
  | .awaiting _ _ => ∃ answered ∈ rounds, Answered station answered
  | .returned code => code = 0

theorem Reports.cons {round : Round} {rounds : List Round} {sent more : List (List UInt8)}
    {phase : Phase} (h : Reports station rounds more phase) :
    Reports station (round :: rounds) (sent ++ more) phase := by
  cases phase with
  | ready => exact h
  | resolving attempt =>
    obtain ⟨mac, asked, answered, hrounds, hasked, hecho, hanswered⟩ := h
    exact ⟨mac, asked, answered, hrounds.cons round, hasked, List.mem_append_right _ hecho,
      hanswered⟩
  | awaiting targetMac attempt =>
    obtain ⟨answered, hmem, hanswered⟩ := h
    exact ⟨answered, List.mem_cons_of_mem _ hmem, hanswered⟩
  | returned code => exact h

theorem Reports.of_next {rounds : List Round} {sent : List (List UInt8)} {phase : Phase}
    (h : Reports station rounds sent (nextPhase phase)) : Reports station rounds sent phase := by
  cases phase with
  | ready => exact h
  | resolving attempt =>
    unfold nextPhase nextAttempt at h
    dsimp only at h
    split at h
    · exact h
    · cases h
  | awaiting targetMac attempt =>
    unfold nextPhase nextAwait at h
    dsimp only at h
    split at h
    · exact h
    · cases h
  | returned code => exact h

theorem reports_does {round : Round} {rounds : List Round} {phase next : Phase}
    {sent more : List (List UInt8)} (h : station.Does size round phase next sent)
    (hrest : Reports station rounds more next) :
    Reports station (round :: rounds) (sent ++ more) phase := by
  cases h with
  | answers _ _ _ => exact hrest.of_next.cons
  | resolves hframe hmac =>
    obtain ⟨answered, hmem, hanswered⟩ := hrest
    refine ⟨_, round, answered, ?_, ⟨_, hframe, hmac⟩, List.mem_cons_self, hanswered⟩
    exact (List.singleton_sublist.mpr hmem).cons_cons round
  | fails => cases hrest
  | asks _ =>
    have hphase : Reports station rounds more (.resolving _) := Reports.of_next hrest
    exact hphase.cons
  | waits => exact hrest.of_next.cons
  | receives hframe htaken => exact ⟨round, List.mem_cons_self, _, hframe, htaken⟩

theorem reports_run {phase : Phase} {rounds : List Round}
    (h : (station.run size phase rounds).1 = .returned 0) :
    Reports station rounds (station.run size phase rounds).2 phase := by
  induction rounds generalizing phase with
  | nil =>
    rw [run_nil] at h
    dsimp only at h
    subst h
    rfl
  | cons round rounds ih =>
    rw [run_cons] at h ⊢
    exact reports_does (does_step phase round) (ih h)

/-- The start is one request at most. -/
theorem start_cases (size : ℕ) (station : Station) (initialized wrote : Bool) :
    station.start size initialized wrote = (.returned (-1), []) ∨
      station.start size initialized wrote =
        (.resolving 0, sendFrame size station.sendArpRequest wrote) := by
  unfold start
  split
  · exact Or.inl rfl
  · split
    · exact Or.inl rfl
    · exact Or.inr rfl

end Success

/-- Whatever is received: the program ends after 900 rounds, asks for the target's address
five times at most, sends one echo request at most and answers no more requests than there
are. It reports an echo reply only if one was received after the target's address. -/
theorem ping_run (size : ℕ) (station : Station) (initialized wrote : Bool)
    (rounds : List Round) :
    let first := station.start size initialized wrote
    let rest := station.run size first.1 rounds
    let sent := first.2 ++ rest.2
    (900 ≤ rounds.length → ∃ code, rest.1 = .returned code) ∧
    sent.countP (isArp ARP_OPER_REQUEST) ≤ 5 ∧ sent.countP isIpv4 ≤ 1 ∧
    sent.countP (isArp ARP_OPER_REPLY) ≤ rounds.countP (asksFor station) ∧
    (rest.1 = .returned 0 → ∃ mac asked answered, [asked, answered].Sublist rounds ∧
      Resolved station mac asked ∧ station.sendIcmpEcho 1 mac ∈ rest.2 ∧
      Answered station answered) := by
  dsimp only
  obtain h | h := station.start_cases size initialized wrote
  · rw [h, run_returned]
    refine ⟨fun _ => ⟨_, rfl⟩, Nat.zero_le _, Nat.zero_le _, Nat.zero_le _, fun hcode => ?_⟩
    cases hcode
  · have hloop : InLoop (.resolving 0) := Nat.zero_lt_succ 399
    obtain ⟨hlast, hleft⟩ := station.roundsLeft_run size hloop rounds
    have hrequests := station.requests_run size hloop rounds
    have hechoes := station.echoes_run size hloop rounds
    have hreplies := station.replies_run size (.resolving 0) rounds
    have hrequest := countP_sendFrame_le size (isArp ARP_OPER_REQUEST) station.sendArpRequest wrote
    have hecho : (sendFrame size station.sendArpRequest wrote).countP isIpv4 = 0 :=
      countP_sendFrame (isIpv4_frame rfl) wrote
    have hreply : (sendFrame size station.sendArpRequest wrote).countP
        (isArp ARP_OPER_REPLY) = 0 := by
      apply countP_sendFrame
      unfold sendArpRequest
      rw [isArp_frame rfl]
      exact decide_eq_false request_ne_reply
    have hfive : requestsLeft (.resolving 0) = 4 := rfl
    have hone : echoesLeft (.resolving 0) = 1 := rfl
    have hmost : roundsLeft (.resolving 0) = 900 := rfl
    rw [h]
    dsimp only
    rw [List.countP_append, List.countP_append, List.countP_append]
    refine ⟨fun hrounds => returned_of_roundsLeft hlast (by omega), by omega, by omega, by omega,
      ?_⟩
    exact reports_run

section Exchange

variable {size station}

theorem sendFrame_of_le {payload : List UInt8} (h : payload.length ≤ size) :
    sendFrame size payload true = [payload] := by
  unfold sendFrame
  rw [if_neg (Nat.not_lt.mpr h)]
  rfl

theorem length_sendArpReply (mac : Mac) (ip : UInt32) :
    (station.sendArpReply mac ip).length = 42 := by
  unfold sendArpReply
  rw [List.length_append, length_ethernetBytes, length_arpBytes]

theorem length_sendIcmpEcho (sequence : UInt16) (mac : Mac) :
    (station.sendIcmpEcho sequence mac).length = 74 := by
  unfold sendIcmpEcho icmpEchoFrame
  rw [mac_toList, mac_toList]
  rfl

/-- A request for this station's address is answered in any phase. -/
theorem step_request {phase : Phase} (hphase : phase.Running) {frame reply : List UInt8}
    (h : station.handleArpRequest frame = some reply) (wrote : Bool) :
    station.step size phase ⟨some frame, wrote⟩ =
      (nextPhase phase, sendFrame size reply wrote) := by
  cases phase with
  | ready => exact hphase.elim
  | resolving attempt =>
    unfold step resolveTargetMac
    dsimp only
    rw [h]
    rfl
  | awaiting targetMac attempt =>
    unfold step awaitIcmpReply
    dsimp only
    rw [h]
    rfl
  | returned code => exact hphase.elim

theorem step_reply {frame : List UInt8} {mac : Mac}
    (hrequest : station.handleArpRequest frame = none)
    (hreply : station.tryParseArpReply frame = some mac) (attempt : ℕ) (wrote : Bool) :
    station.step size (.resolving attempt) ⟨some frame, wrote⟩ =
      station.resolved size mac wrote := by
  unfold step resolveTargetMac
  dsimp only
  rw [hrequest]
  dsimp only
  rw [hreply]

theorem nextAttempt_ne (attempt : ℕ) (mac : Mac) (n : ℕ) :
    nextAttempt attempt ≠ .awaiting mac n := by
  unfold nextAttempt
  split
  · exact Phase.noConfusion
  · exact Phase.noConfusion

/-- Only an answer resolves the target. -/
theorem resolved_does {round : Round} {attempt n : ℕ} {mac : Mac} {next : Phase}
    {sent : List (List UInt8)} (h : station.Does size round (.resolving attempt) next sent)
    (hnext : next = .awaiting mac n) : Resolved station mac round := by
  cases h with
  | answers _ _ _ => exact absurd hnext (nextAttempt_ne attempt mac n)
  | resolves hframe hmac =>
    obtain ⟨rfl, _⟩ := Phase.awaiting.inj hnext
    exact ⟨_, hframe, hmac⟩
  | fails => cases hnext
  | asks _ => exact absurd hnext (nextAttempt_ne attempt mac n)
  | waits => exact absurd hnext (nextAttempt_ne attempt mac n)

theorem not_resolved {frame : List UInt8} (h : station.tryParseArpReply frame = none)
    (attempt : ℕ) (wrote : Bool) (mac : Mac) (n : ℕ) :
    (station.step size (.resolving attempt) ⟨some frame, wrote⟩).1 ≠ .awaiting mac n := by
  intro hawaiting
  obtain ⟨f, hframe, hmac⟩ := resolved_does (does_step _ _) hawaiting
  obtain rfl := Option.some.inj hframe
  rw [h] at hmac
  cases hmac

end Exchange

/-- A station whose address is asked for answers with one frame, whatever its program waits
for, and this frame resolves the target for the one that asked and for nobody else. The
frames of the other stations do not. -/
theorem arp_exchange (size : ℕ) (hsize : 74 ≤ size) (asker answerer : Station) (phase : Phase)
    (hphase : phase.Running) (attempt : ℕ) (padding : List UInt8) :
    let request : Round := ⟨some (asker.sendArpRequest ++ padding), true⟩
    let reply := answerer.sendArpReply asker.mac asker.localIp
    (answerer.localIp = asker.targetIp →
      answerer.step size phase request = (nextPhase phase, [reply]) ∧
      (∀ more, asker.step size (.resolving attempt) ⟨some (reply ++ more), true⟩ =
        (.awaiting answerer.mac 0, [asker.sendIcmpEcho 1 answerer.mac])) ∧
      ∀ other : Station, other.localIp ≠ asker.localIp → ∀ more wrote mac n,
        (other.step size (.resolving attempt) ⟨some (reply ++ more), wrote⟩).1 ≠
          .awaiting mac n) ∧
    (answerer.localIp ≠ asker.targetIp →
      ∀ frame ∈ (answerer.step size phase request).2, ∀ more wrote mac n,
        (asker.step size (.resolving attempt) ⟨some (frame ++ more), wrote⟩).1 ≠
          .awaiting mac n) := by
  dsimp only
  constructor
  · intro hip
    refine ⟨?_, ?_, ?_⟩
    · have hanswer := handleArpRequest_sendArpRequest answerer asker padding
      rw [if_pos hip] at hanswer
      rw [step_request hphase hanswer, sendFrame_of_le]
      rw [length_sendArpReply]
      omega
    · intro more
      have hreply := tryParseArpReply_sendArpReply asker answerer asker.mac asker.localIp more
      rw [if_pos ⟨hip, rfl⟩] at hreply
      rw [step_reply (handleArpRequest_sendArpReply asker _ _ _ _) hreply]
      unfold resolved
      rw [sendFrame_of_le (by rw [length_sendIcmpEcho]; exact hsize)]
    · intro other hother more wrote mac n
      apply not_resolved
      rw [tryParseArpReply_sendArpReply]
      exact if_neg fun h => hother h.2.symm
  · intro hip frame hframe more wrote mac n
    have hanswer := handleArpRequest_sendArpRequest answerer asker padding
    rw [if_neg hip] at hanswer
    have hdoes : answerer.Does size _ phase _ _ := 
      does_step phase ⟨some (asker.sendArpRequest ++ padding), true⟩
    apply not_resolved
    generalize answerer.step size phase _ = outcome at hframe hdoes
    obtain ⟨next, sent⟩ := outcome
    dsimp only at hframe hdoes
    cases hdoes with
    | answers _ hreceived hreply =>
      obtain rfl := Option.some.inj hreceived
      rw [hanswer] at hreply
      cases hreply
    | resolves hreceived hmac =>
      obtain rfl := Option.some.inj hreceived
      rw [tryParseArpReply_sendArpRequest] at hmac
      cases hmac
    | fails => cases hframe
    | asks _ =>
      rw [mem_sendFrame hframe]
      exact tryParseArpReply_sendArpRequest asker answerer more
    | waits => cases hframe
    | receives _ _ => cases hframe

theorem arp_exchange_neighbours :
    (Station.step 1514 ⟨Vector.replicate 6 1, 0x0A000001, 0x0A000002⟩ (.resolving 7)
        ⟨some (Station.sendArpReply ⟨Vector.replicate 6 2, 0x0A000002, 0x0A000001⟩
          (Vector.replicate 6 1) 0x0A000001 ++ List.replicate 18 0), true⟩).1 =
      .awaiting (Vector.replicate 6 2) 0 :=
  congrArg Prod.fst (((arp_exchange 1514 (by decide)
    ⟨Vector.replicate 6 1, 0x0A000001, 0x0A000002⟩ ⟨Vector.replicate 6 2, 0x0A000002, 0x0A000001⟩
    (.resolving 0) trivial 7 []).1 rfl).2.1 (List.replicate 18 0))

end Station

section Network

variable {ι : Type*}

/-- The stations' programs, and every frame that was ever sent, with its sender. A sender
that is none of the stations has no name. -/
structure Net (ι : Type*) where
  phase : ι → Phase
  log : List (Option ι × List UInt8)

inductive Event (ι : Type*)
  | start (i : ι) (initialized wrote : Bool)
  | round (i : ι) (round : Round)
  | other (frame : List UInt8)

variable (stations : ι → Station)

def Net.initial (ι : Type*) : Net ι where
  phase _ := .ready
  log := []

/-- A frame arrives as it was sent, perhaps with padding. -/
def Net.Delivers (net : Net ι) (frame : List UInt8) : Prop :=
  ∃ e ∈ net.log, ∃ padding, frame = e.2 ++ padding

/-- No station takes this frame for news of an address that is not there. -/
def Truthful (binding : UInt32 → Mac) (frame : List UInt8) : Prop :=
  ∀ (station : Station) padding mac,
    station.tryParseArpReply (frame ++ padding) = some mac → mac = binding station.targetIp

/-- A program starts once and receives what was sent. The other senders on the network do
not claim addresses that belong to somebody else. -/
def Net.Enabled (binding : UInt32 → Mac) (net : Net ι) : Event ι → Prop
  | .start i _ _ => net.phase i = .ready
  | .round _ round => ∀ frame, round.received = some frame → net.Delivers frame
  | .other frame => Truthful binding frame

/-- What a station may have sent by now. -/
inductive Net.MaySend (binding : UInt32 → Mac) (net : Net ι) (i : ι) : List UInt8 → Prop
  | request : MaySend binding net i (stations i).sendArpRequest
  | reply {frame : List UInt8} : net.Delivers frame →
      (arpPacket frame).oper = ARP_OPER_REQUEST → (arpPacket frame).tpa = (stations i).localIp →
      MaySend binding net i
        ((stations i).sendArpReply (arpPacket frame).sha (arpPacket frame).spa)
  | echo : MaySend binding net i
      ((stations i).sendIcmpEcho 1 (binding (stations i).targetIp))

/-- What a program has found out so far. -/
def Net.Informed (binding : UInt32 → Mac) (net : Net ι) (i : ι) : Phase → Prop
  | .ready => True
  | .resolving _ => (stations i).SameNetwork
  | .awaiting targetMac _ => (stations i).SameNetwork ∧
      targetMac = binding (stations i).targetIp ∧
      (some i, (stations i).sendIcmpEcho 1 targetMac) ∈ net.log
  | .returned code => code = 0 →
      (some i, (stations i).sendIcmpEcho 1 (binding (stations i).targetIp)) ∈ net.log ∧
      ∃ reply, (none, reply) ∈ net.log ∧
        ∃ padding, (stations i).tryHandleIcmpReply (reply ++ padding) 1 = true

/-- The addresses on the network are where they should be. -/
structure Net.Safe (binding : UInt32 → Mac) (net : Net ι) : Prop where
  truthful : ∀ e ∈ net.log, Truthful binding e.2
  informed : ∀ i, net.Informed stations binding i (net.phase i)
  sent : ∀ i frame, (some i, frame) ∈ net.log →
    (stations i).SameNetwork ∧ net.MaySend stations binding i frame

section Frames

variable {stations} {binding : UInt32 → Mac}

theorem Net.Delivers.mono {net next : Net ι} (hlog : ∀ e ∈ net.log, e ∈ next.log)
    {frame : List UInt8} (h : net.Delivers frame) : next.Delivers frame := by
  obtain ⟨e, he, padding, rfl⟩ := h
  exact ⟨e, hlog e he, padding, rfl⟩

theorem Net.MaySend.mono {net next : Net ι} (hlog : ∀ e ∈ net.log, e ∈ next.log) {i : ι}
    {frame : List UInt8} (h : net.MaySend stations binding i frame) :
    next.MaySend stations binding i frame := by
  cases h with
  | request => exact .request
  | reply hframe hoper htpa => exact .reply (hframe.mono hlog) hoper htpa
  | echo => exact .echo

theorem Net.Informed.mono {net next : Net ι} (hlog : ∀ e ∈ net.log, e ∈ next.log) {i : ι}
    {phase : Phase} (h : net.Informed stations binding i phase) :
    next.Informed stations binding i phase := by
  cases phase with
  | ready => trivial
  | resolving attempt => exact h
  | awaiting targetMac attempt =>
    obtain ⟨hnetwork, hmac, hecho⟩ := h
    exact ⟨hnetwork, hmac, hlog _ hecho⟩
  | returned code =>
    intro hcode
    obtain ⟨hecho, reply, hreply, hpadding⟩ := h hcode
    exact ⟨hlog _ hecho, reply, hlog _ hreply, hpadding⟩

/-- Nothing that a station sends is taken for a wrong address. -/
theorem Net.MaySend.truthful (hbinding : ∀ i, binding (stations i).localIp = (stations i).mac)
    {net : Net ι} {i : ι} {frame : List UInt8} (h : net.MaySend stations binding i frame) :
    Truthful binding frame := by
  intro station padding mac hmac
  cases h with
  | request =>
    rw [Station.tryParseArpReply_sendArpRequest] at hmac
    cases hmac
  | reply _ _ _ =>
    rw [Station.tryParseArpReply_sendArpReply] at hmac
    split at hmac
    · rename_i haddressed
      obtain rfl := Option.some.inj hmac
      rw [← haddressed.1]
      exact (hbinding i).symm
    · cases hmac
  | echo =>
    rw [Station.tryParseArpReply_sendIcmpEcho] at hmac
    cases hmac

/-- The stations' own frames are no echo replies. -/
theorem Net.MaySend.not_reply {net : Net ι} {i : ι} {frame : List UInt8}
    (h : net.MaySend stations binding i frame) (station : Station) (padding : List UInt8) :
    station.tryHandleIcmpReply (frame ++ padding) 1 = false := by
  cases h with
  | request =>
    apply Station.tryHandleIcmpReply_eq_false
    rw [Station.sendArpRequest, Station.ethertype_arp]
    exact Station.arp_ne_ipv4
  | reply _ _ _ =>
    apply Station.tryHandleIcmpReply_eq_false
    rw [Station.sendArpReply, Station.ethertype_arp]
    exact Station.arp_ne_ipv4
  | echo => exact Station.tryHandleIcmpReply_sendIcmpEcho station _ _ _ _ _

/-- A round that decides nothing leaves the program as it was informed. -/
theorem Net.Informed.next {net : Net ι} {i : ι} {phase : Phase}
    (h : net.Informed stations binding i phase) :
    net.Informed stations binding i (Station.nextPhase phase) := by
  have hfailed : (-1 : ℤ) ≠ 0 := by decide
  cases phase with
  | ready => trivial
  | resolving attempt =>
    unfold Station.nextPhase Station.nextAttempt
    dsimp only
    split
    · exact h
    · exact fun hcode => absurd hcode hfailed
  | awaiting targetMac attempt =>
    unfold Station.nextPhase Station.nextAwait
    dsimp only
    split
    · exact h
    · exact fun hcode => absurd hcode hfailed
  | returned code => exact h

theorem Net.Informed.sameNetwork {net : Net ι} {i : ι} {phase : Phase}
    (h : net.Informed stations binding i phase) (hrunning : phase.Running) :
    (stations i).SameNetwork := by
  cases phase with
  | ready => exact hrunning.elim
  | resolving attempt => exact h
  | awaiting targetMac attempt => exact h.1
  | returned code => exact hrunning.elim

theorem Net.Safe.other {net : Net ι} (hs : net.Safe stations binding) {frame : List UInt8}
    (hframe : Truthful binding frame) :
    Net.Safe stations binding { net with log := (none, frame) :: net.log } := by
  constructor
  · intro e he
    rcases List.mem_cons.mp he with rfl | hold
    · exact hframe
    · exact hs.truthful e hold
  · intro i
    exact (hs.informed i).mono fun e he => List.mem_cons_of_mem _ he
  · intro i f hf
    rcases List.mem_cons.mp hf with hnew | hold
    · cases hnew
    · obtain ⟨hnetwork, hsent⟩ := hs.sent i f hold
      exact ⟨hnetwork, hsent.mono fun e he => List.mem_cons_of_mem _ he⟩

theorem Net.initial_safe : (Net.initial ι).Safe stations binding := by
  constructor
  · intro e he
    cases he
  · intro i
    trivial
  · intro i frame h
    cases h

end Frames

variable [DecidableEq ι] (size : ℕ)

/-- A station moves on, and what it sent is on the network. -/
def Net.move (net : Net ι) (i : ι) (outcome : Phase × List (List UInt8)) : Net ι where
  phase := Function.update net.phase i outcome.1
  log := outcome.2.map (some i, ·) ++ net.log

def Net.step (net : Net ι) : Event ι → Net ι
  | .start i initialized wrote => net.move i ((stations i).start size initialized wrote)
  | .round i round => net.move i ((stations i).step size (net.phase i) round)
  | .other frame => { net with log := (none, frame) :: net.log }

section Steps

variable {stations} {size} {binding : UInt32 → Mac}

/-- A station's move is safe if what it sends and where it goes are. -/
theorem Net.Safe.move (hbinding : ∀ i, binding (stations i).localIp = (stations i).mac)
    {net : Net ι} (hs : net.Safe stations binding) {i : ι} {phase : Phase}
    {sent : List (List UInt8)}
    (hsent : ∀ frame ∈ sent, (stations i).SameNetwork ∧ net.MaySend stations binding i frame)
    (hphase : (net.move i (phase, sent)).Informed stations binding i phase) :
    (net.move i (phase, sent)).Safe stations binding := by
  have hlog : ∀ e ∈ net.log, e ∈ (net.move i (phase, sent)).log := by
    intro e he
    exact List.mem_append_right _ he
  constructor
  · intro e he
    rcases List.mem_append.mp he with hnew | hold
    · obtain ⟨frame, hframe, rfl⟩ := List.mem_map.mp hnew
      exact (hsent frame hframe).2.truthful hbinding
    · exact hs.truthful e hold
  · intro j
    by_cases hj : j = i
    · subst hj
      have hupdate : (net.move j (phase, sent)).phase j = phase := Function.update_self ..
      rw [hupdate]
      exact hphase
    · have hupdate : (net.move i (phase, sent)).phase j = net.phase j := Function.update_of_ne hj ..
      rw [hupdate]
      exact (hs.informed j).mono hlog
  · intro j frame hframe
    rcases List.mem_append.mp hframe with hnew | hold
    · obtain ⟨f, hf, heq⟩ := List.mem_map.mp hnew
      obtain ⟨hi, rfl⟩ := Prod.mk.inj heq
      obtain rfl := Option.some.inj hi
      exact ⟨(hsent f hf).1, (hsent f hf).2.mono hlog⟩
    · exact ⟨(hs.sent j frame hold).1, (hs.sent j frame hold).2.mono hlog⟩

theorem Net.Safe.start (hbinding : ∀ i, binding (stations i).localIp = (stations i).mac)
    {net : Net ι} (hs : net.Safe stations binding) (i : ι) (initialized wrote : Bool) :
    (net.move i ((stations i).start size initialized wrote)).Safe stations binding := by
  have hnone : ∀ frame ∈ ([] : List (List UInt8)),
      (stations i).SameNetwork ∧ net.MaySend stations binding i frame := List.forall_mem_nil _
  have hfailed : (-1 : ℤ) ≠ 0 := by decide
  unfold Station.start
  split
  · exact hs.move hbinding hnone (fun h => absurd h hfailed)
  · rename_i hnetwork
    rw [not_not] at hnetwork
    split
    · exact hs.move hbinding hnone (fun h => absurd h hfailed)
    · apply hs.move hbinding
      · intro frame hframe
        obtain rfl := Station.mem_sendFrame hframe
        exact ⟨hnetwork, .request⟩
      · exact hnetwork

theorem Net.Safe.round (hbinding : ∀ i, binding (stations i).localIp = (stations i).mac)
    {net : Net ι} (hs : net.Safe stations binding) (i : ι) {round : Round}
    (hreceived : ∀ frame, round.received = some frame → net.Delivers frame) {next : Phase}
    {sent : List (List UInt8)} (h : (stations i).Does size round (net.phase i) next sent) :
    (net.move i (next, sent)).Safe stations binding := by
  have hinformed := hs.informed i
  have hmono {outcome : Phase × List (List UInt8)} {phase : Phase}
      (h : net.Informed stations binding i phase) :
      (net.move i outcome).Informed stations binding i phase :=
    h.mono fun e he => List.mem_append_right _ he
  generalize net.phase i = phase at h hinformed
  cases h with
  | answers hrunning hframe hreply =>
    obtain ⟨hoper, htpa, rfl⟩ := Station.handleArpRequest_some _ hreply
    apply hs.move hbinding
    · intro frame hmem
      obtain rfl := Station.mem_sendFrame hmem
      exact ⟨hinformed.sameNetwork hrunning, .reply (hreceived _ hframe) hoper htpa⟩
    · exact hmono hinformed.next
  | resolves hframe hmac =>
    obtain ⟨e, he, padding, rfl⟩ := hreceived _ hframe
    obtain rfl := hs.truthful e he _ padding _ hmac
    apply hs.move hbinding
    · intro frame hmem
      obtain rfl := List.mem_singleton.mp hmem
      exact ⟨hinformed, .echo⟩
    · exact ⟨hinformed, rfl, List.mem_append_left _ List.mem_cons_self⟩
  | fails =>
    apply hs.move hbinding (List.forall_mem_nil _)
    intro hcode
    cases hcode
  | asks hattempt =>
    apply hs.move hbinding
    · intro frame hmem
      obtain rfl := Station.mem_sendFrame hmem
      exact ⟨hinformed, .request⟩
    · exact hmono hinformed.next
  | waits => exact hs.move hbinding (List.forall_mem_nil _) (hmono hinformed.next)
  | receives hframe htaken =>
    obtain ⟨_, rfl, hecho⟩ := hinformed
    obtain ⟨⟨sender, reply⟩, he, padding, rfl⟩ := hreceived _ hframe
    apply hs.move hbinding (List.forall_mem_nil _)
    intro _
    refine ⟨List.mem_append_right _ hecho, reply, List.mem_append_right _ ?_, padding, htaken⟩
    -- The stations do not answer echo requests, so the reply is somebody else's.
    cases sender with
    | none => exact he
    | some j =>
      rw [(hs.sent j reply he).2.not_reply] at htaken
      cases htaken

theorem Net.Safe.step (hbinding : ∀ i, binding (stations i).localIp = (stations i).mac)
    {net : Net ι} (hs : net.Safe stations binding) {event : Event ι}
    (h : net.Enabled binding event) : (net.step stations size event).Safe stations binding := by
  cases event with
  | start i initialized wrote => exact hs.start hbinding i initialized wrote
  | round i round => exact hs.round hbinding i h (Station.does_step _ _)
  | other frame => exact hs.other h

end Steps

/-- Whatever the network does, and whoever else is on it and keeps to the addresses that
are there: every station that has resolved its target knows its address, and an echo
request goes nowhere else. ARP replies answer requests. No program reports an echo reply
unless another sender sent one. -/
theorem ping_safe (stations : ι → Station) (size : ℕ) (binding : UInt32 → Mac)
    (hbinding : ∀ i, binding (stations i).localIp = (stations i).mac) (events : List (Event ι))
    (hevents : Runs.Guarded (fun net event => some (net.step stations size event))
      (Net.Enabled binding) events (Net.initial ι)) :
    Runs.Along (fun net event => some (net.step stations size event))
      (Net.Safe stations binding) events (Net.initial ι) := by
  apply Runs.Guarded.along _ Net.initial_safe hevents
  intro net event hs henabled
  exact ⟨_, rfl, hs.step hbinding henabled⟩

/-- Two stations that look for each other. -/
def neighbours : Bool → Station
  | false => ⟨Vector.replicate 6 1, 0x0A000001, 0x0A000002⟩
  | true => ⟨Vector.replicate 6 2, 0x0A000002, 0x0A000001⟩

theorem ping_safe_neighbours :
    Runs.Along (fun net event => some (net.step neighbours 1514 event))
      (Net.Safe neighbours fun ip => Vector.replicate 6 (ip.toUInt8))
      [.start false true true, .start true true true,
        .round true ⟨some ((neighbours false).sendArpRequest ++ []), true⟩]
      (Net.initial Bool) := by
  apply ping_safe neighbours 1514 (fun ip => Vector.replicate 6 (ip.toUInt8))
  · rintro (_ | _)
    · rfl
    · rfl
  · refine ⟨rfl, fun first hfirst => ?_⟩
    obtain rfl := Option.some.inj hfirst
    refine ⟨rfl, fun second hsecond => ?_⟩
    obtain rfl := Option.some.inj hsecond
    refine ⟨fun frame hframe => ?_, fun _ _ => trivial⟩
    obtain rfl := Option.some.inj hframe
    exact ⟨_, List.mem_cons_of_mem _ List.mem_cons_self, [], rfl⟩

end Network

end Heartix.Network
