import Mathlib.Data.List.Chain
import BinanceCollector.Collector.Connection

/-!
# Attempts and waits over whole runs

A run of a collector turns: an attempt begins, it ends, a wait follows, and the next attempt begins.

- `Stage`, `stage_of_step`: a step stays inside an attempt, or takes the loop one turn further.
- `collects_iff`: only a stop request, a failed handler or a cancellation ends a run, exactly if no attempt ends with
  an exception that no clause of `run()` catches.
- `step_paced`, `backs_off`: the waits follow the delays, and a delivery starts them anew.
-/

namespace BinanceCollector.Connection

open Text

variable {μ : Type}

/-! ## Stages -/

/-- An act inside an attempt. -/
def Act.inner : Act μ → Bool
  | .begins | .ends _ | .waits _ _ _ => false
  | _ => true

/-- A phase inside an attempt. -/
def Phase.inAttempt : Phase → Bool
  | .created | .waiting _ | .returned | .raised _ => false
  | _ => true

/-- The exception on its way out. -/
def Phase.travels : Phase → Option Exc
  | .settling (.error e) | .settlingDelivery _ (.error e) | .closing (some e) | .raised e => some e
  | _ => none

/-- The failure of a handler and a cancellation have been recorded. -/
def Recorded (h : List (Act μ)) : Exc → Prop
  | .cancelled => .cancelled ∈ h
  | .messageHandler => .handlerFails ∈ h
  | _ => True

/-- A step inside an attempt. -/
structure Inside (s s' : State μ) : Prop where
  history : ∃ acts, s'.history = s.history ++ acts ∧ ∀ a ∈ acts, a.inner = true
  stop : s'.stop = s.stop
  busy : s'.phase.inAttempt = true
  travels : ∀ e, s'.phase.travels = some e → s.phase.travels = some e ∨ Recorded s'.history e
  policy : (s'.policy = s.policy ∧ s'.delivered = s.delivered ∧ s'.confirmed = s.confirmed) ∨
    (s'.policy = s.policy.reset ∧ s'.delivered = s.delivered + 1)

/-- How the input ends the attempt, if it does. -/
def attemptOutcome (s : State μ) (i : Input) : Option (Option Exc) :=
  match s.phase, i with
  | .connecting, .connectFails e => some (some e.exc)
  | .connecting, .cancel => some (some .cancelled)
  | .closing outcome, .closed => some outcome
  | .closing _, .closeFails e => some (some (.link e))
  | .closing _, .cancel => some (some .cancelled)
  | _, _ => none

/-- The stages a step leads through. -/
inductive Stage (s : State μ) (i : Input) : State μ → Prop
  | stops : i = .setStop → Stage s i { s with stop := true }
  | starts : s.phase = .created → Stage s i { s with policy := s.policy.reset }.loop
  | elapses {delay : ℚ} : s.phase = .waiting delay → Stage s i s.loop
  | inside {s' : State μ} : s.phase.inAttempt = true → attemptOutcome s i = none → Inside s s' → Stage s i s'
  | ends {t : State μ} {outcome : Option Exc} : s.phase.inAttempt = true → attemptOutcome s i = some outcome →
      (t = s ∨ t = s.act .cancelled) → (∀ e, outcome = some e → s.phase.travels = some e ∨ Recorded t.history e) →
      Stage s i (t.attemptEnds outcome)
  | leaves {s' : State μ} : (s.phase = .created ∨ ∃ delay, s.phase = .waiting delay) →
      (∃ acts, s'.history = s.history ++ acts ∧ ∀ a ∈ acts, a.inner = true) → s'.stop = s.stop →
      s'.policy = s.policy →
      (s'.phase = .returned ∧ s.stop = true ∨ s'.phase = .raised .cancelled ∧ .cancelled ∈ s'.history) → Stage s i s'

section

variable {p : Profile μ} {s : State μ}

/-- Acts of an attempt, and a new place to wait. -/
theorem Inside.acts {t : State μ} {q : Phase} (acts : List (Act μ)) (hh : t.history = s.history ++ acts)
    (ha : ∀ a ∈ acts, a.inner = true) (hs : t.stop = s.stop) (hq : q.inAttempt = true)
    (ht : ∀ e, q.travels = some e → s.phase.travels = some e ∨ Recorded t.history e)
    (hp : (t.policy = s.policy ∧ t.delivered = s.delivered ∧ t.confirmed = s.confirmed) ∨
      (t.policy = s.policy.reset ∧ t.delivered = s.delivered + 1)) : Inside s (t.at_ q) :=
  ⟨⟨acts, hh, ha⟩, hs, hq, ht, hp⟩

theorem Inside.moves {q : Phase} (hq : q.inAttempt = true)
    (ht : ∀ e, q.travels = some e → s.phase.travels = some e ∨ Recorded s.history e) : Inside s (s.at_ q) :=
  .acts [] (by simp) (by simp) rfl hq ht (.inl ⟨rfl, rfl, rfl⟩)

theorem receive_inside : Inside s s.receive := by
  rw [State.receive]
  split
  · exact .moves rfl fun e he => by cases he
  · exact .moves rfl fun e he => by cases he

theorem received_inside (now : ℤ) {result : Except Exc (Option WireMessage)} (hphase : s.phase = .settling result) :
    Inside s (s.received p now result) := by
  match result with
  | .error e => exact .moves rfl fun e' he => .inl (by rw [hphase]; exact he)
  | .ok none => exact .moves rfl fun e he => by cases he
  | .ok (some payload) =>
    exact .acts [.receives payload, .handles payload (p.message s.attempt (s.sequence + 1) payload now)]
      (by simp [State.act]) (by simp [Act.inner]) rfl rfl (fun e he => by cases he) (.inl ⟨rfl, rfl, rfl⟩)

/-- What is done about a message after it has been delivered stays inside the attempt. -/
theorem Inside.delivers {t t' : State μ} (h : Inside t t') (hp : t'.policy = t.policy) (hd : t'.delivered = t.delivered)
    (acts : List (Act μ)) (hh : t.history = s.history ++ acts) (ha : ∀ a ∈ acts, a.inner = true)
    (hstop : t.stop = s.stop) (hphase : t.phase = s.phase) (hpolicy : t.policy = s.policy.reset)
    (hdelivered : t.delivered = s.delivered + 1) : Inside s t' := by
  obtain ⟨acts', hh', ha'⟩ := h.history
  refine ⟨⟨acts ++ acts', by rw [hh', hh, List.append_assoc], fun a hmem => ?_⟩, h.stop.trans hstop, h.busy,
    fun e he => hphase ▸ h.travels e he, .inr ⟨hp.trans hpolicy, hd.trans hdelivered⟩⟩
  rcases List.mem_append.1 hmem with hmem | hmem
  · exact ha a hmem
  · exact ha' a hmem

theorem watch_inside (payload : WireMessage) : Inside s (s.watch p payload) ∧ (s.watch p payload).policy = s.policy ∧
    (s.watch p payload).delivered = s.delivered := by
  rw [State.watch]
  split
  · exact ⟨.moves rfl fun e he => .inr (by cases he; trivial), rfl, rfl⟩
  · rename_i known _
    -- the status of the data is all that may be reported before
    obtain ⟨acts, hacts, hin, hstop, hphase, hpolicy, hdelivered, hconfirmed⟩ : ∃ acts : List (Act μ),
        (if known then s.report .receivingData else s).history = s.history ++ acts ∧ (∀ a ∈ acts, a.inner = true) ∧
        (if known then s.report .receivingData else s).stop = s.stop ∧
        (if known then s.report .receivingData else s).phase = s.phase ∧
        (if known then s.report .receivingData else s).policy = s.policy ∧
        (if known then s.report .receivingData else s).delivered = s.delivered ∧
        (if known then s.report .receivingData else s).confirmed = s.confirmed := by
      cases known
      · exact ⟨[], by simp, by simp, rfl, rfl, rfl, rfl, rfl⟩
      · exact ⟨[.reports .receivingData], rfl, by simp [Act.inner], rfl, rfl, rfl, rfl, rfl⟩
    generalize (if known then s.report .receivingData else s) = t at hacts hstop hphase hpolicy hdelivered hconfirmed
    split
    · exact ⟨.acts acts hacts hin hstop rfl (fun e he => .inr (by cases he; trivial))
        (.inl ⟨hpolicy, hdelivered, hconfirmed⟩), hpolicy, hdelivered⟩
    · refine ⟨.acts (acts ++ [.controls .shutsDown payload]) (by simp [State.act, hacts]) (fun a ha => ?_) hstop rfl
        (fun e he => by cases he) (.inl ⟨hpolicy, hdelivered, hconfirmed⟩), hpolicy, hdelivered⟩
      rcases List.mem_append.1 ha with ha | ha
      · exact hin a ha
      · rw [List.mem_singleton.1 ha]; rfl
    · rw [State.receive]
      split
      · exact ⟨.acts acts hacts hin hstop rfl (fun e he => by cases he) (.inl ⟨hpolicy, hdelivered, hconfirmed⟩),
          hpolicy, hdelivered⟩
      · exact ⟨.acts acts hacts hin hstop rfl (fun e he => by cases he) (.inl ⟨hpolicy, hdelivered, hconfirmed⟩),
          hpolicy, hdelivered⟩

theorem handled_inside (payload : WireMessage) : Inside s (s.handled p payload) := by
  rw [State.handled]
  split
  · exact .acts [.delivers] rfl (by simp [Act.inner]) rfl rfl (fun e he => .inr (by cases he; trivial))
      (.inr ⟨rfl, rfl⟩)
  · exact .acts [.delivers, .controls .rejects payload] (by simp [State.act]) (by simp [Act.inner]) rfl rfl
      (fun e he => .inr (by cases he; trivial)) (.inr ⟨rfl, rfl⟩)
  · obtain ⟨h, hp, hd⟩ := watch_inside (p := p) payload
    exact h.delivers hp hd [.delivers, .controls .confirms payload, .reports (.subscribed p.streams)]
      (by simp [State.act, State.report]) (by simp [Act.inner]) rfl rfl rfl rfl
  · obtain ⟨h, hp, hd⟩ := watch_inside (p := p) payload
    exact h.delivers hp hd [.delivers] rfl (by simp [Act.inner]) rfl rfl rfl rfl

theorem handlerEnds_inside {t : State μ} {payload : WireMessage} {result : Except Exc Bool} (acts : List (Act μ))
    (hh : t.history = s.history ++ acts) (ha : ∀ a ∈ acts, a.inner = true) (hstop : t.stop = s.stop)
    (hp : t.policy = s.policy ∧ t.delivered = s.delivered ∧ t.confirmed = s.confirmed)
    (hr : (∃ b, result = .ok b ∧ t = s) ∨ ∃ e, result = .error e ∧ Recorded t.history e) :
    Inside s (t.handlerEnds p payload result) := by
  unfold State.handlerEnds
  split
  · refine .acts acts hh ha hstop rfl (fun e he => ?_) (.inl hp)
    obtain ⟨b, rfl, -⟩ | ⟨e', rfl, hrec⟩ := hr
    · cases he
    · cases he
      exact .inr hrec
  · obtain ⟨b, rfl, rfl⟩ | ⟨e', rfl, hrec⟩ := hr
    · exact handled_inside payload
    · exact .acts acts hh ha hstop rfl (fun e he => by cases he; exact .inr hrec) (.inl hp)

theorem deliveryEnds_inside {payload : WireMessage} {result : Except Exc Bool}
    (hphase : s.phase = .settlingDelivery payload result) : Inside s (s.deliveryEnds p payload result) := by
  match result with
  | .ok true => exact handled_inside payload
  | .ok false => exact .moves rfl fun e he => by cases he
  | .error e => exact .moves rfl fun e' he => .inl (by rw [hphase]; exact he)

theorem cancel_stage {s' : State μ} (h : s.cancel p = some s') : Stage s .cancel s' := by
  have hrec : Recorded (s.act .cancelled).history .cancelled := by simp [Recorded, State.act]
  have hin : ∀ q : Phase, q.inAttempt = true → q.travels = some .cancelled → Inside s ((s.act .cancelled).at_ q) :=
    fun q hq ht => .acts [.cancelled] rfl (by simp [Act.inner]) rfl hq
      (fun e he => by rw [ht] at he; cases he; exact .inr hrec) (.inl ⟨rfl, rfl, rfl⟩)
  have hout : ∀ e, some Exc.cancelled = some e → s.phase.travels = some e ∨ Recorded (s.act .cancelled).history e :=
    fun e he => by cases he; exact .inr hrec
  simp only [State.cancel, show (s.act .cancelled).phase = s.phase from rfl] at h
  split at h <;> rename_i hphase <;> cases h
  · exact .leaves (.inl hphase) ⟨[.cancelled], rfl, by simp [Act.inner]⟩ rfl rfl (.inr ⟨rfl, hrec⟩)
  · exact .ends (by rw [hphase]; rfl) (by simp [attemptOutcome, hphase]) (.inr rfl) hout
  · exact .inside (by rw [hphase]; rfl) (by simp [attemptOutcome, hphase]) (hin _ rfl rfl)
  · exact .inside (by rw [hphase]; rfl) (by simp [attemptOutcome, hphase]) (hin _ rfl rfl)
  · exact .inside (by rw [hphase]; rfl) (by simp [attemptOutcome, hphase]) (hin _ rfl rfl)
  · exact .inside (by rw [hphase]; rfl) (by simp [attemptOutcome, hphase])
      (handlerEnds_inside [.cancelled] rfl (by simp [Act.inner]) rfl ⟨rfl, rfl, rfl⟩ (.inr ⟨_, rfl, hrec⟩))
  · exact .inside (by rw [hphase]; rfl) (by simp [attemptOutcome, hphase]) (hin _ rfl rfl)
  · exact .ends (by rw [hphase]; rfl) (by simp [attemptOutcome, hphase]) (.inr rfl) hout
  · exact .leaves (.inr ⟨_, hphase⟩) ⟨[.cancelled, .reports .terminated],
      by simp [State.finish, State.report, State.act, State.at_], by simp [Act.inner]⟩ rfl rfl
      (.inr ⟨rfl, by simp [State.finish, State.report, State.act, State.at_]⟩)

/-- **The stage of a step.** -/
theorem stage_of_step {s' : State μ} {i : Input} (h : (machine p).step s i = some s') : Stage s i s' := by
  have hlink : ∀ e e' : Exc, (∃ l, e = .link l) ∨ e = .subscription .timeout ∨ e = .invalidHandshake →
      some e = some e' → s.phase.travels = some e' ∨ Recorded s.history e' := by
    rintro e e' (⟨l, rfl⟩ | rfl | rfl) he <;> cases he <;> exact .inr trivial
  cases effect_of_step h with
  | setStop => exact .stops rfl
  | start hphase => exact .starts hphase
  | connected hphase =>
    exact .inside (by rw [hphase]; rfl) (by simp [attemptOutcome, hphase])
      (.acts [.reports .connected, .reports .subscribing] (by simp [State.report, State.act]) (by simp [Act.inner]) rfl
        rfl (fun e he => by cases he) (.inl ⟨rfl, rfl, rfl⟩))
  | @connectFails e hphase =>
    refine .ends (by rw [hphase]; rfl) (by simp [attemptOutcome, hphase]) (.inl rfl) fun e' he => ?_
    cases e with
    | link l => exact hlink _ _ (.inl ⟨l, rfl⟩) he
    | invalidHandshake => exact hlink _ _ (.inr (.inr rfl)) he
  | sent hphase => exact .inside (by rw [hphase]; rfl) (by simp [attemptOutcome, hphase]) receive_inside
  | @sendFails e hphase =>
    exact .inside (by rw [hphase]; rfl) (by simp [attemptOutcome, hphase])
      (.moves rfl fun e' he => hlink _ _ (.inl ⟨e, rfl⟩) he)
  | receives hphase =>
    exact .inside (by rw [hphase]; rfl) (by simp [attemptOutcome, hphase]) (.moves rfl fun e he => by cases he)
  | @recvFails e hphase =>
    exact .inside (by rw [hphase]; rfl) (by simp [attemptOutcome, hphase])
      (.moves rfl fun e' he => hlink _ _ (.inl ⟨e, rfl⟩) he)
  | ackTimeout hphase =>
    exact .inside (by rw [hphase]; rfl) (by simp [attemptOutcome, hphase])
      (.moves rfl fun e' he => hlink _ _ (.inr (.inl rfl)) he)
  | stopReceiving hphase =>
    exact .inside (by rw [hphase]; rfl) (by simp [attemptOutcome, hphase]) (.moves rfl fun e he => by cases he)
  | stopHandling hphase =>
    exact .inside (by rw [hphase]; rfl) (by simp [attemptOutcome, hphase]) (.moves rfl fun e he => by cases he)
  | stopWaiting hphase hstop =>
    exact .leaves (.inr ⟨_, hphase⟩) ⟨[.reports .terminated], rfl, by simp [Act.inner]⟩ rfl rfl (.inl ⟨rfl, hstop⟩)
  | settled hphase =>
    exact .inside (by rw [hphase]; rfl) (by simp [attemptOutcome, hphase]) (received_inside _ hphase)
  | deliverySettled hphase =>
    exact .inside (by rw [hphase]; rfl) (by simp [attemptOutcome, hphase]) (deliveryEnds_inside hphase)
  | handlerReturns hphase =>
    exact .inside (by rw [hphase]; rfl) (by simp [attemptOutcome, hphase])
      (handlerEnds_inside [] (by simp) (by simp) rfl ⟨rfl, rfl, rfl⟩ (.inl ⟨true, rfl, rfl⟩))
  | handlerRaises hphase =>
    exact .inside (by rw [hphase]; rfl) (by simp [attemptOutcome, hphase])
      (handlerEnds_inside [.handlerFails] rfl (by simp [Act.inner]) rfl ⟨rfl, rfl, rfl⟩
        (.inr ⟨_, rfl, by simp [Recorded, State.act]⟩))
  | @closed outcome hphase =>
    refine .ends (by rw [hphase]; rfl) (by simp [attemptOutcome, hphase]) (.inl rfl) fun e he => .inl ?_
    rw [hphase, he]
    rfl
  | @closeFails e outcome hphase =>
    exact .ends (by rw [hphase]; rfl) (by simp [attemptOutcome, hphase]) (.inl rfl) fun e' he =>
      hlink _ _ (.inl ⟨e, rfl⟩) he
  | elapsed hphase => exact .elapses hphase
  | cancel hc => exact cancel_stage hc

end

/-! ## Turns -/

/-- The turns of the loop in a history. -/
def turns (h : List (Act μ)) : List (Act μ) := h.filter fun a => !a.inner

/-- The order of turns: an attempt, its end, a wait. -/
def Follows : Act μ → Act μ → Prop
  | .begins, .ends _ | .ends _, .waits _ _ _ | .waits _ _ _, .begins => True
  | _, _ => False

/-- Where the task waits after the last turn: a run ends after the end of an attempt or after a wait, and then it
returns, or raises what the attempt has raised, or the cancellation of the wait. -/
def Rests (s : State μ) : Option (Act μ) → Prop
  | none => s.phase = .created ∨ s.phase = .returned ∨ s.phase = .raised .cancelled
  | some .begins => s.phase.inAttempt = true
  | some (.ends outcome) => s.phase = .returned ∨ ∃ e, outcome = some e ∧ s.phase = .raised e
  | some (.waits _ _ delay) => s.phase = .waiting delay ∨ s.phase = .returned ∨ s.phase = .raised .cancelled
  | some _ => False

/-- The turns of a run. -/
structure Turning (s : State μ) : Prop where
  first : ∀ a ∈ (turns s.history).head?, a = .begins
  chain : (turns s.history).IsChain Follows
  rests : Rests s (turns s.history).getLast?
  returned : s.phase = .returned → s.stop = true
  recorded : ∀ e, s.phase.travels = some e → Recorded s.history e

/-- The outcomes after which the collector tries again. -/
def retried : Option Exc → Bool
  | none | some (.subscription _) | some (.link _) => true
  | _ => false

theorem turns_inner (h acts : List (Act μ)) (ha : ∀ a ∈ acts, a.inner = true) :
    turns (h ++ acts) = turns h := by
  have hnil : acts.filter (fun a => !a.inner) = [] := List.filter_eq_nil_iff.2 fun a hmem => by simp [ha a hmem]
  rw [turns, List.filter_append, hnil, List.append_nil]
  rfl

theorem turns_turn (h : List (Act μ)) {a : Act μ} (ha : a.inner = false) : turns (h ++ [a]) = turns h ++ [a] := by
  simp [turns, ha]

theorem Recorded.append {h : List (Act μ)} {e : Exc} (hr : Recorded h e) (acts : List (Act μ)) :
    Recorded (h ++ acts) e := by
  cases e <;> first | trivial | exact List.mem_append_left _ hr

/-- Where the loop leads. -/
theorem loop_cases (s : State μ) : (s.stop = true ∧ s.loop = s.finish .returned) ∨
    (s.stop = false ∧ s.loop.phase = .connecting ∧ s.loop.history = s.history ++ [.reports .connecting,
      .reports .awaitingSubscription] ++ [.begins] ∧ s.loop.stop = s.stop ∧ s.loop.policy = s.policy ∧
      s.loop.delivered = 0 ∧ s.loop.confirmed = false) := by
  unfold State.loop
  cases hstop : s.stop with
  | true => exact .inl ⟨rfl, rfl⟩
  | false => exact .inr ⟨rfl, rfl, by simp [State.at_, State.act, State.report], hstop, rfl, rfl, rfl⟩

/-- Where the end of an attempt leads that the collector gets over. -/
theorem retry_cases (s : State μ) (outcome : Option Exc) :
    (s.stop = true ∧ s.retry outcome = s.finish .returned) ∨
    (s.stop = false ∧ (s.retry outcome).phase = .waiting s.policy.nextDelay.1 ∧ (s.retry outcome).history = s.history ++
      [.reports (.waiting s.policy.nextDelay.1)] ++
        [.waits ⟨outcome, s.confirmed, s.delivered⟩ s.policy.index s.policy.nextDelay.1] ∧
      (s.retry outcome).stop = s.stop ∧ (s.retry outcome).policy = s.policy.nextDelay.2) := by
  unfold State.retry
  cases hstop : s.stop with
  | true => exact .inl ⟨rfl, rfl⟩
  | false => exact .inr ⟨rfl, rfl, by simp [State.at_, State.act, State.report],
      by simp [State.at_, State.act, State.report], rfl⟩

/-- What the end of an attempt leads to. -/
theorem attemptEnds_cases (s : State μ) (outcome : Option Exc) :
    (retried outcome = true ∧ ∃ (t : State μ) (acts : List (Act μ)), s.attemptEnds outcome = t.retry outcome ∧
      t.history = s.history ++ [.ends outcome] ++ acts ∧ (∀ a ∈ acts, a.inner = true) ∧ t.stop = s.stop ∧
      t.policy = s.policy ∧ t.confirmed = s.confirmed ∧ t.delivered = s.delivered) ∨
    ∃ e, outcome = some e ∧ retried outcome = false ∧
      s.attemptEnds outcome = (s.act (.ends outcome)).finish (.raised e) := by
  match outcome with
  | none => exact .inl ⟨rfl, s.act (.ends none), [], rfl, by simp [State.act], by simp, rfl, rfl, rfl, rfl⟩
  | some (.subscription reason) =>
    exact .inl ⟨rfl, _, [.reports .subscriptionFailed, .reports (.error (.subscription reason))], rfl,
      by simp [State.act, State.report], by simp [Act.inner], rfl, rfl, rfl, rfl⟩
  | some (.link e) =>
    exact .inl ⟨rfl, _, [.reports .disconnected, .reports (.error (.link e))], rfl,
      by simp [State.act, State.report], by simp [Act.inner], rfl, rfl, rfl, rfl⟩
  | some .cancelled => exact .inr ⟨_, rfl, rfl, rfl⟩
  | some .messageHandler => exact .inr ⟨_, rfl, rfl, rfl⟩
  | some .invalidHandshake => exact .inr ⟨_, rfl, rfl, rfl⟩
  | some (.decoding failure) => exact .inr ⟨_, rfl, rfl, rfl⟩

section

variable {p : Profile μ} {s : State μ}

theorem Turning.last_begins (hs : Turning s) (hin : s.phase.inAttempt = true) :
    (turns s.history).getLast? = some .begins := by
  have hrests := hs.rests
  cases hl : (turns s.history).getLast? with
  | none =>
    rw [hl] at hrests
    rcases hrests with h | h | h <;> rw [h] at hin <;> cases hin
  | some a =>
    rw [hl] at hrests
    cases a with
    | begins => rfl
    | ends outcome =>
      rcases hrests with h | ⟨e, -, h⟩ <;> rw [h] at hin <;> cases hin
    | waits c n d =>
      rcases hrests with h | h | h <;> rw [h] at hin <;> cases hin
    | _ => exact hrests.elim

theorem Turning.last_ready (hs : Turning s) (hready : s.phase = .created ∨ ∃ delay, s.phase = .waiting delay) :
    (s.phase = .created ∧ turns s.history = []) ∨ ∃ c n d, (turns s.history).getLast? = some (.waits c n d) := by
  have hin : s.phase.inAttempt = false := by obtain h | ⟨d, h⟩ := hready <;> rw [h] <;> rfl
  have hrests := hs.rests
  cases hl : (turns s.history).getLast? with
  | none =>
    rw [hl] at hrests
    refine .inl ⟨?_, List.getLast?_eq_none_iff.1 hl⟩
    obtain h | ⟨d, h⟩ := hready
    · exact h
    · rcases hrests with h' | h' | h' <;> rw [h] at h' <;> cases h'
  | some a =>
    rw [hl] at hrests
    cases a with
    | begins => rw [show s.phase.inAttempt = true from hrests] at hin; cases hin
    | ends outcome =>
      rcases hrests with h | ⟨e, -, h⟩ <;> obtain h' | ⟨d, h'⟩ := hready <;> rw [h] at h' <;> cases h'
    | waits c n d => exact .inr ⟨c, n, d, rfl⟩
    | _ => exact hrests.elim

/-- One more turn. -/
theorem chain_turn {h : List (Act μ)} {a : Act μ} (hc : (turns h).IsChain Follows) (ha : a.inner = false)
    (hf : ∀ b ∈ (turns h).getLast?, Follows b a) : (turns (h ++ [a])).IsChain Follows := by
  rw [turns_turn h ha, List.isChain_append]
  refine ⟨hc, .singleton a, fun b hb c hc => ?_⟩
  cases hc
  exact hf b hb

theorem first_turn {h : List (Act μ)} {a : Act μ} (hfirst : ∀ b ∈ (turns h).head?, b = .begins)
    (ha : a.inner = false) (hne : turns h ≠ [] ∨ a = .begins) : ∀ b ∈ (turns (h ++ [a])).head?, b = .begins := by
  rw [turns_turn h ha]
  cases ht : turns h with
  | nil =>
    intro b hb
    cases hb
    exact hne.resolve_left fun h => h ht
  | cons c cs =>
    rw [ht] at hfirst
    exact hfirst

theorem loop_turning {t : State μ} (hs : Turning s)
    (hready : s.phase = .created ∨ ∃ delay, s.phase = .waiting delay) (hh : t.history = s.history) :
    Turning t.loop := by
  have hlast := hs.last_ready hready
  rcases loop_cases t with ⟨hset, hl⟩ | ⟨-, hphase, hhist, -⟩
  · have ht : turns t.loop.history = turns s.history := by
      rw [hl, ← turns_inner s.history [.reports .terminated] (by simp [Act.inner]), ← hh]
      rfl
    have hphase : t.loop.phase = .returned := by rw [hl]; rfl
    refine ⟨ht ▸ hs.first, ht ▸ hs.chain, ?_, fun _ => (by rw [hl]; exact hset),
      fun e he => (by rw [hphase] at he; cases he)⟩
    rw [ht]
    obtain ⟨-, hnil⟩ | ⟨c, n, d, hw⟩ := hlast
    · rw [hnil]; exact .inr (.inl hphase)
    · rw [hw]; exact .inr (.inl hphase)
  · have ht : turns (t.history ++ [.reports .connecting, .reports .awaitingSubscription]) = turns s.history := by
      rw [turns_inner _ _ (by simp [Act.inner]), hh]
    refine ⟨?_, ?_, ?_, fun h => (by rw [hphase] at h; cases h), fun e he => (by rw [hphase] at he; cases he)⟩
    · rw [hhist]
      exact first_turn (ht ▸ hs.first) rfl (.inr rfl)
    · rw [hhist]
      refine chain_turn (ht ▸ hs.chain) rfl fun b hb => ?_
      rw [ht] at hb
      obtain ⟨-, hnil⟩ | ⟨c, n, d, hw⟩ := hlast
      · rw [hnil] at hb; cases hb
      · rw [hw] at hb; cases hb; trivial
    · rw [hhist, turns_turn _ rfl, List.getLast?_concat]
      show t.loop.phase.inAttempt = true
      rw [hphase]
      rfl

/-- The end of an attempt that the collector gets over. -/
theorem retry_turning {t : State μ} {outcome : Option Exc} {acts : List (Act μ)} (hs : Turning s)
    (hlast : (turns s.history).getLast? = some .begins) (hh : t.history = s.history ++ [.ends outcome] ++ acts)
    (ha : ∀ a ∈ acts, a.inner = true) : Turning (t.retry outcome) := by
  have ht : turns t.history = turns s.history ++ [.ends outcome] := by
    rw [hh, turns_inner _ _ ha, turns_turn _ rfl]
  have hne : turns s.history ≠ [] := fun hnil => by rw [hnil] at hlast; cases hlast
  have hfirst : ∀ b ∈ (turns t.history).head?, b = .begins := by
    rw [ht, ← turns_turn _ rfl]
    exact first_turn hs.first rfl (.inl hne)
  have hchain : (turns t.history).IsChain Follows := by
    rw [ht, ← turns_turn _ rfl]
    exact chain_turn hs.chain rfl fun b hb => by rw [hlast] at hb; cases hb; trivial
  rcases retry_cases t outcome with ⟨hset, hr⟩ | ⟨-, hphase, hhist, -⟩
  · have hphase : (t.retry outcome).phase = .returned := by rw [hr]; rfl
    have htr : turns (t.retry outcome).history = turns t.history := by
      rw [hr, ← turns_inner t.history [.reports .terminated] (by simp [Act.inner])]
      rfl
    refine ⟨htr ▸ hfirst, htr ▸ hchain, ?_, fun _ => (by rw [hr]; exact hset),
      fun e he => (by rw [hphase] at he; cases he)⟩
    rw [htr, ht, List.getLast?_concat]
    exact .inl hphase
  · have htr := turns_inner t.history [.reports (.waiting t.policy.nextDelay.1)] (by simp [Act.inner])
    refine ⟨?_, ?_, ?_, fun h => (by rw [hphase] at h; cases h), fun e he => (by rw [hphase] at he; cases he)⟩
    · rw [hhist]
      exact first_turn (htr ▸ hfirst) rfl (.inl (by rw [htr, ht]; simp))
    · rw [hhist]
      refine chain_turn (htr ▸ hchain) rfl fun b hb => ?_
      rw [htr, ht, List.getLast?_concat] at hb
      cases hb
      trivial
    · rw [hhist, turns_turn _ rfl, List.getLast?_concat]
      exact .inl hphase

theorem attemptEnds_turning {t : State μ} {outcome : Option Exc} (hs : Turning s) (hin : s.phase.inAttempt = true)
    (ht : t = s ∨ t = s.act .cancelled) (he : ∀ e, outcome = some e → s.phase.travels = some e ∨ Recorded t.history e) :
    Turning (t.attemptEnds outcome) := by
  have hht : turns t.history = turns s.history := by
    obtain rfl | rfl := ht
    · rfl
    · exact turns_inner s.history [.cancelled] (by simp [Act.inner])
  have hrec : ∀ e, s.phase.travels = some e → Recorded t.history e := fun e hte => by
    obtain rfl | rfl := ht
    · exact hs.recorded e hte
    · exact (hs.recorded e hte).append [.cancelled]
  have hlast : (turns t.history).getLast? = some .begins := hht ▸ hs.last_begins hin
  have hfirst : ∀ b ∈ (turns t.history).head?, b = .begins := hht ▸ hs.first
  have hchain : (turns t.history).IsChain Follows := hht ▸ hs.chain
  rcases attemptEnds_cases t outcome with ⟨-, u, acts, hu, hhist, ha, -⟩ | ⟨e, rfl, -, hfin⟩
  · rw [hu]
    have hphase : t.phase = s.phase := by obtain rfl | rfl := ht <;> rfl
    have htt : Turning t := ⟨hfirst, hchain, by rw [hlast]; show t.phase.inAttempt = true; rw [hphase]; exact hin,
      fun h => (by rw [← hphase, h] at hin; cases hin), fun e h => hrec e (hphase ▸ h)⟩
    exact retry_turning htt hlast hhist ha
  · rw [hfin]
    have hturns : turns ((t.act (.ends (some e))).finish (.raised e)).history =
        turns t.history ++ [.ends (some e)] := by
      rw [← turns_turn t.history (a := .ends (some e)) rfl]
      exact turns_inner (t.history ++ [.ends (some e)]) [.reports .terminated] (by simp [Act.inner])
    have hne : turns t.history ≠ [] := fun hnil => by rw [hnil] at hlast; cases hlast
    refine ⟨?_, ?_, ?_, fun h => (nomatch h), fun e' he' => ?_⟩
    · rw [hturns, ← turns_turn _ rfl]
      exact first_turn hfirst rfl (.inl hne)
    · rw [hturns, ← turns_turn _ rfl]
      exact chain_turn hchain rfl fun b hb => by rw [hlast] at hb; cases hb; trivial
    · rw [hturns, List.getLast?_concat]
      exact .inr ⟨e, rfl, rfl⟩
    · cases he'
      have h := (he e rfl).elim (hrec e) id
      exact (h.append [.ends (some e)]).append [.reports .terminated]

/-- **One step takes the loop at most one turn further.** -/
theorem step_turning (hs : Turning s) {s' : State μ} {i : Input} (h : (machine p).step s i = some s') :
    Turning s' := by
  cases stage_of_step h with
  | stops =>
    refine ⟨hs.first, hs.chain, ?_, fun _ => rfl, hs.recorded⟩
    have hr := hs.rests
    revert hr
    cases (turns s.history).getLast? with
    | none => exact id
    | some a => cases a <;> exact id
  | starts hphase => exact loop_turning hs (.inl hphase) rfl
  | elapses hphase => exact loop_turning hs (.inr ⟨_, hphase⟩) rfl
  | inside hin _ hinside =>
    obtain ⟨acts, hh, ha⟩ := hinside.history
    have ht : turns s'.history = turns s.history := by rw [hh, turns_inner _ _ ha]
    refine ⟨ht ▸ hs.first, ht ▸ hs.chain, ?_, fun h => ?_, fun e he => ?_⟩
    · rw [ht, hs.last_begins hin]
      exact hinside.busy
    · have hb := hinside.busy
      rw [h] at hb
      cases hb
    · rcases hinside.travels e he with h | h
      · rw [hh]
        exact (hs.recorded e h).append acts
      · exact h
  | ends hin _ ht he => exact attemptEnds_turning hs hin ht he
  | leaves hready hacts hstop _ hq =>
    obtain ⟨acts, hh, ha⟩ := hacts
    have ht : turns s'.history = turns s.history := by rw [hh, turns_inner _ _ ha]
    refine ⟨ht ▸ hs.first, ht ▸ hs.chain, ?_, fun h => ?_, fun e he => ?_⟩
    · rw [ht]
      obtain ⟨-, hnil⟩ | ⟨c, n, d, hw⟩ := hs.last_ready hready
      · rw [hnil]; exact .inr (hq.imp And.left And.left)
      · rw [hw]; exact .inr (hq.imp And.left And.left)
    · rw [hstop]
      obtain ⟨-, h'⟩ | ⟨h', -⟩ := hq
      · exact h'
      · rw [h] at h'; cases h'
    · obtain ⟨h', -⟩ | ⟨h', hmem⟩ := hq
      · rw [h'] at he; cases he
      · rw [h'] at he; cases he; exact hmem

theorem initial_turning (policy : ReconnectPolicy) : Turning (initial policy : State μ) :=
  ⟨fun _ h => (nomatch h), .nil, .inl rfl, fun h => (nomatch h), fun _ h => (nomatch h)⟩

end

/-! ## What ends a run -/

/-- The run goes on until a stop request, a failed handler or a cancellation ends it: attempts, their ends and waits
follow each other, the last of them is where the task waits, unless the run has ended for one of the reasons, and the
next attempt begins when the wait is over. -/
structure Collects (p : Profile μ) (s : State μ) : Prop where
  returned : s.phase = .returned → s.stop = true
  raised : ∀ e, s.phase = .raised e →
    (e = .messageHandler ∧ .handlerFails ∈ s.history) ∨ (e = .cancelled ∧ .cancelled ∈ s.history)
  first : ∀ a ∈ (turns s.history).head?, a = .begins
  alternates : (turns s.history).IsChain Follows
  rests : Rests s (turns s.history).getLast?
  resumes : ∀ delay, s.phase = .waiting delay → s.stop = false →
    ∃ s', (machine p).step s .elapsed = some s' ∧ s'.phase = .connecting ∧
      turns s'.history = turns s.history ++ [.begins]

/-- No `except` clause of `run()` catches this. -/
def uncaught : Option Exc → Bool
  | some .invalidHandshake | some (.decoding _) => true
  | _ => false

/-- The input ends the attempt with an exception that no `except` clause of `run()` catches. -/
def Escapes (s : State μ) (i : Input) : Prop := (attemptOutcome s i).any uncaught = true

instance : DecidablePred fun i => Escapes (μ := μ) s i := fun _ => inferInstanceAs (Decidable (_ = true))

section

variable {p : Profile μ} {s s' : State μ} {i : Input}

theorem attemptOutcome_ready (hready : s.phase = .created ∨ ∃ delay, s.phase = .waiting delay) :
    attemptOutcome s i = none := by
  obtain h | ⟨d, h⟩ := hready <;> simp [attemptOutcome, h]

/-- An exception that escapes ends the run. -/
theorem escapes_raised (h : (machine p).step s i = some s') (he : Escapes s i) :
    ∃ e, s'.phase = .raised e ∧ uncaught (some e) = true := by
  obtain ⟨outcome, ho, hu⟩ := (Option.any_eq_true _ _).1 he
  cases stage_of_step h with
  | stops hi => subst hi; simp [attemptOutcome] at ho
  | starts hphase => rw [attemptOutcome_ready (.inl hphase)] at ho; cases ho
  | elapses hphase => rw [attemptOutcome_ready (.inr ⟨_, hphase⟩)] at ho; cases ho
  | inside _ hno => rw [hno] at ho; cases ho
  | leaves hready => rw [attemptOutcome_ready hready] at ho; cases ho
  | @ends t outcome' _ ho' =>
    obtain rfl := Option.some.inj (ho.symm.trans ho')
    rcases attemptEnds_cases t outcome with ⟨hr, -⟩ | ⟨e, rfl, -, hfin⟩
    · match outcome, hu with
      | some .invalidHandshake, _ => cases hr
      | some (.decoding _), _ => cases hr
    · exact ⟨e, by rw [hfin]; rfl, hu⟩

/-- A run that has ended stays so. -/
theorem raised_stays {e : Exc} (hs : s.phase = .raised e) (h : (machine p).step s i = some s') :
    s'.phase = .raised e := by
  have hin : s.phase.inAttempt = false := by rw [hs]; rfl
  cases stage_of_step h with
  | stops => exact hs
  | starts hphase => rw [hs] at hphase; cases hphase
  | elapses hphase => rw [hs] at hphase; cases hphase
  | inside hin' => rw [hin] at hin'; cases hin'
  | ends hin' => rw [hin] at hin'; cases hin'
  | leaves hready => obtain h' | ⟨d, h'⟩ := hready <;> rw [hs] at h' <;> cases h'

/-- An exception that ends a run without escaping is the failure of a handler or a cancellation. -/
theorem step_caught (hs : ∀ e, s.phase = .raised e → e = .messageHandler ∨ e = .cancelled)
    (h : (machine p).step s i = some s') (hno : ¬Escapes s i) :
    ∀ e, s'.phase = .raised e → e = .messageHandler ∨ e = .cancelled := by
  intro e he
  have hloop : ∀ t : State μ, t.loop.phase ≠ .raised e := fun t ht => by
    rcases loop_cases t with ⟨-, hl⟩ | ⟨-, hphase, -⟩
    · rw [hl] at ht; cases ht
    · rw [hphase] at ht; cases ht
  cases stage_of_step h with
  | stops => exact hs e he
  | starts => exact absurd he (hloop _)
  | elapses => exact absurd he (hloop _)
  | inside _ _ hinside =>
    have hb := hinside.busy
    rw [he] at hb
    cases hb
  | @ends t outcome _ ho =>
    rcases attemptEnds_cases t outcome with ⟨-, u, acts, hu, -⟩ | ⟨e', rfl, hr, hfin⟩
    · rw [hu] at he
      rcases retry_cases u outcome with ⟨-, hl⟩ | ⟨-, hphase, -⟩
      · rw [hl] at he; cases he
      · rw [hphase] at he; cases he
    · rw [hfin] at he
      obtain rfl : e' = e := Phase.raised.inj he
      rw [Escapes, ho] at hno
      cases e' with
      | cancelled => exact .inr rfl
      | messageHandler => exact .inl rfl
      | subscription reason => cases hr
      | link l => cases hr
      | invalidHandshake => exact absurd rfl hno
      | decoding failure => exact absurd rfl hno
  | leaves _ _ _ _ hq =>
    obtain ⟨h', -⟩ | ⟨h', -⟩ := hq
    · rw [h'] at he; cases he
    · rw [h'] at he; cases he; exact .inr rfl

/-- A wait that nobody stops is followed by the next attempt. -/
theorem waiting_resumes (p : Profile μ) {delay : ℚ} (hs : s.phase = .waiting delay) (hstop : s.stop = false) :
    ∃ s', (machine p).step s .elapsed = some s' ∧ s'.phase = .connecting ∧
      turns s'.history = turns s.history ++ [.begins] := by
  refine ⟨s.loop, by simp only [machine, step, hs], ?_⟩
  rcases loop_cases s with ⟨hset, -⟩ | ⟨-, hphase, hhist, -⟩
  · rw [hstop] at hset; cases hset
  · refine ⟨hphase, ?_⟩
    rw [hhist, turns_turn _ rfl, turns_inner _ _ (by simp [Act.inner])]

/-- **When only a stop request or a downstream failure ends collection.** In every run of either collector, exactly if
no attempt ends with an exception that `run()` does not catch. -/
theorem collects_iff {policy : ReconnectPolicy} {is : List Input}
    (h : (machine p).Path (fun _ _ => True) (initial policy) is s) :
    Collects p s ↔ (machine p).Path (fun s i => ¬Escapes s i) (initial policy) is s := by
  constructor
  · intro hs
    by_contra hno
    obtain ⟨pre, i, post, s₁, s₂, -, -, -, hesc, hstep, hpost⟩ := h.exists_violation hno
    obtain ⟨e, he, hu⟩ := escapes_raised hstep (not_not.1 hesc)
    have hend : s.phase = .raised e := hpost.invariant (fun _ _ _ _ h₁ h₂ => raised_stays h₁ h₂) he
    rcases hs.raised e hend with ⟨rfl, -⟩ | ⟨rfl, -⟩ <;> cases hu
  · intro hpath
    have ht : Turning s :=
      h.invariant (I := Turning) (fun _ _ _ _ hs hstep => step_turning hs hstep) (initial_turning policy)
    have hcaught : ∀ e, s.phase = .raised e → e = .messageHandler ∨ e = .cancelled :=
      hpath.invariant (I := fun s => ∀ e, s.phase = .raised e → e = .messageHandler ∨ e = .cancelled)
        (fun _ _ _ hno hs hstep => step_caught hs hstep hno) (fun _ he => nomatch he)
    refine ⟨ht.returned, fun e he => ?_, ht.first, ht.chain, ht.rests, fun _ => waiting_resumes p⟩
    have hrec := ht.recorded e (by rw [he]; rfl)
    rcases hcaught e he with rfl | rfl
    · exact .inl ⟨rfl, hrec⟩
    · exact .inr ⟨rfl, hrec⟩

end

/-- A handshake that fails while nobody has asked either collector to stop ends its run. -/
theorem collects_invalidHandshake :
    (∃ s, (machine (spotConnections true).profile).Path (fun _ _ => True) (initial defaultPolicy)
      [.start, .connectFails .invalidHandshake] s ∧ s.stop = false ∧ s.phase = .raised .invalidHandshake ∧
      ¬Collects (spotConnections true).profile s) ∧
    ∃ s, (machine (binanceCollector [str "BTCUSDT"] ⟨1000, 4300⟩)).Path (fun _ _ => True) (initial defaultPolicy)
      [.start, .connectFails .invalidHandshake] s ∧ s.stop = false ∧ s.phase = .raised .invalidHandshake ∧
      ¬Collects (binanceCollector [str "BTCUSDT"] ⟨1000, 4300⟩) s := by
  constructor
  · refine ⟨_, Steps.Machine.path_true_iff_run.2 rfl, rfl, rfl, fun h => ?_⟩
    rcases h.raised _ rfl with ⟨h, -⟩ | ⟨h, -⟩ <;> cases h
  · refine ⟨_, Steps.Machine.path_true_iff_run.2 rfl, rfl, rfl, fun h => ?_⟩
    rcases h.raised _ rfl with ⟨h, -⟩ | ⟨h, -⟩ <;> cases h

/-- A connection that is refused, a subscription that is rejected, and a stop request during the wait. -/
def stoppedWaiting : List Input :=
  [.start, .connectFails (.link .osError), .elapsed, .connected, .sent,
    .receives (.text (str "\x7b\"id\":1,\"code\":2\x7d")), .settled 5, .handlerReturns, .closed, .setStop, .stopSeen]

theorem collects_iff_stoppedWaiting : ∃ s, (machine (spotConnections true).profile).Path (fun _ _ => True)
    (initial defaultPolicy) stoppedWaiting s ∧ s.phase = .returned ∧ Collects (spotConnections true).profile s := by
  obtain ⟨s, hpath, hp⟩ := Steps.Machine.exists_path_of_check (M := machine (spotConnections true).profile)
    (P := fun s i => ¬Escapes s i) (p := fun s => decide (s.phase = .returned)) (initial defaultPolicy) stoppedWaiting
    (by decide +kernel)
  have hrun := hpath.mono fun _ _ _ => trivial
  exact ⟨s, hrun, of_decide_eq_true hp, (collects_iff hrun).2 hpath⟩

/-! ## Back-off -/

/-- The waits in a history: the attempt before, the entry of the delays, the delay. -/
def waits (h : List (Act μ)) : List (Attempt × ℕ × ℚ) := h.filterMap fun
  | .waits attempt index delay => some (attempt, index, delay)
  | _ => none

/-- The entry after that of the wait before, up to the last entry; the first entry if there was no wait before. -/
def followingEntry (entries : ℕ) : Option (Attempt × ℕ × ℚ) → ℕ
  | none => 0
  | some (_, index, _) => min (index + 1) (entries - 1)

/-- Back-off grows over attempts that are not confirmed. -/
def BacksOffUnconfirmed (delays : List ℚ) (ws : List (Attempt × ℕ × ℚ)) : Prop :=
  ∀ pre attempt index delay post, ws = pre ++ (attempt, index, delay) :: post → delays[index]? = some delay ∧
    (attempt.confirmed = false → index = followingEntry delays.length pre.getLast?)

/-- A response has rejected the subscription. -/
def Attempt.rejected (attempt : Attempt) : Prop := ∃ payload, attempt.outcome = some (.subscription (.rejected payload))

/-- Back-off grows over attempts that deliver nothing. An attempt that has been confirmed starts the delays anew, and so
does one that has delivered a message and is not rejected. -/
def BacksOffIdle (delays : List ℚ) (ws : List (Attempt × ℕ × ℚ)) : Prop :=
  ∀ pre attempt index delay post, ws = pre ++ (attempt, index, delay) :: post → delays[index]? = some delay ∧
    (attempt.delivered = 0 → attempt.confirmed = false ∧ index = followingEntry delays.length pre.getLast?) ∧
    (attempt.confirmed = true → index = 0) ∧ (0 < attempt.delivered → ¬attempt.rejected → index = 0)

/-- The entries of the delays as the policy counts: anew after a delivery. -/
def Counts (delays : List ℚ) (ws : List (Attempt × ℕ × ℚ)) : Prop :=
  ∀ pre attempt index delay post, ws = pre ++ (attempt, index, delay) :: post → delays[index]? = some delay ∧
    (attempt.confirmed = true → 0 < attempt.delivered) ∧
    index = if attempt.delivered = 0 then followingEntry delays.length pre.getLast? else 0

theorem waits_inner (h acts : List (Act μ)) (ha : ∀ a ∈ acts, a.inner = true) : waits (h ++ acts) = waits h := by
  have hnil : waits acts = [] := List.filterMap_eq_nil_iff.2 fun a hmem => by
    have := ha a hmem
    cases a <;> first | rfl | cases this
  rw [waits, List.filterMap_append, ← waits, ← waits, hnil, List.append_nil]

theorem waits_ends (h : List (Act μ)) (outcome : Option Exc) : waits (h ++ [.ends outcome]) = waits h := by
  simp [waits]

theorem Counts.snoc {delays : List ℚ} {ws : List (Attempt × ℕ × ℚ)} (h : Counts delays ws) {attempt : Attempt}
    {index : ℕ} {delay : ℚ} (hd : delays[index]? = some delay) (hc : attempt.confirmed = true → 0 < attempt.delivered)
    (hi : index = if attempt.delivered = 0 then followingEntry delays.length ws.getLast? else 0) :
    Counts delays (ws ++ [(attempt, index, delay)]) := by
  intro pre a n d post heq
  rcases List.eq_nil_or_concat post with rfl | ⟨post, w, rfl⟩
  · obtain ⟨rfl, hw⟩ := List.append_inj' heq rfl
    cases hw
    exact ⟨hd, hc, hi⟩
  · rw [List.concat_eq_append, ← List.cons_append, ← List.append_assoc] at heq
    exact h pre a n d post (List.append_inj' heq rfl).1

/-- What a step does to the pace of a collector. -/
inductive Pace (s : State μ) (s' : State μ) : Prop
  | same : s'.phase = s.phase → s'.policy = s.policy → s'.delivered = s.delivered → s'.confirmed = s.confirmed →
      waits s'.history = waits s.history → Pace s s'
  | ended : s'.phase.inAttempt = false → s'.phase ≠ .created → (∀ delay, s'.phase ≠ .waiting delay) →
      s'.policy.delays = s.policy.delays → waits s'.history = waits s.history → Pace s s'
  | begins : (s.phase = .created ∧ s'.policy = s.policy.reset ∨
        (∃ delay, s.phase = .waiting delay) ∧ s'.policy = s.policy) →
      s'.phase = .connecting → s'.delivered = 0 → s'.confirmed = false → waits s'.history = waits s.history → Pace s s'
  | inside : s.phase.inAttempt = true → Inside s s' → waits s'.history = waits s.history → Pace s s'
  | waits (outcome : Option Exc) : s.phase.inAttempt = true → (∃ delay, s'.phase = .waiting delay) →
      s'.policy = s.policy.nextDelay.2 →
      waits s'.history = waits s.history ++
        [(⟨outcome, s.confirmed, s.delivered⟩, s.policy.index, s.policy.nextDelay.1)] → Pace s s'

section

variable {p : Profile μ} {s s' : State μ} {i : Input}

theorem finish_over {t : State μ} {phase : Phase} (hin : phase.inAttempt = false) (hc : phase ≠ .created)
    (hw : ∀ delay, phase ≠ .waiting delay) (hd : t.policy.delays = s.policy.delays)
    (hh : waits t.history = waits s.history) : Pace s (t.finish phase) :=
  .ended hin hc hw hd ((waits_inner t.history [.reports .terminated] (by simp [Act.inner])).trans hh)

/-- After an attempt the collector waits, or its run is over. -/
theorem attemptEnds_pace {t : State μ} (outcome : Option Exc) (hin : s.phase.inAttempt = true)
    (ht : t = s ∨ t = s.act .cancelled) : Pace s (t.attemptEnds outcome) := by
  have hw : waits t.history = waits s.history := by
    obtain rfl | rfl := ht
    · rfl
    · exact waits_inner s.history [.cancelled] (by simp [Act.inner])
  have hkeep : t.policy = s.policy ∧ t.confirmed = s.confirmed ∧ t.delivered = s.delivered := by
    obtain rfl | rfl := ht <;> exact ⟨rfl, rfl, rfl⟩
  rcases attemptEnds_cases t outcome with ⟨-, u, acts, hu, hh, ha, -, hpolicy, hconfirmed, hdelivered⟩ |
    ⟨e, rfl, -, hfin⟩
  · have hwu : waits u.history = waits s.history := by rw [hh, waits_inner _ _ ha, waits_ends, hw]
    rw [hu]
    rcases retry_cases u outcome with ⟨-, hl⟩ | ⟨-, hphase, hhist, -, hnext⟩
    · rw [hl]
      exact finish_over rfl (by simp) (by simp) (by rw [hpolicy, hkeep.1]) hwu
    · rw [hpolicy, hkeep.1] at hnext hphase hhist
      rw [hconfirmed, hkeep.2.1, hdelivered, hkeep.2.2] at hhist
      refine .waits outcome hin ⟨_, hphase⟩ hnext ?_
      rw [hhist, ← hwu]
      simp [waits]
  · rw [hfin]
    refine finish_over rfl (by simp) (by simp) (congrArg _ hkeep.1) ?_
    rw [← hw]
    exact waits_ends t.history _

theorem pace_of_step (h : (machine p).step s i = some s') : Pace s s' := by
  have hloop : ∀ t : State μ, t.history = s.history →
      (s.phase = .created ∧ t.policy = s.policy.reset ∨ (∃ delay, s.phase = .waiting delay) ∧ t.policy = s.policy) →
      Pace s t.loop := by
    intro t hh hready
    rcases loop_cases t with ⟨-, hl⟩ | ⟨-, hphase, hhist, -, hpolicy, hdelivered, hconfirmed⟩
    · rw [hl]
      refine finish_over rfl (by simp) (by simp) ?_ (by rw [hh])
      obtain ⟨-, hp⟩ | ⟨-, hp⟩ := hready <;> rw [hp]
      rfl
    · refine .begins (by rwa [hpolicy]) hphase hdelivered hconfirmed ?_
      rw [hhist, hh]
      simp [waits]
  cases stage_of_step h with
  | stops => exact .same rfl rfl rfl rfl rfl
  | starts hphase => exact hloop _ rfl (.inl ⟨hphase, rfl⟩)
  | elapses hphase => exact hloop _ rfl (.inr ⟨⟨_, hphase⟩, rfl⟩)
  | inside hin _ hinside =>
    obtain ⟨acts, hh, ha⟩ := hinside.history
    exact .inside hin hinside (by rw [hh, waits_inner _ _ ha])
  | ends hin _ ht => exact attemptEnds_pace _ hin ht
  | leaves hready hacts _ hpolicy hq =>
    obtain ⟨acts, hh, ha⟩ := hacts
    have hw : waits s'.history = waits s.history := by rw [hh, waits_inner _ _ ha]
    obtain ⟨hphase, -⟩ | ⟨hphase, -⟩ := hq <;>
    exact .ended (by rw [hphase]; rfl) (by rw [hphase]; simp) (by rw [hphase]; simp) (by rw [hpolicy]) hw

/-- The waits so far follow the count of the policy, a delivery starts it anew, and the policy is ready for the next
wait. -/
structure Paced (delays : List ℚ) (s : State μ) : Prop where
  policy : s.policy.delays = delays
  reset : s.phase.inAttempt = true → 0 < s.delivered → s.policy.attempt = 0
  confirmed : s.phase.inAttempt = true → s.confirmed = true → 0 < s.delivered
  counts : Counts delays (waits s.history)
  created : s.phase = .created → waits s.history = []
  entry : (s.phase.inAttempt = true ∧ s.delivered = 0) ∨ (∃ delay, s.phase = .waiting delay) →
    s.policy.index = followingEntry delays.length (waits s.history).getLast?

/-- The wait that follows an attempt uses the right entry. -/
theorem Paced.index_eq {delays : List ℚ} (hs : Paced delays s) (hin : s.phase.inAttempt = true) :
    s.policy.index = if s.delivered = 0 then followingEntry delays.length (waits s.history).getLast? else 0 := by
  split
  · exact hs.entry (.inl ⟨hin, ‹_›⟩)
  · rw [ReconnectPolicy.index, hs.reset hin (by omega), Nat.zero_min]

/-- **One step keeps the count.** -/
theorem step_paced {delays : List ℚ} (hs : Paced delays s) (h : (machine p).step s i = some s') : Paced delays s' := by
  cases pace_of_step h with
  | same hphase hpolicy hdelivered hconfirmed hw =>
    exact ⟨hpolicy ▸ hs.policy, by rw [hphase, hpolicy, hdelivered]; exact hs.reset,
      by rw [hphase, hdelivered, hconfirmed]; exact hs.confirmed, hw ▸ hs.counts, by rw [hphase, hw]; exact hs.created,
      by rw [hphase, hpolicy, hdelivered, hw]; exact hs.entry⟩
  | ended hin hc hwait hd hw =>
    have hno : s'.phase.inAttempt ≠ true := by rw [hin]; simp
    refine ⟨hd.trans hs.policy, fun h => absurd h hno, fun h => absurd h hno, hw ▸ hs.counts, fun h => absurd h hc, ?_⟩
    rintro (⟨h, -⟩ | ⟨delay, h⟩)
    · exact absurd h hno
    · exact absurd h (hwait delay)
  | begins hready hphase hdelivered hconfirmed hw =>
    refine ⟨?_, fun _ hpos => (by omega), fun _ hc => (by rw [hconfirmed] at hc; cases hc), hw ▸ hs.counts,
      fun h => (by rw [hphase] at h; cases h), fun _ => ?_⟩
    · obtain ⟨-, hp⟩ | ⟨-, hp⟩ := hready <;> rw [hp]
      · exact hs.policy
      · exact hs.policy
    · rw [hw]
      obtain ⟨hcreated, hpolicy⟩ | ⟨hwaiting, hpolicy⟩ := hready
      · rw [hs.created hcreated, hpolicy, ReconnectPolicy.index, ReconnectPolicy.reset_attempt, Nat.zero_min]
        rfl
      · rw [hpolicy]
        exact hs.entry (.inr hwaiting)
  | inside hin hinside hw =>
    have hcreated : s'.phase ≠ .created := fun h => by have := hinside.busy; rw [h] at this; cases this
    have hwaiting : ∀ delay, s'.phase ≠ .waiting delay := fun d h => by have := hinside.busy; rw [h] at this; cases this
    rcases hinside.policy with ⟨hpolicy, hdelivered, hconfirmed⟩ | ⟨hpolicy, hdelivered⟩
    · refine ⟨hpolicy ▸ hs.policy, fun _ => ?_, fun _ => ?_, hw ▸ hs.counts, fun h => absurd h hcreated, ?_⟩
      · rw [hpolicy, hdelivered]
        exact hs.reset hin
      · rw [hconfirmed, hdelivered]
        exact hs.confirmed hin
      · rintro (⟨-, hzero⟩ | ⟨delay, hd⟩)
        · rw [hpolicy, hw]
          exact hs.entry (.inl ⟨hin, hdelivered ▸ hzero⟩)
        · exact absurd hd (hwaiting delay)
    · refine ⟨by rw [hpolicy]; exact hs.policy, fun _ _ => by rw [hpolicy]; rfl, fun _ _ => by omega, hw ▸ hs.counts,
        fun h => absurd h hcreated, ?_⟩
      rintro (⟨-, hzero⟩ | ⟨delay, hd⟩)
      · omega
      · exact absurd hd (hwaiting delay)
  | waits outcome hin hphase hpolicy hw =>
    obtain ⟨delay, hphase⟩ := hphase
    have hno : s'.phase.inAttempt ≠ true := by rw [hphase]; simp [Phase.inAttempt]
    have hdelay : delays[s.policy.index]? = some s.policy.nextDelay.1 := by
      rw [← hs.policy, ReconnectPolicy.nextDelay, List.get_eq_getElem]
      exact List.getElem?_eq_getElem s.policy.index_lt
    refine ⟨by rw [hpolicy]; exact hs.policy, fun h => absurd h hno, fun h => absurd h hno, ?_,
      fun h => (by rw [hphase] at h; cases h), fun _ => ?_⟩
    · rw [hw]
      exact hs.counts.snoc hdelay (hs.confirmed hin) (hs.index_eq hin)
    · rw [hw, List.getLast?_concat, hpolicy]
      simp only [followingEntry, ReconnectPolicy.index, ReconnectPolicy.nextDelay_attempt,
        ReconnectPolicy.nextDelay_delays, hs.policy]
      omega

theorem initial_paced (policy : ReconnectPolicy) : Paced policy.delays (initial policy : State μ) := by
  refine ⟨rfl, fun h => (nomatch h), fun h => (nomatch h), fun pre a n d post h => ?_, fun _ => rfl, ?_⟩
  · simp [initial, waits] at h
  · rintro (⟨h, -⟩ | ⟨delay, h⟩) <;> cases h

/-- **Back-off over whole runs.** In every run of either collector, with every tuple of delays, the delays grow over
attempts that deliver nothing; an attempt that is confirmed, or that delivers a message and is not rejected, starts them
anew. -/
theorem backs_off {policy : ReconnectPolicy} {is : List Input}
    (h : (machine p).Path (fun _ _ => True) (initial policy) is s) : BacksOffIdle policy.delays (waits s.history) := by
  have hs : Paced policy.delays s :=
    h.invariant (I := Paced policy.delays) (fun _ _ _ _ hs hstep => step_paced hs hstep) (initial_paced policy)
  intro pre attempt index delay post heq
  obtain ⟨hdelay, hconfirmed, hindex⟩ := hs.counts pre attempt index delay post heq
  have hanew : 0 < attempt.delivered → index = 0 := fun hpos => by rw [hindex, if_neg (by omega)]
  refine ⟨hdelay, fun hzero => ⟨?_, by rw [hindex, if_pos hzero]⟩, fun hc => hanew (hconfirmed hc),
    fun hpos _ => hanew hpos⟩
  exact Bool.eq_false_iff.2 fun hc => by
    have := hconfirmed hc
    omega

end

/-- Two refused connections and a subscription that gets no response in time. -/
def refusedTwice : List Input :=
  [.start, .connectFails (.link .osError), .elapsed, .connectFails (.link .timeoutError), .elapsed, .connected, .sent,
    .ackTimeout, .settled 5, .closed]

theorem backs_off_refusedTwice : ∃ s, (machine (spotConnections true).profile).Path (fun _ _ => True)
    (initial defaultPolicy) refusedTwice s ∧ (waits s.history).map Prod.snd = [(0, 1), (1, 2), (2, 4)] ∧
    BacksOffIdle defaultPolicy.delays (waits s.history) := by
  obtain ⟨s, hpath, hp⟩ := Steps.Machine.exists_path_of_check (M := machine (spotConnections true).profile)
    (P := fun _ _ => True) (p := fun s => decide ((waits s.history).map Prod.snd = [(0, 1), (1, 2), (2, 4)]))
    (initial defaultPolicy) refusedTwice (by decide)
  exact ⟨s, hpath, of_decide_eq_true hp, backs_off hpath⟩

/-- Twice, a message arrives and the connection is lost before the subscription is confirmed. -/
def lostTwice : List Input :=
  [.start, .connected, .sent, .receives (.text (str "\x7b\"stream\":\"btcusdt@aggTrade\",\"data\":\x7b\x7d\x7d")),
    .settled 5, .handlerReturns, .recvFails .connectionClosed, .settled 6, .closed, .elapsed, .connected, .sent,
    .receives (.text (str "\x7b\"stream\":\"btcusdt@aggTrade\",\"data\":\x7b\x7d\x7d")), .settled 7, .handlerReturns,
    .recvFails .connectionClosed, .settled 8, .closed]

/-- Both waits use the first entry of the delays, though neither attempt has been confirmed. -/
theorem backs_off_lostTwice : ∃ s, (machine (spotConnections true).profile).Path (fun _ _ => True)
    (initial defaultPolicy) lostTwice s ∧ ¬BacksOffUnconfirmed defaultPolicy.delays (waits s.history) := by
  obtain ⟨s, hpath, hp⟩ := Steps.Machine.exists_path_of_check (M := machine (spotConnections true).profile)
    (P := fun _ _ => True) (p := fun s => decide (waits s.history =
      [(⟨some (.link .connectionClosed), false, 1⟩, 0, 1), (⟨some (.link .connectionClosed), false, 1⟩, 0, 1)]))
    (initial defaultPolicy) lostTwice (by decide +kernel)
  refine ⟨s, hpath, fun h => ?_⟩
  rw [of_decide_eq_true hp] at h
  have hindex := (h [_] _ 0 1 [] rfl).2 rfl
  cases hindex

end BinanceCollector.Connection
