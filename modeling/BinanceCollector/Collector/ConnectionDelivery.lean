import BinanceCollector.Collector.Connection

/-!
# Delivery over whole runs

The history of a collector is `Faithful` when every act is permitted after what precedes it: a received payload is
handled next, with the label of its attempt and its number in the attempt, and no other act of the loop comes in
between.

- `step_delivering`, `path_delivering`: every run has a faithful history.
- `path_received`: what a run has received is what its inputs let `_receive_or_stop` return.
- `connectionId_runId`, `connectionId_attempt`, `position_unique`: an attempt has its own connection id, and a message
  its own label.
- `exactly_once_delivery`: all this for any number of connections.
-/

namespace BinanceCollector.Connection

open Text

variable {μ : Type}

/-! ## Reading a history -/

/-- The payloads received, in order. -/
def receivedPayloads (h : List (Act μ)) : List WireMessage := h.filterMap fun
  | .receives payload => some payload
  | _ => none

/-- The payloads handled, in order. -/
def handledPayloads (h : List (Act μ)) : List WireMessage := h.filterMap fun
  | .handles payload _ => some payload
  | _ => none

/-- The messages the handler has been called with, in order. -/
def handledMessages (h : List (Act μ)) : List μ := h.filterMap fun
  | .handles _ message => some message
  | _ => none

/-- How many attempts have begun. -/
def begun (h : List (Act μ)) : ℕ := h.foldl (fun n a => match a with | .begins => n + 1 | _ => n) 0

/-- How many messages have been handled since the last attempt began. -/
def current (h : List (Act μ)) : ℕ :=
  h.foldl (fun n a => match a with | .begins => 0 | .handles _ _ => n + 1 | _ => n) 0

/-- An act that is neither a delivery nor a turn of the loop. -/
def Act.quiet : Act μ → Bool
  | .delivers | .handlerFails | .cancelled | .reports _ => true
  | _ => false

/-- What may follow a history. -/
def Permitted (p : Profile μ) (h : List (Act μ)) : Act μ → Prop
  -- what was received before has been handled
  | .receives _ | .begins | .ends _ | .waits _ _ _ => receivedPayloads h = handledPayloads h
  -- the next payload is handled, under its label
  | .handles payload m => receivedPayloads h = handledPayloads h ++ [payload] ∧
      ∃ now, m = p.message (begun h) (current h + 1) payload now
  -- a payload is acted upon once it has been handled, before the next one is received
  | .controls _ payload => receivedPayloads h = handledPayloads h ∧ (handledPayloads h).getLast? = some payload
  | .delivers | .handlerFails | .cancelled | .reports _ => True

/-- Every act is permitted after what precedes it. -/
def Faithful (p : Profile μ) (h : List (Act μ)) : Prop := ∀ pre a post, h = pre ++ a :: post → Permitted p pre a

theorem faithful_nil (p : Profile μ) : Faithful p [] := fun pre a post h => by simp at h

theorem Faithful.snoc {p : Profile μ} {h : List (Act μ)} {a : Act μ} (hf : Faithful p h) (ha : Permitted p h a) :
    Faithful p (h ++ [a]) := by
  intro pre b post heq
  rcases List.eq_nil_or_concat post with rfl | ⟨post, c, rfl⟩
  · obtain ⟨rfl, hab⟩ := List.append_inj' heq rfl
    cases hab
    exact ha
  · rw [List.concat_eq_append, ← List.cons_append, ← List.append_assoc] at heq
    exact hf pre b post (List.append_inj' heq rfl).1

section

variable (h : List (Act μ))

@[simp] theorem receivedPayloads_snoc (a : Act μ) :
    receivedPayloads (h ++ [a]) = receivedPayloads h ++ receivedPayloads [a] := List.filterMap_append

@[simp] theorem handledPayloads_snoc (a : Act μ) :
    handledPayloads (h ++ [a]) = handledPayloads h ++ handledPayloads [a] := List.filterMap_append

@[simp] theorem begun_snoc (a : Act μ) :
    begun (h ++ [a]) = match a with | .begins => begun h + 1 | _ => begun h := by
  simp [begun, List.foldl_append]

@[simp] theorem current_snoc (a : Act μ) :
    current (h ++ [a]) = match a with | .begins => 0 | .handles _ _ => current h + 1 | _ => current h := by
  simp [current, List.foldl_append]

end

/-! ## The invariant -/

/-- What the history of a collector says of its state. -/
structure Logged (p : Profile μ) (s : State μ) : Prop where
  faithful : Faithful p s.history
  balanced : receivedPayloads s.history = handledPayloads s.history
  attempt : s.attempt = begun s.history
  sequence : s.sequence = current s.history

/-- The payload that is being handled. -/
def Phase.pending : Phase → Option WireMessage
  | .handling payload | .settlingDelivery payload _ => some payload
  | _ => none

/-- Besides, the payload that is being handled is the last one. -/
structure Delivering (p : Profile μ) (s : State μ) : Prop where
  logged : Logged p s
  pending : ∀ payload, s.phase.pending = some payload → (handledPayloads s.history).getLast? = some payload

section

variable {p : Profile μ} {s : State μ}

theorem Logged.at_ (hs : Logged p s) (q : Phase) : Logged p (s.at_ q) :=
  { hs with }

theorem Logged.delivering (hs : Logged p s) {q : Phase} (hq : q.pending = none) : Delivering p (s.at_ q) :=
  ⟨hs.at_ q, fun payload hp => by rw [State.at_, hq] at hp; cases hp⟩

theorem Delivering.moves (hs : Delivering p s) {q : Phase}
    (hq : ∀ payload, q.pending = some payload → s.phase.pending = some payload) : Delivering p (s.at_ q) :=
  ⟨hs.logged.at_ q, fun payload hp => hs.pending payload (hq payload hp)⟩

/-- Quiet acts keep the record. -/
theorem Logged.act (hs : Logged p s) {a : Act μ} (ha : a.quiet = true) : Logged p (s.act a) := by
  have hperm : Permitted p s.history a := by cases a <;> trivial
  refine ⟨hs.faithful.snoc hperm, ?_, ?_, ?_⟩
  · cases a <;> first | (simpa [State.act, receivedPayloads, handledPayloads] using hs.balanced) | cases ha
  · cases a <;> first | (simpa [State.act] using hs.attempt) | cases ha
  · cases a <;> first | (simpa [State.act] using hs.sequence) | cases ha

theorem Logged.report (hs : Logged p s) (status : Status) : Logged p (s.report status) := hs.act rfl

/-- The end of an attempt, a wait, and what is done because of the last message, keep the record. -/
theorem Logged.turn (hs : Logged p s) {a : Act μ} (ha : Permitted p s.history a)
    (hk : (∃ o, a = .ends o) ∨ (∃ c n d, a = .waits c n d) ∨ ∃ c q, a = .controls c q) : Logged p (s.act a) := by
  refine ⟨hs.faithful.snoc ha, ?_, ?_, ?_⟩
  · obtain ⟨o, rfl⟩ | ⟨c, n, d, rfl⟩ | ⟨c, q, rfl⟩ := hk <;>
      simpa [State.act, receivedPayloads, handledPayloads] using hs.balanced
  · obtain ⟨o, rfl⟩ | ⟨c, n, d, rfl⟩ | ⟨c, q, rfl⟩ := hk <;> simpa [State.act] using hs.attempt
  · obtain ⟨o, rfl⟩ | ⟨c, n, d, rfl⟩ | ⟨c, q, rfl⟩ := hk <;> simpa [State.act] using hs.sequence

theorem Logged.ends (hs : Logged p s) (o : Option Exc) : Logged p (s.act (.ends o)) :=
  hs.turn hs.balanced (.inl ⟨o, rfl⟩)

theorem Logged.controls (hs : Logged p s) (c : Control) {payload : WireMessage}
    (hlast : (handledPayloads s.history).getLast? = some payload) : Logged p (s.act (.controls c payload)) :=
  hs.turn ⟨hs.balanced, hlast⟩ (.inr (.inr ⟨c, payload, rfl⟩))

/-! ## The functions of the loop -/

theorem Logged.finish (hs : Logged p s) {q : Phase} (hq : q.pending = none) : Delivering p (s.finish q) :=
  (hs.report _).delivering hq

theorem Logged.loop (hs : Logged p s) : Delivering p s.loop := by
  rw [State.loop]
  split
  · exact hs.finish rfl
  · refine Logged.delivering ?_ rfl
    have h := (hs.report .connecting).report .awaitingSubscription
    refine ⟨h.faithful.snoc h.balanced, ?_, ?_, ?_⟩
    · simpa [State.act, receivedPayloads, handledPayloads] using h.balanced
    · show s.attempt + 1 = begun (_ ++ [_])
      rw [begun_snoc]
      exact congrArg (· + 1) h.attempt
    · simp [State.act]

theorem Logged.retry (hs : Logged p s) (outcome : Option Exc) : Delivering p (s.retry outcome) := by
  rw [State.retry]
  split
  · exact hs.finish rfl
  · refine Logged.delivering ?_ rfl
    have h : Logged p { s with policy := s.policy.nextDelay.2 } := { hs with }
    exact (h.report _).turn (h.report _).balanced (.inr (.inl ⟨_, _, _, rfl⟩))

theorem Logged.attemptEnds (hs : Logged p s) (o : Option Exc) : Delivering p (s.attemptEnds o) := by
  cases o with
  | none => exact (hs.ends none).retry none
  | some e =>
    cases e with
    | cancelled | messageHandler | invalidHandshake | decoding failure => exact (hs.ends _).finish rfl
    | subscription reason => exact (((hs.ends _).report _).report _).retry _
    | link e => exact (((hs.ends _).report _).report _).retry _

theorem Logged.receive (hs : Logged p s) : Delivering p s.receive := by
  rw [State.receive]
  split <;> exact hs.delivering rfl

/-- The receive step appends a payload and its handling. -/
theorem Logged.received (hs : Logged p s) (now : ℤ) (result : Except Exc (Option WireMessage)) :
    Delivering p (s.received p now result) := by
  match result with
  | .error e => exact hs.delivering rfl
  | .ok none => exact hs.delivering rfl
  | .ok (some payload) =>
    have hreceives : Faithful p (s.history ++ [.receives payload]) := hs.faithful.snoc hs.balanced
    have hbalanced : receivedPayloads (s.history ++ [.receives payload]) =
        handledPayloads (s.history ++ [.receives payload]) ++ [payload] := by
      simp [receivedPayloads, handledPayloads]
      simpa [receivedPayloads, handledPayloads] using hs.balanced
    have hlabel : Permitted p (s.history ++ [.receives payload])
        (.handles payload (p.message s.attempt (s.sequence + 1) payload now)) :=
      ⟨hbalanced, now, by rw [hs.attempt, hs.sequence]; simp⟩
    refine ⟨⟨hreceives.snoc hlabel, ?_, ?_, ?_⟩, fun q hq => ?_⟩
    · simpa [State.received, State.act, State.at_, receivedPayloads, handledPayloads] using hs.balanced
    · show s.attempt = begun (s.history ++ [_] ++ [_])
      rw [begun_snoc, begun_snoc]
      exact hs.attempt
    · show s.sequence + 1 = current (s.history ++ [_] ++ [_])
      rw [current_snoc, current_snoc]
      exact congrArg (· + 1) hs.sequence
    · cases hq
      simp [State.received, State.act, State.at_, handledPayloads]

theorem Logged.watch (hs : Logged p s) {payload : WireMessage}
    (hlast : (handledPayloads s.history).getLast? = some payload) : Delivering p (s.watch p payload) := by
  rw [State.watch]
  split
  · exact hs.delivering rfl
  · rename_i known _
    have hstatus : Logged p (if known then s.report .receivingData else s) ∧
        (handledPayloads (if known then s.report .receivingData else s).history).getLast? = some payload := by
      split
      · exact ⟨hs.report _, by simpa [State.report, State.act, handledPayloads] using hlast⟩
      · exact ⟨hs, hlast⟩
    dsimp only
    split
    · exact hstatus.1.delivering rfl
    · exact (hstatus.1.controls .shutsDown hstatus.2).delivering rfl
    · exact hstatus.1.receive

theorem Logged.handled (hs : Logged p s) {payload : WireMessage}
    (hlast : (handledPayloads s.history).getLast? = some payload) : Delivering p (s.handled p payload) := by
  have h : Logged p ({ s with policy := s.policy.reset, delivered := s.delivered + 1 }.act .delivers) :=
    Logged.act (s := { s with policy := s.policy.reset, delivered := s.delivered + 1 })
      { hs with } rfl
  have hl : (handledPayloads
      (({ s with policy := s.policy.reset, delivered := s.delivered + 1 } : State μ).act .delivers).history).getLast? =
        some payload := by
    simpa [State.act, handledPayloads] using hlast
  rw [State.handled]
  split
  · exact h.delivering rfl
  · exact (h.controls .rejects hl).delivering rfl
  · -- the confirmation is recorded before the message is looked at again
    refine Logged.watch (Logged.report ?_ _) (by simpa [State.report, State.act, handledPayloads] using hl)
    exact Logged.controls (s := { State.act { s with policy := s.policy.reset, delivered := s.delivered + 1 } .delivers
      with confirmed := true }) { h with } .confirms hl
  · exact h.watch hl

theorem Logged.handlerEnds (hs : Logged p s) {payload : WireMessage}
    (hlast : (handledPayloads s.history).getLast? = some payload) (result : Except Exc Bool) :
    Delivering p (s.handlerEnds p payload result) := by
  unfold State.handlerEnds
  split
  · exact ⟨hs.at_ _, fun q hq => by cases hq; exact hlast⟩
  · split
    · exact hs.handled hlast
    · exact hs.delivering rfl

theorem Logged.deliveryEnds (hs : Logged p s) {payload : WireMessage}
    (hlast : (handledPayloads s.history).getLast? = some payload) (result : Except Exc Bool) :
    Delivering p (s.deliveryEnds p payload result) := by
  match result with
  | .ok true => exact hs.handled hlast
  | .ok false => exact hs.delivering rfl
  | .error e => exact hs.delivering rfl

theorem Delivering.cancel (hs : Delivering p s) {s' : State μ} (h : s.cancel p = some s') : Delivering p s' := by
  have hc : Logged p (s.act .cancelled) := hs.logged.act rfl
  have hlast : ∀ payload, s.phase.pending = some payload →
      (handledPayloads (s.act .cancelled).history).getLast? = some payload := fun payload hp => by
    simpa [State.act, handledPayloads] using hs.pending payload hp
  simp only [State.cancel, show (s.act .cancelled).phase = s.phase from rfl] at h
  split at h <;> cases h
  · exact hc.delivering rfl
  · exact hc.attemptEnds _
  · exact hc.delivering rfl
  · exact hc.delivering rfl
  · exact hc.delivering rfl
  · rename_i payload hphase
    exact hc.handlerEnds (hlast payload (by rw [hphase]; rfl)) _
  · rename_i payload result hphase
    exact ⟨hc.at_ _, fun q hq => by cases hq; exact hlast payload (by rw [hphase]; rfl)⟩
  · exact hc.attemptEnds _
  · exact hc.finish rfl

/-- **One step keeps the record.** -/
theorem step_delivering (hs : Delivering p s) {s' : State μ} {i : Input} (h : (machine p).step s i = some s') :
    Delivering p s' := by
  have hl := hs.logged
  cases effect_of_step h with
  | setStop => exact ⟨{ hl with }, hs.pending⟩
  | start => exact Logged.loop { hl with }
  | connected => exact ((hl.report _).report _).delivering rfl
  | connectFails => exact hl.attemptEnds _
  | sent => exact hl.receive
  | sendFails | receives | recvFails | ackTimeout | stopReceiving => exact hl.delivering rfl
  | stopHandling hphase => exact hs.moves fun q hq => by rw [hphase]; exact hq
  | stopWaiting => exact hl.finish rfl
  | settled => exact hl.received _ _
  | deliverySettled hphase => exact hl.deliveryEnds (hs.pending _ (by rw [hphase]; rfl)) _
  | handlerReturns hphase => exact hl.handlerEnds (hs.pending _ (by rw [hphase]; rfl)) _
  | handlerRaises hphase =>
    refine (hl.act (a := .handlerFails) rfl).handlerEnds ?_ _
    simpa [State.act, handledPayloads] using hs.pending _ (by rw [hphase]; rfl)
  | closed => exact hl.attemptEnds _
  | closeFails => exact hl.attemptEnds _
  | elapsed => exact hl.loop
  | cancel hc => exact hs.cancel hc

theorem initial_delivering (p : Profile μ) (policy : ReconnectPolicy) : Delivering p (initial policy) :=
  ⟨⟨faithful_nil p, rfl, rfl, rfl⟩, fun _ hq => by cases hq⟩

/-- **Every run has a faithful history.** -/
theorem path_delivering {policy : ReconnectPolicy} {is : List Input}
    (h : (machine p).Path (fun _ _ => True) (initial policy) is s) : Delivering p s :=
  h.invariant (fun _ _ _ _ hs hstep => step_delivering hs hstep) (initial_delivering p policy)

end

/-! ## What arrives -/

/-- The payload that `recv` has returned and `_receive_or_stop` is about to return. -/
def Phase.arrived : Phase → Option WireMessage
  | .settling (.ok (some payload)) => some payload
  | _ => none

/-- What `_receive_or_stop` returns, as the inputs tell: what `recv` has returned, when the `gather` ends, unless the
task has been cancelled meanwhile. -/
def returnedPayloads : Option WireMessage → List Input → List WireMessage
  | _, [] => []
  | _, .receives payload :: is => returnedPayloads (some payload) is
  | _, .cancel :: is => returnedPayloads none is
  | arrived, .settled _ :: is => arrived.toList ++ returnedPayloads none is
  | arrived, _ :: is => returnedPayloads arrived is

section

variable {p : Profile μ} {s s' t : State μ}

/-- Nothing is received, and nothing is about to be. -/
structure ReceivesNothing (s t : State μ) : Prop where
  received : receivedPayloads t.history = receivedPayloads s.history
  arrived : t.phase.arrived = none

theorem receivedPayloads_act (s : State μ) {a : Act μ} (ha : receivedPayloads [a] = []) :
    receivedPayloads (s.act a).history = receivedPayloads s.history := by
  rw [State.act, receivedPayloads_snoc, ha, List.append_nil]

theorem receivedPayloads_report (s : State μ) (status : Status) :
    receivedPayloads (s.report status).history = receivedPayloads s.history := receivedPayloads_act s rfl

/-- A state with the same record goes on to a phase in which nothing has arrived. -/
theorem ReceivesNothing.at_ (h : receivedPayloads t.history = receivedPayloads s.history) {q : Phase}
    (hq : q.arrived = none) : ReceivesNothing s (t.at_ q) := ⟨h, hq⟩

theorem ReceivesNothing.trans (h : receivedPayloads t.history = receivedPayloads s.history)
    (h' : ReceivesNothing t s') : ReceivesNothing s s' := ⟨h'.received.trans h, h'.arrived⟩

theorem finish_receives (s : State μ) {q : Phase} (hq : q.arrived = none) : ReceivesNothing s (s.finish q) :=
  .at_ (receivedPayloads_report ..) hq

theorem loop_receives (s : State μ) : ReceivesNothing s s.loop := by
  rw [State.loop]
  split
  · exact finish_receives s rfl
  · refine .at_ ((receivedPayloads_act _ rfl).trans ?_) rfl
    exact (receivedPayloads_report ..).trans (receivedPayloads_report ..)

theorem retry_receives (s : State μ) (outcome : Option Exc) : ReceivesNothing s (s.retry outcome) := by
  rw [State.retry]
  split
  · exact finish_receives s rfl
  · refine .at_ ?_ rfl
    exact (receivedPayloads_act _ rfl).trans (receivedPayloads_report ..)

theorem attemptEnds_receives (s : State μ) (outcome : Option Exc) : ReceivesNothing s (s.attemptEnds outcome) := by
  have hends : ∀ o, receivedPayloads (s.act (.ends o)).history = receivedPayloads s.history := fun o =>
    receivedPayloads_act s rfl
  match outcome with
  | none => exact .trans (hends _) (retry_receives _ _)
  | some (.subscription _) | some (.link _) =>
    refine .trans ?_ (retry_receives _ _)
    exact (receivedPayloads_report ..).trans ((receivedPayloads_report ..).trans (hends _))
  | some .cancelled | some .messageHandler | some .invalidHandshake | some (.decoding _) =>
    exact .trans (hends _) (finish_receives _ rfl)

theorem receive_receives (s : State μ) : ReceivesNothing s s.receive := by
  rw [State.receive]
  split <;> exact .at_ rfl rfl

theorem watch_receives (s : State μ) (payload : WireMessage) : ReceivesNothing s (s.watch p payload) := by
  rw [State.watch]
  split
  · exact .at_ rfl rfl
  · rename_i known _
    have hstatus : receivedPayloads (if known then s.report .receivingData else s).history =
        receivedPayloads s.history := by
      split
      · exact receivedPayloads_report ..
      · rfl
    dsimp only
    split
    · exact .at_ hstatus rfl
    · exact .at_ ((receivedPayloads_act _ rfl).trans hstatus) rfl
    · exact .trans hstatus (receive_receives _)

theorem handled_receives (s : State μ) (payload : WireMessage) : ReceivesNothing s (s.handled p payload) := by
  have hdelivers : receivedPayloads (State.act { s with policy := s.policy.reset, delivered := s.delivered + 1 }
      .delivers).history = receivedPayloads s.history := receivedPayloads_act _ rfl
  rw [State.handled]
  split
  · exact .at_ hdelivers rfl
  · exact .at_ ((receivedPayloads_act _ rfl).trans hdelivers) rfl
  · refine .trans ?_ (watch_receives _ payload)
    exact (receivedPayloads_report ..).trans ((receivedPayloads_act _ rfl).trans hdelivers)
  · exact .trans hdelivers (watch_receives _ payload)

theorem handlerEnds_receives (s : State μ) (payload : WireMessage) (result : Except Exc Bool) :
    ReceivesNothing s (s.handlerEnds p payload result) := by
  unfold State.handlerEnds
  split
  · exact .at_ rfl rfl
  · split
    · exact handled_receives s payload
    · exact .at_ rfl rfl

theorem deliveryEnds_receives (s : State μ) (payload : WireMessage) (result : Except Exc Bool) :
    ReceivesNothing s (s.deliveryEnds p payload result) := by
  match result with
  | .ok true => exact handled_receives s payload
  | .ok false | .error e => exact .at_ rfl rfl

theorem cancel_receives (h : s.cancel p = some s') : ReceivesNothing s s' := by
  have hc : receivedPayloads (s.act .cancelled).history = receivedPayloads s.history := receivedPayloads_act s rfl
  simp only [State.cancel, show (s.act .cancelled).phase = s.phase from rfl] at h
  split at h <;> cases h
  · exact .at_ hc rfl
  · exact .trans hc (attemptEnds_receives _ _)
  · exact .at_ hc rfl
  · exact .at_ hc rfl
  · exact .at_ hc rfl
  · exact .trans hc (handlerEnds_receives _ _ _)
  · exact .at_ hc rfl
  · exact .trans hc (attemptEnds_receives _ _)
  · exact .trans hc (finish_receives _ rfl)

/-- **A step receives what its input says**: what has been received, and what the inputs to come let
`_receive_or_stop` return, stay the same together. -/
theorem received_of_step {i : Input} (h : (machine p).step s i = some s') (is : List Input) :
    receivedPayloads s'.history ++ returnedPayloads s'.phase.arrived is =
      receivedPayloads s.history ++ returnedPayloads s.phase.arrived (i :: is) := by
  have hquiet : ∀ {t}, ReceivesNothing s t → s.phase.arrived = none →
      returnedPayloads none (i :: is) = returnedPayloads none is →
      receivedPayloads t.history ++ returnedPayloads t.phase.arrived is =
        receivedPayloads s.history ++ returnedPayloads s.phase.arrived (i :: is) := by
    intro t ht hs hi
    rw [ht.received, ht.arrived, hs, hi]
  cases effect_of_step h with
  | setStop => rfl
  | start hphase => exact hquiet ⟨(loop_receives _).received, (loop_receives _).arrived⟩ (by rw [hphase]; rfl) rfl
  | connected hphase =>
    refine hquiet (.at_ ?_ rfl) (by rw [hphase]; rfl) rfl
    exact (receivedPayloads_report ..).trans (receivedPayloads_report ..)
  | connectFails hphase => exact hquiet (attemptEnds_receives _ _) (by rw [hphase]; rfl) rfl
  | sent hphase => exact hquiet (receive_receives _) (by rw [hphase]; rfl) rfl
  | sendFails hphase | recvFails hphase | ackTimeout hphase | stopReceiving hphase | stopHandling hphase =>
    exact hquiet (.at_ rfl rfl) (by rw [hphase]; rfl) rfl
  | receives hphase => rfl
  | stopWaiting hphase => exact hquiet (finish_receives _ rfl) (by rw [hphase]; rfl) rfl
  | @settled now result hphase =>
    rw [hphase]
    match result with
    | .error e | .ok none => rfl
    | .ok (some payload) =>
      simp [State.received, State.act, State.at_, receivedPayloads, Phase.arrived, returnedPayloads]
  | deliverySettled hphase => exact hquiet (deliveryEnds_receives _ _ _) (by rw [hphase]; rfl) rfl
  | handlerReturns hphase => exact hquiet (handlerEnds_receives _ _ _) (by rw [hphase]; rfl) rfl
  | handlerRaises hphase =>
    exact hquiet (.trans (receivedPayloads_act _ rfl) (handlerEnds_receives _ _ _)) (by rw [hphase]; rfl) rfl
  | closed hphase => exact hquiet (attemptEnds_receives _ _) (by rw [hphase]; rfl) rfl
  | closeFails hphase => exact hquiet (attemptEnds_receives _ _) (by rw [hphase]; rfl) rfl
  | elapsed hphase => exact hquiet (loop_receives _) (by rw [hphase]; rfl) rfl
  | cancel hc => rw [(cancel_receives hc).received, (cancel_receives hc).arrived]; rfl

/-- **What has been received in a run** is what its inputs let `_receive_or_stop` return. -/
theorem path_received {is : List Input} (h : (machine p).Path (fun _ _ => True) s is s') :
    receivedPayloads s'.history = receivedPayloads s.history ++ returnedPayloads s.phase.arrived is := by
  induction h with
  | nil => rw [returnedPayloads, List.append_nil]
  | cons _ hstep _ ih => rw [ih, received_of_step hstep]

end

/-! ## Labels -/

/-- After a message has been handled, another attempt has begun, or the count of this one has gone on. -/
theorem label_advances (pre mid : List (Act μ)) (payload : WireMessage) (m : μ) :
    begun pre < begun (pre ++ .handles payload m :: mid) ∨
      (begun pre = begun (pre ++ .handles payload m :: mid) ∧
        current pre < current (pre ++ .handles payload m :: mid)) := by
  induction mid using List.reverseRecOn with
  | nil => exact .inr ⟨by simp, by simp⟩
  | append_singleton mid a ih =>
    rw [show pre ++ .handles payload m :: (mid ++ [a]) = pre ++ .handles payload m :: mid ++ [a] by simp, begun_snoc,
      current_snoc]
    cases a <;> first | exact ih | (simp only; omega)

/-- **A position in a history is known by its attempt and its number in the attempt.** -/
theorem position_unique {h pre pre' post post' : List (Act μ)} {payload payload' : WireMessage} {m m' : μ}
    (hp : h = pre ++ .handles payload m :: post) (hp' : h = pre' ++ .handles payload' m' :: post')
    (hb : begun pre = begun pre') (hc : current pre = current pre') : pre = pre' := by
  rw [hp] at hp'
  rcases List.append_eq_append_iff.1 hp' with ⟨mid, rfl, hmid⟩ | ⟨mid, rfl, hmid⟩
  · cases mid with
    | nil => simp
    | cons a mid =>
      obtain rfl := (List.cons.inj hmid).1
      have := label_advances pre mid payload m
      omega
  · cases mid with
    | nil => simp
    | cons a mid =>
      obtain rfl := (List.cons.inj hmid).1
      have := label_advances pre' mid payload' m'
      omega

/-- Run ids of one length that differ give connection ids that differ. -/
theorem connectionId_runId {runId runId' groupKey groupKey' : Str} {attempt attempt' : ℕ}
    (hlen : runId.length = runId'.length)
    (h : connectionId runId groupKey attempt = connectionId runId' groupKey' attempt') : runId = runId' :=
  (List.append_inj h hlen).1

/-- **Attempts of one connection have different connection ids.** -/
theorem connectionId_attempt {runId groupKey : Str} {attempt attempt' : ℕ}
    (h : connectionId runId groupKey attempt = connectionId runId groupKey attempt') : attempt = attempt' := by
  have h := List.append_cancel_left h
  rw [List.cons.injEq] at h
  have h := List.append_cancel_left h.2
  rw [List.cons.injEq] at h
  exact decimal_injective h.2

/-- **Exactly-once, in-order, uniquely labelled delivery.** In every run of every connection, the handler has been
called once for each payload that `_receive_or_stop` has returned, in order, and before anything else is done about the
payload; a message carries the connection id of its attempt and its number in the attempt; and no two messages of any
connections carry the same. -/
theorem exactly_once_delivery {ι : Type} (c : ι → StreamConnection) (policy : ι → ReconnectPolicy)
    (is : ι → List Input) (s : ι → State ReceivedMessage) (hlen : ∀ g, (c g).runId.length = 32)
    (hdistinct : ∀ g g', (c g).runId = (c g').runId → g = g')
    (h : ∀ g, (machine (c g).profile).Path (fun _ _ => True) (initial (policy g)) (is g) (s g)) :
    (∀ g, receivedPayloads (s g).history = returnedPayloads none (is g) ∧
      receivedPayloads (s g).history = handledPayloads (s g).history ∧ Faithful (c g).profile (s g).history) ∧
    (∀ g pre post payload m, (s g).history = pre ++ .handles payload m :: post →
      m.payload = payload ∧ m.connectionGroup = (c g).group.key ∧
        m.connectionId = connectionId (c g).runId (c g).group.key (begun pre) ∧
        m.receiveSequence = current pre + 1) ∧
    (∀ g g' attempt attempt', connectionId (c g).runId (c g).group.key attempt =
      connectionId (c g').runId (c g').group.key attempt' → g = g' ∧ attempt = attempt') ∧
    ∀ g g' pre pre' post post' payload payload' m m', (s g).history = pre ++ .handles payload m :: post →
      (s g').history = pre' ++ .handles payload' m' :: post' → m.connectionId = m'.connectionId →
        m.receiveSequence = m'.receiveSequence → g = g' ∧ pre = pre' := by
  have hs : ∀ g, Logged (c g).profile (s g) := fun g => (path_delivering (h g)).logged
  have hlabel : ∀ g pre post payload m, (s g).history = pre ++ .handles payload m :: post →
      m.payload = payload ∧ m.connectionGroup = (c g).group.key ∧
        m.connectionId = connectionId (c g).runId (c g).group.key (begun pre) ∧
        m.receiveSequence = current pre + 1 := by
    intro g pre post payload m hp
    obtain ⟨-, now, rfl⟩ := (hs g).faithful pre _ post hp
    exact ⟨rfl, rfl, rfl, rfl⟩
  have hid : ∀ g g' attempt attempt', connectionId (c g).runId (c g).group.key attempt =
      connectionId (c g').runId (c g').group.key attempt' → g = g' ∧ attempt = attempt' := by
    intro g g' attempt attempt' heq
    obtain rfl := hdistinct g g' (connectionId_runId ((hlen g).trans (hlen g').symm) heq)
    exact ⟨rfl, connectionId_attempt heq⟩
  refine ⟨fun g => ⟨path_received (h g), (hs g).balanced, (hs g).faithful⟩, hlabel, hid, ?_⟩
  intro g g' pre pre' post post' payload payload' m m' hp hp' hconn hseq
  obtain ⟨-, -, hconn₁, hseq₁⟩ := hlabel g pre post payload m hp
  obtain ⟨-, -, hconn₂, hseq₂⟩ := hlabel g' pre' post' payload' m' hp'
  obtain ⟨rfl, hattempt⟩ := hid g g' _ _ (hconn₁.symm.trans (hconn.trans hconn₂))
  exact ⟨rfl, position_unique hp hp' hattempt (by omega)⟩

/-- A rejection before and an acknowledgement after a reconnect, and a binary message. -/
def rejectedOnce : List Input :=
  [.start, .connected, .sent, .receives (.text (str "\x7b\"id\":1,\"code\":2\x7d")), .settled 5, .handlerReturns,
    .closed, .elapsed, .connected, .sent, .receives (.text (str "\x7b\"result\":null,\"id\":1\x7d")), .settled 6,
    .handlerReturns, .receives (.binary [1, 2]), .settled 7, .handlerReturns]

theorem exactly_once_delivery_rejectedOnce : ∃ s : Bool → State ReceivedMessage,
    (∀ g, (machine (spotConnections g).profile).Path (fun _ _ => True) (initial defaultPolicy) rejectedOnce (s g)) ∧
    (∀ g, (handledPayloads (s g).history).length = 3 ∧ (s g).attempt = 2 ∧ (s g).confirmed = true) ∧
    ∀ g, returnedPayloads none rejectedOnce = handledPayloads (s g).history := by
  have hrun : ∀ g, ∃ s, (machine (spotConnections g).profile).Path (fun _ _ => True) (initial defaultPolicy)
      rejectedOnce s ∧ decide ((handledPayloads s.history).length = 3 ∧ s.attempt = 2 ∧ s.confirmed = true) = true := by
    intro g
    refine Steps.Machine.exists_path_of_check _ _ ?_
    cases g <;> decide +kernel
  choose s hs hp using hrun
  have hids : ∀ g g', (spotConnections g).runId = (spotConnections g').runId → g = g' := by decide
  refine ⟨s, hs, fun g => of_decide_eq_true (hp g), fun g => ?_⟩
  obtain ⟨hreturned, hhandled, -⟩ := (exactly_once_delivery spotConnections (fun _ => defaultPolicy)
    (fun _ => rejectedOnce) s (fun g => by cases g <;> rfl) hids hs).1 g
  exact hreturned.symm.trans hhandled

end BinanceCollector.Connection
