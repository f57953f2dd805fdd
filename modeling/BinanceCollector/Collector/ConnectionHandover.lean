import BinanceCollector.Collector.ConnectionDelivery

/-!
# Handing messages on

A connection hands one message on at a time: `StreamConnection` waits for the handler before it receives again.

- `Hands`, `hands_of_step`: a step hands on the next message after the last one has been served, waits for the handler,
  or leaves the messages alone.
- `handed_ascending`: the messages of one connection id are handed on in the order of their numbers.
-/

namespace BinanceCollector.Connection

variable {μ : Type} {p : Profile μ} {s s' : State μ} {i : Input}

/-- The handler has returned for every message handed on, unless the connection has failed. -/
def Phase.served : Phase → Bool
  | .handling _ | .settlingDelivery _ _ | .raised _ | .settling (.error .cancelled) | .settling (.error .messageHandler)
  | .closing (some .cancelled) | .closing (some .messageHandler) => false
  | _ => true

/-- The connection does not wait for the handler beside the stop event. -/
def Phase.direct : Phase → Bool
  | .settlingDelivery _ _ => false
  | _ => true

/-- What a step does to the messages handed on. -/
inductive Hands (s : State μ) (i : Input) (s' : State μ) : Prop
  | quiet : handledMessages s'.history = handledMessages s.history →
      (s'.phase.served = true → s.phase.served = true) → Hands s i s'
  | hands (message : μ) : s.phase.served = true → s'.phase.served = false →
      handledMessages s'.history = handledMessages s.history ++ [message] → Hands s i s'
  | served : i = .handlerReturns → handledMessages s'.history = handledMessages s.history → Hands s i s'

@[simp] theorem handledMessages_append (h acts : List (Act μ)) :
    handledMessages (h ++ acts) = handledMessages h ++ handledMessages acts := List.filterMap_append

@[simp] theorem handledMessages_report (s : State μ) (status : Status) :
    handledMessages (s.report status).history = handledMessages s.history := by
  simp [State.report, State.act, handledMessages]

@[simp] theorem handledMessages_at (s : State μ) (phase : Phase) :
    handledMessages (s.at_ phase).history = handledMessages s.history := rfl

@[simp] theorem handledMessages_finish (s : State μ) (phase : Phase) :
    handledMessages (s.finish phase).history = handledMessages s.history := by simp [State.finish]

theorem handledMessages_act (s : State μ) {a : Act μ} (ha : handledMessages [a] = []) :
    handledMessages (s.act a).history = handledMessages s.history := by simp [State.act, ha]

theorem loop_handed (s : State μ) : handledMessages s.loop.history = handledMessages s.history := by
  rw [State.loop]
  split
  · simp
  · rw [handledMessages_at, handledMessages_act _ rfl]
    simp

theorem retry_handed (s : State μ) (outcome : Option Exc) :
    handledMessages (s.retry outcome).history = handledMessages s.history := by
  rw [State.retry]
  split
  · simp
  · rw [handledMessages_at, handledMessages_act _ rfl, handledMessages_report]

theorem attemptEnds_handed (s : State μ) (outcome : Option Exc) :
    handledMessages (s.attemptEnds outcome).history = handledMessages s.history := by
  have hends : ∀ o, handledMessages (s.act (.ends o)).history = handledMessages s.history := fun o =>
    handledMessages_act s rfl
  match outcome with
  | none => exact (retry_handed _ _).trans (hends _)
  | some (.subscription _) | some (.link _) =>
    rw [State.attemptEnds, retry_handed, handledMessages_report, handledMessages_report, hends]
  | some .cancelled | some .messageHandler | some .invalidHandshake | some (.decoding _) =>
    rw [State.attemptEnds, handledMessages_finish, hends]

/-- After an attempt that a handler or a cancellation has ended, the connection has failed. -/
theorem attemptEnds_served {outcome : Option Exc} (h : (s.attemptEnds outcome).phase.served = true) :
    (Phase.closing outcome).served = true := by
  cases outcome with
  | none => rfl
  | some exc => cases exc with
    | cancelled | messageHandler => cases h
    | _ => rfl

theorem attemptEnds_direct (s : State μ) (outcome : Option Exc) : (s.attemptEnds outcome).phase.direct = true := by
  have hretry : ∀ (t : State μ) o, (t.retry o).phase.direct = true := fun t o => by
    rw [State.retry]
    split <;> rfl
  cases outcome with
  | none => exact hretry _ _
  | some exc => cases exc with
    | subscription | link => exact hretry _ _
    | _ => rfl

theorem loop_direct (s : State μ) : s.loop.phase.direct = true := by
  rw [State.loop]
  split <;> rfl

theorem receive_handed (s : State μ) :
    handledMessages s.receive.history = handledMessages s.history ∧ s.receive.phase.direct = true := by
  rw [State.receive]
  split <;> exact ⟨rfl, rfl⟩

theorem watch_handed (s : State μ) (payload : WireMessage) :
    handledMessages (s.watch p payload).history = handledMessages s.history ∧
      (s.watch p payload).phase.direct = true := by
  rw [State.watch]
  split
  · exact ⟨rfl, rfl⟩
  · rename_i known _
    have hstatus : handledMessages (if known then s.report .receivingData else s).history =
        handledMessages s.history := by
      split
      · exact handledMessages_report ..
      · rfl
    dsimp only
    split
    · exact ⟨hstatus, rfl⟩
    · exact ⟨by rw [handledMessages_at, handledMessages_act _ rfl, hstatus], rfl⟩
    · exact ⟨(receive_handed _).1.trans hstatus, (receive_handed _).2⟩

theorem handled_handed (s : State μ) (payload : WireMessage) :
    handledMessages (s.handled p payload).history = handledMessages s.history ∧
      (s.handled p payload).phase.direct = true := by
  have hdelivers : ∀ t : State μ, handledMessages (t.act .delivers).history = handledMessages t.history := fun t =>
    handledMessages_act t rfl
  rw [State.handled]
  split
  · exact ⟨hdelivers _, rfl⟩
  · exact ⟨by rw [handledMessages_at, handledMessages_act _ rfl, hdelivers], rfl⟩
  · obtain ⟨hh, hd⟩ := watch_handed (p := p) (State.report (State.act { State.act
      { s with policy := s.policy.reset, delivered := s.delivered + 1 } .delivers with confirmed := true }
        (.controls .confirms payload)) (.subscribed p.streams)) payload
    refine ⟨?_, hd⟩
    rw [hh, handledMessages_report, handledMessages_act _ rfl]
    exact hdelivers _
  · obtain ⟨hh, hd⟩ := watch_handed (p := p)
      (State.act { s with policy := s.policy.reset, delivered := s.delivered + 1 } .delivers) payload
    exact ⟨hh.trans (hdelivers _), hd⟩

theorem cancel_hands (h : s.cancel p = some s') (hw : p.watchesStop = false) :
    handledMessages s'.history = handledMessages s.history ∧ s'.phase.served = false ∧
      (s.phase.direct = true → s'.phase.direct = true) := by
  have hc : handledMessages (s.act .cancelled).history = handledMessages s.history := handledMessages_act s rfl
  simp only [State.cancel, show (s.act .cancelled).phase = s.phase from rfl] at h
  split at h <;> cases h
  · exact ⟨hc, rfl, fun _ => rfl⟩
  · exact ⟨(attemptEnds_handed _ _).trans hc, rfl, fun _ => rfl⟩
  · exact ⟨hc, rfl, fun _ => rfl⟩
  · exact ⟨hc, rfl, fun _ => rfl⟩
  · exact ⟨hc, rfl, fun _ => rfl⟩
  · rw [State.handlerEnds, if_neg (by simp [hw])]
    exact ⟨hc, rfl, fun _ => rfl⟩
  · rename_i hphase
    exact ⟨hc, rfl, fun hd => by rw [hphase] at hd; cases hd⟩
  · exact ⟨(attemptEnds_handed _ _).trans hc, rfl, fun _ => rfl⟩
  · exact ⟨(handledMessages_finish _ _).trans hc, rfl, fun _ => rfl⟩

/-- **One message at a time.** A step of a connection that waits for the handler hands on the next message only after
the last one has been served. -/
theorem hands_of_step (hw : p.watchesStop = false) (hd : s.phase.direct = true)
    (hclose : ∀ e, i = .closeFails e → ∀ exc, s.phase ≠ .closing (some exc))
    (h : (machine p).step s i = some s') : Hands s i s' ∧ s'.phase.direct = true := by
  have hquiet : ∀ q : Phase, q.direct = true → (q.served = true → s.phase.served = true) →
      Hands s i (s.at_ q) ∧ (s.at_ q).phase.direct = true := fun q hq hs => ⟨.quiet rfl hs, hq⟩
  cases effect_of_step h with
  | setStop => exact ⟨.quiet rfl id, hd⟩
  | start hphase => exact ⟨.quiet (loop_handed _) fun _ => by rw [hphase]; rfl, loop_direct _⟩
  | connected hphase => exact ⟨.quiet (by simp) fun _ => by rw [hphase]; rfl, rfl⟩
  | connectFails hphase =>
    exact ⟨.quiet (attemptEnds_handed _ _) fun _ => by rw [hphase]; rfl, attemptEnds_direct _ _⟩
  | sent hphase =>
    rw [State.receive]
    split
    · exact hquiet _ rfl fun _ => by rw [hphase]; rfl
    · exact hquiet _ rfl fun _ => by rw [hphase]; rfl
  | sendFails hphase => exact hquiet _ rfl fun _ => by rw [hphase]; rfl
  | receives hphase => exact hquiet _ rfl fun _ => by rw [hphase]; rfl
  | recvFails hphase => exact hquiet _ rfl fun _ => by rw [hphase]; rfl
  | ackTimeout hphase => exact hquiet _ rfl fun _ => by rw [hphase]; rfl
  | stopReceiving hphase => exact hquiet _ rfl fun _ => by rw [hphase]; rfl
  | stopHandling _ _ hwatch => rw [hw] at hwatch; cases hwatch
  | stopWaiting hphase => exact ⟨.quiet (handledMessages_finish _ _) fun _ => by rw [hphase]; rfl, rfl⟩
  | @settled now result hphase =>
    rcases result with e | _ | payload
    · exact hquiet _ rfl fun hs => by rw [hphase]; cases e <;> exact hs
    · exact hquiet _ rfl fun _ => by rw [hphase]; rfl
    · refine ⟨.hands (p.message s.attempt (s.sequence + 1) payload now) (by rw [hphase]; rfl) rfl ?_, rfl⟩
      simp [State.received, State.act, State.at_, handledMessages]
  | deliverySettled hphase => rw [hphase] at hd; cases hd
  | handlerReturns hphase =>
    rw [State.handlerEnds, if_neg (by simp [hw])]
    exact ⟨.served rfl (handled_handed _ _).1, (handled_handed _ _).2⟩
  | handlerRaises hphase =>
    rw [State.handlerEnds, if_neg (by simp [hw])]
    exact ⟨.quiet (handledMessages_act s rfl) fun hs => (by cases hs), rfl⟩
  | closed hphase =>
    exact ⟨.quiet (attemptEnds_handed _ _) fun hs => hphase ▸ attemptEnds_served hs, attemptEnds_direct _ _⟩
  | @closeFails e outcome hphase =>
    cases outcome with
    | none => exact ⟨.quiet (attemptEnds_handed _ _) fun _ => by rw [hphase]; rfl, attemptEnds_direct _ _⟩
    | some exc => exact absurd hphase (hclose e rfl exc)
  | elapsed hphase => exact ⟨.quiet (loop_handed _) fun _ => by rw [hphase]; rfl, loop_direct _⟩
  | cancel hc =>
    obtain ⟨hh, hs, hdirect⟩ := cancel_hands hc hw
    exact ⟨.quiet hh fun h => (by rw [hs] at h; cases h), hdirect hd⟩

/-! ## Labels -/

/-- **In order.** Of two messages with one connection id, the one handed on first has the smaller number. -/
theorem handed_ascending {c : StreamConnection} {h : List (Act ReceivedMessage)} (hf : Faithful c.profile h) :
    (handledMessages h).Pairwise fun m m' =>
      m.connectionId = m'.connectionId → m.receiveSequence < m'.receiveSequence := by
  induction h using List.reverseRecOn with
  | nil => exact .nil
  | append_singleton h a ih =>
    have hold : Faithful c.profile h := fun pre b post heq => hf pre b (post ++ [a]) (by simp [heq])
    rw [handledMessages_append]
    cases a with
    | handles payload m =>
      refine List.pairwise_append.2 ⟨ih hold, List.pairwise_singleton _ _, fun m₁ hm₁ m₂ hm₂ hid => ?_⟩
      obtain rfl := List.mem_singleton.1 hm₂
      obtain ⟨-, now, rfl⟩ := hf h (.handles payload m₂) [] rfl
      -- the earlier message and its label
      obtain ⟨act, hact, hmsg⟩ := List.mem_filterMap.1 hm₁
      cases act with
      | handles payload₁ m₁' =>
        obtain rfl := Option.some.inj hmsg
        obtain ⟨pre, mid, rfl⟩ := List.append_of_mem hact
        obtain ⟨-, now₁, rfl⟩ := hold pre (.handles payload₁ m₁') mid rfl
        have hattempt := connectionId_attempt hid
        rcases label_advances pre mid payload₁ (c.profile.message (begun pre) (current pre + 1) payload₁ now₁) with
          hlt | ⟨-, hlt⟩
        · omega
        · exact Nat.succ_lt_succ hlt
      | _ => cases hmsg
    | _ => simpa [handledMessages] using ih hold

end BinanceCollector.Connection
