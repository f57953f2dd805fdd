import BinanceCollector.Collector.ConnectionHandover

/-!
# Handing messages on beside the stop event

`BinanceCollector` waits for the handler and for the stop event: a message that has been handed on may be given up, and
then no other message is handed on.

- `State.free`: the next message may be handed on.
- `Passes`, `passes_of_step`: a step hands on the next message, goes on from the handler, or leaves the messages alone.
-/

namespace BinanceCollector.Connection

variable {μ : Type} {p : Profile μ} {s s' : State μ} {i : Input}

/-- `run()` ends with these. -/
def Exc.fatal : Exc → Bool
  | .cancelled | .messageHandler => true
  | _ => false

/-- The next message may be handed on: none is with the handler, and none has been given up. A delivery is given up only
when the stop event is set. -/
def Phase.free (stop : Bool) : Phase → Bool
  | .handling _ | .returned | .raised _ => false
  | .settling (.error e) | .settlingDelivery _ (.error e) => !e.fatal
  | .settlingDelivery _ (.ok done) => done || !stop
  | .closing outcome => !stop && !outcome.any Exc.fatal
  | _ => true

/-- The next message may be handed on. -/
def State.free (s : State μ) : Bool := s.phase.free s.stop

/-- What a step does to the messages handed on. -/
inductive Passes (s : State μ) (i : Input) (s' : State μ) : Prop
  | quiet : handledMessages s'.history = handledMessages s.history → (s'.free = true → s.free = true) → Passes s i s'
  | hands (message : μ) : s.free = true → s'.free = false →
      handledMessages s'.history = handledMessages s.history ++ [message] → Passes s i s'
  | served : i = .handlerReturns → handledMessages s'.history = handledMessages s.history → Passes s i s'

theorem retry_free {outcome : Option Exc} (h : (s.retry outcome).free = true) : s.stop = false := by
  unfold State.retry at h
  split at h
  · cases h
  · exact Bool.eq_false_iff.2 ‹_›

/-- After an attempt that a stop request, a handler or a cancellation has ended, the collector ends. -/
theorem attemptEnds_free {outcome : Option Exc} (h : (s.attemptEnds outcome).free = true) :
    s.stop = false ∧ outcome.any Exc.fatal = false := by
  cases outcome with
  | none =>
    rw [State.attemptEnds] at h
    have hstop := retry_free h
    exact ⟨hstop, rfl⟩
  | some exc => cases exc with
    | subscription | link =>
      rw [State.attemptEnds] at h
      have hstop := retry_free h
      exact ⟨hstop, rfl⟩
    | cancelled | messageHandler | invalidHandshake | decoding =>
      rw [State.attemptEnds] at h
      cases h

theorem cancel_passes (h : s.cancel p = some s') (hw : p.watchesStop = true) :
    handledMessages s'.history = handledMessages s.history ∧ s'.free = false := by
  have hc : handledMessages (s.act .cancelled).history = handledMessages s.history := handledMessages_act s rfl
  simp only [State.cancel, show (s.act .cancelled).phase = s.phase from rfl] at h
  split at h <;> cases h
  · exact ⟨hc, rfl⟩
  · exact ⟨(attemptEnds_handed _ _).trans hc, rfl⟩
  · exact ⟨hc, Bool.and_false _⟩
  · exact ⟨hc, rfl⟩
  · exact ⟨hc, rfl⟩
  · rw [State.handlerEnds, if_pos hw]
    exact ⟨hc, rfl⟩
  · exact ⟨hc, rfl⟩
  · exact ⟨(attemptEnds_handed _ _).trans hc, rfl⟩
  · exact ⟨(handledMessages_finish _ _).trans hc, rfl⟩

/-- Setting the stop event frees nothing. -/
theorem free_mono {stop : Bool} {phase : Phase} (h : phase.free true = true) : phase.free stop = true := by
  cases phase with
  | settling result => cases result <;> exact h
  | settlingDelivery payload result =>
    cases result with
    | error e => exact h
    | ok done =>
      have hdone : done = true := by simpa [Phase.free] using h
      simp [Phase.free, hdone]
  | closing outcome => cases h
  | _ => exact h

/-- **One message at a time.** A step of a collector that waits beside the stop event hands on the next message only
after the handler has returned for the last one. -/
theorem passes_of_step (hw : p.watchesStop = true)
    (hclose : ∀ e, i = .closeFails e → ∀ exc, s.phase ≠ .closing (some exc))
    (h : (machine p).step s i = some s') : Passes s i s' := by
  have hfree : ∀ {q : Phase}, s.phase = q → q.free s.stop = true → s.free = true := fun hphase hq => by
    rwa [State.free, hphase]
  -- a step from a phase where no message is with the handler
  have hquiet : ∀ {q : Phase}, s.phase = q → q.free s.stop = true →
      handledMessages s'.history = handledMessages s.history → Passes s i s' := fun hphase hq hh =>
    .quiet hh fun _ => hfree hphase hq
  cases effect_of_step h with
  | setStop => exact .quiet rfl free_mono
  | start hphase => exact hquiet hphase rfl (loop_handed _)
  | connected hphase => exact hquiet hphase rfl (by simp)
  | connectFails hphase => exact hquiet hphase rfl (attemptEnds_handed _ _)
  | sent hphase => exact hquiet hphase rfl (receive_handed _).1
  | sendFails hphase => exact hquiet hphase rfl rfl
  | receives hphase => exact hquiet hphase rfl rfl
  | recvFails hphase => exact hquiet hphase rfl rfl
  | ackTimeout hphase => exact hquiet hphase rfl rfl
  | stopReceiving hphase => exact hquiet hphase rfl rfl
  | stopHandling _ hstop => exact .quiet rfl fun hs => by simp [State.free, State.at_, Phase.free, hstop] at hs
  | stopWaiting hphase => exact hquiet hphase rfl (handledMessages_finish _ _)
  | @settled now result hphase =>
    rcases result with e | _ | payload
    · exact .quiet rfl fun hs => hfree hphase (Bool.and_eq_true_iff.1 hs).2
    · exact hquiet hphase rfl rfl
    · refine .hands (p.message s.attempt (s.sequence + 1) payload now) (hfree hphase rfl) rfl ?_
      simp [State.received, State.act, State.at_, handledMessages]
  | @deliverySettled now payload result hphase =>
    rcases result with e | _ | _
    · exact .quiet rfl fun hs => hfree hphase (Bool.and_eq_true_iff.1 hs).2
    · exact .quiet rfl fun hs => hfree hphase (Bool.and_eq_true_iff.1 hs).1
    · exact hquiet hphase rfl (handled_handed _ _).1
  | handlerReturns =>
    refine .served rfl ?_
    rw [State.handlerEnds, if_pos hw]
    rfl
  | handlerRaises =>
    rw [State.handlerEnds, if_pos hw]
    exact .quiet (handledMessages_act s rfl) fun hs => by cases hs
  | closed hphase =>
    refine .quiet (attemptEnds_handed _ _) fun hs => hfree hphase ?_
    obtain ⟨hstop, hexc⟩ := attemptEnds_free hs
    simp [Phase.free, hstop, hexc]
  | @closeFails e outcome hphase =>
    cases outcome with
    | none =>
      refine .quiet (attemptEnds_handed _ _) fun hs => hfree hphase ?_
      simp [Phase.free, (attemptEnds_free hs).1]
    | some exc => exact absurd hphase (hclose e rfl exc)
  | elapsed hphase => exact hquiet hphase rfl (loop_handed _)
  | cancel hc =>
    obtain ⟨hh, hs⟩ := cancel_passes hc hw
    exact .quiet hh fun h => by rw [hs] at h; cases h

end BinanceCollector.Connection
