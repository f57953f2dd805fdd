import BinanceCollector.Collector.ConnectionRuns
import BinanceCollector.Collector.MultiCollector

/-!
# Supervision of the three connections

- `Connection.rank_of_step`, `Connection.can_go_on`: once the stop event is set, a connection takes at most nine more
  steps of its own, and it can always take one until it ends.
- `Supervised`, `step_supervised`: what `run()` of `MultiStreamCollector` keeps.
- `supervision`: however the connections end, `run()` returns only after all of them have returned and leaves none
  behind, and a connection that raises sets the stop event, unless `run()` is cancelled before it sees the failure.
-/

namespace BinanceCollector

open Steps Text

namespace Connection

variable {μ : Type} {p : Profile μ} {s s' : State μ} {i : Input}

/-! ## A connection that is asked to stop -/

/-- The task is done. -/
def Phase.ended : Phase → Bool
  | .returned | .raised _ => true
  | _ => false

/-- At most how many steps are left once the stop event is set. -/
def Phase.rank : Phase → ℕ
  | .created => 9
  | .connecting => 8
  | .sending => 7
  | .receiving => 6
  | .settling _ => 5
  | .handling _ => 4
  | .settlingDelivery _ _ => 3
  | .closing _ => 2
  | .waiting _ => 1
  | .returned | .raised _ => 0

/-- The input is a step of the connection itself. -/
def Input.own : Input → Bool
  | .setStop | .cancel => false
  | _ => true

theorem loop_stop (s : State μ) : s.loop.stop = s.stop := by
  rcases loop_cases s with ⟨-, h⟩ | ⟨-, -, -, h, -⟩
  · rw [h]; rfl
  · exact h

theorem attemptEnds_stop (s : State μ) (outcome : Option Exc) : (s.attemptEnds outcome).stop = s.stop := by
  rcases attemptEnds_cases s outcome with ⟨-, t, acts, h, -, -, ht, -⟩ | ⟨e, -, -, h⟩
  · rcases retry_cases t outcome with ⟨-, hr⟩ | ⟨-, -, -, hr, -⟩
    · rw [h, hr, ← ht]; rfl
    · rw [h, hr, ht]
  · rw [h]; rfl

/-- Only `stop_event.set()` changes the stop event. -/
theorem stop_of_step (h : (machine p).step s i = some s') (hi : i ≠ .setStop) : s'.stop = s.stop := by
  cases stage_of_step h with
  | stops heq => exact absurd heq hi
  | starts => exact loop_stop _
  | elapses => exact loop_stop s
  | inside _ _ hin => exact hin.stop
  | @ends t outcome _ _ ht =>
    rw [attemptEnds_stop]
    rcases ht with rfl | rfl <;> rfl
  | leaves _ _ hs => exact hs

theorem loop_ended (hs : s.stop = true) : s.loop.phase = .returned := by
  rw [State.loop, if_pos hs]
  rfl

/-- An attempt that ends after a stop request is the last one. -/
theorem attemptEnds_rank (hs : s.stop = true) (outcome : Option Exc) : (s.attemptEnds outcome).phase.rank = 0 := by
  rcases attemptEnds_cases s outcome with ⟨-, t, acts, h, -, -, ht, -⟩ | ⟨e, -, -, h⟩
  · rw [h, State.retry, if_pos (ht.trans hs)]
    rfl
  · rw [h]; rfl

theorem receive_rank (hs : s.stop = true) : s.receive.phase.rank = 2 := by
  rw [State.receive, if_pos hs]
  rfl

theorem watch_rank (hs : s.stop = true) (payload : WireMessage) : (s.watch p payload).phase.rank = 2 := by
  unfold State.watch
  split
  · rfl
  · rename_i known _
    have hs' : (if known = true then s.report .receivingData else s).stop = true := by cases known <;> exact hs
    dsimp only
    split
    · rfl
    · rfl
    · exact receive_rank hs'

theorem handled_rank (hs : s.stop = true) (payload : WireMessage) : (s.handled p payload).phase.rank = 2 := by
  unfold State.handled
  dsimp only
  split
  · rfl
  · rfl
  · exact watch_rank (by exact hs) payload
  · exact watch_rank (by exact hs) payload

theorem handlerEnds_rank (hs : s.stop = true) (payload : WireMessage) (result : Except Exc Bool) :
    (s.handlerEnds p payload result).phase.rank ≤ 3 := by
  unfold State.handlerEnds
  split
  · exact Nat.le_refl 3
  · split
    · rw [handled_rank hs]; decide
    · exact Nat.le_succ 2

theorem deliveryEnds_rank (hs : s.stop = true) (payload : WireMessage) (result : Except Exc Bool) :
    (s.deliveryEnds p payload result).phase.rank = 2 := by
  unfold State.deliveryEnds
  split
  · exact handled_rank hs payload
  · rfl
  · rfl

theorem cancel_rank (hs : s.stop = true) (h : s.cancel p = some s') : s'.phase.rank ≤ s.phase.rank := by
  have hact : (s.act .cancelled).stop = true := hs
  unfold State.cancel at h
  dsimp only at h
  split at h <;> cases h <;> rename_i hphase <;> rw [show s.phase = (s.act .cancelled).phase from rfl, hphase]
  case h_2 => rw [attemptEnds_rank hact]; exact Nat.zero_le _
  case h_6 payload => exact (handlerEnds_rank hact payload _).trans (Nat.le_succ 3)
  case h_8 => rw [attemptEnds_rank hact]; exact Nat.zero_le _
  all_goals simp [State.at_, State.finish, Phase.rank]

/-- **After a stop request** every step of a connection takes it closer to its end. -/
theorem rank_of_step (hs : s.stop = true) (h : (machine p).step s i = some s') :
    s'.phase.rank + (if i.own then 1 else 0) ≤ s.phase.rank := by
  cases effect_of_step h with
  | setStop => exact Nat.le_refl _
  | start hphase => rw [loop_ended (by exact hs), hphase]; decide
  | connected hphase | sendFails hphase => rw [hphase]; exact Nat.le_of_ble_eq_true rfl
  | connectFails hphase => rw [attemptEnds_rank hs, hphase]; exact Nat.le_of_ble_eq_true rfl
  | sent hphase => rw [receive_rank hs, hphase]; exact Nat.le_of_ble_eq_true rfl
  | receives hphase | recvFails hphase | ackTimeout hphase | stopReceiving hphase => rw [hphase]; exact Nat.le_refl 6
  | stopHandling hphase => rw [hphase]; exact Nat.le_refl 4
  | stopWaiting hphase => rw [hphase]; exact Nat.le_refl 1
  | @settled now result hphase =>
    rw [hphase]
    unfold State.received
    split
    · exact Nat.le_of_ble_eq_true rfl
    · exact Nat.le_of_ble_eq_true rfl
    · exact Nat.le_refl 5
  | deliverySettled hphase => rw [deliveryEnds_rank hs, hphase]; exact Nat.le_refl 3
  | @handlerReturns payload hphase =>
    rw [hphase]
    exact Nat.succ_le_succ (handlerEnds_rank hs payload _)
  | @handlerRaises payload hphase =>
    rw [hphase]
    exact Nat.succ_le_succ (handlerEnds_rank (by exact hs) payload _)
  | closed hphase | closeFails hphase => rw [attemptEnds_rank hs, hphase]; exact Nat.le_of_ble_eq_true rfl
  | elapsed hphase => rw [loop_ended hs, hphase]; exact Nat.le_refl 1
  | cancel hc => exact cancel_rank hs hc

/-- The connection waits for the stop event as well. -/
def Phase.heedsStop (p : Profile μ) : Phase → Bool
  | .receiving | .waiting _ => true
  | .handling _ => p.watchesStop
  | _ => false

/-- **A connection that has not ended can go on**: it sees the stop event where it waits for it, and waits for the end of
something else otherwise. -/
theorem can_go_on (p : Profile μ) (hstop : s.stop = true) (hs : s.phase.ended = false) :
    ∃ i, i.own = true ∧ (s.phase.heedsStop p = true → i = .stopSeen) ∧ ((machine p).step s i).isSome = true := by
  cases hphase : s.phase with
  | created => exact ⟨.start, rfl, by simp [Phase.heedsStop], by simp [machine, step, hphase]⟩
  | connecting => exact ⟨.connected, rfl, by simp [Phase.heedsStop], by simp [machine, step, hphase]⟩
  | sending => exact ⟨.sent, rfl, by simp [Phase.heedsStop], by simp [machine, step, hphase]⟩
  | receiving => exact ⟨.stopSeen, rfl, fun _ => rfl, by simp [machine, step, hphase, hstop]⟩
  | settling result => exact ⟨.settled 0, rfl, by simp [Phase.heedsStop], by simp [machine, step, hphase]⟩
  | handling payload =>
    cases hwatches : p.watchesStop with
    | true => exact ⟨.stopSeen, rfl, fun _ => rfl, by simp [machine, step, hphase, hstop, hwatches]⟩
    | false =>
      exact ⟨.handlerReturns, rfl, by simp [Phase.heedsStop, hwatches], by simp [machine, step, hphase]⟩
  | settlingDelivery payload result =>
    exact ⟨.settled 0, rfl, by simp [Phase.heedsStop], by simp [machine, step, hphase]⟩
  | closing outcome => exact ⟨.closed, rfl, by simp [Phase.heedsStop], by simp [machine, step, hphase]⟩
  | waiting delay => exact ⟨.stopSeen, rfl, fun _ => rfl, by simp [machine, step, hphase, hstop]⟩
  | returned | raised e => rw [hphase] at hs; cases hs

/-- A connection that has ended does nothing any more. -/
theorem ended_stays (hs : s.phase.ended = true) (h : (machine p).step s i = some s') :
    i = .setStop ∧ s'.phase = s.phase ∧ s'.history = s.history := by
  cases effect_of_step h with
  | setStop => exact ⟨rfl, rfl, rfl⟩
  | cancel hc =>
    unfold State.cancel at hc
    dsimp only at hc
    split at hc
    all_goals
      rename_i hphase
      rw [show (s.act .cancelled).phase = s.phase from rfl] at hphase
      first
        | (cases hc; done)
        | (rw [hphase] at hs; cases hs)
  | _ => simp_all [Phase.ended]

/-- Nothing that can happen to it makes the connection do anything, such as call its handler. -/
def Silent (p : Profile μ) (s : State μ) : Prop :=
  s.phase.ended = true ∧ ∀ t, (machine p).Reachable s t → t.history = s.history

theorem silent_of_ended (hs : s.phase.ended = true) : Silent p s := by
  refine ⟨hs, fun t h => ?_⟩
  have hend := h.invariant (I := fun t => t.phase.ended = true ∧ t.history = s.history) (fun u i u' hu hstep => ?_)
    ⟨hs, rfl⟩
  · exact hend.2
  · obtain ⟨-, hphase, hhistory⟩ := ended_stays hu.1 hstep
    exact ⟨by rw [hphase]; exact hu.1, hhistory.trans hu.2⟩

end Connection

namespace MultiCollector

variable {c : MultiStreamCollector} {s s' : State}

/-! ## What `run()` keeps -/

/-- Before `run()` begins. -/
def called : State := { task := .created }

/-- A task that no connection has been created for. -/
def Fresh (s : State) : Prop := ∀ g, (s.connections g).phase = .created ∧ (s.connections g).history = []

/-- What the task of `run()` says about the stop event and the connections. -/
def Agrees (s : State) : Task Phase CollectorError → Prop
  | .absent | .created => Fresh s
  | .running .waiting => True
  | .running (.failing _) | .running .gathering | .running (.gatherCancelled _) => s.stop = true
  | .running (.finishing result) => s.stop = true ∨ result = .error .cancelled
  | .done result => (s.stop = true ∨ result = .error .cancelled) ∧
      ((∀ g, (s.connections g).phase.ended = true) ∨ result = .error .cancelled ∧ Fresh s)

/-- What `run()` keeps. -/
structure Supervised (s : State) : Prop where
  stops : ∀ g, (s.connections g).stop = s.stop
  returned : Returned s
  agrees : Agrees s s.task

theorem ended_of_allDone (h : s.allDone = true) (g : Group) : (s.connections g).phase.ended = true := by
  have hg := (List.all_eq_true.1 h) g (by cases g <;> decide)
  revert hg
  cases (s.connections g).phase <;> simp [Connection.Phase.ended]

/-- What the end of a wait of `run()` leaves behind. -/
theorem setTask_supervised (hs : Supervised s) {t : Task Phase CollectorError} (ht : Agrees s t)
    (hr : Returned (s.setTask t)) : Supervised (s.setTask t) := by
  refine ⟨hs.stops, hr, ?_⟩
  cases t with
  | absent | created | done => exact ht
  | running phase => cases phase <;> exact ht

/-- A step of a connection. -/
theorem setConnection_agrees {phase : Phase} (ht : s.task = .running phase) (ha : Agrees s s.task) (g : Group)
    (t : Connection.State ReceivedMessage) : Agrees (s.setConnection g t) s.task := by
  rw [ht] at ha ⊢
  cases phase <;> exact ha

/-- **A step keeps the supervision.** -/
theorem step_supervised (hs : Supervised s) {i : Input} (h : (machine c).step s i = some s') : Supervised s' := by
  have hreturned := step_returned hs.returned h
  have hagrees := hs.agrees
  cases effect_of_step h with
  | setStop =>
    refine ⟨fun g => rfl, hreturned, ?_⟩
    rw [show s.setStop.task = s.task from rfl]
    revert hagrees
    cases s.task with
    | absent | created => exact id
    | running phase => cases phase <;> exact fun _ => by first | trivial | rfl | exact .inl rfl
    | done result => exact fun hd => ⟨.inl rfl, hd.2⟩
  | start => exact setTask_supervised hs trivial hreturned
  | @connection g i phase t ht hadmits hstep =>
    refine ⟨fun g' => ?_, hreturned, setConnection_agrees ht hagrees g t⟩
    have hi : i ≠ .setStop := by rintro rfl; cases hadmits
    by_cases hg : g' = g
    · subst hg
      rw [show (s.setConnection g' t).connections g' = t from Function.update_self ..,
        Connection.stop_of_step hstep hi]
      exact hs.stops g'
    · rw [show (s.setConnection g t).connections g' = s.connections g' from Function.update_of_ne hg ..]
      exact hs.stops g'
  | fails => exact ⟨fun _ => rfl, hreturned, rfl⟩
  | gathers _ _ _ hstop => exact setTask_supervised hs hstop hreturned
  | unexpected => exact ⟨fun _ => rfl, hreturned, .inl rfl⟩
  | failed ht =>
    rw [ht] at hagrees
    exact setTask_supervised hs (.inl hagrees) hreturned
  | gatherRaises ht | gathered ht | gatherEnds ht =>
    rw [ht] at hagrees
    exact setTask_supervised hs (.inl hagrees) hreturned
  | finished ht hall =>
    rw [ht] at hagrees
    exact setTask_supervised hs ⟨hagrees, .inl (ended_of_allDone hall)⟩ hreturned
  | cancelCreated ht =>
    rw [ht] at hagrees
    exact setTask_supervised hs ⟨.inr rfl, .inr ⟨rfl, hagrees⟩⟩ hreturned
  | @cancelRunning phase ht =>
    refine setTask_supervised hs ?_ hreturned
    rcases cancelled_cases s phase with hc | ⟨hphase, early, hc⟩ <;> rw [hc]
    · exact .inr rfl
    · -- a `gather` is under way, and the stop event has been set before it began
      rw [ht] at hagrees
      rcases hphase with rfl | ⟨early', rfl⟩ <;> exact hagrees

theorem called_supervised : Supervised called where
  stops _ := rfl
  returned h := by rcases h with h | h <;> cases h
  agrees _ := ⟨rfl, rfl⟩

/-! ## Failures that `run()` sees -/

/-- The step does not cancel `run()` before it has seen a connection end. -/
def Seen (s : State) (i : Input) : Prop := i = .cancel → s.task ≠ .running .waiting

/-- `run()` has gone on after the end of a connection only with the stop event set. -/
def StopSet (s : State) : Task Phase CollectorError → Prop
  | .absent | .created | .running .waiting => True
  | .running _ => s.stop = true
  | .done _ => s.stop = true ∨ Fresh s

theorem setTask_stopSet {t : Task Phase CollectorError} (ht : StopSet s t) :
    StopSet (s.setTask t) (s.setTask t).task := by
  cases t with
  | absent | created | done => exact ht
  | running phase => cases phase <;> exact ht

theorem stopSet_of_stop (hs : s.stop = true) (t : Task Phase CollectorError) : StopSet s t := by
  cases t with
  | absent | created => trivial
  | running phase => cases phase <;> trivial
  | done => exact .inl hs

theorem step_stopSet (hs : Supervised s) (ho : StopSet s s.task) {i : Input} (hi : Seen s i)
    (h : (machine c).step s i = some s') : StopSet s' s'.task := by
  have hagrees := hs.agrees
  cases effect_of_step h with
  | setStop => exact stopSet_of_stop rfl _
  | start => exact setTask_stopSet trivial
  | @connection g i phase t ht =>
    rw [show (s.setConnection g t).task = s.task from rfl]
    rw [ht] at ho ⊢
    cases phase <;> exact ho
  | fails | unexpected => exact stopSet_of_stop rfl _
  | gathers _ _ _ hstop => exact setTask_stopSet (stopSet_of_stop hstop _)
  | failed ht | gatherRaises ht | gathered ht | gatherEnds ht =>
    rw [ht] at hagrees
    exact setTask_stopSet (stopSet_of_stop hagrees _)
  | finished ht =>
    rw [ht] at ho
    exact setTask_stopSet (stopSet_of_stop ho _)
  | cancelCreated ht =>
    rw [ht] at hagrees
    exact setTask_stopSet (.inr hagrees)
  | @cancelRunning phase ht =>
    have hne : phase ≠ .waiting := fun hp => hi rfl (hp ▸ ht)
    rw [ht] at ho
    refine setTask_stopSet (stopSet_of_stop ?_ _)
    cases phase with
    | waiting => exact absurd rfl hne
    | failing | gathering | gatherCancelled | finishing => exact ho

/-! ## Connections that end -/

/-- A step of the connection of this group itself. -/
def ownStep (g : Group) : Input → Bool
  | .connection g' i => decide (g' = g) && i.own
  | _ => false

/-- The connection takes at most nine more steps of its own, and until it ends there is one it can take. -/
def Ending (c : MultiStreamCollector) (s : State) (g : Group) : Prop :=
  (∀ is s', (machine c).Path (fun _ _ => True) s is s' → is.countP (ownStep g) ≤ 9) ∧
  ∀ phase, s.task = .running phase → (s.connections g).phase.ended = false →
    ∃ i, ownStep g i = true ∧ ((machine c).step s i).isSome = true

theorem step_rank (hs : Supervised s) (hstop : s.stop = true) (g : Group) {i : Input}
    (h : (machine c).step s i = some s') :
    (s'.connections g).phase.rank + (if ownStep g i then 1 else 0) ≤ (s.connections g).phase.rank := by
  cases effect_of_step h with
  | @connection g' i phase t ht _ hstep =>
    by_cases hg : g = g'
    · subst hg
      rw [show (s.setConnection g t).connections g = t from Function.update_self ..]
      simpa [ownStep] using Connection.rank_of_step ((hs.stops g).trans hstop) hstep
    · rw [show (s.setConnection g' t).connections g = s.connections g from Function.update_of_ne hg ..]
      simp [ownStep, Ne.symm hg]
  | _ => exact Nat.le_refl _

theorem rank_le (phase : Connection.Phase) : phase.rank ≤ 9 := by
  cases phase <;> exact Nat.le_of_ble_eq_true rfl

/-- Once the stop event is set, every connection ends. -/
theorem ending_of_stop (hs : Supervised s) (hstop : s.stop = true) (g : Group) : Ending c s g := by
  refine ⟨fun is s' h => ?_, fun phase ht hended => ?_⟩
  · have hcount := h.countP_le (I := fun t => Supervised t ∧ t.stop = true)
      (m := fun t => (t.connections g).phase.rank) (q := ownStep g)
      (fun t i t' _ ht hstep => ⟨step_supervised ht.1 hstep, ?_⟩)
      (fun t i t' _ ht hstep => step_rank ht.1 ht.2 g hstep) ⟨hs, hstop⟩
    · have := rank_le (s.connections g).phase
      omega
    · cases effect_of_step hstep with
      | setStop | fails | unexpected => rfl
      | _ => exact ht.2
  · obtain ⟨i, hown, -, hsome⟩ := Connection.can_go_on (c.connection g).profile ((hs.stops g).trans hstop) hended
    refine ⟨.connection g i, by simpa [ownStep] using hown, ?_⟩
    have hadmits : phase.admits i = true := by cases i <;> first | rfl | cases hown
    simpa [machine, step, ht, hadmits] using hsome

/-! ## Main result -/

/-- **Supervision of the three connections**, in every run. -/
theorem supervision {is : List Input} (h : (machine c).Path (fun _ _ => True) called is s) :
    (s.task = .done (.ok ()) → s.stop = true ∧ ∀ g, (s.connections g).phase = .returned) ∧
    (∀ result g e, s.task = .done result → (s.connections g).phase = .raised e → ∃ err, result = .error err) ∧
    ((machine c).Path Seen called is s → ∀ g e, (s.connections g).phase = .raised e → s.stop = true ∨
      s.task = .running .waiting ∧ (∃ s', (machine c).step s (.resume g) = some s') ∧
        ∀ g' s', (machine c).step s (.resume g') = some s' → s'.stop = true) ∧
    (s.stop = true → ∀ g, Ending c s g) ∧
    (∀ result, s.task = .done result → (∀ g, Connection.Silent (c.connection g).profile (s.connections g)) ∨
      result = .error .cancelled ∧ Fresh s) := by
  have hs := h.invariant (I := Supervised) (fun _ _ _ _ hI hstep => step_supervised hI hstep) called_supervised
  have hagrees := hs.agrees
  refine ⟨fun ht => ⟨?_, hs.returned (.inr ht)⟩, fun result g e ht he => ?_, fun hseen g e he => ?_,
    fun hstop g => ending_of_stop hs hstop g, fun result ht => ?_⟩
  · rw [ht] at hagrees
    rcases hagrees.1 with hstop | hr
    · exact hstop
    · cases hr
  · cases result with
    | error err => exact ⟨err, rfl⟩
    | ok u =>
      cases u
      rw [hs.returned (.inr ht) g] at he
      cases he
  · have hset := (hseen.invariant (I := fun s => Supervised s ∧ StopSet s s.task)
      (fun _ _ _ hi hI hstep => ⟨step_supervised hI.1 hstep, step_stopSet hI.1 hI.2 hi hstep⟩)
      ⟨called_supervised, trivial⟩).2
    have hfresh : ¬Fresh s := fun hf => by rw [(hf g).1] at he; cases he
    cases ht : s.task with
    | absent | created => rw [ht] at hagrees; exact absurd hagrees hfresh
    | done result =>
      rw [ht] at hset
      exact .inl (hset.resolve_right hfresh)
    | running phase =>
      rw [ht] at hset
      cases phase with
      | failing | gathering | gatherCancelled | finishing => exact .inl hset
      | waiting =>
        refine .inr ⟨rfl, ⟨_, by simp only [machine, step, ht, State.resume, he]; rfl⟩, fun g' s' hstep => ?_⟩
        cases effect_of_step hstep with
        | fails | unexpected => rfl
        | gathers _ _ _ hstop => exact hstop
        | failed ht' | gatherRaises ht' | gathered ht' | gatherEnds ht' | finished ht' => rw [ht] at ht'; cases ht'
  · rw [ht] at hagrees
    exact hagrees.2.imp_left fun hall g => Connection.silent_of_ended (hall g)

/-- The collector for `BTCUSDT`. -/
def btcusdtCollector : MultiStreamCollector where
  specs := connectionGroups.flatMap fun group => group.streamTypes.map (streamSpec {} group (str "BTCUSDT"))
  runId
    | .spotMarket => List.replicate 32 (code '0')
    | .spotDepth => List.replicate 32 (code '1')
    | .usdmMark => List.replicate 32 (code '2')
  limits := ⟨1000, 4300⟩

/-- The Spot market connection is refused, and `run()` cancels the others. -/
def refused : List Input :=
  [.start, .connection .spotMarket .start, .connection .spotMarket (.connectFails .invalidHandshake),
    .resume .spotMarket, .connection .spotDepth .cancel, .connection .usdmMark .cancel, .resume .spotMarket,
    .resume .spotMarket]

theorem supervision_refused : ∃ s : State, (machine btcusdtCollector).Path (fun _ _ => True) called refused s ∧
    s.task = .done (.error (.connection .invalidHandshake)) ∧ s.stop = true ∧
    ∀ g, Connection.Silent (btcusdtCollector.connection g).profile (s.connections g) := by
  obtain ⟨s, hs, hp⟩ := Machine.exists_path_of_check (M := machine btcusdtCollector) (P := fun _ _ => True)
    (p := fun s : State => decide (s.task = .done (.error (.connection .invalidHandshake)) ∧ s.stop = true))
    called refused (by decide +kernel)
  obtain ⟨ht, hstop⟩ := of_decide_eq_true hp
  have hall := (supervision hs).2.2.2.2 _ ht
  exact ⟨s, hs, ht, hstop, hall.resolve_right fun hr => by cases hr.1⟩

/-- The Spot market connection is refused, and `run()` is cancelled before it goes on: it raises `CancelledError`, and
the stop event is not set. -/
theorem cancelled_before_seen : ∃ is s, (machine btcusdtCollector).Path (fun _ _ => True) called is s ∧
    s.task = .done (.error .cancelled) ∧ s.stop = false ∧
    (s.connections .spotMarket).phase = .raised .invalidHandshake ∧
    ((s.connections .spotMarket).history.contains .cancelled) = false := by
  obtain ⟨s, hs, hp⟩ := Machine.exists_path_of_check (M := machine btcusdtCollector) (P := fun _ _ => True)
    (p := fun s : State => decide (s.task = .done (.error .cancelled) ∧ s.stop = false ∧
      (s.connections .spotMarket).phase = .raised .invalidHandshake ∧
      ((s.connections .spotMarket).history.contains .cancelled) = false)) called
    [.start, .connection .spotMarket .start, .connection .spotMarket (.connectFails .invalidHandshake), .cancel,
      .connection .spotDepth .cancel, .connection .usdmMark .cancel, .resume .spotMarket] (by decide +kernel)
  exact ⟨_, s, hs, of_decide_eq_true hp⟩

end MultiCollector

end BinanceCollector
