import BinanceCollector.Collector.Connection

/-!
# The three connections under one supervisor

`MultiStreamCollector` (`collector/multi_client.py`): one task for each connection group, and `run()`, which waits for
the first task that ends, cancels the others after a failure, and waits for all of them before it ends itself.

- `Effect`, `effect_of_step`: what every step does.
- `Returned`, `step_returned`: when `run()` returns, every connection has returned.
-/

namespace BinanceCollector

open Text Json

/-- A task of the event loop. -/
inductive Task (φ ε : Type) where
  /-- not created yet -/
  | absent
  | created
  | running (phase : φ)
  | done (result : Except ε Unit)
  deriving DecidableEq

/-- The keys of `CONNECTION_GROUP_BY_KEY`. -/
inductive Group where
  | spotMarket | spotDepth | usdmMark
  deriving DecidableEq, Repr

/-- `CONNECTION_GROUP_BY_KEY[key]`. -/
def Group.spec : Group → ConnectionGroupSpec
  | .spotMarket => spotMarketGroup
  | .spotDepth => spotDepthGroup
  | .usdmMark => usdmMarkGroup

/-- All keys, in order. -/
def groups : List Group := [.spotMarket, .spotDepth, .usdmMark]

/-- `MultiStreamCollector`; the run ids are those its connections get from `uuid4`. -/
structure MultiStreamCollector where
  specs : List StreamSpec
  runId : Group → Str
  limits : Limits

/-- The connection of a group that `MultiStreamCollector.__init__` builds. -/
def MultiStreamCollector.connection (c : MultiStreamCollector) (g : Group) : Connection.StreamConnection where
  group := g.spec
  specs := ((groupStreamSpecs c.specs).lookup g.spec.key).getD []
  runId := c.runId g
  limits := c.limits

namespace MultiCollector

/-- What `run()` raises. -/
inductive CollectorError where
  /-- `CancelledError` -/
  | cancelled
  /-- what a connection has raised -/
  | connection (e : Connection.Exc)
  /-- `RuntimeError`: a connection has returned, though nobody has asked to stop -/
  | endedUnexpectedly
  deriving DecidableEq

/-- Where `run()` waits. -/
inductive Phase where
  /-- in `asyncio.wait` -/
  | waiting
  /-- in the `gather` after this failure of a connection -/
  | failing (e : CollectorError)
  /-- in the `gather` after a connection has returned -/
  | gathering
  /-- in that `gather`, which has been cancelled with `run()`; `early`: a connection had raised before -/
  | gatherCancelled (early : Bool)
  /-- in the `gather` of `finally`, before this result -/
  | finishing (result : Except CollectorError Unit)
  deriving DecidableEq

/-- `run()` has called `cancel()` on the tasks that are not done. -/
def Phase.cancelsTasks : Phase → Bool
  | .failing _ | .gatherCancelled _ | .finishing _ => true
  | .waiting | .gathering => false

/-- The collector and its tasks. -/
structure State where
  task : Task Phase CollectorError := .absent
  connections : Group → Connection.State ReceivedMessage := fun _ => Connection.initial defaultPolicy
  /-- `stop_event.is_set()`, as every connection sees it -/
  stop : Bool := false

/-- What the event loop does next. -/
inductive Input where
  /-- somebody sets the stop event -/
  | setStop
  | start
  | connection (g : Group) (i : Connection.Input)
  /-- `run()` resumes; the task of the group is the first one it looks at that decides how to go on -/
  | resume (g : Group)
  | cancel
  deriving DecidableEq

namespace State

/-- `stop_event.set()`. -/
def setStop (s : State) : State where
  task := s.task
  connections g := { s.connections g with stop := true }
  stop := true

def setTask (s : State) (t : Task Phase CollectorError) : State := { s with task := t }

def setConnection (s : State) (g : Group) (c : Connection.State ReceivedMessage) : State :=
  { s with connections := Function.update s.connections g c }

/-- All tasks are done. -/
def allDone (s : State) : Bool := groups.all fun g =>
  match (s.connections g).phase with
  | .returned | .raised _ => true
  | _ => false

/-- All tasks have returned. -/
def allReturned (s : State) : Bool := groups.all fun g => (s.connections g).phase = .returned

/-- No task has raised. -/
def noneRaised (s : State) : Bool := groups.all fun g =>
  match (s.connections g).phase with
  | .raised _ => false
  | _ => true

/-- `run()` is cancelled. A `gather` passes it on to its tasks, and ends as the first of them that raises. -/
def cancelled (s : State) : Phase → Phase
  | .gathering => if s.allDone then .finishing (.error .cancelled) else .gatherCancelled (!s.noneRaised)
  | .gatherCancelled early =>
    if s.allDone then .finishing (.error .cancelled) else .gatherCancelled (early || !s.noneRaised)
  | _ => .finishing (.error .cancelled)

/-- `run()` from the end of a wait to the next wait. -/
def resume (s : State) (g : Group) : Phase → Option State
  | .waiting =>
    match (s.connections g).phase with
    | .raised e => some (s.setStop.setTask (.running (.failing (.connection e))))
    | .returned =>
      if !s.noneRaised then none
      else if s.stop then some (s.setTask (.running .gathering))
      else some (s.setStop.setTask (.running (.finishing (.error .endedUnexpectedly))))
    | _ => none
  | .failing e => if s.allDone then some (s.setTask (.running (.finishing (.error e)))) else none
  | .gathering =>
    match (s.connections g).phase with
    | .raised e => some (s.setTask (.running (.finishing (.error (.connection e)))))
    | _ => if s.allReturned then some (s.setTask (.running (.finishing (.ok ())))) else none
  | .gatherCancelled early =>
    match (s.connections g).phase with
    | .raised .cancelled => some (s.setTask (.running (.finishing (.error .cancelled))))
    | .raised e => some (s.setTask (.running (.finishing (.error (.connection e)))))
    | _ => if early || s.allReturned then some (s.setTask (.running (.finishing (.error .cancelled)))) else none
  | .finishing result => if s.allDone then some (s.setTask (.done result)) else none

end State

/-- An input of a connection that the event loop can give it. -/
def Phase.admits (phase : Phase) : Connection.Input → Bool
  | .setStop => false
  | .cancel => phase.cancelsTasks
  | _ => true

/-- One step. -/
def step (c : MultiStreamCollector) (s : State) : Input → Option State
  | .setStop => some s.setStop
  | .start => match s.task with
    | .created => some (s.setTask (.running .waiting))
    | _ => none
  | .connection g i => match s.task with
    | .running phase =>
      if phase.admits i then
        ((Connection.machine (c.connection g).profile).step (s.connections g) i).map (s.setConnection g)
      else none
    | _ => none
  | .resume g => match s.task with
    | .running phase => s.resume g phase
    | _ => none
  | .cancel => match s.task with
    | .created => some (s.setTask (.done (.error .cancelled)))
    | .running phase => some (s.setTask (.running (s.cancelled phase)))
    | _ => none

/-- `MultiStreamCollector.run()`. -/
def machine (c : MultiStreamCollector) : Steps.Machine State Input := ⟨step c⟩

/-! ## What a step does -/

/-- What a step does. -/
inductive Effect (c : MultiStreamCollector) (s : State) : Input → State → Prop
  | setStop : Effect c s .setStop s.setStop
  | start : s.task = .created → Effect c s .start (s.setTask (.running .waiting))
  | connection {g : Group} {i : Connection.Input} {phase : Phase} {t : Connection.State ReceivedMessage} :
      s.task = .running phase → phase.admits i = true →
      (Connection.machine (c.connection g).profile).step (s.connections g) i = some t →
      Effect c s (.connection g i) (s.setConnection g t)
  | fails {g : Group} {e : Connection.Exc} : s.task = .running .waiting → (s.connections g).phase = .raised e →
      Effect c s (.resume g) (s.setStop.setTask (.running (.failing (.connection e))))
  | gathers {g : Group} : s.task = .running .waiting → (s.connections g).phase = .returned → s.noneRaised = true →
      s.stop = true → Effect c s (.resume g) (s.setTask (.running .gathering))
  | unexpected {g : Group} : s.task = .running .waiting → (s.connections g).phase = .returned → s.noneRaised = true →
      s.stop = false →
      Effect c s (.resume g) (s.setStop.setTask (.running (.finishing (.error .endedUnexpectedly))))
  | failed {g : Group} {e : CollectorError} : s.task = .running (.failing e) → s.allDone = true →
      Effect c s (.resume g) (s.setTask (.running (.finishing (.error e))))
  | gatherRaises {g : Group} {e : Connection.Exc} : s.task = .running .gathering →
      (s.connections g).phase = .raised e →
      Effect c s (.resume g) (s.setTask (.running (.finishing (.error (.connection e)))))
  | gathered {g : Group} : s.task = .running .gathering → s.allReturned = true →
      Effect c s (.resume g) (s.setTask (.running (.finishing (.ok ()))))
  | gatherEnds {g : Group} {early : Bool} {e : CollectorError} : s.task = .running (.gatherCancelled early) →
      e = .cancelled ∨ (∃ exc, (s.connections g).phase = .raised exc ∧ e = .connection exc) →
      Effect c s (.resume g) (s.setTask (.running (.finishing (.error e))))
  | finished {g : Group} {result : Except CollectorError Unit} : s.task = .running (.finishing result) →
      s.allDone = true → Effect c s (.resume g) (s.setTask (.done result))
  | cancelCreated : s.task = .created → Effect c s .cancel (s.setTask (.done (.error .cancelled)))
  | cancelRunning {phase : Phase} : s.task = .running phase →
      Effect c s .cancel (s.setTask (.running (s.cancelled phase)))

variable {c : MultiStreamCollector} {s s' : State}

/-- Where a cancellation leaves `run()`. -/
theorem cancelled_cases (s : State) (phase : Phase) : s.cancelled phase = .finishing (.error .cancelled) ∨
    (phase = .gathering ∨ ∃ early, phase = .gatherCancelled early) ∧
      ∃ early, s.cancelled phase = .gatherCancelled early := by
  cases phase with
  | waiting | failing | finishing => exact .inl rfl
  | gathering =>
    rw [State.cancelled]
    split
    · exact .inl rfl
    · exact .inr ⟨.inl rfl, _, rfl⟩
  | gatherCancelled early =>
    rw [State.cancelled]
    split
    · exact .inl rfl
    · exact .inr ⟨.inr ⟨early, rfl⟩, _, rfl⟩

theorem effect_of_resume {g : Group} {phase : Phase} (ht : s.task = .running phase) (h : s.resume g phase = some s') :
    Effect c s (.resume g) s' := by
  cases phase with
  | waiting =>
    simp only [State.resume] at h
    split at h
    · cases h
      exact .fails ht ‹_›
    · split at h
      · cases h
      · rename_i hphase hnone
        have hnone : s.noneRaised = true := by simpa using hnone
        split at h <;> cases h
        · exact .gathers ht hphase hnone ‹_›
        · exact .unexpected ht hphase hnone (Bool.eq_false_iff.2 ‹_›)
    · cases h
  | failing e =>
    simp only [State.resume, Option.ite_none_right_eq_some, Option.some.injEq] at h
    obtain ⟨hd, rfl⟩ := h
    exact .failed ht hd
  | gathering =>
    simp only [State.resume] at h
    split at h
    · cases h
      exact .gatherRaises ht ‹_›
    · simp only [Option.ite_none_right_eq_some, Option.some.injEq] at h
      obtain ⟨hd, rfl⟩ := h
      exact .gathered ht hd
  | gatherCancelled early =>
    simp only [State.resume] at h
    split at h
    · cases h
      exact .gatherEnds ht (.inl rfl)
    · cases h
      exact .gatherEnds ht (.inr ⟨_, ‹_›, rfl⟩)
    · simp only [Option.ite_none_right_eq_some, Option.some.injEq] at h
      obtain ⟨-, rfl⟩ := h
      exact .gatherEnds ht (.inl rfl)
  | finishing result =>
    simp only [State.resume, Option.ite_none_right_eq_some, Option.some.injEq] at h
    obtain ⟨hd, rfl⟩ := h
    exact .finished ht hd

theorem effect_of_step {i : Input} (h : (machine c).step s i = some s') : Effect c s i s' := by
  simp only [machine] at h
  cases i with
  | setStop => cases h; exact .setStop
  | start => simp only [step] at h; split at h <;> cases h; exact .start ‹_›
  | connection g i =>
    simp only [step] at h
    split at h
    · simp only [Option.ite_none_right_eq_some, Option.map_eq_some_iff] at h
      obtain ⟨ha, t, ht, rfl⟩ := h
      exact .connection ‹_› ha ht
    · cases h
  | resume g =>
    simp only [step] at h
    split at h
    · exact effect_of_resume ‹_› h
    · cases h
  | cancel =>
    simp only [step] at h
    split at h <;> cases h
    · exact .cancelCreated ‹_›
    · exact .cancelRunning ‹_›

/-! ## When `run()` returns -/

theorem all_returned (h : s.allReturned = true) (g : Group) : (s.connections g).phase = .returned := by
  have hg := (List.all_eq_true.1 h) g (by cases g <;> decide)
  exact of_decide_eq_true hg

/-- A connection that has returned takes no more steps. -/
theorem returned_stays {p : Connection.Profile ReceivedMessage} {t t' : Connection.State ReceivedMessage}
    {i : Connection.Input} (ht : t.phase = .returned) (hi : i ≠ .setStop)
    (h : (Connection.machine p).step t i = some t') : False := by
  cases Connection.effect_of_step h with
  | setStop => exact hi rfl
  | cancel hc =>
    simp only [Connection.State.cancel, show (t.act .cancelled).phase = t.phase from rfl, ht] at hc
    cases hc
  | _ => simp_all

/-- `run()` returns, or has returned, after all connections have returned. -/
def Returned (s : State) : Prop :=
  s.task = .running (.finishing (.ok ())) ∨ s.task = .done (.ok ()) → ∀ g, (s.connections g).phase = .returned

/-- **A step keeps it so that `run()` returns after all connections.** -/
theorem step_returned (hs : Returned s) {i : Input} (h : (machine c).step s i = some s') : Returned s' := by
  cases effect_of_step h with
  | setStop => exact fun h g => hs h g
  | start => intro h; rcases h with h | h <;> cases h
  | @connection g i phase t hphase hadmits hstep =>
    intro ht
    have hall := hs ht
    -- no connection that has returned takes this step
    refine (returned_stays (hall g) ?_ hstep).elim
    rintro rfl
    cases hadmits
  | fails => intro h; rcases h with h | h <;> cases h
  | gathers => intro h; rcases h with h | h <;> cases h
  | unexpected => intro h; rcases h with h | h <;> cases h
  | failed => intro h; rcases h with h | h <;> cases h
  | gatherRaises => intro h; rcases h with h | h <;> cases h
  | gatherEnds => intro h; rcases h with h | h <;> cases h
  | gathered _ hall => exact fun _ g => all_returned hall g
  | @finished g result ht =>
    intro h g'
    rcases h with h | h
    · cases h
    · cases h
      exact hs (.inl ht) g'
  | cancelCreated => intro h; rcases h with h | h <;> cases h
  | @cancelRunning phase =>
    intro h
    rcases cancelled_cases s phase with hc | ⟨-, early, hc⟩ <;> rw [hc] at h <;> rcases h with h | h <;> cases h

end MultiCollector

end BinanceCollector
