import BinanceCollector.Collector.Supervision

/-!
# The two runners

`run_collector` (`main.py`) and `run_multi_stream_collection` (`multi_runtime.py`), with `_run_with_tui` and
`_run_collector_with_output_monitor`, which the two modules define alike. A `Runner` says what is particular to each of
them; a `Collector` is what their supervisors see of a collector, with the facts they rely on.

- The output and the TUI may do anything that their interface allows: `open()`, `close()` and `wait_failed()` end when
  and how they like, and the TUI may raise at any time.
- A step ends at a point where the task waits; `watching` and `awaitingMonitor` are kept apart although the code does
  not always wait at the second: more schedules are covered than occur.
- What is built before the output is opened does not raise.
-/

namespace BinanceCollector.Runtime

open Steps Text Json

/-! ## Collectors -/

/-- A collector as its supervisors see it: the task of its `run()`. -/
structure Collector (σ ι ε : Type) where
  machine : Machine σ ι
  /-- the task has been created -/
  created : σ
  /-- another task sets the stop event -/
  setStop : ι
  /-- the task is cancelled -/
  cancel : ι
  /-- `stop_event.is_set()` -/
  stopped : σ → Bool
  /-- how the task has ended -/
  result : σ → Option (Except ε Unit)
  /-- a call of the handler is not over -/
  handling : σ → Bool
  Inv : σ → Prop
  created_inv : Inv created
  step_inv : ∀ {s i s'}, Inv s → machine.step s i = some s' → Inv s'
  ended_stays : ∀ {s i s' r}, Inv s → result s = some r → machine.step s i = some s' → result s' = some r
  ended_quiet : ∀ {s r}, Inv s → result s = some r → handling s = false

/-- How `BinanceCollector.run()` has ended. -/
def binanceResult (s : Connection.State WireMessage) : Option (Except Connection.Exc Unit) :=
  match s.phase with
  | .returned => some (.ok ())
  | .raised e => some (.error e)
  | _ => none

/-- A task of `_handle_message`, or the handler of a `StreamConnection`, is not done. -/
def handlingPhase : Connection.Phase → Bool
  | .handling _ | .settlingDelivery _ _ => true
  | _ => false

theorem handlingPhase_ended {phase : Connection.Phase} (h : phase.ended = true) : handlingPhase phase = false := by
  cases phase <;> first | rfl | cases h

theorem ended_of_binanceResult {s : Connection.State WireMessage} {r : Except Connection.Exc Unit}
    (h : binanceResult s = some r) : s.phase.ended = true := by
  unfold binanceResult at h
  cases hphase : s.phase <;> rw [hphase] at h <;> first | rfl | cases h

/-- `BinanceCollector`. -/
def binanceCollector (symbols : List Str) (limits : Limits) (policy : ReconnectPolicy) :
    Collector (Connection.State WireMessage) Connection.Input Connection.Exc where
  machine := Connection.machine (Connection.binanceCollector symbols limits)
  created := Connection.initial policy
  setStop := .setStop
  cancel := .cancel
  stopped s := s.stop
  result := binanceResult
  handling s := handlingPhase s.phase
  Inv _ := True
  created_inv := trivial
  step_inv _ _ := trivial
  ended_stays _ hr hstep := by
    obtain ⟨-, hphase, -⟩ := Connection.ended_stays (ended_of_binanceResult hr) hstep
    rw [← hr, binanceResult, binanceResult, hphase]
  ended_quiet _ hr := handlingPhase_ended (ended_of_binanceResult hr)

/-- How `MultiStreamCollector.run()` has ended. -/
def multiResult (s : MultiCollector.State) : Option (Except MultiCollector.CollectorError Unit) :=
  match s.task with
  | .done result => some result
  | _ => none

theorem multiResult_eq {s : MultiCollector.State} {r : Except MultiCollector.CollectorError Unit} :
    multiResult s = some r ↔ s.task = .done r := by
  unfold multiResult
  cases s.task <;> simp

/-- `MultiStreamCollector`. -/
def multiStreamCollector (c : MultiStreamCollector) :
    Collector MultiCollector.State MultiCollector.Input MultiCollector.CollectorError where
  machine := MultiCollector.machine c
  created := MultiCollector.called
  setStop := .setStop
  cancel := .cancel
  stopped s := s.stop
  result := multiResult
  handling s := groups.any fun g => handlingPhase (s.connections g).phase
  Inv := MultiCollector.Supervised
  created_inv := MultiCollector.called_supervised
  step_inv hs hstep := MultiCollector.step_supervised hs hstep
  ended_stays _ hr hstep := by
    rw [multiResult_eq] at hr ⊢
    cases MultiCollector.effect_of_step hstep with
    | setStop => exact hr
    | start ht | connection ht | fails ht | gathers ht | unexpected ht | failed ht | gatherRaises ht | gathered ht
    | gatherEnds ht | finished ht | cancelCreated ht | cancelRunning ht => rw [ht] at hr; cases hr
  ended_quiet {s _} hs hr := by
    have hagrees := hs.agrees
    rw [multiResult_eq.1 hr] at hagrees
    refine List.any_eq_false.2 fun g _ => ?_
    rcases hagrees.2 with hended | ⟨-, hfresh⟩
    · rw [handlingPhase_ended (hended g)]; exact Bool.false_ne_true
    · rw [(hfresh g).1]; exact Bool.false_ne_true

/-! ## Runners -/

/-- What is particular to a runner and how it has been called. -/
structure Runner (σ ι ε : Type) where
  collector : Collector σ ι ε
  /-- the products are validated first -/
  validates : Bool
  /-- `manage_signals` -/
  managesSignals : Bool
  /-- `_run_with_tui` is called, and not `_run_collector_with_output_monitor` -/
  tui : Bool
  /-- the output, if there is one, and whether it is a `FailureAwareEventOutput` -/
  output : Option Bool

/-- The values of `mode`. -/
inductive Mode where
  | json | tui
  deriving DecidableEq, Repr

/-- `run_collector`. -/
def runCollector (symbols : List Str) (limits : Limits) (policy : ReconnectPolicy) (mode : Mode) (output : Option Bool)
    (managesSignals : Bool) : Runner (Connection.State WireMessage) Connection.Input Connection.Exc where
  collector := binanceCollector symbols limits policy
  validates := false
  managesSignals := managesSignals
  tui := decide (mode = .tui)
  output := output

/-- `run_multi_stream_collection`. -/
def runMultiStreamCollection (c : MultiStreamCollector) (validatesSymbols failureAware managesSignals : Bool) :
    Runner MultiCollector.State MultiCollector.Input MultiCollector.CollectorError where
  collector := multiStreamCollector c
  validates := validatesSymbols
  managesSignals := managesSignals
  tui := true
  output := some failureAware

/-! ## Tasks -/

/-- What a runner and its tasks raise. -/
inductive RunError (ε : Type) where
  /-- `CancelledError` -/
  | cancelled
  /-- raised by the product validator -/
  | validation
  /-- `OutputLifecycleError` of `dispatcher.open()` -/
  | outputOpen
  /-- raised by the `run()` of the collector -/
  | collector (e : ε)
  /-- `OutputWriteError` of `wait_for_output_failure()` -/
  | outputFailed
  /-- raised by the TUI -/
  | tui
  /-- `OutputLifecycleError` of `dispatcher.close()` -/
  | outputClose
  deriving DecidableEq

/-- What a task returns or raises. -/
abbrev Result (ε : Type) := Except (RunError ε) Unit

/-- Where the runner waits. -/
inductive Main (ε : Type) where
  /-- in the product validator -/
  | validating
  /-- in `dispatcher.open()` -/
  | opening
  /-- in `asyncio.sleep(0)` -/
  | starting
  /-- in the `asyncio.wait` of `_run_with_tui` -/
  | watching
  /-- in the `gather` after the TUI has raised -/
  | abandoning (e : RunError ε)
  /-- in `await collector_task` -/
  | awaitingMonitor
  /-- in `await tui_task`, before this result -/
  | awaitingTui (result : Result ε)
  /-- in the `gather` of the `finally` of `_run_with_tui`, before this result -/
  | settling (result : Result ε)
  /-- in `_run_collector_with_output_monitor`, where there is no TUI -/
  | collecting
  /-- in `dispatcher.close()`, after this result -/
  | closing (result : Result ε)
  | done (result : Result ε)
  deriving DecidableEq

/-- Where `_run_collector_with_output_monitor` waits. -/
inductive Monitor (ε : Type) where
  /-- in `await collector_task`, where the output has no background task -/
  | awaiting
  /-- in `asyncio.wait` -/
  | waiting
  /-- in the `gather` after the output has failed -/
  | failing
  /-- in the `gather` of `finally`, before this result -/
  | finishing (result : Result ε)
  deriving DecidableEq

/-- What happens to the output. -/
inductive OutputCall where
  /-- `open()` is called -/
  | opens
  /-- `open()` has returned -/
  | opened
  /-- `write()` is called -/
  | writes
  /-- `close()` is called -/
  | closes
  deriving DecidableEq, Repr

/-- A runner and its tasks. -/
structure State (σ ε : Type) where
  main : Main ε
  /-- the code before the `try` has been run -/
  prepared : Bool := false
  /-- the signal handlers are installed -/
  signals : Bool := false
  /-- `stop_event.is_set()` -/
  stop : Bool
  tui : Task Unit (RunError ε) := .absent
  /-- the task of the TUI has been cancelled -/
  tuiCancelled : Bool := false
  monitor : Task (Monitor ε) (RunError ε) := .absent
  /-- the task of `wait_for_output_failure()` -/
  failure : Task Unit (RunError ε) := .absent
  /-- the task of `collector.run()` -/
  collector : Option σ := none
  calls : List OutputCall := []

/-- What the event loop does next. -/
inductive Input (ι ε : Type) where
  /-- a signal, or another holder of the stop event -/
  | setStop
  | validated (ok : Bool)
  /-- `open()` returns or raises -/
  | opened (ok : Bool)
  /-- the runner resumes -/
  | main
  | cancelMain
  | tuiEnds (result : Result ε)
  | startMonitor
  /-- `_run_collector_with_output_monitor` resumes -/
  | monitor
  /-- its task is cancelled by `_run_with_tui` -/
  | cancelMonitor
  /-- `wait_for_output_failure()` raises -/
  | failure
  | cancelFailure
  | collector (i : ι)
  /-- `dispatcher.handle` calls `write()` -/
  | write
  /-- `close()` returns or raises -/
  | closed (e : Option (RunError ε))
  deriving DecidableEq

variable {σ ι ε : Type}

namespace State

/-- The stop event is set in the collector. -/
def stopCollector (r : Runner σ ι ε) (c : σ) : σ := (r.collector.machine.step c r.collector.setStop).getD c

/-- `stop_event.set()`. -/
def setStop (r : Runner σ ι ε) (s : State σ ε) : State σ ε :=
  { s with stop := true, collector := s.collector.map (stopCollector r) }

/-- The task of the collector is not created or done. -/
def collectorDone (r : Runner σ ι ε) (s : State σ ε) : Bool :=
  match s.collector with
  | none => true
  | some c => (r.collector.result c).isSome

/-- What the collector has returned or raised, as the monitor sees it. -/
def collected (r : Runner σ ι ε) (s : State σ ε) : Option (Result ε) :=
  match s.collector.bind r.collector.result with
  | none => none
  | some (.ok ()) => some (.ok ())
  | some (.error e) => some (.error (.collector e))

/-! ### The runner -/

/-- The end of the runner: `remove_signal_handlers`. -/
def leave (s : State σ ε) (result : Result ε) : State σ ε := { s with signals := false, main := .done result }

/-- The `finally` of the runner, before anything has been opened. -/
def fail (r : Runner σ ι ε) (s : State σ ε) (e : RunError ε) : State σ ε := (s.setStop r).leave (.error e)

/-- The `finally` of the runner after the body, up to `output.close()`. -/
def finish (r : Runner σ ι ε) (s : State σ ε) (result : Result ε) : State σ ε :=
  match r.output with
  | some _ => { s.setStop r with main := .closing result, calls := s.calls ++ [.closes] }
  | none => (s.setStop r).leave result

/-- `_run_collector_with_output_monitor` up to its first wait. -/
def startMonitor (r : Runner σ ι ε) (s : State σ ε) : State σ ε :=
  { s with
    collector := some (if s.stop then stopCollector r r.collector.created else r.collector.created)
    failure := if r.output = some true then .running () else .absent
    monitor := .running (if r.output = some true then .waiting else .awaiting) }

/-- The body of the `try`, once the output is open. -/
def body (r : Runner σ ι ε) (s : State σ ε) : State σ ε :=
  if r.tui then { s with main := .starting, tui := .running () }
  else { s.startMonitor r with main := .collecting }

/-- The code before the `try`, and the `try` up to its first wait. -/
def prepare (r : Runner σ ι ε) (s : State σ ε) : State σ ε :=
  let s := { s with prepared := true, signals := r.managesSignals }
  match r.output with
  | some _ => { s with main := .opening, calls := s.calls ++ [.opens] }
  | none => s.body r

/-- The `finally` of `_run_with_tui`, up to its `gather`. -/
def settle (r : Runner σ ι ε) (s : State σ ε) (result : Result ε) : State σ ε :=
  { s.setStop r with main := .settling result, tuiCancelled := true }

/-- The tasks that `_run_with_tui` has created are done. -/
def tasksDone (s : State σ ε) : Bool :=
  match s.tui, s.monitor with
  | .done _, .done _ | .done _, .absent => true
  | _, _ => false

/-- The runner from the end of a wait to the next wait. -/
def resumeMain (r : Runner σ ι ε) (s : State σ ε) : Option (State σ ε) :=
  match s.main with
  | .starting => some { s with monitor := .created, main := .watching }
  | .watching =>
    match s.monitor, s.tui with
    | .done _, _ => some { s with main := .awaitingMonitor }
    | _, .done (.error e) => some { s with main := .abandoning e }
    | _, .done (.ok ()) => some { s.setStop r with main := .awaitingMonitor }
    | _, _ => none
  | .abandoning e =>
    match s.monitor with
    | .done _ => some (s.settle r (.error e))
    | _ => none
  | .awaitingMonitor =>
    match s.monitor with
    | .done result => some { s.setStop r with main := .awaitingTui result }
    | _ => none
  | .awaitingTui result =>
    match s.tui with
    | .done (.ok ()) => some (s.settle r result)
    | .done (.error e) => some (s.settle r (.error e))
    | _ => none
  | .settling result => if s.tasksDone then some (s.finish r result) else none
  | _ => none

/-! ### The monitor -/

/-- `_run_collector_with_output_monitor` from the end of a wait to the next wait. -/
def resumeMonitor (r : Runner σ ι ε) (s : State σ ε) : Monitor ε → Option (State σ ε)
  | .awaiting => (s.collected r).map fun result => { s with monitor := .running (.finishing result) }
  | .waiting =>
    match s.failure with
    | .done _ => some { s.setStop r with monitor := .running .failing }
    | _ => (s.collected r).map fun result => { s with monitor := .running (.finishing result) }
  | .failing =>
    match s.failure, s.collected r with
    | .done (.error e), some _ => some { s with monitor := .running (.finishing (.error e)) }
    | .done (.ok ()), some result => some { s with monitor := .running (.finishing result) }
    | _, _ => none
  | .finishing result =>
    match s.failure with
    | .done _ | .absent =>
      if s.collectorDone r then
        -- without a TUI this is the task of the runner, which goes on
        match s.main with
        | .collecting => some ({ s with monitor := .done result }.finish r result)
        | _ => some { s with monitor := .done result }
      else none
    | _ => none

/-- The collector is cancelled. -/
def cancelCollector (r : Runner σ ι ε) (s : State σ ε) : State σ ε :=
  { s with collector := s.collector.map fun c => (r.collector.machine.step c r.collector.cancel).getD c }

/-- A `CancelledError` where `_run_collector_with_output_monitor` waits. Where it waits for the collector itself and
that is not done, the collector is cancelled in its place. -/
def cancelMonitor (r : Runner σ ι ε) (s : State σ ε) : Option (State σ ε) :=
  match s.monitor with
  | .created => some { s with monitor := .done (.error .cancelled) }
  | .running .awaiting =>
    if s.collectorDone r then some { s with monitor := .running (.finishing (.error .cancelled)) }
    else some (s.cancelCollector r)
  | .running _ => some { s with monitor := .running (.finishing (.error .cancelled)) }
  | _ => none

/-- The monitor has called `cancel()` on the task of the collector. -/
def collectorCancelled (s : State σ ε) : Bool :=
  match s.monitor with
  | .running .failing | .running (.finishing _) => true
  | _ => false

/-- A `CancelledError` where the runner waits. Where it waits for a task that is not done, the task is cancelled in its
place. -/
def cancelMain (r : Runner σ ι ε) (s : State σ ε) : Option (State σ ε) :=
  match s.main with
  | .validating => some { s with main := .done (.error .cancelled) }
  | .opening => some (s.fail r .cancelled)
  | .starting | .watching | .abandoning _ | .settling _ => some (s.settle r (.error .cancelled))
  | .awaitingMonitor =>
    match s.monitor with
    | .done _ => some { s.setStop r with main := .awaitingTui (.error .cancelled) }
    | _ => s.cancelMonitor r
  | .awaitingTui _ =>
    match s.tui with
    | .done _ => some (s.settle r (.error .cancelled))
    | _ => some { s with tuiCancelled := true }
  | .collecting => s.cancelMonitor r
  -- `output.close()` is cancelled
  | .closing _ => some s
  | .done _ => none

/-- Where `_run_with_tui` has called `cancel()` on the task of the monitor. -/
def monitorCancelled (s : State σ ε) : Bool :=
  match s.main with
  | .abandoning _ | .settling _ => true
  | _ => false

/-! ### The collector -/

/-- A step of the collector, which may set the stop event. -/
def stepCollector (r : Runner σ ι ε) (s : State σ ε) (c : σ) (i : ι) : Option (State σ ε) :=
  (r.collector.machine.step c i).map fun c' => { s with collector := some c', stop := s.stop || r.collector.stopped c' }

end State

/-- One step of the event loop. -/
def step [DecidableEq ι] (r : Runner σ ι ε) (s : State σ ε) : Input ι ε → Option (State σ ε)
  | .setStop => some (s.setStop r)
  | .validated ok => match s.main with
    | .validating => some (if ok then s.prepare r else { s with main := .done (.error .validation) })
    | _ => none
  | .opened ok => match s.main with
    | .opening => some (if ok then { s with calls := s.calls ++ [OutputCall.opened] }.body r else s.fail r .outputOpen)
    | _ => none
  | .main => s.resumeMain r
  | .cancelMain => s.cancelMain r
  | .tuiEnds result => match s.tui, result with
    | .running (), .ok () | .running (), .error .tui => some { s with tui := .done result }
    | .running (), .error .cancelled => if s.tuiCancelled then some { s with tui := .done result } else none
    | _, _ => none
  | .startMonitor => match s.monitor with
    | .created => some (s.startMonitor r)
    | _ => none
  | .monitor => match s.monitor with
    | .running phase => s.resumeMonitor r phase
    | _ => none
  | .cancelMonitor => if s.monitorCancelled then s.cancelMonitor r else none
  | .failure => match s.failure, s.monitor with
    | .running (), .running .waiting => some { s with failure := .done (.error .outputFailed) }
    | _, _ => none
  | .cancelFailure => match s.failure, s.monitor with
    | .running (), .running (.finishing _) => some { s with failure := .done (.error .cancelled) }
    | _, _ => none
  | .collector i => match s.collector with
    | some c =>
      if i = r.collector.setStop ∨ i = r.collector.cancel ∧ s.collectorCancelled = false then none
      else s.stepCollector r c i
    | none => none
  | .write => match s.collector, r.output with
    | some c, some _ => if r.collector.handling c then some { s with calls := s.calls ++ [.writes] } else none
    | _, _ => none
  | .closed e => match s.main, e with
    | .closing result, none => some (s.leave result)
    | .closing (.ok ()), some .outputClose => some (s.leave (.error .outputClose))
    | .closing (.ok ()), some .cancelled => some (s.leave (.error .cancelled))
    -- the error of `close()` is only logged
    | .closing (.error e), some .outputClose | .closing (.error e), some .cancelled => some (s.leave (.error e))
    | _, _ => none

/-- The runner. -/
def machine [DecidableEq ι] (r : Runner σ ι ε) : Machine (State σ ε) (Input ι ε) := ⟨step r⟩

/-- The runner at its first wait; `stop` tells whether its caller has set the stop event. -/
def begun (r : Runner σ ι ε) (stop : Bool) : State σ ε :=
  if r.validates then { main := .validating, stop := stop } else State.prepare r { main := .validating, stop := stop }

/-- What holds in every state of every run. -/
def Always [DecidableEq ι] (r : Runner σ ι ε) (P : State σ ε → Prop) : Prop :=
  ∀ stop is s, (machine r).Path (fun _ _ => True) (begun r stop) is s → P s

end BinanceCollector.Runtime
