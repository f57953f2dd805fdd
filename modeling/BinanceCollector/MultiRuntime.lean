import BinanceCollector.Collector.ConnectionDelivery
import BinanceCollector.Collector.MultiCollector
import BinanceCollector.Outputs.MultiMongoClose
import BinanceCollector.Routing

/-!
# The multi-stream profile as one system

`run_multi_stream_collection` (`multi_runtime.py`) with `MultiStreamCollector`, `MultiStreamEventDispatcher` and
`MongoMultiCollectionOutput`: the task that runs it, with `_run_with_tui`; the task of
`_run_collector_with_output_monitor` and its task of `wait_for_output_failure`; the task of the TUI, which may end in
any way; the collector with its three connections; and the output with its six workers. All share one stop event.

- A call `write()` of the output is named by the group of the connection and the number of the message that the
  connection has handed on; `dispatcher.handle` runs in the task of the connection.
- A task that has been cancelled may still take steps before the `CancelledError` reaches it, `wait_for_output_failure`
  excepted: more schedules are covered than occur.
- The handler of a connection returns when its `write()` has returned, and it may raise whenever it is not waiting in
  `write()`: the statistics and the log are not modelled.
-/

namespace BinanceCollector.MultiRuntime

open MultiMongo (Settings)
open MultiMongo.Output (Callback)

/-- What the system is built from. -/
structure Setup where
  collector : MultiStreamCollector
  /-- `index_stream_specs(active_specs)` -/
  index : StreamIndex
  indexed : indexStreamSpecs collector.specs = .ok index
  settings : Settings
  /-- `len(BSON.encode(event))`, or `none` where that raises -/
  bsonSize : Event → Option ℕ

/-- What the output reads of an event. -/
def Setup.reading (setup : Setup) : MultiMongo.Reading Event := ⟨setup.bsonSize, eventRoute⟩

/-- `normalize_received_message` of `dispatcher.handle`. -/
def Setup.normalize (setup : Setup) (message : ReceivedMessage) : Except DecodeFailure NormalizedMessage :=
  normalizeReceivedMessage setup.collector.limits message setup.index

/-! ## Tasks -/

/-- What `run_multi_stream_collection` and its tasks raise. -/
inductive RunError where
  /-- `CancelledError` -/
  | cancelled
  /-- raised by the product validator -/
  | validation
  /-- `OutputLifecycleError` of `dispatcher.open()` -/
  | outputOpen
  /-- raised by `MultiStreamCollector.run()` -/
  | collector (e : MultiCollector.CollectorError)
  /-- `OutputWriteError` of `wait_for_output_failure()` -/
  | outputFailed
  /-- raised by the TUI -/
  | tui
  /-- raised by `dispatcher.close()` -/
  | outputClose (e : CloseError)
  deriving DecidableEq

/-- What a task returns or raises. -/
abbrev Result := Except RunError Unit

/-- Where `run_multi_stream_collection` waits. -/
inductive Main where
  /-- in the product validator -/
  | validating
  /-- in `dispatcher.open()` -/
  | opening
  /-- in `asyncio.sleep(0)` -/
  | starting
  /-- in the `asyncio.wait` of `_run_with_tui` -/
  | watching
  /-- in the `gather` after the TUI has raised -/
  | abandoning (e : RunError)
  /-- in `await collector_task` -/
  | awaitingMonitor
  /-- in `await tui_task`, before this result -/
  | awaitingTui (result : Result)
  /-- in the `gather` of `finally`, before this result -/
  | settling (result : Result)
  /-- in `dispatcher.close()`, after this result -/
  | closing (result : Result)
  | done (result : Result)
  deriving DecidableEq

/-- Where `_run_collector_with_output_monitor` waits. -/
inductive Monitor where
  /-- in `asyncio.wait` -/
  | waiting
  /-- in the `gather` after the output has failed -/
  | failing
  /-- in the `gather` of `finally`, before this result -/
  | finishing (result : Result)
  deriving DecidableEq

/-- Where `run_multi_stream_collection` cancels the task of the monitor, or is cancelled through it. -/
def Main.cancelsMonitor : Main → Bool
  | .abandoning _ | .awaitingMonitor | .settling _ => true
  | _ => false

/-- Where `run_multi_stream_collection` cancels the task of the TUI, or is cancelled through it. -/
def Main.cancelsTui : Main → Bool
  | .awaitingTui _ | .settling _ => true
  | _ => false

/-- The whole system. -/
structure State where
  main : Main := .validating
  tui : Task Unit RunError := .absent
  monitor : Task Monitor RunError := .absent
  /-- the task of `wait_for_output_failure()` -/
  failure : Task Unit RunError := .absent
  collector : MultiCollector.State := {}
  output : MultiMongo.Output (Group × ℕ) Event := .opened

/-- The output has been opened: the task of the TUI is created next. -/
def State.opened (s : State) : Bool :=
  match s.tui with
  | .absent => false
  | _ => true

/-- The monitor has cancelled the task of `wait_for_output_failure()`. -/
def State.failureCancelled (s : State) : Bool :=
  match s.monitor with
  | .running (.finishing _) | .done _ => true
  | _ => false

/-- The monitor has cancelled the task of the collector. -/
def State.collectorCancelled (s : State) : Bool :=
  match s.monitor with
  | .running .failing | .running (.finishing _) => true
  | _ => false

/-- What the event loop does next. -/
inductive Input where
  /-- a signal, or another holder of the stop event -/
  | setStop
  | validated (ok : Bool)
  | opened (ok : Bool)
  /-- `run_multi_stream_collection` resumes -/
  | main
  | cancelMain
  | tuiEnds (result : Result)
  | startMonitor
  | monitor
  | cancelMonitor
  | startFailure
  /-- `wait_for_output_failure()` resumes -/
  | failure
  | cancelFailure
  | collector (i : MultiCollector.Input)
  /-- `dispatcher.handle` of a connection, up to the first suspension point of `write()` -/
  | write (g : Group) (report : Callback)
  /-- a step of the output on its own -/
  | output (i : MultiMongo.Output.Input (Group × ℕ) Event)

namespace State

/-- `stop_event.set()`. -/
def setStop (s : State) : State := { s with collector := s.collector.setStop }

/-- The messages that a connection has handed on. -/
def handed (s : State) (g : Group) : List ReceivedMessage :=
  Connection.handledMessages (s.collector.connections g).history

/-- The call `write()` for the last message that a connection has handed on. -/
def lastCall (s : State) (g : Group) : Group × ℕ := (g, (s.handed g).length - 1)

/-- A step of the output. -/
def outputStep (setup : Setup) (s : State) (i : MultiMongo.Output.Input (Group × ℕ) Event) :
    Option (MultiMongo.Output (Group × ℕ) Event) :=
  (MultiMongo.Output.machine setup.settings setup.reading).step s.output i

/-! ### `run_multi_stream_collection` -/

/-- How `dispatcher.close()` fails. -/
def closeError : CloseError → RunError
  | .cancelled => .cancelled
  | e => .outputClose e

/-- The `finally` of `_run_with_tui`, up to its `gather`. -/
def settle (s : State) (result : Result) : State := { s.setStop with main := .settling result }

/-- The tasks that `_run_with_tui` has created are done. -/
def tasksDone (s : State) : Bool :=
  match s.tui, s.monitor with
  | .done _, .done _ | .done _, .absent => true
  | _, _ => false

/-- `run_multi_stream_collection` and `_run_with_tui` from the end of a wait to the next wait. -/
def resumeMain (setup : Setup) (s : State) : Option State :=
  match s.main with
  | .starting => some { s with monitor := .created, main := .watching }
  | .watching =>
    match s.monitor, s.tui with
    | .done _, _ => some { s with main := .awaitingMonitor }
    | _, .done (.error e) => some { s with main := .abandoning e }
    | _, .done (.ok ()) => some { s.setStop with main := .awaitingMonitor }
    | _, _ => none
  | .abandoning e =>
    match s.monitor with
    | .done _ => some (s.settle (.error e))
    | _ => none
  | .awaitingMonitor =>
    match s.monitor with
    | .done result => some { s.setStop with main := .awaitingTui result }
    | _ => none
  | .awaitingTui result =>
    match s.tui with
    | .done (.ok ()) => some (s.settle result)
    | .done (.error e) => some (s.settle (.error e))
    | _ => none
  | .settling result =>
    if s.tasksDone then
      (s.setStop.outputStep setup .close).map fun output => { s.setStop with main := .closing result, output := output }
    else none
  | .closing result =>
    match s.output.closeCall, result with
    | .returned, result => some { s with main := .done result }
    | .raised e, .ok () => some { s with main := .done (.error (closeError e)) }
    -- the error of `close()` is only logged
    | .raised _, .error e => some { s with main := .done (.error e) }
    | _, _ => none
  | .validating | .opening | .done _ => none

/-- A `CancelledError` where `run_multi_stream_collection` waits. Where it waits for a task that is not done, the task
is cancelled in its place. -/
def cancelMain (setup : Setup) (s : State) : Option State :=
  match s.main with
  | .validating => some { s with main := .done (.error .cancelled) }
  | .opening => some { s.setStop with main := .done (.error .cancelled) }
  | .starting | .watching | .abandoning _ | .settling _ => some (s.settle (.error .cancelled))
  | .awaitingMonitor =>
    match s.monitor with
    | .done _ => some { s.setStop with main := .awaitingTui (.error .cancelled) }
    | _ => none
  | .awaitingTui _ =>
    match s.tui with
    | .done _ => some (s.settle (.error .cancelled))
    | _ => none
  | .closing _ => (s.outputStep setup .cancelClose).map fun output => { s with output := output }
  | .done _ => none

/-! ### The monitor -/

/-- What the collector has returned or raised, as the monitor sees it. -/
def collected : Except MultiCollector.CollectorError Unit → Result
  | .ok () => .ok ()
  | .error e => .error (.collector e)

/-- `_run_collector_with_output_monitor` from the end of a wait to the next wait. -/
def resumeMonitor (s : State) : Monitor → Option State
  | .waiting =>
    match s.failure, s.collector.task with
    | .done _, _ => some { s.setStop with monitor := .running .failing }
    | _, .done result => some { s with monitor := .running (.finishing (collected result)) }
    | _, _ => none
  | .failing =>
    match s.failure, s.collector.task with
    | .done (.error e), .done _ => some { s with monitor := .running (.finishing (.error e)) }
    | .done (.ok ()), .done result => some { s with monitor := .running (.finishing (collected result)) }
    | _, _ => none
  | .finishing result =>
    match s.failure, s.collector.task with
    | .done _, .done _ => some { s with monitor := .done result }
    | _, _ => none

/-! ### The connections -/

/-- A connection is cancelled, and with it the `write()` it waits in. -/
def cancelWrite (setup : Setup) (s : State) (g : Group) : MultiMongo.Output (Group × ℕ) Event :=
  (s.outputStep setup (.cancelWrite (s.lastCall g))).getD s.output

/-- What the handler of a connection waits for. -/
def handlerAdmits (s : State) (g : Group) : Connection.Input → Bool
  | .handlerReturns =>
    match s.output.calls (s.lastCall g) with
    | .returned => true
    | _ => false
  | .handlerRaises =>
    match s.output.calls (s.lastCall g) with
    | .parked _ _ => false
    | _ => true
  | _ => true

end State

/-- A step that the output takes on its own. -/
def outputOwn : MultiMongo.Output.Input (Group × ℕ) Event → Bool
  | .write _ _ _ | .cancelWrite _ | .close | .cancelClose | .reportFailure => false
  | _ => true

/-- One step of the event loop. -/
def step (setup : Setup) (s : State) : Input → Option State
  | .setStop => some s.setStop
  | .validated ok => match s.main with
    | .validating => some { s with main := if ok then .opening else .done (.error .validation) }
    | _ => none
  | .opened ok => match s.main with
    | .opening =>
      if ok then some { s with main := .starting, tui := .running () }
      else some { s.setStop with main := .done (.error .outputOpen) }
    | _ => none
  | .main => s.resumeMain setup
  | .cancelMain => s.cancelMain setup
  | .tuiEnds result => match s.tui with
    | .running () =>
      if result = .ok () ∨ result = .error .tui ∨ result = .error .cancelled ∧ s.main.cancelsTui = true then
        some { s with tui := .done result }
      else none
    | _ => none
  | .startMonitor => match s.monitor with
    | .created =>
      some { s with monitor := .running .waiting, failure := .created, collector := s.collector.setTask .created }
    | _ => none
  | .monitor => match s.monitor with
    | .running phase => s.resumeMonitor phase
    | _ => none
  | .cancelMonitor =>
    if s.main.cancelsMonitor then
      match s.monitor with
      | .created => some { s with monitor := .done (.error .cancelled) }
      | .running _ => some { s with monitor := .running (.finishing (.error .cancelled)) }
      | _ => none
    else none
  | .startFailure => match s.failure with
    | .created => if s.failureCancelled then none else some { s with failure := .running () }
    | _ => none
  | .failure => match s.failure with
    | .running () =>
      if s.failureCancelled then none
      else (s.outputStep setup .reportFailure).map fun output =>
        { s with failure := .done (.error .outputFailed), output := output }
    | _ => none
  | .cancelFailure =>
    if s.failureCancelled then
      match s.failure with
      | .created | .running () => some { s with failure := .done (.error .cancelled) }
      | _ => none
    else none
  | .collector i => match i with
    | .setStop => none
    | .cancel =>
      if s.collectorCancelled then
        ((MultiCollector.machine setup.collector).step s.collector .cancel).map fun c => { s with collector := c }
      else none
    | .connection g i =>
      if s.handlerAdmits g i then
        ((MultiCollector.machine setup.collector).step s.collector (.connection g i)).map fun c =>
          { s with collector := c, output := if i = .cancel then s.cancelWrite setup g else s.output }
      else none
    | i => ((MultiCollector.machine setup.collector).step s.collector i).map fun c => { s with collector := c }
  | .write g report =>
    match (s.collector.connections g).phase, (s.handed g).getLast? with
    | .handling _, some message =>
      match setup.normalize message with
      | .ok normalized =>
        (s.outputStep setup (.write (s.lastCall g) normalized.event report)).map fun output =>
          { s with output := output }
      | .error _ => none
    | _, _ => none
  | .output i =>
    if s.opened && outputOwn i then (s.outputStep setup i).map fun output => { s with output := output } else none

/-- The system. -/
def machine (setup : Setup) : Steps.Machine State Input := ⟨step setup⟩

/-- Before `run_multi_stream_collection` is called. -/
def initial : State := {}

/-- The connection does not raise out of `__aexit__` in the place of an exception on its way out. -/
def State.closesQuietly (s : State) : MultiCollector.Input → Bool
  | .connection g (.closeFails _) =>
    match (s.collector.connections g).phase with
    | .closing (some _) => false
    | _ => true
  | _ => true

/-- What is assumed of the code outside the repository: the callbacks of the output return, and closing a connection
raises nothing in the place of an exception on its way out. -/
def Assumed (s : State) : Input → Prop
  | .write _ report => report = .returns
  | .output i => i.CallbacksReturn
  | .collector i => s.closesQuietly i = true
  | _ => True

end BinanceCollector.MultiRuntime
