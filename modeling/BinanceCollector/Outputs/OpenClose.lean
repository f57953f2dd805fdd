import BinanceCollector.Outputs.MultiMongo

/-!
# `open()` and `close()` of the two MongoDB outputs

Any number of calls `open()` and `close()` on one output, each suspended where it awaits. `MongoMultiCollectionOutput`
and `MongoBatchOutput` have the same two methods up to a `Profile`: the index creations that `open()` awaits after its
ping, and a second wait for the workers in `close()`.

- A call is a key; the client and the workers that an `open()` creates go by its key.
- A worker is only a task here: what it does is `MultiMongo.Output.step` and `Mongo.Output.step`.
- `asyncio.wait_for` as in Python 3.11: at the timeout it cancels what it waits for, waits for it to end and raises
  `TimeoutError` if it was cancelled. A call that is cancelled there ends at once, although it waits for what it has
  cancelled.
- `asyncio.gather` ends with the first worker that raises or is cancelled (`broke`), whatever the others do later. When
  it has been cancelled and all its workers return, it ends as cancelled.
-/

namespace BinanceCollector.OpenClose

open Steps
open MultiMongo.Output (Callback)

/-- What differs between the two outputs. -/
structure Profile where
  /-- how many index creations `open()` awaits -/
  indexes : ℕ
  /-- after a timeout, `close()` cancels and awaits the workers it finds in `_workers` -/
  regathers : Bool

/-- `MongoMultiCollectionOutput`. -/
def multiMongo (createIndexes : Bool) : Profile := ⟨if createIndexes then dataStorageRoutes.length else 0, true⟩

/-- `MongoBatchOutput`. -/
def mongoBatch : Profile := ⟨0, false⟩

/-! ## Tasks, clients and calls -/

/-- A worker task. -/
inductive Task where
  /-- not created -/
  | absent
  | running
  /-- `cancel()` has been called on it -/
  | cancelling
  | returned
  | raised
  | cancelled
  deriving DecidableEq, Repr

namespace Task

/-- The task has been created and is not done. -/
def alive : Task → Bool
  | .running | .cancelling => true
  | _ => false

/-- `done()`. -/
def done : Task → Bool
  | .returned | .raised | .cancelled => true
  | _ => false

/-- `cancel()`. -/
def cancel : Task → Task
  | .running => .cancelling
  | t => t

/-- The task has raised or been cancelled. -/
def broken : Task → Bool
  | .raised | .cancelled => true
  | _ => false

end Task

/-- How a worker task ends: its own exceptions are recorded, unless the callback that reports them raises. -/
inductive Ending where
  | returns
  | fails
  | raises
  | cancelled
  deriving DecidableEq, Repr

/-- A client made by `client_factory`. -/
inductive Client where
  | absent
  | connected
  /-- `client.close()` has returned -/
  | closed
  deriving DecidableEq, Repr

/-- How `open()` fails. -/
inductive OpenError where
  | state
  | callback
  | factory
  | connection
  | cancelled
  deriving DecidableEq, Repr

/-- An `open()` call. -/
inductive OpenCall where
  | idle
  /-- awaiting the ping or an index creation, with this many index creations to follow -/
  | connecting (left : ℕ)
  /-- in its `except` branch, awaiting `client.close()` -/
  | cleaning (e : OpenError)
  | returned
  | raised (e : OpenError)
  deriving DecidableEq, Repr

/-- The call has been made and has not ended. -/
def OpenCall.pending : OpenCall → Bool
  | .connecting _ | .cleaning _ => true
  | _ => false

/-- How `close()` fails. -/
inductive CloseFailure where
  | callback
  /-- the exception or the cancellation of a worker task, out of the wait for it -/
  | worker
  | workerFailed
  | shutdown
  | client
  | cancelled
  deriving DecidableEq, Repr

/-- A `close()` call; a key names the workers it waits for, or the client it closes. -/
inductive ClosingCall (κ : Type*) where
  | idle
  /-- waiting for the workers, at most `shutdown_timeout` -/
  | gathering (workers : κ)
  /-- the time is over: waiting for the cancelled workers -/
  | reaping (workers : κ)
  /-- waiting for them once more -/
  | regathering (workers : κ)
  | closingClient (client : κ) (timedOut : Bool)
  | returned
  | raised (e : CloseFailure)
  deriving DecidableEq, Repr

/-- The output and the calls on it. -/
structure State (κ ρ : Type*) where
  lifecycle : Lifecycle
  /-- `_client` -/
  client : Option κ
  /-- `_workers` or `_worker_task`: those of this `open()` -/
  current : Option κ
  closeRequested : Bool
  /-- a worker error is recorded -/
  failed : Bool
  failureReported : Bool
  clients : κ → Client
  workers : κ → ρ → Task
  /-- how the first worker of an `open()` ended that has raised or been cancelled -/
  broke : κ → Option Task
  opens : κ → OpenCall
  closes : κ → ClosingCall κ

namespace State

variable {κ ρ : Type*}

/-- The output as constructed. -/
def initial : State κ ρ where
  lifecycle := .new
  client := none
  current := none
  closeRequested := false
  failed := false
  failureReported := false
  clients _ := .absent
  workers _ _ := .absent
  broke _ := none
  opens _ := .idle
  closes _ := .idle

variable [DecidableEq κ]

def setOpen (s : State κ ρ) (k : κ) (c : OpenCall) : State κ ρ := { s with opens := Function.update s.opens k c }

def setClose (s : State κ ρ) (k : κ) (c : ClosingCall κ) : State κ ρ :=
  { s with closes := Function.update s.closes k c }

def setClient (s : State κ ρ) (k : κ) (c : Client) : State κ ρ := { s with clients := Function.update s.clients k c }

def setWorkers (s : State κ ρ) (k : κ) (ts : ρ → Task) : State κ ρ :=
  { s with workers := Function.update s.workers k ts }

theorem setOpen_self (s : State κ ρ) (k : κ) (c : OpenCall) : (s.setOpen k c).opens k = c := Function.update_self ..

theorem setOpen_ne (s : State κ ρ) {k q : κ} (h : q ≠ k) (c : OpenCall) : (s.setOpen k c).opens q = s.opens q :=
  Function.update_of_ne h ..

theorem setClose_self (s : State κ ρ) (k : κ) (c : ClosingCall κ) : (s.setClose k c).closes k = c :=
  Function.update_self ..

theorem setClose_ne (s : State κ ρ) {k q : κ} (h : q ≠ k) (c : ClosingCall κ) :
    (s.setClose k c).closes q = s.closes q :=
  Function.update_of_ne h ..

theorem setClient_self (s : State κ ρ) (k : κ) (c : Client) : (s.setClient k c).clients k = c := Function.update_self ..

theorem setClient_ne (s : State κ ρ) {k q : κ} (h : q ≠ k) (c : Client) : (s.setClient k c).clients q = s.clients q :=
  Function.update_of_ne h ..

theorem setWorkers_self (s : State κ ρ) (k : κ) (ts : ρ → Task) : (s.setWorkers k ts).workers k = ts :=
  Function.update_self ..

theorem setWorkers_ne (s : State κ ρ) {k q : κ} (h : q ≠ k) (ts : ρ → Task) :
    (s.setWorkers k ts).workers q = s.workers q := Function.update_of_ne h ..

/-- `cancel()` on the workers of the `open()` call `w`. -/
def cancelWorkers (s : State κ ρ) (w : κ) : State κ ρ := s.setWorkers w fun r => (s.workers w r).cancel

/-- The task of the worker `r` of `k` ends as `t`. -/
def ends [DecidableEq ρ] (s : State κ ρ) (k : κ) (r : ρ) (t : Task) : State κ ρ :=
  { s.setWorkers k (Function.update (s.workers k) r t) with
    broke := if t.broken ∧ s.broke k = none then Function.update s.broke k (some t) else s.broke }

theorem ends_broke [DecidableEq ρ] (s : State κ ρ) (k : κ) (r : ρ) (t : Task) : (s.ends k r t).broke =
    if t.broken ∧ s.broke k = none then Function.update s.broke k (some t) else s.broke := rfl

/-! ## `open()` -/

/-- How `open()` gets to its first `await`. -/
inductive Start where
  | callbackRaises
  | factoryRaises
  | connects
  deriving DecidableEq, Repr

/-- `open()` up to its first `await`. -/
def startOpen (p : Profile) (s : State κ ρ) (k : κ) (start : Start) : State κ ρ :=
  if s.lifecycle ≠ .new then s.setOpen k (.raised .state)
  else
    match start with
    | .callbackRaises => s.setOpen k (.raised .callback)
    | .factoryRaises => s.setOpen k (.raised .factory)
    | .connects => ({ s with client := some k }.setClient k .connected).setOpen k (.connecting p.indexes)

/-- `open()` after the last thing it awaits. -/
def finishOpen (s : State κ ρ) (k : κ) (report : Callback) : State κ ρ :=
  let s := { s with lifecycle := .open }
  match report with
  | .raises => s.setOpen k (.raised .callback)
  | .returns => ({ s with current := some k }.setWorkers k fun _ => .running).setOpen k .returned

/-- How `client.close()` ends in the `except` branch of `open()`. -/
inductive Cleanup where
  | closes
  /-- it raises or times out, which is suppressed -/
  | fails
  /-- the call is cancelled there -/
  | cancelled
  deriving DecidableEq, Repr

/-- The `except` branch of `open()` after `client.close()`. -/
def finishCleaning (s : State κ ρ) (k : κ) (e : OpenError) : Cleanup → State κ ρ
  | .closes => { s.setClient k .closed with client := none, lifecycle := .closed }.setOpen k (.raised e)
  | .fails => { s with client := none, lifecycle := .closed }.setOpen k (.raised e)
  | .cancelled => s.setOpen k (.raised .cancelled)

/-! ## `close()` -/

/-- The end of `close()`. -/
def finishClose (s : State κ ρ) (k : κ) (timedOut clientOk : Bool) (report : Callback) : State κ ρ :=
  { s with client := none, lifecycle := .closed }.setClose k
    (match report with
    | .raises => .raised .callback
    | .returns =>
      if s.failed ∧ ¬s.failureReported then .raised .workerFailed
      else if timedOut then .raised .shutdown
      else if clientOk then .returned
      else .raised .client)

/-- `close()` after the workers: it closes the client it finds. -/
def closeClient (s : State κ ρ) (k : κ) (timedOut : Bool) (report : Callback) : State κ ρ :=
  match s.client with
  | some c => s.setClose k (.closingClient c timedOut)
  | none => s.finishClose k timedOut true report

/-- `close()` of an output that `open()` has left open, up to its first `await`. -/
def requestClose (s : State κ ρ) (k : κ) (report final : Callback) : State κ ρ :=
  let s := { s with lifecycle := .closing }
  match report with
  | .raises => s.setClose k (.raised .callback)
  | .returns =>
    let s := { s with closeRequested := true }
    match s.current with
    | some w => s.setClose k (.gathering w)
    | none => s.closeClient k false final

/-- `close()` up to its first `await`. -/
def startClose (s : State κ ρ) (k : κ) (report final : Callback) : State κ ρ :=
  match s.lifecycle with
  | .new => { s with lifecycle := .closed }.setClose k .returned
  | .closed => s.setClose k .returned
  | .open | .closing => s.requestClose k report final

variable [Fintype ρ]

/-- All workers of `w` are done. -/
def allDone (s : State κ ρ) (w : κ) : Bool := decide (∀ r, (s.workers w r).done = true)

/-- `close()` once the wait for the workers has ended in time. -/
def gathered (s : State κ ρ) (k w : κ) (report : Callback) : Option (State κ ρ) :=
  if (s.broke w).isSome then some (s.setClose k (.raised .worker))
  else if s.allDone w then some (s.closeClient k false report)
  else none

/-- `close()` once the wait that the timeout has cancelled has ended. -/
def reaped (p : Profile) (s : State κ ρ) (k w : κ) (report : Callback) : Option (State κ ρ) :=
  if s.broke w = some .raised then some (s.setClose k (.raised .worker))
  else if p.regathers then
    -- the workers that have not ended yet are waited for again
    if (s.broke w).isSome || s.allDone w then
      match s.current with
      | some w' => some ((s.cancelWorkers w').setClose k (.regathering w'))
      | none => some (s.closeClient k true report)
    else none
  else if s.allDone w then some (s.closeClient k (s.broke w).isSome report)
  else none

/-! ## Steps -/

/-- What the event loop does next. -/
inductive Input (κ ρ : Type*) where
  /-- a call `open()`, up to its first `await` -/
  | «open» (k : κ) (start : Start)
  /-- what an `open()` awaits returns; `report`: the callback of "연결됨", where this is the last one -/
  | advance (k : κ) (report : Callback)
  /-- what an `open()` awaits raises or times out, or the call is cancelled; `report`: the callback of "연결 실패" -/
  | interrupt (k : κ) (cancelled : Bool) (report : Callback)
  /-- `client.close()` ends in the `except` branch of an `open()` -/
  | cleaned (k : κ) (outcome : Cleanup)
  /-- a call `close()`, up to its first `await`; `final`: the callback at its end, where it gets there -/
  | close (k : κ) (report final : Callback)
  /-- a worker task ends -/
  | workerEnds (k : κ) (r : ρ) (how : Ending)
  /-- the wait of a `close()` for the workers ends -/
  | gathered (k : κ) (report : Callback)
  | shutdownTimeout (k : κ)
  | reaped (k : κ) (report : Callback)
  | regathered (k : κ) (report : Callback)
  /-- the client has been closed, or closing it raised or timed out -/
  | clientClosed (k : κ) (ok : Bool) (report : Callback)
  /-- the task in a `close()` is cancelled -/
  | cancelClose (k : κ)
  /-- `wait_failed()` resumes with the failure -/
  | reportFailure

/-- **One step of the event loop.** -/
def step [DecidableEq ρ] (p : Profile) (s : State κ ρ) : Input κ ρ → Option (State κ ρ)
  | .open k start =>
    match s.opens k with
    | .idle => some (s.startOpen p k start)
    | _ => none
  | .advance k report =>
    match s.opens k with
    | .connecting (left + 1) => some (s.setOpen k (.connecting left))
    | .connecting 0 => some (s.finishOpen k report)
    | _ => none
  | .interrupt k cancelled report =>
    match s.opens k, report with
    | .connecting _, .returns => some (s.setOpen k (.cleaning (if cancelled then .cancelled else .connection)))
    | .connecting _, .raises => some (s.setOpen k (.raised .callback))
    | _, _ => none
  | .cleaned k outcome =>
    match s.opens k with
    | .cleaning e => some (s.finishCleaning k e outcome)
    | _ => none
  | .close k report final =>
    match s.closes k with
    | .idle => some (s.startClose k report final)
    | _ => none
  | .workerEnds k r how =>
    match how with
    | .returns => if (s.workers k r).alive ∧ s.closeRequested then some (s.ends k r .returned) else none
    | .fails => if (s.workers k r).alive then some { s.ends k r .returned with failed := true } else none
    | .raises => if (s.workers k r).alive then some { s.ends k r .raised with failed := true } else none
    | .cancelled => if s.workers k r = .cancelling then some (s.ends k r .cancelled) else none
  | .gathered k report =>
    match s.closes k with
    | .gathering w => s.gathered k w report
    | _ => none
  | .shutdownTimeout k =>
    match s.closes k with
    | .gathering w =>
      if (s.broke w).isSome || s.allDone w then none else some ((s.cancelWorkers w).setClose k (.reaping w))
    | _ => none
  | .reaped k report =>
    match s.closes k with
    | .reaping w => s.reaped p k w report
    | _ => none
  | .regathered k report =>
    match s.closes k with
    | .regathering w => if s.allDone w then some (s.closeClient k true report) else none
    | _ => none
  | .clientClosed k ok report =>
    match s.closes k with
    | .closingClient c timedOut =>
      some ((if ok then s.setClient c .closed else s).finishClose k timedOut ok report)
    | _ => none
  | .cancelClose k =>
    match s.closes k with
    | .gathering w => some ((s.cancelWorkers w).setClose k (.raised .cancelled))
    | .reaping _ | .regathering _ | .closingClient _ _ => some (s.setClose k (.raised .cancelled))
    | _ => none
  | .reportFailure => if s.failed then some { s with failureReported := true } else none

/-- `open()` and `close()` of an output. -/
def machine [DecidableEq ρ] (p : Profile) : Machine (State κ ρ) (Input κ ρ) := ⟨step p⟩

end State

end BinanceCollector.OpenClose
