import Mathlib.Data.Nat.Notation
import Mathlib.Logic.Function.Basic
import BinanceCollector.Lib.Machine
import BinanceCollector.Outputs.Base

/-!
# `MongoBatchOutput` as a machine

The single-collection output after `open()` has returned: a bounded queue, one worker task, any number of concurrent
`write()` calls and one `close()` call. Every `write()` puts its document through a child task (`PutTask`) which it
races against the failure event; the child is a task of its own and may outlive the call.

- `Queue.put` waits for a wake-up while the queue is full and tests again; `get_nowait` wakes the longest waiting one.
- The callbacks given to the output are taken to return.
- `accepted`, `insertCalls` and `confirmed` are histories: no code reads them.
-/

namespace BinanceCollector.Mongo

open Steps

/-- The limits kept by the constructor, which rejects values that are not positive and caps a batch by the queue. -/
structure Settings where
  queueMaxsize : ℕ
  batchMaxsize : ℕ
  queueMaxsize_pos : 0 < queueMaxsize
  batchMaxsize_pos : 0 < batchMaxsize
  batchMaxsize_le : batchMaxsize ≤ queueMaxsize

/-- The limits that the constructor keeps of its arguments, or `none` where it raises `ValueError`. -/
def Settings.ofArguments (queueMaxsize batchMaxsize : ℕ) : Option Settings :=
  if h : 0 < queueMaxsize ∧ 0 < batchMaxsize then
    some {
      queueMaxsize
      batchMaxsize := min batchMaxsize queueMaxsize
      queueMaxsize_pos := h.1
      batchMaxsize_pos := Nat.lt_min.2 ⟨h.2, h.1⟩
      batchMaxsize_le := Nat.min_le_right _ _ }
  else none

/-- The copy of an event. `call` is the identity of the object: the `write()` call that made the copy. -/
structure Document (κ ε : Type*) where
  call : κ
  event : ε
  deriving DecidableEq, Repr

/-- The child task `queue.put(document)` of a `write()` call. -/
inductive PutTask (κ ε : Type*) where
  /-- not created -/
  | none
  /-- created and not yet run -/
  | created (d : Document κ ε)
  /-- waiting while the queue is full; `notified` once a `get_nowait` has woken it -/
  | parked (d : Document κ ε) (notified : Bool)
  /-- the document has been put into the queue -/
  | done
  /-- cancelled and not yet run; `notified` when it had been woken before -/
  | cancelling (notified : Bool)
  | cancelled
  deriving DecidableEq, Repr

/-- Why the worker ended with `_worker_error`. -/
inductive WorkerError where
  | notReady
  | insert
  | taskDone
  deriving DecidableEq, Repr

/-- Where `_run_worker` is suspended, with the batch it holds, or how it ended. -/
inductive Worker (κ ε : Type*) where
  /-- created by `open()` -/
  | created
  /-- waiting for the close request, at most until the next flush -/
  | sleeping
  /-- `_persist_batch`: waiting for `insert_many` -/
  | inserting (batch : List (Document κ ε))
  | returned
  | failed (batch : List (Document κ ε))
  | cancelled (batch : List (Document κ ε))
  deriving DecidableEq, Repr

/-- How a `write()` call fails. -/
inductive WriteError where
  | state
  | workerFailed
  | cancelled
  deriving DecidableEq, Repr

/-- A `write()` call. -/
inductive WriteCall where
  | idle
  /-- waiting for its put task or for the failure -/
  | racing
  /-- waiting for its cancelled put task; `cancelled` once the call is cancelled as well -/
  | abandoning (cancelled : Bool)
  /-- waiting in `finally` for its failure task, to return or to raise -/
  | leaving (e : Option WriteError)
  | returned
  | raised (e : WriteError)
  deriving DecidableEq, Repr

/-- The output and the calls on it. -/
structure Output (κ ε : Type*) where
  lifecycle : Lifecycle
  queue : List (Document κ ε)
  unfinishedTasks : ℕ
  /-- the put tasks waiting for a wake-up, the longest waiting first -/
  putters : List κ
  puts : κ → PutTask κ ε
  failureTasks : κ → Bool
  closeRequested : Bool
  failureEvent : Bool
  workerError : Option WorkerError
  failureReported : Bool
  inflightBatch : List (Document κ ε)
  /-- `_collection` is not `None` -/
  connected : Bool
  worker : Worker κ ε
  /-- `close()` has cancelled the worker -/
  workerCancelled : Bool
  calls : κ → WriteCall
  closeCall : CloseCall
  accepted : List (Document κ ε)
  insertCalls : List (List (Document κ ε))
  confirmed : List (Document κ ε)

variable {κ ε : Type*}

namespace PutTask

/-- `Future.set_result` on the future the task waits for. -/
def notify : PutTask κ ε → PutTask κ ε
  | .parked d _ => .parked d true
  | p => p

/-- `Task.cancel`. -/
def cancel : PutTask κ ε → PutTask κ ε
  | .created _ => .cancelling false
  | .parked _ notified => .cancelling notified
  | p => p

/-- The document the task still may put. -/
def document : PutTask κ ε → Option (Document κ ε)
  | .created d => some d
  | .parked d _ => some d
  | _ => Option.none

end PutTask

namespace Worker

/-- The batch the worker holds. -/
def batch : Worker κ ε → List (Document κ ε)
  | .inserting batch => batch
  | .failed batch => batch
  | .cancelled batch => batch
  | _ => []

/-- The task is done. -/
def done : Worker κ ε → Bool
  | .returned => true
  | .failed _ => true
  | .cancelled _ => true
  | _ => false

end Worker

namespace Output

/-- The output when `open()` has returned. -/
def opened : Output κ ε where
  lifecycle := .open
  queue := []
  unfinishedTasks := 0
  putters := []
  puts _ := .none
  failureTasks _ := false
  closeRequested := false
  failureEvent := false
  workerError := none
  failureReported := false
  inflightBatch := []
  connected := true
  worker := .created
  workerCancelled := false
  calls _ := .idle
  closeCall := .idle
  accepted := []
  insertCalls := []
  confirmed := []

/-- `pending_count`. -/
def pendingCount (s : Output κ ε) : ℕ := s.queue.length + s.inflightBatch.length

/-- `Queue.full`. -/
def full (cfg : Settings) (s : Output κ ε) : Bool := decide (cfg.queueMaxsize ≤ s.queue.length)

variable [DecidableEq κ]

def setPut (s : Output κ ε) (k : κ) (p : PutTask κ ε) : Output κ ε := { s with puts := Function.update s.puts k p }

def setCall (s : Output κ ε) (k : κ) (c : WriteCall) : Output κ ε := { s with calls := Function.update s.calls k c }

/-- `Queue._wakeup_next` on the waiting put tasks, once for each of `n` documents taken. -/
def wakeup (s : Output κ ε) : ℕ → Output κ ε
  | 0 => s
  | n + 1 =>
    match s.putters with
    | [] => s
    | k :: putters => wakeup { s with
        putters := putters
        puts := Function.update s.puts k (s.puts k).notify } n

/-! ## `write()` and its put task -/

/-- `write()` up to its first suspension point. -/
def write (s : Output κ ε) (k : κ) (event : ε) : Output κ ε :=
  if s.lifecycle ≠ .open then s.setCall k (.raised (if s.workerError.isSome then .workerFailed else .state))
  else if s.workerError.isSome then s.setCall k (.raised .workerFailed)
  else (s.setPut k (.created ⟨k, event⟩)).setCall k .racing

/-- The put task of `k` tests whether the queue is full. -/
def tryPut (cfg : Settings) (s : Output κ ε) (k : κ) (d : Document κ ε) : Output κ ε :=
  if s.full cfg then { s.setPut k (.parked d false) with putters := s.putters ++ [k] }
  else { s.setPut k .done with
    queue := s.queue ++ [d]
    unfinishedTasks := s.unfinishedTasks + 1
    accepted := s.accepted ++ [d] }

/-- The put task of `k` runs. -/
def runPut (cfg : Settings) (s : Output κ ε) (k : κ) : Option (Output κ ε) :=
  match s.puts k with
  | .created d => some (s.tryPut cfg k d)
  | .parked d true => some (s.tryPut cfg k d)
  | .cancelling notified =>
    let s := s.setPut k .cancelled
    some (if notified && !s.full cfg then s.wakeup 1 else s)
  | _ => none

/-- `put_task.cancel()`. -/
def cancelPut (s : Output κ ε) (k : κ) : Output κ ε :=
  { s.setPut k (s.puts k).cancel with putters := s.putters.filter (· ≠ k) }

/-- `_raise_worker_error()` in `write()`, before `finally`. -/
def checked (s : Output κ ε) : Option WriteError := if s.workerError.isSome then some .workerFailed else none

/-- The task in `write()` runs on from where it is suspended. -/
def resumeWrite (s : Output κ ε) (k : κ) : Option (Output κ ε) :=
  match s.calls k with
  | .racing =>
    match s.failureTasks k, s.puts k with
    | _, .done => some (s.setCall k (.leaving s.checked))
    | true, _ => some ((s.cancelPut k).setCall k (.abandoning false))
    | false, _ => none
  | .abandoning cancelled =>
    match s.puts k with
    | .cancelled =>
      some (s.setCall k (.leaving (if cancelled then some .cancelled else s.checked.or (some .cancelled))))
    | _ => none
  | .leaving none => some (s.setCall k .returned)
  | .leaving (some e) => some (s.setCall k (.raised e))
  | _ => none

/-- The task in `write()` is cancelled. -/
def cancelWrite (s : Output κ ε) (k : κ) : Option (Output κ ε) :=
  match s.calls k with
  | .racing => some (s.setCall k (.leaving (some .cancelled)))
  | .abandoning _ => some (s.setCall k (.abandoning true))
  | .leaving _ => some (s.setCall k (.leaving (some .cancelled)))
  | _ => none

/-! ## The worker -/

/-- The `except Exception` of `_run_worker`. -/
def workerFails (s : Output κ ε) (batch : List (Document κ ε)) (e : WorkerError) : Output κ ε :=
  { s with worker := .failed batch, workerError := some e, failureEvent := true }

/-- The loop of `_run_worker` after its wait: `_drain_batch` and `_persist_batch` up to `insert_many`. -/
def drain (cfg : Settings) (s : Output κ ε) : Output κ ε :=
  let batch := s.queue.take cfg.batchMaxsize
  let s := { s with queue := s.queue.drop cfg.batchMaxsize }.wakeup batch.length
  if batch = [] then { s with worker := if s.closeRequested then .returned else .sleeping }
  else if s.connected then
    { s with inflightBatch := batch, worker := .inserting batch, insertCalls := s.insertCalls ++ [batch] }
  else s.workerFails batch .notReady

/-- The worker task runs, except at `insert_many`. -/
def runWorker (cfg : Settings) (s : Output κ ε) : Option (Output κ ε) :=
  match s.worker with
  | .created => some (if s.closeRequested then s.drain cfg else { s with worker := .sleeping })
  | .sleeping => some (s.drain cfg)
  | _ => none

/-- `_persist_batch` once `insert_many` has ended, normally or not, and the loop up to the next suspension point. -/
def insertDone (cfg : Settings) (s : Output κ ε) (batch : List (Document κ ε)) (ok : Bool) : Output κ ε :=
  if ok then
    let s := { s with inflightBatch := [] }
    if s.unfinishedTasks < batch.length then s.workerFails batch .taskDone
    else
      let s := { s with unfinishedTasks := s.unfinishedTasks - batch.length, confirmed := s.confirmed ++ batch }
      if s.closeRequested then (if s.queue = [] then { s with worker := .returned } else s.drain cfg)
      else { s with worker := .sleeping }
  else s.workerFails batch .insert

/-- The end of `close()`, once the client has been closed or failed to close. -/
def finishClose (s : Output κ ε) (timedOut clientOk : Bool) : Output κ ε :=
  { s with
    connected := false
    lifecycle := .closed
    closeCall :=
      if s.workerError.isSome ∧ ¬s.failureReported then .raised .workerFailed
      else if timedOut then .raised .shutdown
      else if clientOk then .returned
      else .raised .client }

/-! ## Steps -/

/-- What the event loop does next. -/
inductive Input (κ ε : Type*) where
  /-- a call `write(event)`, up to its first suspension point -/
  | write (k : κ) (event : ε)
  /-- the put task of a call runs -/
  | putTask (k : κ)
  /-- the failure task of a call runs -/
  | failureTask (k : κ)
  | resumeWrite (k : κ)
  | cancelWrite (k : κ)
  /-- the worker task runs -/
  | worker
  /-- `insert_many` ends and the worker task runs -/
  | insertDone (ok : Bool)
  /-- the worker cancelled by `close()` ends -/
  | cancelWorker
  | close
  /-- `close()` resumes: the worker is done -/
  | workerDone
  /-- `shutdown_timeout` passes -/
  | shutdownTimeout
  | clientClosed (ok : Bool)
  | cancelClose
  /-- `wait_failed()` resumes with the failure -/
  | reportFailure

/-- **One step of the event loop.** -/
def step (cfg : Settings) (s : Output κ ε) : Input κ ε → Option (Output κ ε)
  | .write k event =>
    match s.calls k with
    | .idle => some (s.write k event)
    | _ => none
  | .putTask k => s.runPut cfg k
  | .failureTask k =>
    if s.failureEvent ∧ s.calls k = .racing then
      some { s with failureTasks := Function.update s.failureTasks k true }
    else none
  | .resumeWrite k => s.resumeWrite k
  | .cancelWrite k => s.cancelWrite k
  | .worker => s.runWorker cfg
  | .insertDone ok =>
    match s.worker with
    | .inserting batch => some (s.insertDone cfg batch ok)
    | _ => none
  | .cancelWorker =>
    if s.workerCancelled ∧ ¬s.worker.done then some { s with worker := .cancelled s.worker.batch } else none
  | .close =>
    match s.closeCall, s.lifecycle with
    | .idle, .open => some { s with lifecycle := .closing, closeRequested := true, closeCall := .gathering }
    | _, _ => none
  | .workerDone =>
    match s.closeCall, s.worker with
    | .gathering, .returned | .gathering, .failed _ | .reaping, .returned | .reaping, .failed _ =>
      some { s with closeCall := .closingClient false }
    | .reaping, .cancelled _ => some { s with closeCall := .closingClient true }
    | _, _ => none
  | .shutdownTimeout =>
    match s.closeCall with
    | .gathering => some { s with closeCall := .reaping, workerCancelled := true }
    | _ => none
  | .clientClosed ok =>
    match s.closeCall with
    | .closingClient timedOut => some (s.finishClose timedOut ok)
    | _ => none
  | .cancelClose =>
    match s.closeCall with
    | .gathering => some { s with closeCall := .raised .cancelled, workerCancelled := true }
    | .reaping | .closingClient _ => some { s with closeCall := .raised .cancelled }
    | _ => none
  | .reportFailure => if s.failureEvent then some { s with failureReported := true } else none

/-- `MongoBatchOutput` with these settings. -/
def machine (cfg : Settings) : Machine (Output κ ε) (Input κ ε) := ⟨step cfg⟩

end Output

end BinanceCollector.Mongo
