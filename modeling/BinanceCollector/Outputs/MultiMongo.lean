import Mathlib.Algebra.Ring.Nat
import Mathlib.Data.Int.Init
import Mathlib.Logic.Function.Basic
import BinanceCollector.Lib.Machine
import BinanceCollector.Outputs.Base
import BinanceCollector.StorageRoutes

/-!
# `MongoMultiCollectionOutput` as a machine

The output after `open()` has returned: one queue and one worker task for each storage route, a common buffer budget,
any number of concurrent `write()` calls and one `close()` call. An input is what the event loop does next: it runs one
task from the suspension point where it is parked to the next one, or an operation the task awaits ends.

- `BufferBudget`: `acquire`, `release` and `mark_failed` never suspend while they hold the condition's lock (the only
  `await` under it is the condition's own wait, which gives the lock up), so each is one function.
- `Worker` names the suspension points of `_run_worker`; the code between two of them is `runWorker`, `collectBatch`,
  `fillBatch`, `persistBatch`, `confirmBatch`.
- `_write_semaphore` is entered through a state of its own (`awaitSlot`); when a slot is free the task does not suspend
  there, so that more schedules are covered than occur.
- `accepted`, `insertCalls` and `confirmed` of a lane and `reports` are histories: no code reads them.
-/

namespace BinanceCollector.MultiMongo

open Steps

/-- The limits kept by the constructor, which rejects values that are not positive and caps a batch by the buffer. -/
structure Settings where
  bufferMaxDocuments : ℕ
  bufferMaxBytes : ℕ
  batchMaxDocuments : ℕ
  batchMaxBytes : ℕ
  maxConcurrentWrites : ℕ
  bufferMaxDocuments_pos : 0 < bufferMaxDocuments
  bufferMaxBytes_pos : 0 < bufferMaxBytes
  batchMaxDocuments_pos : 0 < batchMaxDocuments
  batchMaxBytes_pos : 0 < batchMaxBytes
  maxConcurrentWrites_pos : 0 < maxConcurrentWrites
  batchMaxDocuments_le : batchMaxDocuments ≤ bufferMaxDocuments
  batchMaxBytes_le : batchMaxBytes ≤ bufferMaxBytes

/-- The limits that the constructor keeps of its arguments, or `none` where it raises `ValueError`. -/
def Settings.ofArguments (bufferMaxDocuments bufferMaxBytes batchMaxDocuments batchMaxBytes maxConcurrentWrites : ℕ) :
    Option Settings :=
  if h : 0 < bufferMaxDocuments ∧ 0 < bufferMaxBytes ∧ 0 < batchMaxDocuments ∧ 0 < batchMaxBytes ∧
      0 < maxConcurrentWrites then
    some {
      bufferMaxDocuments, bufferMaxBytes, maxConcurrentWrites
      batchMaxDocuments := min batchMaxDocuments bufferMaxDocuments
      batchMaxBytes := min batchMaxBytes bufferMaxBytes
      bufferMaxDocuments_pos := h.1
      bufferMaxBytes_pos := h.2.1
      batchMaxDocuments_pos := Nat.lt_min.2 ⟨h.2.2.1, h.1⟩
      batchMaxBytes_pos := Nat.lt_min.2 ⟨h.2.2.2.1, h.2.1⟩
      maxConcurrentWrites_pos := h.2.2.2.2
      batchMaxDocuments_le := Nat.min_le_right _ _
      batchMaxBytes_le := Nat.min_le_right _ _ }
  else none

/-- What the output reads of an event: `len(BSON.encode(event))`, or `none` where that raises, and `_route`. -/
structure Reading (ε : Type*) where
  bsonSize : ε → Option ℕ
  route : ε → StorageRoute

/-! ## The buffer budget -/

/-- `BufferBudget`. -/
structure BufferBudget where
  documents : ℤ
  bytes : ℤ
  failed : Bool
  deriving DecidableEq, Repr

namespace BufferBudget

/-- `BufferBudget.__init__`. -/
def empty : BufferBudget := ⟨0, 0, false⟩

/-- Room for one more document of this size. -/
def Admits (cfg : Settings) (b : BufferBudget) (size : ℕ) : Prop :=
  b.documents < cfg.bufferMaxDocuments ∧ b.bytes + size ≤ cfg.bufferMaxBytes

instance (cfg : Settings) (b : BufferBudget) (size : ℕ) : Decidable (b.Admits cfg size) :=
  inferInstanceAs (Decidable (_ ∧ _))

/-- What one test of the predicate in `acquire` leads to. -/
inductive Acquire where
  | granted (b : BufferBudget)
  | failed
  | waits
  deriving DecidableEq, Repr

/-- The part of `BufferBudget.acquire` under the condition. -/
def acquire (cfg : Settings) (b : BufferBudget) (size : ℕ) : Acquire :=
  if b.failed then .failed
  else if b.Admits cfg size then .granted { b with documents := b.documents + 1, bytes := b.bytes + size }
  else .waits

/-- `BufferBudget.release`; `false` when a counter became negative, where the code raises. -/
def release (b : BufferBudget) (documents size : ℕ) : BufferBudget × Bool :=
  let b' := { b with documents := b.documents - documents, bytes := b.bytes - size }
  (b', decide (0 ≤ b'.documents ∧ 0 ≤ b'.bytes))

/-- `BufferBudget.mark_failed`. -/
def markFailed (b : BufferBudget) : BufferBudget := { b with failed := true }

end BufferBudget

/-! ## Documents, workers and calls -/

/-- `BufferedDocument`. `call` is the identity of the object: the `write()` call that copied the event. -/
structure BufferedDocument (κ ε : Type*) where
  call : κ
  event : ε
  bsonSize : ℕ
  deriving DecidableEq, Repr

/-- A task awaiting `queue.get()`. -/
inductive GetTask (κ ε : Type*) where
  | pending
  | got (d : BufferedDocument κ ε)
  deriving DecidableEq, Repr

/-- Where a `_run_worker` task is suspended, with its local variables, or how it ended. -/
inductive Worker (κ ε : Type*) where
  /-- created by `open()` -/
  | created
  /-- `_first_document`: waiting for a document or for the close request -/
  | awaitFirst (get : GetTask κ ε)
  /-- `_first_document`: waiting in `finally` for the two child tasks -/
  | settleFirst (first : Option (BufferedDocument κ ε))
  /-- `_next_batch_document`: waiting for a document until the deadline -/
  | awaitNext (batch : List (BufferedDocument κ ε)) (batchBytes : ℕ) (get : GetTask κ ε)
  /-- `_persist_batch`: entering `_write_semaphore` -/
  | awaitSlot (batch : List (BufferedDocument κ ε)) (carry : Option (BufferedDocument κ ε))
  /-- `_persist_batch`: waiting for `insert_many` -/
  | inserting (batch : List (BufferedDocument κ ε)) (carry : Option (BufferedDocument κ ε))
  | returned
  /-- ended by an exception; the documents its variables held, passed to `insert_many` or not -/
  | failed (passed unpassed : List (BufferedDocument κ ε))
  | cancelled (passed unpassed : List (BufferedDocument κ ε))
  deriving DecidableEq, Repr

/-- Why a worker ended in `_worker_errors`. -/
inductive WorkerError where
  | notReady
  | bulkWrite
  | insert
  | timeout
  | taskDone
  | budgetNegative
  deriving DecidableEq, Repr

/-- How `insert_many` under `wait_for` ends. -/
inductive InsertOutcome where
  | success
  /-- `BulkWriteError` with this `nInserted` -/
  | bulkWriteError (nInserted : ℤ)
  | otherError
  | timeout
  deriving DecidableEq, Repr

/-- How a `write()` call fails. -/
inductive WriteError where
  | state
  | workerFailed
  | serialization
  | capacity
  | budgetFailed
  | budgetNegative
  | callback
  | cancelled
  deriving DecidableEq, Repr

/-- A `write()` call. -/
inductive WriteCall (κ ε : Type*) where
  | idle
  /-- waiting in `BufferBudget.acquire`; `notified` once the condition has woken it -/
  | parked (d : BufferedDocument κ ε) (notified : Bool)
  | returned
  | raised (e : WriteError)
  deriving DecidableEq, Repr

/-- `notify_all` on the budget's condition. -/
def WriteCall.notify {κ ε : Type*} : WriteCall κ ε → WriteCall κ ε
  | .parked d _ => .parked d true
  | c => c

/-- A call of `on_batch_persisted` or `on_buffer_changed`. -/
inductive Report where
  | batchPersisted (r : StorageRoute) (count : ℕ)
  | bufferChanged (r : StorageRoute) (pending pendingBytes totalPending totalBytes : ℤ)
  deriving DecidableEq, Repr

/-- What the output keeps for one route. -/
structure Lane (κ ε : Type*) where
  queue : List (BufferedDocument κ ε)
  unfinishedTasks : ℕ
  pendingDocuments : ℤ
  pendingBytes : ℤ
  inflight : List (BufferedDocument κ ε)
  worker : Worker κ ε
  accepted : List (BufferedDocument κ ε)
  insertCalls : List (List (BufferedDocument κ ε))
  confirmed : List (BufferedDocument κ ε)

/-- The output and the calls on it. -/
structure Output (κ ε : Type*) where
  lifecycle : Lifecycle
  budget : BufferBudget
  lanes : StorageRoute → Lane κ ε
  workerErrors : List (StorageRoute × WorkerError)
  closeRequested : Bool
  failureEvent : Bool
  failureReported : Bool
  /-- `_mongo_collections` is filled -/
  connected : Bool
  /-- `close()` has cancelled the workers -/
  workersCancelled : Bool
  calls : κ → WriteCall κ ε
  closeCall : CloseCall
  reports : List Report

variable {κ ε : Type*}

/-- The bytes of a list of documents. -/
def byteCount (ds : List (BufferedDocument κ ε)) : ℕ := (ds.map (·.bsonSize)).sum

/-! ## Batching: `_run_worker` between two suspension points -/

/-- How far the inner loop of `_run_worker` gets without suspending. -/
inductive Filled (κ ε : Type*) where
  /-- the queue is empty and the batch may still grow -/
  | starved (batch : List (BufferedDocument κ ε)) (batchBytes : ℕ)
  /-- the batch is complete; `carry` did not fit -/
  | closed (batch : List (BufferedDocument κ ε)) (carry : Option (BufferedDocument κ ε))
      (queue : List (BufferedDocument κ ε))
  deriving DecidableEq, Repr

/-- The inner loop of `_run_worker`, on the documents at hand. -/
def fillBatch (cfg : Settings) (batch : List (BufferedDocument κ ε)) (batchBytes : ℕ) :
    List (BufferedDocument κ ε) → Filled κ ε
  | [] => if batch.length < cfg.batchMaxDocuments then .starved batch batchBytes else .closed batch none []
  | candidate :: queue =>
    if batch.length < cfg.batchMaxDocuments then
      if cfg.batchMaxBytes < batchBytes + candidate.bsonSize then .closed batch (some candidate) queue
      else if cfg.batchMaxBytes ≤ batchBytes + candidate.bsonSize then
        .closed (batch ++ [candidate]) none queue
      else fillBatch cfg (batch ++ [candidate]) (batchBytes + candidate.bsonSize) queue
    else .closed batch none (candidate :: queue)

/-- How a worker's code up to its next suspension point ends: suspended or returned, or raising. -/
inductive Progress (κ ε : Type*) where
  | goes (l : Lane κ ε)
  | fails (l : Lane κ ε) (e : WorkerError)

namespace Lane

/-- The entry of `_persist_batch`. -/
def persistBatch (connected : Bool) (l : Lane κ ε) (batch : List (BufferedDocument κ ε))
    (carry : Option (BufferedDocument κ ε)) : Progress κ ε :=
  if connected then .goes { l with inflight := batch, worker := .awaitSlot batch carry }
  else .fails { l with worker := .failed [] (batch ++ carry.toList) } .notReady

/-- The inner loop of `_run_worker` and what follows it. `expired`: the deadline has passed. -/
def collectBatch (cfg : Settings) (connected closeRequested expired : Bool) (l : Lane κ ε)
    (batch : List (BufferedDocument κ ε)) (batchBytes : ℕ) (candidates : List (BufferedDocument κ ε)) :
    Progress κ ε :=
  match fillBatch cfg batch batchBytes candidates with
  | .starved batch batchBytes =>
    if closeRequested || expired then persistBatch connected { l with queue := [] } batch none
    else .goes { l with queue := [], worker := .awaitNext batch batchBytes .pending }
  | .closed batch carry queue => persistBatch connected { l with queue := queue } batch carry

/-- `_run_worker` with its first document at hand. -/
def startBatch (cfg : Settings) (connected closeRequested expired : Bool) (l : Lane κ ε)
    (first : BufferedDocument κ ε) : Progress κ ε :=
  collectBatch cfg connected closeRequested expired l [first] first.bsonSize l.queue

/-- `_first_document` up to its first suspension point, and the head of the loop of `_run_worker`. -/
def runWorker (cfg : Settings) (connected closeRequested expired : Bool) (l : Lane κ ε)
    (carry : Option (BufferedDocument κ ε)) : Progress κ ε :=
  match carry, l.queue with
  | some first, _ => startBatch cfg connected closeRequested expired l first
  | none, first :: queue => startBatch cfg connected closeRequested expired { l with queue := queue } first
  | none, [] =>
    if closeRequested then .goes { l with worker := .returned }
    else .goes { l with worker := .awaitFirst .pending }

/-- The child task of `queue.get()` takes the oldest document. -/
def getTask (l : Lane κ ε) : Option (Lane κ ε) :=
  match l.worker, l.queue with
  | .awaitFirst .pending, d :: queue => some { l with queue := queue, worker := .awaitFirst (.got d) }
  | .awaitNext batch batchBytes .pending, d :: queue =>
    some { l with queue := queue, worker := .awaitNext batch batchBytes (.got d) }
  | _, _ => none

/-- The worker task runs on from where it is suspended, except at `insert_many`. -/
def resume (cfg : Settings) (connected closeRequested expired slotFree : Bool) (l : Lane κ ε) :
    Option (Progress κ ε) :=
  match l.worker with
  | .created => some (runWorker cfg connected closeRequested expired l none)
  | .awaitFirst (.got d) => some (.goes { l with worker := .settleFirst (some d) })
  | .awaitFirst .pending =>
    if closeRequested then
      match l.queue with
      | d :: queue => some (.goes { l with queue := queue, worker := .settleFirst (some d) })
      | [] => some (.goes { l with worker := .settleFirst none })
    else none
  | .settleFirst (some first) => some (startBatch cfg connected closeRequested expired l first)
  | .settleFirst none => some (.goes { l with worker := .returned })
  | .awaitNext batch batchBytes (.got d) =>
    some (collectBatch cfg connected closeRequested expired l batch batchBytes (d :: l.queue))
  | .awaitNext batch _ .pending => if expired then some (persistBatch connected l batch none) else none
  | .awaitSlot batch carry =>
    if slotFree then
      some (.goes { l with worker := .inserting batch carry, insertCalls := l.insertCalls ++ [batch] })
    else none
  | _ => none

/-- A document accepted by `write()`: `_pending_documents`, `_pending_bytes` and `put_nowait`. -/
def accept (l : Lane κ ε) (d : BufferedDocument κ ε) : Lane κ ε :=
  { l with
    pendingDocuments := l.pendingDocuments + 1
    pendingBytes := l.pendingBytes + d.bsonSize
    queue := l.queue ++ [d]
    unfinishedTasks := l.unfinishedTasks + 1
    accepted := l.accepted ++ [d] }

/-- The counters of `_confirm_batch`. -/
def settle (l : Lane κ ε) (confirmed : List (BufferedDocument κ ε)) : Lane κ ε :=
  { l with
    pendingDocuments := l.pendingDocuments - confirmed.length
    pendingBytes := l.pendingBytes - byteCount confirmed
    unfinishedTasks := l.unfinishedTasks - confirmed.length
    confirmed := l.confirmed ++ confirmed }

end Lane

/-! ## Documents held by a worker -/

namespace GetTask

/-- The document a `queue.get()` task holds. -/
def docs : GetTask κ ε → List (BufferedDocument κ ε)
  | .pending => []
  | .got d => [d]

end GetTask

namespace Worker

/-- Documents passed to `insert_many` and not confirmed. -/
def passed : Worker κ ε → List (BufferedDocument κ ε)
  | .inserting batch _ => batch
  | .failed passed _ => passed
  | .cancelled passed _ => passed
  | _ => []

/-- Documents taken from the queue and not passed to `insert_many`. -/
def unpassed : Worker κ ε → List (BufferedDocument κ ε)
  | .awaitFirst get => get.docs
  | .settleFirst first => first.toList
  | .awaitNext batch _ get => batch ++ get.docs
  | .awaitSlot batch carry => batch ++ carry.toList
  | .inserting _ carry => carry.toList
  | .failed _ unpassed => unpassed
  | .cancelled _ unpassed => unpassed
  | _ => []

/-- The task is done. -/
def done : Worker κ ε → Bool
  | .returned => true
  | .failed .. => true
  | .cancelled .. => true
  | _ => false

/-- The task holds a slot of `_write_semaphore`. -/
def writing : Worker κ ε → Bool
  | .inserting .. => true
  | _ => false

end Worker

/-! ## The output -/

namespace Output

/-- The output when `open()` has returned. -/
def opened : Output κ ε where
  lifecycle := .open
  budget := .empty
  lanes _ := ⟨[], 0, 0, 0, [], .created, [], [], []⟩
  workerErrors := []
  closeRequested := false
  failureEvent := false
  failureReported := false
  connected := true
  workersCancelled := false
  calls _ := .idle
  closeCall := .idle
  reports := []

/-- `pending_count`. -/
def pendingCount (s : Output κ ε) : ℤ := s.budget.documents

/-- A slot of `_write_semaphore` is free. -/
def slotFree (cfg : Settings) (s : Output κ ε) : Bool :=
  decide ((storageRoutes.filter fun r => (s.lanes r).worker.writing).length < cfg.maxConcurrentWrites)

def setLane (s : Output κ ε) (r : StorageRoute) (l : Lane κ ε) : Output κ ε :=
  { s with lanes := Function.update s.lanes r l }

def setBudget (s : Output κ ε) (b : BufferBudget) : Output κ ε := { s with budget := b }

def notifyAll (s : Output κ ε) : Output κ ε := { s with calls := fun k => (s.calls k).notify }

variable [DecidableEq κ]

def setCall (s : Output κ ε) (k : κ) (c : WriteCall κ ε) : Output κ ε :=
  { s with calls := Function.update s.calls k c }

/-- `_report_buffer`. -/
def reportBuffer (s : Output κ ε) (r : StorageRoute) : Output κ ε :=
  { s with reports := s.reports ++ [.bufferChanged r (s.lanes r).pendingDocuments (s.lanes r).pendingBytes
      s.budget.documents s.budget.bytes] }

/-- The `except Exception` of `_run_worker`. -/
def workerFails (s : Output κ ε) (r : StorageRoute) (e : WorkerError) : Output κ ε :=
  ({ s with
    workerErrors := s.workerErrors ++ [(r, e)]
    failureEvent := true
    budget := s.budget.markFailed }).notifyAll

/-- The worker of `r` goes on to its next suspension point. -/
def proceed (s : Output κ ε) (r : StorageRoute) : Progress κ ε → Output κ ε
  | .goes l => s.setLane r l
  | .fails l e => (s.setLane r l).workerFails r e

/-- What an awaited `on_buffer_changed` does. -/
inductive Callback where
  | returns
  | raises
  deriving DecidableEq, Repr

/-- The `except BaseException` of `write()`: the budget is released and `e` raised again. -/
def giveBack (s : Output κ ε) (d : BufferedDocument κ ε) (e : WriteError) : Output κ ε :=
  let (b, ok) := s.budget.release 1 d.bsonSize
  if ok then ((s.setBudget b).notifyAll).setCall d.call (.raised e)
  else (s.setBudget b).setCall d.call (.raised .budgetNegative)

/-- `write()` once `acquire` has granted the budget `b`. -/
def enqueue (s : Output κ ε) (r : StorageRoute) (d : BufferedDocument κ ε) (b : BufferBudget)
    (report : Callback) : Output κ ε :=
  let s := s.setBudget b
  if s.workerErrors ≠ [] then s.giveBack d .workerFailed
  else
    let s := (s.setLane r ((s.lanes r).accept d)).reportBuffer r
    match report with
    | .returns => s.setCall d.call .returned
    | .raises => s.giveBack d .callback

/-- `write()` at the predicate of `acquire`. -/
def tryWrite (cfg : Settings) (s : Output κ ε) (r : StorageRoute) (d : BufferedDocument κ ε) (report : Callback) :
    Output κ ε :=
  match s.budget.acquire cfg d.bsonSize with
  | .granted b => s.enqueue r d b report
  | .failed => s.setCall d.call (.raised .budgetFailed)
  | .waits => s.setCall d.call (.parked d false)

/-- `write()` up to its first suspension point. -/
def write (cfg : Settings) (rd : Reading ε) (s : Output κ ε) (k : κ) (event : ε) (report : Callback) : Output κ ε :=
  if s.lifecycle ≠ .open then
    s.setCall k (.raised (if s.workerErrors ≠ [] then .workerFailed else .state))
  else if s.workerErrors ≠ [] then s.setCall k (.raised .workerFailed)
  else
    match rd.bsonSize event with
    | none => s.setCall k (.raised .serialization)
    | some size =>
      if cfg.bufferMaxBytes < size then s.setCall k (.raised .capacity)
      else s.tryWrite cfg (rd.route event) ⟨k, event, size⟩ report

/-- `_confirm_batch`: the route's counters, `task_done`, the budget and the callbacks. -/
def confirmBatch (s : Output κ ε) (r : StorageRoute) (confirmed : List (BufferedDocument κ ε)) :
    Except (Output κ ε × WorkerError) (Output κ ε) :=
  let l := (s.lanes r).settle confirmed
  if (s.lanes r).unfinishedTasks < confirmed.length then .error (s.setLane r l, .taskDone)
  else
    let (b, ok) := s.budget.release confirmed.length (byteCount confirmed)
    let s := (s.setLane r l).setBudget b
    if ok then
      .ok (({ s.notifyAll with reports := s.reports ++ [Report.batchPersisted r confirmed.length] }).reportBuffer r)
    else .error (s, .budgetNegative)

/-- The worker of `r` raises `e` out of `_persist_batch`, with these documents in its variables. -/
def insertFails (s : Output κ ε) (r : StorageRoute) (passed : List (BufferedDocument κ ε))
    (carry : Option (BufferedDocument κ ε)) (e : WorkerError) : Output κ ε :=
  (s.setLane r { s.lanes r with worker := .failed passed carry.toList }).workerFails r e

/-- `_persist_batch` once `insert_many` has ended, and the worker's code after it. -/
def insertDone (cfg : Settings) (s : Output κ ε) (r : StorageRoute) (batch : List (BufferedDocument κ ε))
    (carry : Option (BufferedDocument κ ε)) (outcome : InsertOutcome) (expired : Bool) : Output κ ε :=
  match outcome with
  | .success =>
    match s.confirmBatch r batch with
    | .ok s =>
      s.proceed r
        (Lane.runWorker cfg s.connected s.closeRequested expired { s.lanes r with inflight := [] } carry)
    | .error (s, e) => s.insertFails r batch carry e
  | .bulkWriteError nInserted =>
    let confirmed := (max 0 (min (batch.length : ℤ) nInserted)).toNat
    let rest := batch.drop confirmed
    if confirmed = 0 then
      (s.setLane r { s.lanes r with inflight := rest }).insertFails r rest carry .bulkWrite
    else
      match s.confirmBatch r (batch.take confirmed) with
      | .ok s => (s.setLane r { s.lanes r with inflight := rest }).insertFails r rest carry .bulkWrite
      | .error (s, e) => s.insertFails r batch carry e
  | .otherError => s.insertFails r batch carry .insert
  | .timeout => s.insertFails r batch carry .timeout

/-- The end of `close()`, once the client has been closed or failed to close. -/
def finishClose (s : Output κ ε) (timedOut clientOk : Bool) : Output κ ε :=
  { s with
    connected := false
    lifecycle := .closed
    closeCall :=
      if s.workerErrors ≠ [] ∧ ¬s.failureReported then .raised .workerFailed
      else if timedOut then .raised .shutdown
      else if clientOk then .returned
      else .raised .client }

/-- What the event loop does next. -/
inductive Input (κ ε : Type*) where
  /-- a call `write(event)`, up to its first suspension point -/
  | write (k : κ) (event : ε) (report : Callback)
  /-- a woken `write()` tests the predicate of `acquire` again -/
  | resumeWrite (k : κ) (report : Callback)
  /-- a `write()` parked in `acquire` is cancelled -/
  | cancelWrite (k : κ)
  /-- the child task of `queue.get()` runs -/
  | getTask (r : StorageRoute)
  /-- the worker task runs -/
  | worker (r : StorageRoute) (expired : Bool)
  /-- `insert_many` ends and the worker task runs -/
  | insertDone (r : StorageRoute) (outcome : InsertOutcome) (expired : Bool)
  /-- a worker cancelled by `close()` ends -/
  | cancelWorker (r : StorageRoute)
  /-- a call `close()`, up to its first suspension point -/
  | close
  /-- `close()` resumes: all workers are done -/
  | workersDone
  /-- `shutdown_timeout` passes -/
  | shutdownTimeout
  /-- the client has been closed, or closing it failed -/
  | clientClosed (ok : Bool)
  /-- the task in `close()` is cancelled -/
  | cancelClose
  /-- `wait_failed()` resumes with the failure -/
  | reportFailure

/-- All worker tasks are done. -/
def workersAllDone (s : Output κ ε) : Bool := storageRoutes.all fun r => (s.lanes r).worker.done

/-- **One step of the event loop.** -/
def step (cfg : Settings) (rd : Reading ε) (s : Output κ ε) : Input κ ε → Option (Output κ ε)
  | .write k event report =>
    match s.calls k with
    | .idle => some (s.write cfg rd k event report)
    | _ => none
  | .resumeWrite k report =>
    match s.calls k with
    | .parked d true => some (s.tryWrite cfg (rd.route d.event) d report)
    | _ => none
  | .cancelWrite k =>
    match s.calls k with
    | .parked _ _ => some (s.setCall k (.raised .cancelled))
    | _ => none
  | .getTask r => (s.lanes r).getTask.map (s.setLane r)
  | .worker r expired =>
    ((s.lanes r).resume cfg s.connected s.closeRequested expired (s.slotFree cfg)).map (s.proceed r)
  | .insertDone r outcome expired =>
    match (s.lanes r).worker with
    | .inserting batch carry => some (s.insertDone cfg r batch carry outcome expired)
    | _ => none
  | .cancelWorker r =>
    let w := (s.lanes r).worker
    if s.workersCancelled ∧ ¬w.done then
      some (s.setLane r { s.lanes r with worker := .cancelled w.passed w.unpassed })
    else none
  | .close =>
    match s.closeCall, s.lifecycle with
    | .idle, .open => some { s with lifecycle := .closing, closeRequested := true, closeCall := .gathering }
    | _, _ => none
  | .workersDone =>
    match s.closeCall, s.workersAllDone with
    | .gathering, true => some { s with closeCall := .closingClient false }
    | .reaping, true => some { s with closeCall := .closingClient true }
    | _, _ => none
  | .shutdownTimeout =>
    match s.closeCall with
    | .gathering => some { s with closeCall := .reaping, workersCancelled := true }
    | _ => none
  | .clientClosed ok =>
    match s.closeCall with
    | .closingClient timedOut => some (s.finishClose timedOut ok)
    | _ => none
  | .cancelClose =>
    match s.closeCall with
    | .gathering => some { s with closeCall := .raised .cancelled, workersCancelled := true }
    | .reaping => some { s with closeCall := .raised .cancelled }
    | .closingClient _ => some { s with closeCall := .raised .cancelled }
    | _ => none
  | .reportFailure => if s.failureEvent then some { s with failureReported := true } else none

/-- `MongoMultiCollectionOutput` with these settings. -/
def machine (cfg : Settings) (rd : Reading ε) : Machine (Output κ ε) (Input κ ε) := ⟨step cfg rd⟩

/-- What an input does, under the condition that enables it. -/
inductive Effect (cfg : Settings) (rd : Reading ε) (s : Output κ ε) : Input κ ε → Output κ ε → Prop
  | write {k : κ} {event : ε} {report : Callback} :
      s.calls k = .idle → Effect cfg rd s (.write k event report) (s.write cfg rd k event report)
  | resumeWrite {k : κ} {d : BufferedDocument κ ε} {report : Callback} :
      s.calls k = .parked d true → Effect cfg rd s (.resumeWrite k report) (s.tryWrite cfg (rd.route d.event) d report)
  | cancelWrite {k : κ} {d : BufferedDocument κ ε} {notified : Bool} :
      s.calls k = .parked d notified → Effect cfg rd s (.cancelWrite k) (s.setCall k (.raised .cancelled))
  | getTask {r : StorageRoute} {l : Lane κ ε} :
      (s.lanes r).getTask = some l → Effect cfg rd s (.getTask r) (s.setLane r l)
  | worker {r : StorageRoute} {expired : Bool} {p : Progress κ ε} :
      (s.lanes r).resume cfg s.connected s.closeRequested expired (s.slotFree cfg) = some p →
      Effect cfg rd s (.worker r expired) (s.proceed r p)
  | insertDone {r : StorageRoute} {batch : List (BufferedDocument κ ε)} {carry : Option (BufferedDocument κ ε)}
      {outcome : InsertOutcome} {expired : Bool} :
      (s.lanes r).worker = .inserting batch carry →
      Effect cfg rd s (.insertDone r outcome expired) (s.insertDone cfg r batch carry outcome expired)
  | cancelWorker {r : StorageRoute} :
      s.workersCancelled = true → (s.lanes r).worker.done = false →
      Effect cfg rd s (.cancelWorker r) (s.setLane r { s.lanes r with
        worker := .cancelled (s.lanes r).worker.passed (s.lanes r).worker.unpassed })
  | close :
      s.closeCall = .idle → s.lifecycle = .open →
      Effect cfg rd s .close { s with lifecycle := .closing, closeRequested := true, closeCall := .gathering }
  | workersDone {timedOut : Bool} :
      s.closeCall = (if timedOut then .reaping else .gathering) → s.workersAllDone = true →
      Effect cfg rd s .workersDone { s with closeCall := .closingClient timedOut }
  | shutdownTimeout :
      s.closeCall = .gathering →
      Effect cfg rd s .shutdownTimeout { s with closeCall := .reaping, workersCancelled := true }
  | clientClosed {timedOut ok : Bool} :
      s.closeCall = .closingClient timedOut → Effect cfg rd s (.clientClosed ok) (s.finishClose timedOut ok)
  | cancelClose {workersCancelled : Bool} :
      (s.closeCall = .gathering ∧ workersCancelled = true ∨
        s.closeCall = .reaping ∧ workersCancelled = s.workersCancelled ∨
        (∃ timedOut, s.closeCall = .closingClient timedOut) ∧ workersCancelled = s.workersCancelled) →
      Effect cfg rd s .cancelClose { s with closeCall := .raised .cancelled, workersCancelled := workersCancelled }
  | reportFailure :
      s.failureEvent = true → Effect cfg rd s .reportFailure { s with failureReported := true }

theorem effect_of_step {cfg : Settings} {rd : Reading ε} {s s' : Output κ ε} {i : Input κ ε}
    (h : (machine cfg rd).step s i = some s') : Effect cfg rd s i s' := by
  change step cfg rd s i = some s' at h
  cases i with
  | write k event report =>
    simp only [step] at h
    split at h
    · cases h; exact .write ‹_›
    · cases h
  | resumeWrite k report =>
    simp only [step] at h
    split at h
    · cases h; exact .resumeWrite ‹_›
    · cases h
  | cancelWrite k =>
    simp only [step] at h
    split at h
    · cases h; exact .cancelWrite ‹_›
    · cases h
  | getTask r =>
    simp only [step, Option.map_eq_some_iff] at h
    obtain ⟨l, hl, rfl⟩ := h
    exact .getTask hl
  | worker r expired =>
    simp only [step, Option.map_eq_some_iff] at h
    obtain ⟨p, hp, rfl⟩ := h
    exact .worker hp
  | insertDone r outcome expired =>
    simp only [step] at h
    split at h
    · cases h; exact .insertDone ‹_›
    · cases h
  | cancelWorker r =>
    simp only [step, Option.ite_none_right_eq_some, Option.some.injEq] at h
    obtain ⟨⟨hc, hd⟩, rfl⟩ := h
    exact .cancelWorker hc (by simpa using hd)
  | close =>
    simp only [step] at h
    split at h
    · cases h; exact .close ‹_› ‹_›
    · cases h
  | workersDone =>
    simp only [step] at h
    split at h
    · cases h; exact .workersDone ‹_› ‹_›
    · cases h; exact .workersDone ‹_› ‹_›
    · cases h
  | shutdownTimeout =>
    simp only [step] at h
    split at h
    · cases h; exact .shutdownTimeout ‹_›
    · cases h
  | clientClosed ok =>
    simp only [step] at h
    split at h
    · cases h; exact .clientClosed ‹_›
    · cases h
  | cancelClose =>
    simp only [step] at h
    split at h
    · cases h; exact .cancelClose (.inl ⟨‹_›, rfl⟩)
    · cases h; exact .cancelClose (.inr (.inl ⟨‹_›, rfl⟩))
    · cases h; exact .cancelClose (.inr (.inr ⟨⟨_, ‹_›⟩, rfl⟩))
    · cases h
  | reportFailure =>
    simp only [step, Option.ite_none_right_eq_some, Option.some.injEq] at h
    obtain ⟨hf, rfl⟩ := h
    exact .reportFailure hf

end Output

end BinanceCollector.MultiMongo
