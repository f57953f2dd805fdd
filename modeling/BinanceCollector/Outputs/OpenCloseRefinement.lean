import BinanceCollector.Outputs.MultiMongoClose
import BinanceCollector.Outputs.OneShot

/-!
# An open output as one of its calls

`MultiMongo.Output` is the output after `open()` has returned, with one `close()` call and all that its workers do.
Every run of it is a run of the calls of `open()` and `close()`, to which a worker is only a task.

- `TaskStep`, `step_task`: a step of a writer or a worker ends at most one task.
- `Represents`: a state of the output and a state of the calls are at the same point.
- `step_represents`, `refines_calls`: every `Timely` step and run of the output is answered by the calls.
- `close_ends_workers`: what `Inv` says of the calls, said of the output.
-/

namespace BinanceCollector.OpenClose.State

open Steps

variable {κ ρ : Type*} [DecidableEq κ] [DecidableEq ρ] [Fintype ρ] (p : Profile)

/-- What an `open()` awaits returns, one thing after the other. -/
theorem path_of_connecting {k : κ} {left : ℕ} {s : State κ ρ} (hnew : s.lifecycle = .new)
    (hk : s.opens k = .connecting left) :
    (machine p).Path Orderly s (List.replicate (left + 1) (.advance k .returns)) (s.finishOpen k .returns) := by
  induction left generalizing s with
  | zero => exact .cons (fun _ => hnew) (by simp only [machine, step, hk]) (.nil _)
  | succ left ih =>
    have hstep : (machine p).step s (.advance k .returns) = some (s.setOpen k (.connecting left)) := by
      simp only [machine, step, hk]
    have hfinish : (s.setOpen k (.connecting left)).finishOpen k .returns = s.finishOpen k .returns := by
      simp [finishOpen, setOpen, setWorkers]
    have hrest := ih (s := s.setOpen k (.connecting left)) hnew (setOpen_self ..)
    rw [hfinish] at hrest
    exact .cons (fun _ => hnew) hstep hrest

/-- An `open()` of a new output that returns. -/
theorem path_of_open (k : κ) : (machine p).Path Orderly (initial : State κ ρ)
    (.open k .connects :: List.replicate (p.indexes + 1) (.advance k .returns))
    ((initial.startOpen p k .connects).finishOpen k .returns) := by
  refine .cons (fun _ _ _ => rfl) rfl (path_of_connecting p rfl ?_)
  exact setOpen_self ..

end BinanceCollector.OpenClose.State

namespace BinanceCollector.MultiMongo

open Steps
open OpenClose (ClosingCall CloseFailure multiMongo)

variable {κ ε : Type*}

/-- The task of the worker: an exception of its own is recorded, and the task returns. -/
def Worker.task (cancelled : Bool) : Worker κ ε → OpenClose.Task
  | .returned | .failed _ _ => .returned
  | .cancelled _ _ => .cancelled
  | _ => if cancelled then .cancelling else .running

@[simp] theorem Worker.task_done (cancelled : Bool) (w : Worker κ ε) : (w.task cancelled).done = w.done := by
  cases w <;> cases cancelled <;> rfl

theorem Worker.task_of_running {w : Worker κ ε} (hw : w.done = false) (cancelled : Bool) :
    w.task cancelled = if cancelled then .cancelling else .running := by
  cases w <;> first | rfl | cases hw

theorem Worker.task_alive {w : Worker κ ε} (hw : w.done = false) (cancelled : Bool) :
    (w.task cancelled).alive = true := by
  rw [task_of_running hw]
  cases cancelled <;> rfl

theorem Worker.cancel_task_of_done {w : Worker κ ε} (hw : w.done = true) (cancelled : Bool) :
    (w.task cancelled).cancel = w.task cancelled := by
  cases w <;> first | rfl | cases hw

theorem Worker.task_cancel (w : Worker κ ε) (cancelled : Bool) : (w.task cancelled).cancel = w.task true := by
  cases w <;> cases cancelled <;> rfl

/-- How the `close()` call fails. -/
def closeFailure : CloseError → CloseFailure
  | .workerFailed => .workerFailed
  | .shutdown => .shutdown
  | .client => .client
  | .cancelled => .cancelled

/-- The `close()` call. -/
def closingCall : CloseCall → ClosingCall Unit
  | .idle => .idle
  | .gathering => .gathering ()
  | .reaping => .reaping ()
  | .closingClient timedOut => .closingClient () timedOut
  | .returned => .returned
  | .raised e => .raised (closeFailure e)

namespace Output

variable {cfg : Settings} {rd : Reading ε} {s s' : Output κ ε}

/-! ## The worker tasks in one step -/

/-- What a step of a writer or a worker does to the worker tasks. -/
inductive TaskStep (s s' : Output κ ε) : Prop
  | rests : (∀ r c, (s'.lanes r).worker.task c = (s.lanes r).worker.task c) → s'.workerErrors = s.workerErrors →
      s'.failureEvent = s.failureEvent → TaskStep s s'
  | returns (r : StorageRoute) : (s.lanes r).worker.done = false → s.closeRequested = true →
      (s'.lanes r).worker = .returned → (∀ q, q ≠ r → (s'.lanes q).worker = (s.lanes q).worker) →
      s'.workerErrors = s.workerErrors → s'.failureEvent = s.failureEvent → TaskStep s s'
  | fails (r : StorageRoute) (passed unpassed : List (BufferedDocument κ ε)) : (s.lanes r).worker.done = false →
      (s'.lanes r).worker = .failed passed unpassed → (∀ q, q ≠ r → (s'.lanes q).worker = (s.lanes q).worker) →
      s'.workerErrors ≠ [] → TaskStep s s'
  | cancels (r : StorageRoute) (passed unpassed : List (BufferedDocument κ ε)) : (s.lanes r).worker.done = false →
      s.workersCancelled = true → (s'.lanes r).worker = .cancelled passed unpassed →
      (∀ q, q ≠ r → (s'.lanes q).worker = (s.lanes q).worker) → s'.workerErrors = s.workerErrors →
      s'.failureEvent = s.failureEvent → TaskStep s s'

/-- A lane whose worker goes on. -/
theorem TaskStep.runs {r : StorageRoute} (hd : (s.lanes r).worker.done = false)
    (hd' : (s'.lanes r).worker.done = false) (ho : ∀ q, q ≠ r → (s'.lanes q).worker = (s.lanes q).worker)
    (he : s'.workerErrors = s.workerErrors) (hf : s'.failureEvent = s.failureEvent) : TaskStep s s' := by
  refine .rests (fun q c => ?_) he hf
  by_cases hq : q = r
  · subst hq
    rw [Worker.task_of_running hd, Worker.task_of_running hd']
  · rw [ho q hq]

/-- Worker code up to its next suspension point. -/
theorem proceed_task {t : Output κ ε} {r : StorageRoute} {p : Progress κ ε} {connected : Bool}
    (ho : ∀ q, q ≠ r → (t.lanes q).worker = (s.lanes q).worker) (he : t.workerErrors = s.workerErrors)
    (hf : t.failureEvent = s.failureEvent) (hd : (s.lanes r).worker.done = false)
    (hp : p.Ends connected s.closeRequested) : TaskStep s (t.proceed r p) := by
  have hothers : ∀ l q, q ≠ r → ((t.setLane r l).lanes q).worker = (s.lanes q).worker := by
    intro l q hq
    simpa [setLane, hq] using ho q hq
  cases hp with
  | @suspends l hl _ => exact .runs (r := r) hd (by simpa [proceed, setLane] using hl) (hothers l) he hf
  | @leaves l hl _ hc =>
    cases hw : l.worker.done with
    | false => exact .runs (r := r) hd (by simpa [proceed, setLane] using hw) (hothers l) he hf
    | true =>
      have hreturned : l.worker = .returned := by
        cases hlw : l.worker <;> rw [hlw] at hl hw <;> first | rfl | cases hl | cases hw
      exact .returns r hd hc (by simpa [proceed, setLane] using hreturned) (hothers l) he hf
  | @raises l unpassed _ hl =>
    exact .fails r [] unpassed hd (by simpa [proceed, setLane, workerFails, notifyAll] using hl) (hothers l)
      (by simp [proceed, workerFails, notifyAll])

/-- A worker that raises out of `_persist_batch`. -/
theorem insertFails_task {t : Output κ ε} {r : StorageRoute} {l : Lane κ ε}
    (ho : ∀ q, q ≠ r → (t.lanes q).worker = (s.lanes q).worker) (hd : (s.lanes r).worker.done = false)
    (passed : List (BufferedDocument κ ε)) (carry : Option (BufferedDocument κ ε)) (e : WorkerError) :
    TaskStep s ((t.setLane r l).insertFails r passed carry e) := by
  refine .fails r passed carry.toList hd (by simp [insertFails, workerFails, notifyAll, setLane]) (fun q hq => ?_)
    (by simp [insertFails, workerFails, notifyAll])
  simpa [insertFails, workerFails, notifyAll, setLane, hq] using ho q hq

/-! ## Answering a step -/

/-- Callbacks return, and `shutdown_timeout` passes while a worker runs; where `closes` is set, the client closes. -/
def Timely (closes : Bool) (s : Output κ ε) (i : Input κ ε) : Prop :=
  i.CallbacksReturn ∧
    match i with
    | .shutdownTimeout => s.workersAllDone = false
    | .clientClosed ok => closes = true → ok = true
    | _ => True

theorem allDone_eq (s : Output κ ε) : s.workersAllDone = decide (∀ r, (s.lanes r).worker.done = true) := by
  rw [Bool.eq_iff_iff, decide_eq_true_iff]
  refine ⟨all_done, fun h => ?_⟩
  rw [workersAllDone, List.all_eq_true]
  exact fun r _ => h r

/-- The output and its calls are at the same point. -/
structure Represents (s : Output κ ε) (t : OpenClose.State Unit StorageRoute) : Prop where
  lifecycle : t.lifecycle = s.lifecycle
  client : t.client = if s.connected then some () else none
  connected : s.connected = false → s.closeCall = .returned ∨ ∃ e, s.closeCall = .raised e
  current : t.current = some ()
  closeRequested : t.closeRequested = s.closeRequested
  failed : t.failed = true ↔ s.workerErrors ≠ []
  event : s.failureEvent = true → t.failed = true
  failureReported : t.failureReported = s.failureReported
  workers : ∀ r, t.workers () r = (s.lanes r).worker.task s.workersCancelled
  broke : t.broke () = none ∨ t.broke () = some .cancelled ∧ s.workersCancelled = true
  closes : t.closes () = closingCall s.closeCall

/-- The calls answer a step of the output, in an orderly way where `closes` is set. -/
def Answered (closes createIndexes : Bool) (t : OpenClose.State Unit StorageRoute) (s' : Output κ ε) : Prop :=
  ∃ js t', (OpenClose.State.machine (multiMongo createIndexes)).Path
    (fun t j => closes = true → OpenClose.State.Orderly t j) t js t' ∧ Represents s' t'

variable {closes createIndexes : Bool} {t t' : OpenClose.State Unit StorageRoute}

theorem Answered.stays (h : Represents s' t) : Answered closes createIndexes t s' := ⟨[], t, .nil t, h⟩

theorem Answered.one {j : OpenClose.State.Input Unit StorageRoute}
    (hj : closes = true → OpenClose.State.Orderly t j)
    (hstep : (OpenClose.State.machine (multiMongo createIndexes)).step t j = some t') (h : Represents s' t') :
    Answered closes createIndexes t s' :=
  ⟨[j], t', .cons hj hstep (.nil t'), h⟩

theorem Represents.allDone (h : Represents s t) : t.allDone () = s.workersAllDone := by
  rw [allDone_eq, OpenClose.State.allDone]
  simp [h.workers]

/-- `close()` cancels no worker while it waits for them. -/
theorem Closing.uncancelled (hc : Closing s) (hg : s.closeCall = .gathering) : s.workersCancelled = false := by
  rw [← Bool.not_eq_true]
  intro hn
  rcases hc.timedOut hn with he | he | ⟨e, he⟩ <;> rw [hg] at he <;> cases he

/-- No worker raises, and none is cancelled while `close()` waits for them. -/
theorem Represents.not_broken (h : Represents s t) (hc : Closing s) (hg : s.closeCall = .gathering) :
    (t.broke ()).isSome = false := by
  have hn := hc.uncancelled hg
  rcases h.broke with hb | ⟨-, hcancelled⟩
  · rw [hb]
    rfl
  · rw [hn] at hcancelled
    cases hcancelled

/-- The client is there until `close()` has ended. -/
theorem Represents.connected_of_open (h : Represents s t) (hc : s.closeCall ≠ .returned)
    (hr : ∀ e, s.closeCall ≠ .raised e) : s.connected = true := by
  rw [← Bool.not_eq_false]
  intro hgone
  rcases h.connected hgone with he | ⟨e, he⟩
  · exact hc he
  · exact hr e he

theorem opened_represents (createIndexes : Bool) : Represents (opened : Output κ ε)
    ((OpenClose.State.initial.startOpen (multiMongo createIndexes) () .connects).finishOpen () .returns) where
  lifecycle := rfl
  client := rfl
  connected h := nomatch h
  current := rfl
  closeRequested := rfl
  failed := iff_of_false (fun h => nomatch h) (fun h => h rfl)
  event h := nomatch h
  failureReported := rfl
  workers _ := rfl
  broke := .inl rfl
  closes := rfl

/-- The state of the calls when the task of `r` has ended. -/
theorem Represents.ends (h : Represents s t) {i : Input κ ε} (hctl : SameControl s s' i) {r : StorageRoute}
    (ho : ∀ q, q ≠ r → (s'.lanes q).worker = (s.lanes q).worker) (task : OpenClose.Task) (failed : Bool)
    (htask : task = (s'.lanes r).worker.task s'.workersCancelled) (hfailed : failed = true ↔ s'.workerErrors ≠ [])
    (hevent : s'.failureEvent = true → failed = true)
    (hbroken : task.broken = true → task = .cancelled ∧ s'.workersCancelled = true) :
    Represents s' { t.ends () r task with failed := failed } where
  lifecycle := h.lifecycle.trans hctl.lifecycle.symm
  client := by rw [hctl.connected]; exact h.client
  connected := by rw [hctl.connected, hctl.closeCall]; exact h.connected
  current := h.current
  closeRequested := h.closeRequested.trans hctl.closeRequested.symm
  failed := hfailed
  event := hevent
  failureReported := h.failureReported.trans hctl.failureReported.symm
  workers := by
    intro q
    show (t.setWorkers () (Function.update (t.workers ()) r task)).workers () q = _
    rw [OpenClose.State.setWorkers_self]
    by_cases hq : q = r
    · subst hq
      rw [Function.update_self, htask]
    · rw [Function.update_of_ne hq, h.workers q, ho q hq, hctl.workersCancelled]
  broke := by
    show (t.ends () r task).broke () = none ∨ (t.ends () r task).broke () = some .cancelled ∧ _
    rw [OpenClose.State.ends_broke]
    split
    · rename_i hb
      obtain ⟨rfl, hcancelled⟩ := hbroken hb.1
      exact .inr ⟨Function.update_self .., hcancelled⟩
    · rw [hctl.workersCancelled]
      exact h.broke
  closes := by rw [hctl.closeCall]; exact h.closes

/-! ## `close()` -/

/-- `cancel()` on the workers. -/
theorem Represents.cancels (h : Represents s t) (c : CloseCall) (hc : s.connected = true) :
    Represents { s with closeCall := c, workersCancelled := true }
      ((t.cancelWorkers ()).setClose () (closingCall c)) where
  lifecycle := h.lifecycle
  client := h.client
  connected := fun hgone => by
    rw [hc] at hgone
    cases hgone
  current := h.current
  closeRequested := h.closeRequested
  failed := h.failed
  event := h.event
  failureReported := h.failureReported
  workers := by
    intro r
    show (t.cancelWorkers ()).workers () r = _
    rw [OpenClose.State.cancelWorkers, OpenClose.State.setWorkers_self, h.workers, Worker.task_cancel]
  broke := h.broke.imp_right fun hb => ⟨hb.1, rfl⟩
  closes := OpenClose.State.setClose_self _ _ _

/-- The `close()` call goes on. -/
theorem Represents.setClose (h : Represents s t) (c : CloseCall) (hc : s.connected = true) :
    Represents { s with closeCall := c } (t.setClose () (closingCall c)) :=
  { h with
    connected := fun hgone => by
      rw [hc] at hgone
      cases hgone
    closes := OpenClose.State.setClose_self _ _ _ }

/-- When the workers are done, `close()` goes on to its client. -/
theorem workersDone_answered (h : Represents s t) (hc : Closing s) (hconn : s.connected = true) {timedOut : Bool}
    (hw : s.closeCall = if timedOut then .reaping else .gathering) (hd : s.workersAllDone = true) :
    Answered closes createIndexes t { s with closeCall := .closingClient timedOut } := by
  have hclient : t.client = some () := by rw [h.client, hconn]; rfl
  have hdone : t.allDone () = true := h.allDone.trans hd
  cases timedOut with
  | false =>
    have hg : t.closes () = .gathering () := by rw [h.closes, hw]; rfl
    refine .one (j := .gathered () .returns) (fun _ => trivial) ?_ (h.setClose (.closingClient false) hconn)
    simp only [OpenClose.State.machine, OpenClose.State.step, hg, OpenClose.State.gathered, h.not_broken hc hw, hdone,
      OpenClose.State.closeClient, hclient]
    rfl
  | true =>
    have hg : t.closes () = .reaping () := by rw [h.closes, hw]; rfl
    have hraised : t.broke () ≠ some .raised := by
      rcases h.broke with hb | ⟨hb, -⟩ <;> rw [hb] <;> simp
    have hcancelled : t.cancelWorkers () = t := by
      have hworkers : (fun r => (t.workers () r).cancel) = t.workers () := by
        funext r
        rw [h.workers r, Worker.cancel_task_of_done (all_done hd r)]
      rw [OpenClose.State.cancelWorkers, hworkers, OpenClose.State.setWorkers, Function.update_eq_self]
    have hreaped : (OpenClose.State.machine (multiMongo createIndexes)).step t (.reaped () .returns) =
        some (t.setClose () (.regathering ())) := by
      simp only [OpenClose.State.machine, OpenClose.State.step, hg, OpenClose.State.reaped, if_neg hraised, hdone,
        Bool.or_true, h.current, hcancelled]
      rfl
    have hregathered : (OpenClose.State.machine (multiMongo createIndexes)).step (t.setClose () (.regathering ()))
        (.regathered () .returns) = some (t.setClose () (.closingClient () true)) := by
      have hdone' : (t.setClose () (.regathering ())).allDone () = true := hdone
      simp only [OpenClose.State.machine, OpenClose.State.step, OpenClose.State.setClose_self, hdone',
        OpenClose.State.closeClient]
      simp [OpenClose.State.setClose, hclient]
    exact ⟨[.reaped () .returns, .regathered () .returns], _, .cons (fun _ => trivial) hreaped
      (.cons (fun _ => trivial) hregathered (.nil _)), h.setClose (.closingClient true) hconn⟩

theorem finishClose_ended (s : Output κ ε) (timedOut ok : Bool) :
    (s.finishClose timedOut ok).closeCall = .returned ∨ ∃ e, (s.finishClose timedOut ok).closeCall = .raised e := by
  simp only [finishClose]
  split
  · exact .inr ⟨_, rfl⟩
  · split
    · exact .inr ⟨_, rfl⟩
    · split
      · exact .inl rfl
      · exact .inr ⟨_, rfl⟩

/-- The end of `close()`. -/
theorem Represents.finishClose (h : Represents s t) (timedOut ok : Bool) :
    Represents (s.finishClose timedOut ok) (t.finishClose () timedOut ok .returns) := by
  refine { h with
    lifecycle := rfl
    client := rfl
    connected := fun _ => finishClose_ended s timedOut ok
    closes := ?_ }
  simp only [OpenClose.State.finishClose, OpenClose.State.setClose_self, Output.finishClose, h.failed,
    h.failureReported, apply_ite closingCall]
  rfl

theorem clientClosed_answered (h : Represents s t) {timedOut ok : Bool} (hok : closes = true → ok = true)
    (hcl : s.closeCall = .closingClient timedOut) :
    Answered closes createIndexes t (s.finishClose timedOut ok) := by
  have hg : t.closes () = .closingClient () timedOut := by rw [h.closes, hcl]; rfl
  have hkeep : Represents s (if ok then t.setClient () .closed else t) := by
    cases ok with
    | true => exact { h with }
    | false => exact h
  refine .one (j := .clientClosed () ok .returns) hok ?_ (hkeep.finishClose timedOut ok)
  simp only [OpenClose.State.machine, OpenClose.State.step, hg]

/-- The task in `close()` is cancelled. -/
theorem cancelClose_answered (h : Represents s t) {b : Bool}
    (hb : s.closeCall = .gathering ∧ b = true ∨ s.closeCall = .reaping ∧ b = s.workersCancelled ∨
      (∃ timedOut, s.closeCall = .closingClient timedOut) ∧ b = s.workersCancelled) :
    Answered closes createIndexes t { s with closeCall := .raised .cancelled, workersCancelled := b } := by
  have hquiet (hconn : s.connected = true) : Represents { s with closeCall := .raised .cancelled }
      (t.setClose () (.raised .cancelled)) := h.setClose (.raised .cancelled) hconn
  rcases hb with ⟨hc, rfl⟩ | ⟨hc, rfl⟩ | ⟨⟨timedOut, hc⟩, rfl⟩
  all_goals
    have hconn := h.connected_of_open (by simp [hc]) (by simp [hc])
    have hg := h.closes
    rw [hc] at hg
  · refine .one (j := .cancelClose ()) (fun _ => trivial) ?_ (h.cancels (.raised .cancelled) hconn)
    simp only [OpenClose.State.machine, OpenClose.State.step, hg]
    rfl
  · refine .one (j := .cancelClose ()) (fun _ => trivial) ?_ (hquiet hconn)
    simp only [OpenClose.State.machine, OpenClose.State.step, hg]
    rfl
  · refine .one (j := .cancelClose ()) (fun _ => trivial) ?_ (hquiet hconn)
    simp only [OpenClose.State.machine, OpenClose.State.step, hg]
    rfl

/-! ## Writers and workers -/

variable [DecidableEq κ]

theorem tryWrite_task (hs : s.Inv) (r : StorageRoute) (d : BufferedDocument κ ε) :
    TaskStep s (s.tryWrite cfg r d .returns) := by
  rcases tryWrite_cases hs.failed r d with ⟨-, -, h⟩ | ⟨-, h⟩ | ⟨-, -, h⟩ <;> rw [h]
  · refine .rests (fun q c => ?_) rfl rfl
    by_cases hq : q = r
    · subst hq
      simp [accepted, setCall, reportBuffer, setLane, setBudget, Lane.accept]
    · simp [accepted, setCall, reportBuffer, setLane, setBudget, hq]
  · exact .rests (fun _ _ => rfl) rfl rfl
  · exact .rests (fun _ _ => rfl) rfl rfl

/-- **A step of a writer or a worker ends at most one task.** -/
theorem step_task (hs : Sound rd s) {i : Input κ ε} (hi : i.CallbacksReturn) (hctl : i.control = false)
    (h : (machine cfg rd).step s i = some s') : TaskStep s s' := by
  have hquiet : ∀ k c, TaskStep s (s.setCall k c) := fun k c => .rests (fun _ _ => rfl) rfl rfl
  have hothers : ∀ {r : StorageRoute} (l : Lane κ ε) q, q ≠ r →
      ((s.setLane r l).lanes q).worker = (s.lanes q).worker := by
    intro r l q hq
    simp [setLane, hq]
  cases effect_of_step h with
  | @write k event report hk =>
    cases hi
    unfold write
    split
    · exact hquiet _ _
    · split
      · exact hquiet _ _
      · split
        · exact hquiet _ _
        · split
          · exact hquiet _ _
          · exact tryWrite_task hs.inv _ _
  | resumeWrite hk =>
    cases hi
    exact tryWrite_task hs.inv _ _
  | cancelWrite hk => exact hquiet _ _
  | @getTask r l hl =>
    unfold Lane.getTask at hl
    split at hl
    · rename_i hw _
      cases hl
      exact .runs (r := r) (by rw [hw]; rfl) (by simp [setLane, Worker.done]) (hothers _) rfl rfl
    · rename_i hw _
      cases hl
      exact .runs (r := r) (by rw [hw]; rfl) (by simp [setLane, Worker.done]) (hothers _) rfl rfl
    · cases hl
  | @worker r expired p hp =>
    have hd := resume_done hp
    rcases resume_ends hp with ⟨hl, rfl⟩ | ⟨-, hends⟩
    · exact .returns r hd (hs.closing.left r hl) (by simp [proceed, setLane]) (hothers _) rfl rfl
    · exact proceed_task (fun _ _ => rfl) rfl rfl hd hends
  | @insertDone r batch carry outcome expired hw =>
    have hd : (s.lanes r).worker.done = false := by rw [hw]; rfl
    have hends := insertDone_ends cfg hs.inv hw outcome expired
    generalize s.insertDone cfg r batch carry outcome expired = s' at hends ⊢
    have hsettled : ∀ ds q, q ≠ r → ((s.settled r ds).lanes q).worker = (s.lanes q).worker := fun ds q hq =>
      congrArg Lane.worker (settled_lanes s r ds q hq)
    cases hends with
    | goesOn => exact proceed_task (hsettled batch) rfl rfl hd (runWorker_ends _ _ _ _ _ _)
    | raises => exact insertFails_task (fun _ _ => rfl) hd _ _ _
    | confirms => exact insertFails_task (hsettled _) hd _ _ _
  | @cancelWorker r hc hd =>
    exact .cancels r (s.lanes r).worker.passed (s.lanes r).worker.unpassed hd hc (by simp [setLane]) (hothers _) rfl rfl
  | _ => cases hctl

/-- **A step of a writer or a worker is answered by the end of a task, or by nothing.** -/
theorem task_answered (hs : Sound rd s) (h : Represents s t) {i : Input κ ε} (hi : i.CallbacksReturn)
    (hc : i.control = false) (hstep : (machine cfg rd).step s i = some s') :
    Answered closes createIndexes t s' := by
  have hctl := step_control hs.inv hi hc hstep
  have halive : ∀ {r}, (s.lanes r).worker.done = false → (t.workers () r).alive = true := fun hd => by
    rw [h.workers]
    exact Worker.task_alive hd _
  cases step_task hs hi hc hstep with
  | rests ht he hf =>
    refine .stays ⟨h.lifecycle.trans hctl.lifecycle.symm, ?_, ?_, h.current,
      h.closeRequested.trans hctl.closeRequested.symm, he ▸ h.failed, hf ▸ h.event,
      h.failureReported.trans hctl.failureReported.symm, fun r => ?_, hctl.workersCancelled ▸ h.broke, ?_⟩
    · rw [hctl.connected]; exact h.client
    · rw [hctl.connected, hctl.closeCall]; exact h.connected
    · rw [ht, hctl.workersCancelled]; exact h.workers r
    · rw [hctl.closeCall]; exact h.closes
  | returns r hd hreq hw ho he hf =>
    refine .one (j := .workerEnds () r .returns) (fun _ => trivial) ?_
      (h.ends hctl ho .returned t.failed (by rw [hw]; rfl) (he ▸ h.failed) (hf ▸ h.event)
        (by simp [OpenClose.Task.broken]))
    exact if_pos ⟨halive hd, h.closeRequested.trans hreq⟩
  | fails r passed unpassed hd hw ho he =>
    refine .one (j := .workerEnds () r .fails) (fun _ => trivial) ?_
      (h.ends hctl ho .returned true (by rw [hw]; rfl) (by simp [he]) (fun _ => rfl) (by simp [OpenClose.Task.broken]))
    exact if_pos (halive hd)
  | cancels r passed unpassed hd hcancel hw ho he hf =>
    refine .one (j := .workerEnds () r .cancelled) (fun _ => trivial) ?_
      (h.ends hctl ho .cancelled t.failed (by rw [hw]; rfl) (he ▸ h.failed) (hf ▸ h.event)
        fun _ => ⟨rfl, hctl.workersCancelled.trans hcancel⟩)
    have hcancelling : t.workers () r = .cancelling := by
      rw [h.workers, hcancel, Worker.task_of_running hd]
      rfl
    exact if_pos hcancelling

/-! ## Steps and runs -/

/-- **Every timely step of the output is answered by its calls.** -/
theorem step_represents (hs : Sound rd s) (h : Represents s t) {i : Input κ ε} (hi : Timely closes s i)
    (hstep : (machine cfg rd).step s i = some s') : Answered closes createIndexes t s' := by
  obtain ⟨hreturns, htimely⟩ := hi
  have hquiet (hc : i.control = false) : Answered closes createIndexes t s' := task_answered hs h hreturns hc hstep
  cases effect_of_step hstep with
  | write | resumeWrite | cancelWrite | getTask | worker | insertDone | cancelWorker => exact hquiet rfl
  | close hidle ho =>
    have hg : t.closes () = .idle := by rw [h.closes, hidle]; rfl
    have hopen : t.lifecycle = .open := h.lifecycle.trans ho
    have hconn := h.connected_of_open (by simp [hidle]) (by simp [hidle])
    have hnext : Represents { s with lifecycle := .closing, closeRequested := true, closeCall := .gathering }
        ({ t with lifecycle := .closing, closeRequested := true }.setClose () (.gathering ())) :=
      { h.setClose .gathering hconn with lifecycle := rfl, closeRequested := rfl }
    refine .one (j := .close () .returns .returns) (fun _ => trivial) ?_ hnext
    simp only [OpenClose.State.machine, OpenClose.State.step, hg, OpenClose.State.startClose, hopen,
      OpenClose.State.requestClose, h.current]
  | workersDone hw hd =>
    have hconn := h.connected_of_open (by rw [hw]; split <;> simp) (by rw [hw]; split <;> simp)
    exact workersDone_answered h hs.closing hconn hw hd
  | shutdownTimeout hc =>
    have hg : t.closes () = .gathering () := by rw [h.closes, hc]; rfl
    have hconn := h.connected_of_open (by simp [hc]) (by simp [hc])
    refine .one (j := .shutdownTimeout ()) (fun _ => trivial) ?_ (h.cancels .reaping hconn)
    have hdone : t.allDone () = false := h.allDone.trans htimely
    simp only [OpenClose.State.machine, OpenClose.State.step, hg, h.not_broken hs.closing hc, hdone]
    rfl
  | clientClosed hcl => exact clientClosed_answered h htimely hcl
  | cancelClose hb => exact cancelClose_answered h hb
  | reportFailure hf =>
    refine .one (j := .reportFailure) (fun _ => trivial) (if_pos (h.event hf)) ?_
    exact { h with failureReported := rfl }

/-- **Every timely run of the opened output is a run of `open()` and `close()`.** -/
theorem refines_calls (closes createIndexes : Bool) {is : List (Input κ ε)}
    (h : (machine cfg rd).Path (Timely closes) opened is s) :
    Answered closes createIndexes OpenClose.State.initial s := by
  have hkeep : ∀ (s : Output κ ε) i s' t, Timely closes s i → Sound rd s ∧ Represents s t →
      (machine cfg rd).step s i = some s' → ∃ js t', (OpenClose.State.machine (multiMongo createIndexes)).Path
        (fun t j => closes = true → OpenClose.State.Orderly t j) t js t' ∧ Sound rd s' ∧ Represents s' t' := by
    intro s i s' t hi ⟨hs, hR⟩ hstep
    obtain ⟨js, t', hpath, ht'⟩ := step_represents hs hR hi hstep
    exact ⟨js, t', hpath, hs.step hi.1 hstep, ht'⟩
  have hopen := OpenClose.State.path_of_open (ρ := StorageRoute) (multiMongo createIndexes) ()
  obtain ⟨js, t, hpath, -, ht⟩ := h.simulate hkeep ⟨opened_sound, opened_represents createIndexes⟩
  exact ⟨_, t, (hopen.mono fun _ _ horderly _ => horderly).append hpath, ht⟩

/-- A `close()` that has returned, having closed the client, has closed the output, and no worker runs. -/
theorem close_ends_workers {is : List (Input κ ε)} (h : (machine cfg rd).Path (Timely true) opened is s)
    (hc : s.closeCall = .returned) : s.lifecycle = .closed ∧ ∀ r, (s.lanes r).worker.done = true := by
  obtain ⟨js, t, hpath, ht⟩ := refines_calls true true h
  have hinv := OpenClose.State.path_inv (hpath.mono fun _ _ horderly => horderly rfl)
  have hclosed : t.lifecycle = .closed := hinv.returned () (by rw [ht.closes, hc]; rfl)
  refine ⟨ht.lifecycle.symm.trans hclosed, fun r => ?_⟩
  have hdead := hinv.down (fun hup => hup.ne_closed hclosed) () r
  rw [ht.workers] at hdead
  rw [← Bool.not_eq_false]
  intro hd
  rw [Worker.task_alive hd] at hdead
  cases hdead

end Output

end BinanceCollector.MultiMongo
