import BinanceCollector.MultiRuntime
import BinanceCollector.RuntimeBracket

/-!
# The multi-stream profile as a runner

Every run of the multi-stream system, with its output and its workers, is a run of its runner: what the output and the
TUI do in the system is among what a runner lets them do.

- `Represents`: a state of the system and a state of the runner are at the same point.
- `step_represents`, `refines_runner`: every step and every run of the system is answered by the runner.
- `ends_quietly`: what holds of every run of the runner holds of the system. When `run_multi_stream_collection` has
  ended, all its tasks are done.
-/

namespace BinanceCollector.MultiRuntime

open Steps
open MultiCollector (CollectorError)

/-! ## States of the runner -/

/-- What the runner raises. -/
def RunError.general : RunError → Runtime.RunError CollectorError
  | .cancelled => .cancelled
  | .validation => .validation
  | .outputOpen => .outputOpen
  | .collector e => .collector e
  | .outputFailed => .outputFailed
  | .tui => .tui
  | .outputClose _ => .outputClose

def generalResult (result : Result) : Runtime.Result CollectorError := result.mapError RunError.general

def Main.general : Main → Runtime.Main CollectorError
  | .validating => .validating
  | .opening => .opening
  | .starting => .starting
  | .watching => .watching
  | .abandoning e => .abandoning e.general
  | .awaitingMonitor => .awaitingMonitor
  | .awaitingTui result => .awaitingTui (generalResult result)
  | .settling result => .settling (generalResult result)
  | .closing result => .closing (generalResult result)
  | .done result => .done (generalResult result)

def Monitor.general : Monitor → Runtime.Monitor CollectorError
  | .waiting => .waiting
  | .failing => .failing
  | .finishing result => .finishing (generalResult result)

/-- A task of the runner. -/
def generalTask {φ ψ : Type} (f : φ → ψ) : Task φ RunError → Task ψ (Runtime.RunError CollectorError)
  | .absent => .absent
  | .created => .created
  | .running phase => .running (f phase)
  | .done result => .done (generalResult result)

/-- The task of `wait_for_output_failure()`. A runner does not tell whether it has started. -/
def generalFailure : Task Unit RunError → Task Unit (Runtime.RunError CollectorError)
  | .absent => .absent
  | .created | .running _ => .running ()
  | .done result => .done (generalResult result)

/-- The collector of a runner, once its task has been created. -/
def generalCollector (c : MultiCollector.State) : Option MultiCollector.State :=
  match c.task with
  | .absent => none
  | _ => some c

/-- A collector whose task has not been created. -/
def idleCollector (stop : Bool) : MultiCollector.State := if stop then ({} : MultiCollector.State).setStop else {}

/-- The runner of the system. -/
def Setup.runner (setup : Setup) (managesSignals : Bool) :
    Runtime.Runner MultiCollector.State MultiCollector.Input CollectorError :=
  Runtime.runMultiStreamCollection setup.collector true true managesSignals

/-- The task of the monitor has not been created. -/
def Main.begins : Main → Bool
  | .validating | .opening | .starting => true
  | _ => false

/-- The system and the runner are at the same point. -/
structure Represents (s : State) (t : Runtime.State MultiCollector.State CollectorError) : Prop where
  main : t.main = s.main.general
  stop : t.stop = s.collector.stop
  tui : t.tui = generalTask id s.tui
  settling : ∀ result, s.main = .settling result → t.tuiCancelled = true
  monitor : t.monitor = generalTask Monitor.general s.monitor
  failure : t.failure = generalFailure s.failure
  collector : t.collector = generalCollector s.collector
  begins : s.main.begins = true → s.monitor = .absent
  -- the monitor creates the tasks of the collector and of `wait_for_output_failure()`
  early : s.monitor = .absent ∨ s.monitor = .created → s.collector.task = .absent ∧ s.failure = .absent
  idle : s.collector.task = .absent → s.collector = idleCollector s.collector.stop
  watched : s.failure = .created ∨ s.failure = .running () →
    s.monitor = .running .waiting ∨ ∃ result, s.monitor = .running (.finishing result)

variable {setup : Setup} {managesSignals : Bool} {s s' : State}
  {t t' : Runtime.State MultiCollector.State CollectorError}

/-- Only a step of its task brings the collector on, and none of its steps clears the stop event. -/
theorem collector_step {c : MultiStreamCollector} {u u' : MultiCollector.State} {i : MultiCollector.Input}
    (hi : i ≠ .setStop) (hstep : (MultiCollector.machine c).step u i = some u') :
    u.task ≠ .absent ∧ u'.task ≠ .absent ∧ (u.stop = true → u'.stop = true) := by
  cases MultiCollector.effect_of_step hstep with
  | setStop => exact absurd rfl hi
  | start ht | connection ht | gathers ht | failed ht | gatherRaises ht | gathered ht | gatherEnds ht | finished ht
  | cancelCreated ht | cancelRunning ht =>
    refine ⟨by simp [ht], ?_, id⟩
    simp [MultiCollector.State.setConnection, MultiCollector.State.setTask, ht]
  | fails ht | unexpected ht => exact ⟨by simp [ht], by simp [MultiCollector.State.setTask], fun _ => rfl⟩

theorem generalCollector_some {u : MultiCollector.State} (h : u.task ≠ .absent) : generalCollector u = some u := by
  unfold generalCollector
  split
  · contradiction
  · rfl

theorem generalCollector_setStop (u : MultiCollector.State) :
    generalCollector u.setStop = (generalCollector u).map MultiCollector.State.setStop := by
  unfold generalCollector
  rw [show u.setStop.task = u.task from rfl]
  cases u.task <;> rfl

theorem setStop_idleCollector (stop : Bool) : (idleCollector stop).setStop = idleCollector true := by
  cases stop <;> rfl

/-! ## What the two share -/

/-- What the output does is not seen. -/
theorem Represents.output (h : Represents s t) (o : MultiMongo.Output (Group × ℕ) Event) :
    Represents { s with output := o } t :=
  { h with }

theorem Represents.setStop (h : Represents s t) (setup : Setup) (managesSignals : Bool) :
    Represents s.setStop (t.setStop (setup.runner managesSignals)) where
  main := h.main
  stop := rfl
  tui := h.tui
  settling := h.settling
  monitor := h.monitor
  failure := h.failure
  collector := by
    rw [show s.setStop.collector = s.collector.setStop from rfl, generalCollector_setStop, ← h.collector]
    rfl
  begins := h.begins
  early := h.early
  idle ht := by
    have hidle := congrArg MultiCollector.State.setStop (h.idle ht)
    rwa [setStop_idleCollector] at hidle
  watched := h.watched

/-- Both go on to the same point. -/
theorem Represents.moves (h : Represents s t) {m : Main} (hm : ∀ result, m = .settling result → t.tuiCancelled = true)
    (hb : m.begins = true → s.monitor = .absent) : Represents { s with main := m } { t with main := m.general } :=
  ⟨rfl, h.stop, h.tui, hm, h.monitor, h.failure, h.collector, hb, h.early, h.idle, h.watched⟩

theorem Represents.settle (h : Represents s t) (setup : Setup) (managesSignals : Bool) (result : Result) :
    Represents (s.settle result) (t.settle (setup.runner managesSignals) (generalResult result)) :=
  have hs := h.setStop setup managesSignals
  ⟨rfl, hs.stop, hs.tui, fun _ _ => rfl, hs.monitor, hs.failure, hs.collector, by simp [State.settle, Main.begins],
    hs.early, hs.idle, hs.watched⟩

/-- The runner ends. -/
theorem Represents.leaves (h : Represents s t) (result : Result) :
    Represents { s with main := .done result } (t.leave (generalResult result)) :=
  ⟨rfl, h.stop, h.tui, by simp, h.monitor, h.failure, h.collector, by simp [Main.begins], h.early, h.idle, h.watched⟩

theorem Represents.tasksDone (h : Represents s t) : t.tasksDone = s.tasksDone := by
  unfold Runtime.State.tasksDone State.tasksDone
  rw [h.tui, h.monitor]
  cases s.tui <;> cases s.monitor <;> rfl

/-- How the collector has ended, as the runner sees it. -/
theorem Represents.result (h : Represents s t) {result : Except CollectorError Unit}
    (hc : s.collector.task = .done result) :
    t.collector = some s.collector ∧ (setup.runner managesSignals).collector.result s.collector = some result :=
  ⟨by rw [h.collector, generalCollector_some (by simp [hc])], Runtime.multiResult_eq.2 hc⟩

theorem Represents.collected (h : Represents s t) {result : Except CollectorError Unit}
    (hc : s.collector.task = .done result) :
    t.collected (setup.runner managesSignals) = some (generalResult (State.collected result)) := by
  obtain ⟨hsome, hresult⟩ := h.result hc
  rw [Runtime.State.collected, hsome, Option.bind_some, hresult]
  cases result <;> rfl

theorem Represents.collectorDone (h : Represents s t) {result : Except CollectorError Unit}
    (hc : s.collector.task = .done result) : t.collectorDone (setup.runner managesSignals) = true := by
  obtain ⟨hsome, hresult⟩ := h.result hc
  simp only [Runtime.State.collectorDone, hsome]
  rw [hresult]
  rfl

/-- The runner takes steps that lead to a state at the same point. -/
def Answered (setup : Setup) (managesSignals : Bool) (t : Runtime.State MultiCollector.State CollectorError)
    (s' : State) : Prop :=
  ∃ is t', (Runtime.machine (setup.runner managesSignals)).Path (fun _ _ => True) t is t' ∧ Represents s' t'

theorem Answered.one {i : Runtime.Input MultiCollector.Input CollectorError}
    {u : Runtime.State MultiCollector.State CollectorError}
    (hstep : Runtime.step (setup.runner managesSignals) t i = some u) (h : Represents s' u) :
    Answered setup managesSignals t s' :=
  ⟨[i], u, .cons trivial hstep (.nil u), h⟩

theorem Answered.stays (h : Represents s' t) : Answered setup managesSignals t s' := ⟨[], t, .nil t, h⟩

/-! ## `run_multi_stream_collection` -/

theorem resumeMain_answered (h : Represents s t) (hstep : s.resumeMain setup = some s') :
    Answered setup managesSignals t s' := by
  have hmain := h.main
  have hmonitor := h.monitor
  have htui := h.tui
  have hset := h.setStop setup managesSignals
  have hsettle := h.settle setup managesSignals
  unfold State.resumeMain at hstep
  split at hstep <;> rename_i hm <;> rw [hm] at hmain
  · -- `starting`
    cases hstep
    have hbegins := h.begins (by rw [hm]; rfl)
    obtain ⟨-, hfailure⟩ := h.early (.inl hbegins)
    refine .one (i := .main) (u := { t with monitor := .created, main := .watching }) ?_ ?_
    · simp [Runtime.step, Runtime.State.resumeMain, hmain, Main.general]
    · exact ⟨rfl, h.stop, h.tui, by simp, rfl, h.failure, h.collector, by simp [Main.begins],
        fun _ => h.early (.inl hbegins), h.idle, by simp [hfailure]⟩
  · -- `watching`
    have hawaits {u : State} {v} (hu : Represents u v) : Represents { u with main := .awaitingMonitor } _ :=
      hu.moves (m := .awaitingMonitor) (by simp) (by simp [Main.begins])
    split at hstep <;> cases hstep
    · rename_i _ _ result hmon
      rw [hmon] at hmonitor
      refine .one (i := .main) ?_ (hawaits h)
      simp [Runtime.step, Runtime.State.resumeMain, hmain, hmonitor, Main.general, generalTask]
    · rename_i _ _ e hdone hnot
      rw [hdone] at htui
      refine .one (i := .main) ?_ (h.moves (m := .abandoning e) (by simp) (by simp [Main.begins]))
      cases hmon : s.monitor with
      | done result => exact absurd hmon (hnot result)
      | _ => simp [Runtime.step, Runtime.State.resumeMain, hmain, hmonitor, htui, hmon, Main.general, generalTask,
          generalResult, Except.mapError]
    · rename_i _ _ hdone hnot
      rw [hdone] at htui
      refine .one (i := .main) ?_ (hawaits hset)
      cases hmon : s.monitor with
      | done result => exact absurd hmon (hnot result)
      | _ => simp [Runtime.step, Runtime.State.resumeMain, hmain, hmonitor, htui, hmon, Main.general, generalTask,
          generalResult, Except.mapError]
  · -- `abandoning`
    split at hstep <;> cases hstep
    rename_i e _ _ hdone
    rw [hdone] at hmonitor
    refine .one (i := .main) ?_ (hsettle (.error e))
    simp [Runtime.step, Runtime.State.resumeMain, hmain, hmonitor, Main.general, generalTask, generalResult,
      Except.mapError]
  · -- `awaitingMonitor`
    split at hstep <;> cases hstep
    rename_i _ result hdone
    rw [hdone] at hmonitor
    refine .one (i := .main) ?_ (hset.moves (m := .awaitingTui result) (by simp) (by simp [Main.begins]))
    simp [Runtime.step, Runtime.State.resumeMain, hmain, hmonitor, Main.general, generalTask]
  · -- `awaitingTui`
    rename_i result
    split at hstep <;> cases hstep <;> rename_i hdone <;> rw [hdone] at htui
    · refine .one (i := .main) ?_ (hsettle result)
      simp [Runtime.step, Runtime.State.resumeMain, hmain, htui, Main.general, generalTask, generalResult,
        Except.mapError]
    · rename_i _ e
      refine .one (i := .main) ?_ (hsettle (.error e))
      simp [Runtime.step, Runtime.State.resumeMain, hmain, htui, Main.general, generalTask, generalResult,
        Except.mapError]
  · -- `settling`
    rename_i result
    simp only [Option.ite_none_right_eq_some, Option.map_eq_some_iff] at hstep
    obtain ⟨hdone, o, -, rfl⟩ := hstep
    have hcloses := (hset.output o).moves (m := .closing result) (by simp) (by simp [Main.begins])
    refine .one (i := .main)
      (u := { t.setStop (setup.runner managesSignals) with
        main := .closing (generalResult result), calls := t.calls ++ [.closes] }) ?_
      ⟨rfl, hcloses.stop, hcloses.tui, by simp, hcloses.monitor, hcloses.failure, hcloses.collector, hcloses.begins,
        hcloses.early, hcloses.idle, hcloses.watched⟩
    rw [← h.tasksDone] at hdone
    simp [Runtime.step, Runtime.State.resumeMain, Runtime.State.finish, hmain, hdone, Main.general, Setup.runner,
      Runtime.runMultiStreamCollection]
  · -- `closing`
    rename_i result
    split at hstep <;> cases hstep
    · refine .one (i := .closed none) ?_ (h.leaves _)
      simp [Runtime.step, hmain, Main.general]
    · rename_i e _
      refine .one (i := .closed (some (State.closeError e).general)) ?_ (h.leaves _)
      cases e <;> simp [Runtime.step, hmain, Main.general, State.closeError, RunError.general, generalResult,
        Except.mapError]
    · refine .one (i := .closed (some .outputClose)) ?_ (h.leaves _)
      simp [Runtime.step, hmain, Main.general, generalResult, Except.mapError]
  · cases hstep
  · cases hstep
  · cases hstep

theorem cancelMain_answered (h : Represents s t) (hstep : s.cancelMain setup = some s') :
    Answered setup managesSignals t s' := by
  have hmain := h.main
  have hset := h.setStop setup managesSignals
  have hsettles (hc : t.cancelMain (setup.runner managesSignals) =
      some (t.settle _ (generalResult (.error .cancelled)))) :
      Answered setup managesSignals t (s.settle (.error .cancelled)) :=
    .one (i := .cancelMain) hc (h.settle setup managesSignals (.error .cancelled))
  unfold State.cancelMain at hstep
  split at hstep <;> rename_i hm <;> rw [hm] at hmain
  · -- `validating`
    cases hstep
    refine .one (i := .cancelMain) ?_ (h.moves (m := .done (.error .cancelled)) (by simp) (by simp [Main.begins]))
    rw [Runtime.step, Runtime.State.cancelMain, hmain]
    rfl
  · -- `opening`
    cases hstep
    refine .one (i := .cancelMain) ?_ (hset.leaves (.error .cancelled))
    rw [Runtime.step, Runtime.State.cancelMain, hmain]
    rfl
  · cases hstep
    exact hsettles (by rw [Runtime.State.cancelMain, hmain]; rfl)
  · cases hstep
    exact hsettles (by rw [Runtime.State.cancelMain, hmain]; rfl)
  · cases hstep
    exact hsettles (by rw [Runtime.State.cancelMain, hmain]; rfl)
  · cases hstep
    exact hsettles (by rw [Runtime.State.cancelMain, hmain]; rfl)
  · -- `awaitingMonitor`
    have hmonitor := h.monitor
    split at hstep <;> cases hstep
    rename_i hdone
    rw [hdone] at hmonitor
    refine .one (i := .cancelMain) ?_
      (hset.moves (m := .awaitingTui (.error .cancelled)) (by simp) (by simp [Main.begins]))
    simp only [Runtime.step, Runtime.State.cancelMain, hmain, Main.general, hmonitor, generalTask]
    rfl
  · -- `awaitingTui`
    have htui := h.tui
    split at hstep <;> cases hstep
    rename_i hdone
    rw [hdone] at htui
    refine hsettles ?_
    simp only [Runtime.State.cancelMain, hmain, Main.general, htui, generalTask]
    rfl
  · -- `closing`
    rw [Option.map_eq_some_iff] at hstep
    obtain ⟨o, -, rfl⟩ := hstep
    exact .stays (h.output o)
  · cases hstep

/-! ## The monitor -/

/-- The task of the monitor goes on. -/
theorem Represents.monitored (h : Represents s t) {m : Task Monitor RunError} (hs : s.monitor ≠ .absent)
    (hm : m ≠ .absent ∧ m ≠ .created)
    (hw : s.failure = .created ∨ s.failure = .running () →
      m = .running .waiting ∨ ∃ result, m = .running (.finishing result)) :
    Represents { s with monitor := m } { t with monitor := generalTask Monitor.general m } :=
  { h with
    monitor := rfl
    begins := fun hb => absurd (h.begins hb) hs
    early := fun he => by simp [hm] at he
    watched := hw }

theorem resumeMonitor_answered (h : Represents s t) {phase : Monitor} (hmon : s.monitor = .running phase)
    (hstep : s.resumeMonitor phase = some s') : Answered setup managesSignals t s' := by
  have hrunning : s.monitor ≠ .absent := by simp [hmon]
  have hmonitor : t.monitor = .running phase.general := by rw [h.monitor, hmon]; rfl
  have hfailure := h.failure
  have hfinishes (result : Result) : Represents { s with monitor := .running (.finishing result) } _ :=
    h.monitored (m := .running (.finishing result)) hrunning (by simp) fun _ => .inr ⟨result, rfl⟩
  cases phase with
  | waiting =>
    simp only [State.resumeMonitor] at hstep
    split at hstep <;> cases hstep
    · rename_i hdone
      rw [hdone] at hfailure
      have hset := h.setStop setup managesSignals
      refine .one (i := .monitor) ?_
        (hset.monitored (m := .running .failing) hrunning (by simp) (by simp [State.setStop, hdone]))
      simp only [Runtime.step, hmonitor, Monitor.general, Runtime.State.resumeMonitor, hfailure, generalFailure]
      rfl
    · rename_i result hdone hnot
      refine .one (i := .monitor) ?_ (hfinishes (State.collected result))
      cases hf : s.failure with
      | done failed => exact absurd hf (hnot failed)
      | _ =>
        rw [hf] at hfailure
        simp only [Runtime.step, hmonitor, Monitor.general, Runtime.State.resumeMonitor, hfailure, generalFailure,
          h.collected hdone]
        rfl
  | failing =>
    simp only [State.resumeMonitor] at hstep
    split at hstep <;> cases hstep
    · rename_i e result hdone hcollected
      rw [hdone] at hfailure
      refine .one (i := .monitor) ?_ (hfinishes (.error e))
      simp only [Runtime.step, hmonitor, Monitor.general, Runtime.State.resumeMonitor, hfailure, generalFailure,
        h.collected hcollected, generalResult, Except.mapError]
      rfl
    · rename_i result hdone hcollected
      rw [hdone] at hfailure
      refine .one (i := .monitor) ?_ (hfinishes (State.collected result))
      simp only [Runtime.step, hmonitor, Monitor.general, Runtime.State.resumeMonitor, hfailure, generalFailure,
        h.collected hcollected, generalResult, Except.mapError]
      rfl
  | finishing result =>
    simp only [State.resumeMonitor] at hstep
    split at hstep <;> cases hstep
    rename_i failed collected hdone hcollected
    rw [hdone] at hfailure
    have hc : t.collectorDone (setup.runner managesSignals) = true := h.collectorDone hcollected
    refine .one (i := .monitor) ?_ (h.monitored (m := .done result) hrunning (by simp) (by simp [hdone]))
    simp only [Runtime.step, hmonitor, Monitor.general, Runtime.State.resumeMonitor, hfailure, generalFailure, hc,
      if_true]
    have hmain := h.main
    cases hm : s.main <;> rw [hm] at hmain <;> simp only [hmain, Main.general] <;> rfl

/-- The runner is cancelled where it waits for the task of the monitor, or cancels the task itself. -/
theorem Represents.cancelsMonitor (h : Represents s t) (hc : s.main.cancelsMonitor = true)
    (hcancel : t.cancelMonitor (setup.runner managesSignals) = some t') (hdone : ∀ result, t.monitor ≠ .done result)
    (hs : Represents s' t') : Answered setup managesSignals t s' := by
  obtain hm | hm : t.monitorCancelled = true ∨ t.main = .awaitingMonitor := by
    rw [Runtime.State.monitorCancelled, h.main]
    cases hmain : s.main <;> rw [hmain] at hc <;> first | exact .inl rfl | exact .inr rfl | cases hc
  · refine .one (i := .cancelMonitor) ?_ hs
    rwa [Runtime.step, if_pos hm]
  · refine .one (i := .cancelMain) ?_ hs
    rw [Runtime.step, Runtime.State.cancelMain, hm]
    cases hmonitor : t.monitor with
    | done result => exact absurd hmonitor (hdone result)
    | _ => exact hcancel

theorem cancelMonitor_answered (h : Represents s t) (hstep : step setup s .cancelMonitor = some s') :
    Answered setup managesSignals t s' := by
  simp only [step] at hstep
  split at hstep
  · rename_i hc
    split at hstep <;> cases hstep <;> rename_i hmon
    · have hmonitor : t.monitor = .created := by rw [h.monitor, hmon]; rfl
      have hnext := h.monitored (m := .done (.error .cancelled)) (by simp [hmon]) (by simp) fun hf => by
        rcases h.watched hf with hw | ⟨_, hw⟩ <;> rw [hmon] at hw <;> cases hw
      refine h.cancelsMonitor hc ?_ (by simp [hmonitor]) hnext
      rw [Runtime.State.cancelMonitor, hmonitor]
      rfl
    · rename_i phase
      have hmonitor : t.monitor = .running phase.general := by rw [h.monitor, hmon]; rfl
      have hnext := h.monitored (m := .running (.finishing (.error .cancelled))) (by simp [hmon]) (by simp)
        fun _ => .inr ⟨_, rfl⟩
      refine h.cancelsMonitor hc ?_ (by simp [hmonitor]) hnext
      rw [Runtime.State.cancelMonitor, hmonitor]
      cases phase <;> rfl
  · cases hstep

theorem startMonitor_answered (h : Represents s t) (hstep : step setup s .startMonitor = some s') :
    Answered setup managesSignals t s' := by
  simp only [step] at hstep
  split at hstep <;> cases hstep
  rename_i hmon
  obtain ⟨htask, hfailure⟩ := h.early (.inr hmon)
  refine .one (i := .startMonitor) (u := t.startMonitor (setup.runner managesSignals)) ?_
    { h with
      monitor := rfl
      failure := rfl
      collector := ?_
      begins := fun hb => ?_
      early := by simp
      idle := ?_
      watched := fun _ => .inl rfl }
  · simp only [Runtime.step, h.monitor, hmon]
    rfl
  · have hidle := h.idle htask
    simp only [Runtime.State.startMonitor, h.stop]
    rw [hidle]
    cases s.collector.stop <;> rfl
  · rw [h.begins hb] at hmon
    cases hmon
  · simp [MultiCollector.State.setTask]

/-! ## The other tasks -/

theorem tuiEnds_answered (h : Represents s t) {result : Result} (hstep : step setup s (.tuiEnds result) = some s') :
    Answered setup managesSignals t s' := by
  simp only [step] at hstep
  split at hstep
  · rename_i htui
    simp only [Option.ite_none_right_eq_some, Option.some.injEq] at hstep
    obtain ⟨hresult, rfl⟩ := hstep
    have hrunning : t.tui = .running () := by rw [h.tui, htui]; rfl
    have hnext : Represents { s with tui := .done result } { t with tui := .done (generalResult result) } :=
      ⟨h.main, h.stop, rfl, h.settling, h.monitor, h.failure, h.collector, h.begins, h.early, h.idle, h.watched⟩
    rcases hresult with rfl | rfl | ⟨rfl, hc⟩
    · exact .one (i := .tuiEnds (.ok ())) (by simp only [Runtime.step, hrunning]; rfl) hnext
    · exact .one (i := .tuiEnds (.error .tui)) (by simp only [Runtime.step, hrunning]; rfl) hnext
    · -- somebody has cancelled the task of the TUI
      obtain hset | ⟨outcome, hmain⟩ : t.tuiCancelled = true ∨ ∃ outcome, t.main = .awaitingTui outcome := by
        rw [h.main]
        cases hm : s.main <;> rw [hm] at hc <;>
          first | exact .inl (h.settling _ hm) | exact .inr ⟨_, rfl⟩ | cases hc
      · exact .one (i := .tuiEnds (.error .cancelled)) (by simp only [Runtime.step, hrunning, hset, if_true]; rfl) hnext
      · have hcancels : (Runtime.machine (setup.runner managesSignals)).step t .cancelMain =
            some { t with tuiCancelled := true } := by
          simp only [Runtime.machine, Runtime.step, Runtime.State.cancelMain, hmain, hrunning]
        have hends : (Runtime.machine (setup.runner managesSignals)).step { t with tuiCancelled := true }
            (.tuiEnds (.error .cancelled)) =
              some { t with tuiCancelled := true, tui := .done (.error .cancelled) } := by
          simp only [Runtime.machine, Runtime.step, hrunning, if_true]
        exact ⟨_, _, .cons trivial hcancels (.cons trivial hends (.nil _)), hnext.main, hnext.stop, rfl, fun _ _ => rfl,
          hnext.monitor, hnext.failure, hnext.collector, hnext.begins, hnext.early, hnext.idle, hnext.watched⟩
  · cases hstep

theorem collector_answered (h : Represents s t) {i : MultiCollector.Input} {u : MultiCollector.State}
    (hi : i ≠ .setStop) (hcancel : i = .cancel → s.collectorCancelled = true)
    (hstep : (MultiCollector.machine setup.collector).step s.collector i = some u)
    (o : MultiMongo.Output (Group × ℕ) Event) :
    Answered setup managesSignals t { s with collector := u, output := o } := by
  obtain ⟨htask, htask', hstop⟩ := collector_step hi hstep
  have hc : t.collector = some s.collector := by rw [h.collector, generalCollector_some htask]
  have hcancelled : t.collectorCancelled = s.collectorCancelled := by
    rw [Runtime.State.collectorCancelled, State.collectorCancelled, h.monitor]
    cases s.monitor with
    | running phase => cases phase <;> rfl
    | _ => rfl
  have hnot : ¬(i = .setStop ∨ i = .cancel ∧ t.collectorCancelled = false) := by
    rintro (hset | ⟨hic, hfalse⟩)
    · exact hi hset
    · rw [hcancelled, hcancel hic] at hfalse
      cases hfalse
  refine .one (i := .collector i) (u := { t with collector := some u, stop := t.stop || u.stop }) ?_
    ⟨h.main, ?_, h.tui, h.settling, h.monitor, h.failure, (generalCollector_some htask').symm, h.begins,
      fun he => absurd (h.early he).1 htask, fun ht => absurd ht htask', h.watched⟩
  · simp only [Runtime.step, hc]
    refine (if_neg hnot).trans ?_
    rw [Runtime.State.stepCollector, show (setup.runner managesSignals).collector.machine.step s.collector i =
        some u from hstep]
    rfl
  · change (t.stop || u.stop) = u.stop
    rw [h.stop]
    cases hs : s.collector.stop with
    | true => rw [hstop hs]; rfl
    | false => rfl

/-- The task of `wait_for_output_failure()` goes on. -/
theorem Represents.failureEnds (h : Represents s t) (hf : s.failure = .created ∨ s.failure = .running ())
    (result : Result) :
    Represents { s with failure := .done result } { t with failure := .done (generalResult result) } :=
  { h with
    failure := rfl
    early := fun he => (by rcases hf with hf | hf <;> rw [(h.early he).2] at hf <;> cases hf)
    watched := by simp }

theorem Represents.failureRunning (h : Represents s t) (hf : s.failure = .created ∨ s.failure = .running ()) :
    t.failure = .running () := by
  rcases hf with hf | hf <;> rw [h.failure, hf] <;> rfl

theorem step_represents (h : Represents s t) {i : Input} (hstep : (machine setup).step s i = some s') :
    Answered setup managesSignals t s' := by
  simp only [machine] at hstep
  cases i with
  | setStop =>
    cases hstep
    exact .one (i := .setStop) rfl (h.setStop setup managesSignals)
  | validated ok =>
    simp only [step] at hstep
    split at hstep <;> cases hstep
    rename_i hm
    have hmain : t.main = .validating := by rw [h.main, hm]; rfl
    have hmonitor := h.begins (by rw [hm]; rfl)
    cases ok with
    | true =>
      have hnext := h.moves (m := .opening) (by simp) fun _ => hmonitor
      refine .one (i := .validated true) (by simp only [Runtime.step, hmain, if_true]; rfl) ?_
      exact ⟨rfl, hnext.stop, hnext.tui, by simp, hnext.monitor, hnext.failure, hnext.collector, hnext.begins,
        hnext.early, hnext.idle, hnext.watched⟩
    | false =>
      refine .one (i := .validated false) ?_
        (h.moves (m := .done (.error .validation)) (by simp) (by simp [Main.begins]))
      simp only [Runtime.step, hmain]
      rfl
  | opened ok =>
    simp only [step] at hstep
    split at hstep
    · rename_i hm
      have hmain : t.main = .opening := by rw [h.main, hm]; rfl
      have hmonitor := h.begins (by rw [hm]; rfl)
      cases ok with
      | true =>
        cases hstep
        have hnext := h.moves (m := .starting) (by simp) fun _ => hmonitor
        refine .one (i := .opened true) (by simp only [Runtime.step, hmain, if_true]; rfl) ?_
        exact ⟨rfl, hnext.stop, rfl, by simp, hnext.monitor, hnext.failure, hnext.collector, hnext.begins,
          hnext.early, hnext.idle, hnext.watched⟩
      | false =>
        cases hstep
        refine .one (i := .opened false) ?_ ((h.setStop setup managesSignals).leaves (.error .outputOpen))
        simp only [Runtime.step, hmain]
        rfl
    · cases hstep
  | main => exact resumeMain_answered h hstep
  | cancelMain => exact cancelMain_answered h hstep
  | tuiEnds result => exact tuiEnds_answered h hstep
  | startMonitor => exact startMonitor_answered h hstep
  | monitor =>
    simp only [step] at hstep
    split at hstep
    · exact resumeMonitor_answered h ‹_› hstep
    · cases hstep
  | cancelMonitor => exact cancelMonitor_answered h hstep
  | startFailure =>
    simp only [step] at hstep
    split at hstep
    · rename_i hf
      split at hstep <;> cases hstep
      have hearly : ¬(s.monitor = .absent ∨ s.monitor = .created) := fun he => by
        rw [(h.early he).2] at hf
        cases hf
      exact .stays { h with
        failure := h.failureRunning (.inl hf)
        early := fun he => absurd he hearly
        watched := fun _ => h.watched (.inl hf) }
    · cases hstep
  | failure =>
    simp only [step] at hstep
    split at hstep
    · rename_i hf
      split at hstep
      · cases hstep
      · rename_i hnot
        rw [Option.map_eq_some_iff] at hstep
        obtain ⟨o, -, rfl⟩ := hstep
        refine .one (i := .failure) ?_ ((h.failureEnds (.inr hf) (.error .outputFailed)).output o)
        have hmonitor := h.monitor
        rcases h.watched (.inr hf) with hw | ⟨result, hw⟩
        · rw [hw] at hmonitor
          simp only [Runtime.step, h.failureRunning (.inr hf), hmonitor, generalTask, Monitor.general]
          rfl
        · rw [State.failureCancelled, hw] at hnot
          exact absurd rfl hnot
    · cases hstep
  | cancelFailure =>
    simp only [step] at hstep
    split at hstep
    · rename_i hc
      have hcancels (hf : s.failure = .created ∨ s.failure = .running ()) :
          Answered setup managesSignals t { s with failure := .done (.error .cancelled) } := by
        refine .one (i := .cancelFailure) ?_ (h.failureEnds hf (.error .cancelled))
        have hmonitor := h.monitor
        rcases h.watched hf with hw | ⟨result, hw⟩
        · rw [State.failureCancelled, hw] at hc
          cases hc
        · rw [hw] at hmonitor
          simp only [Runtime.step, h.failureRunning hf, hmonitor, generalTask, Monitor.general]
          rfl
      split at hstep <;> cases hstep
      · exact hcancels (.inl ‹_›)
      · exact hcancels (.inr ‹_›)
    · cases hstep
  | collector i =>
    cases i with
    | setStop => cases hstep
    | cancel =>
      simp only [step, Option.ite_none_right_eq_some, Option.map_eq_some_iff] at hstep
      obtain ⟨hc, u, hu, rfl⟩ := hstep
      exact collector_answered h (by simp) (fun _ => hc) hu s.output
    | connection g i =>
      simp only [step, Option.ite_none_right_eq_some, Option.map_eq_some_iff] at hstep
      obtain ⟨-, u, hu, rfl⟩ := hstep
      exact collector_answered h (by simp) (by simp) hu _
    | start | resume g =>
      simp only [step, Option.map_eq_some_iff] at hstep
      obtain ⟨u, hu, rfl⟩ := hstep
      exact collector_answered h (by simp) (by simp) hu s.output
  | write g report =>
    simp only [step] at hstep
    split at hstep
    · split at hstep
      · rw [Option.map_eq_some_iff] at hstep
        obtain ⟨o, -, rfl⟩ := hstep
        exact .stays (h.output o)
      · cases hstep
    · cases hstep
  | output i =>
    simp only [step, Option.ite_none_right_eq_some, Option.map_eq_some_iff] at hstep
    obtain ⟨-, o, -, rfl⟩ := hstep
    exact .stays (h.output o)

/-! ## Runs -/

theorem initial_represents (setup : Setup) (managesSignals : Bool) :
    Represents initial (Runtime.begun (setup.runner managesSignals) false) := by
  constructor <;> simp [initial, Runtime.begun, Setup.runner, Runtime.runMultiStreamCollection, Main.general,
    generalTask, generalFailure, generalCollector, idleCollector]

/-- **Every run of the system is a run of its runner.** -/
theorem refines_runner (managesSignals : Bool) {is : List Input}
    (h : (machine setup).Path (fun _ _ => True) initial is s) :
    Answered setup managesSignals (Runtime.begun (setup.runner managesSignals) false) s :=
  h.simulate (fun _ _ _ _ _ hR hstep => step_represents hR hstep) (initial_represents setup managesSignals)

/-- When `run_multi_stream_collection` has ended, its tasks are done, and the collector with all its connections. -/
theorem ends_quietly {is : List Input} (h : (machine setup).Path (fun _ _ => True) initial is s) {result : Result}
    (hdone : s.main = .done result) :
    (s.tui = .absent ∨ ∃ outcome, s.tui = .done outcome) ∧
      (s.monitor = .absent ∨ ∃ outcome, s.monitor = .done outcome) ∧
      (s.collector.task = .absent ∨ ∃ outcome, s.collector.task = .done outcome) := by
  obtain ⟨is', t, hpath, ht⟩ := refines_runner true h
  have hmain : t.main = .done (generalResult result) := by rw [ht.main, hdone]; rfl
  have hbracket := (Runtime.always_bracket (setup.runner true) false is' t hpath).tasks _ hmain
  obtain ⟨htui, hmonitor, -, hcollector⟩ := hbracket
  refine ⟨?_, ?_, ?_⟩
  · rw [ht.tui] at htui
    cases hs : s.tui <;> rw [hs] at htui <;> first | exact .inl rfl | exact .inr ⟨_, rfl⟩ | cases htui
  · rw [ht.monitor] at hmonitor
    cases hs : s.monitor <;> rw [hs] at hmonitor <;> first | exact .inl rfl | exact .inr ⟨_, rfl⟩ | cases hmonitor
  · rw [Runtime.State.collectorDone, ht.collector] at hcollector
    by_cases hs : s.collector.task = .absent
    · exact .inl hs
    · rw [generalCollector_some hs] at hcollector
      obtain ⟨outcome, houtcome⟩ := Option.isSome_iff_exists.1 hcollector
      exact .inr ⟨outcome, Runtime.multiResult_eq.1 houtcome⟩

end BinanceCollector.MultiRuntime
