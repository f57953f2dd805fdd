import BinanceCollector.Runtime

/-!
# The output between `open()` and `close()`

- `Stage` says what holds where the runner waits, `Inv` what holds in every state; `step_inv` is the step lemma.
- `output_bracket`: in every run of either runner, writes start only between `open()` and `close()`, and a runner that
  ends has closed the output exactly if it was opened, leaves no task behind and no signal handler installed, and has
  set the stop event unless it ends in the product validation.
-/

namespace BinanceCollector

/-- The task is done or has not been created. -/
def Task.over {φ ε : Type} : Task φ ε → Bool
  | .absent | .done _ => true
  | _ => false

namespace Runtime

open Steps Text Json

/-! ## Calls on the output -/

/-- Writes and the closing come after `open()` has returned and before `close()` has been called. -/
def Bracketed (calls : List OutputCall) : Prop :=
  ∀ pre a post, calls = pre ++ a :: post → a = .writes ∨ a = .closes → .opened ∈ pre ∧ .closes ∉ pre

theorem Bracketed.nil : Bracketed [] := by
  intro pre a post h
  cases pre <;> cases h

theorem Bracketed.snoc {calls : List OutputCall} {a : OutputCall} (h : Bracketed calls)
    (ha : a = .writes ∨ a = .closes → .opened ∈ calls ∧ .closes ∉ calls) : Bracketed (calls ++ [a]) := by
  intro pre b post heq hb
  rcases List.eq_nil_or_concat post with rfl | ⟨post, c, rfl⟩
  · obtain ⟨rfl, hlast⟩ := List.append_inj' heq rfl
    cases hlast
    exact ha hb
  · rw [List.concat_eq_append, ← List.cons_append, ← List.append_assoc] at heq
    exact h pre b post (List.append_inj' heq rfl).1 hb

/-- An output is closed once at most. -/
theorem Bracketed.count_closes {calls : List OutputCall} (h : Bracketed calls) :
    calls.count .closes ≤ 1 ∧ (.closes ∈ calls → .opened ∈ calls) := by
  by_cases hmem : .closes ∈ calls
  · obtain ⟨pre, post, rfl⟩ := List.append_of_mem hmem
    have hpost : .closes ∉ post := fun hlater => by
      obtain ⟨mid, rest, rfl⟩ := List.append_of_mem hlater
      exact (h (pre ++ .closes :: mid) .closes rest (by simp) (.inr rfl)).2 (by simp)
    obtain ⟨hopened, hpre⟩ := h pre .closes post rfl (.inr rfl)
    refine ⟨?_, fun _ => List.mem_append_left _ hopened⟩
    rw [List.count_append, List.count_cons_self, List.count_eq_zero_of_not_mem hpre,
      List.count_eq_zero_of_not_mem hpost]
  · exact ⟨by rw [List.count_eq_zero_of_not_mem hmem]; exact Nat.zero_le 1, fun hc => absurd hc hmem⟩

/-! ## What every run keeps -/

variable {σ ι ε : Type} {r : Runner σ ι ε} {s s' : State σ ε}

namespace State

/-- No task has been created. -/
structure Idle (s : State σ ε) : Prop where
  tui : s.tui = .absent
  monitor : s.monitor = .absent
  failure : s.failure = .absent
  collector : s.collector = none

/-- All tasks that have been created are done. -/
structure AllDone (r : Runner σ ι ε) (s : State σ ε) : Prop where
  tui : s.tui.over = true
  monitor : s.monitor.over = true
  failure : s.failure.over = true
  collector : s.collectorDone r = true

/-- The output, if there is one, is open. -/
structure Open (r : Runner σ ι ε) (s : State σ ε) : Prop where
  prepared : s.prepared = true
  opened : r.output.isSome = true → .opened ∈ s.calls
  closes : .closes ∉ s.calls

/-- What the task of the monitor says about the tasks it creates. -/
def Tasks (r : Runner σ ι ε) (s : State σ ε) : Task (Monitor ε) (RunError ε) → Prop
  | .absent | .created => s.collector = none ∧ s.failure = .absent
  | .running _ => True
  | .done _ => s.collectorDone r = true ∧ s.failure.over = true

/-- What holds where the runner waits. -/
def Stage (r : Runner σ ι ε) (s : State σ ε) : Main ε → Prop
  | .validating => s.Idle ∧ s.calls = [] ∧ s.prepared = false ∧ s.signals = false
  | .opening => s.Idle ∧ s.prepared = true ∧ .opened ∉ s.calls ∧ .closes ∉ s.calls ∧ r.output.isSome = true
  | .starting => s.Open r ∧ s.monitor = .absent
  | .collecting => s.Open r ∧ s.tui = .absent
  | .closing _ => s.AllDone r ∧ s.prepared = true ∧ s.stop = true ∧ .closes ∈ s.calls
  | .done _ => s.AllDone r ∧ (s.prepared = true → s.stop = true) ∧ s.signals = false ∧
      (.opened ∈ s.calls → .closes ∈ s.calls)
  | .watching | .abandoning _ | .awaitingMonitor | .awaitingTui _ | .settling _ => s.Open r

/-- What holds in every state. -/
structure Inv (r : Runner σ ι ε) (s : State σ ε) : Prop where
  bracketed : Bracketed s.calls
  unused : r.output = none → s.calls = []
  unvalidated : r.validates = false → s.prepared = true
  collector : ∀ c, s.collector = some c → r.collector.Inv c
  tasks : s.Tasks r s.monitor
  stage : s.Stage r s.main

/-! ### Inputs that may not be enabled -/

theorem getD_inv {c : σ} (hc : r.collector.Inv c) (i : ι) :
    r.collector.Inv ((r.collector.machine.step c i).getD c) := by
  cases hstep : r.collector.machine.step c i with
  | none => exact hc
  | some c' => exact r.collector.step_inv hc hstep

theorem getD_ended {c : σ} (hc : r.collector.Inv c) (i : ι) (hd : (r.collector.result c).isSome = true) :
    (r.collector.result ((r.collector.machine.step c i).getD c)).isSome = true := by
  obtain ⟨result, hresult⟩ := Option.isSome_iff_exists.1 hd
  cases hstep : r.collector.machine.step c i with
  | none => exact hd
  | some c' =>
    rw [Option.getD_some, r.collector.ended_stays hc hresult hstep]
    rfl

/-- The collector is given an input, if it takes it. -/
theorem map_collectorDone {i : ι} (hs : ∀ c, s.collector = some c → r.collector.Inv c) (hd : s.collectorDone r = true)
    {t : State σ ε} (ht : t.collector = s.collector.map fun c => (r.collector.machine.step c i).getD c) :
    t.collectorDone r = true := by
  unfold collectorDone at *
  rw [ht]
  cases hc : s.collector with
  | none => rfl
  | some c =>
    rw [hc] at hd
    exact getD_ended (hs c hc) i hd

theorem map_inv {i : ι} (hs : ∀ c, s.collector = some c → r.collector.Inv c) {t : State σ ε}
    (ht : t.collector = s.collector.map fun c => (r.collector.machine.step c i).getD c) :
    ∀ c, t.collector = some c → r.collector.Inv c := by
  intro c hc
  rw [ht, Option.map_eq_some_iff] at hc
  obtain ⟨c₀, hc₀, rfl⟩ := hc
  exact getD_inv (hs c₀ hc₀) i

/-- `Tasks` reads the collector and the task of `wait_for_output_failure()`. -/
theorem Tasks.congr {t : State σ ε} {m : Task (Monitor ε) (RunError ε)} (h : s.Tasks r m)
    (hc : t.collector = s.collector) (hf : t.failure = s.failure) : t.Tasks r m := by
  cases m with
  | absent | created => exact ⟨hc.trans h.1, hf.trans h.2⟩
  | running => trivial
  | done => exact ⟨by rw [collectorDone, hc]; exact h.1, by rw [hf]; exact h.2⟩

/-! ### The stop event -/

theorem setStop_inv (hs : ∀ c, s.collector = some c → r.collector.Inv c) :
    ∀ c, (s.setStop r).collector = some c → r.collector.Inv c :=
  map_inv (i := r.collector.setStop) hs rfl

theorem setStop_done (hs : ∀ c, s.collector = some c → r.collector.Inv c) (hd : s.collectorDone r = true) :
    (s.setStop r).collectorDone r = true :=
  map_collectorDone (i := r.collector.setStop) hs hd rfl

theorem Idle.setStop (h : s.Idle) : (s.setStop r).Idle :=
  ⟨h.tui, h.monitor, h.failure, by rw [State.setStop, h.collector]; rfl⟩

theorem AllDone.setStop (hs : ∀ c, s.collector = some c → r.collector.Inv c) (h : s.AllDone r) :
    (s.setStop r).AllDone r :=
  ⟨h.tui, h.monitor, h.failure, setStop_done hs h.collector⟩

theorem Tasks.setStop (hs : ∀ c, s.collector = some c → r.collector.Inv c) {t : Task (Monitor ε) (RunError ε)}
    (h : s.Tasks r t) : (s.setStop r).Tasks r t := by
  cases t with
  | absent | created => exact ⟨by rw [State.setStop, h.1]; rfl, h.2⟩
  | running => trivial
  | done => exact ⟨setStop_done hs h.1, h.2⟩

theorem Stage.setStop (hs : ∀ c, s.collector = some c → r.collector.Inv c) {m : Main ε} (h : s.Stage r m) :
    (s.setStop r).Stage r m := by
  cases m with
  | validating => exact ⟨h.1.setStop, h.2⟩
  | opening => exact ⟨h.1.setStop, h.2⟩
  | starting | collecting => exact ⟨⟨h.1.prepared, h.1.opened, h.1.closes⟩, h.2⟩
  | closing => exact ⟨h.1.setStop hs, h.2.1, rfl, h.2.2.2⟩
  | done => exact ⟨h.1.setStop hs, fun _ => rfl, h.2.2⟩
  | watching | abandoning | awaitingMonitor | awaitingTui | settling => exact ⟨h.prepared, h.opened, h.closes⟩

theorem Inv.setStop (h : s.Inv r) : (s.setStop r).Inv r :=
  { h with
    collector := setStop_inv h.collector
    tasks := h.tasks.setStop h.collector
    stage := h.stage.setStop h.collector }

/-! ### Where a task runs -/

theorem Idle.allDone (h : s.Idle) : s.AllDone r :=
  ⟨by rw [h.tui]; rfl, by rw [h.monitor]; rfl, by rw [h.failure]; rfl, by rw [collectorDone, h.collector]⟩

/-- While a task runs, the runner is in the body of its `try`. -/
theorem Stage.open (h : s.Stage r s.main) (hd : ¬s.AllDone r) : s.Open r := by
  cases hm : s.main <;> rw [hm] at h
  case validating | opening => exact absurd h.1.allDone hd
  case closing | done => exact absurd h.1 hd
  case starting | collecting => exact h.1
  all_goals exact h

/-- A step that leaves the runner where it is while one of its tasks runs. -/
theorem Stage.stays {t : State σ ε} (h : s.Stage r s.main) (hd : ¬s.AllDone r) (hm : t.main = s.main)
    (ho : s.Open r → t.Open r) (hmonitor : s.main = .starting → s.monitor = .absent → t.monitor = .absent)
    (htui : s.main = .collecting → s.tui = .absent → t.tui = .absent) : t.Stage r t.main := by
  have hopen := ho (h.open hd)
  rw [hm]
  cases hmain : s.main <;> rw [hmain] at h
  case validating | opening => exact absurd h.1.allDone hd
  case closing | done => exact absurd h.1 hd
  case starting => exact ⟨hopen, hmonitor hmain h.2⟩
  case collecting => exact ⟨hopen, htui hmain h.2⟩
  all_goals exact hopen

theorem not_allDone_tui (h : s.tui = .running ()) : ¬s.AllDone r := fun hd => by
  have := hd.tui
  rw [h] at this
  cases this

theorem not_allDone_monitor {phase : Monitor ε} (h : s.monitor = .running phase) : ¬s.AllDone r := fun hd => by
  have := hd.monitor
  rw [h] at this
  cases this

theorem not_allDone_created (h : s.monitor = .created) : ¬s.AllDone r := fun hd => by
  have := hd.monitor
  rw [h] at this
  cases this

/-! ### The runner -/

/-- The runner goes on in the body of its `try`. -/
theorem Inv.moves (h : s.Inv r) {m : Main ε} (hm : ({ s with main := m } : State σ ε).Stage r m) :
    ({ s with main := m } : State σ ε).Inv r :=
  { h with tasks := h.tasks.congr rfl rfl, stage := hm }

theorem Inv.leave (h : s.Inv r) (hd : s.AllDone r) (hstop : s.stop = true) (hc : .opened ∈ s.calls → .closes ∈ s.calls)
    (result : Result ε) : (s.leave result).Inv r :=
  { h with
    tasks := h.tasks.congr rfl rfl
    stage := ⟨⟨hd.tui, hd.monitor, hd.failure, hd.collector⟩, fun _ => hstop, rfl, hc⟩ }

theorem Inv.fail (h : s.Inv r) (hm : s.main = .opening) (e : RunError ε) : (s.fail r e).Inv r := by
  have hst := h.stage
  rw [hm] at hst
  exact h.setStop.leave hst.1.setStop.allDone rfl (fun ho => absurd ho hst.2.2.1) _

theorem Inv.finish (h : s.Inv r) (ho : s.Open r) (hd : s.AllDone r) (result : Result ε) :
    (s.finish r result).Inv r := by
  unfold State.finish
  have hs := h.setStop
  have hd' : (s.setStop r).AllDone r := hd.setStop h.collector
  cases hout : r.output with
  | none =>
    refine hs.leave hd' rfl (fun hmem => ?_) result
    rw [show (s.setStop r).calls = s.calls from rfl, h.unused hout] at hmem
    cases hmem
  | some aware =>
    refine { hs with
      bracketed := hs.bracketed.snoc fun _ => ⟨ho.opened (by rw [hout]; rfl), ho.closes⟩
      unused := ?unused
      tasks := hs.tasks.congr rfl rfl
      stage := ⟨⟨hd'.tui, hd'.monitor, hd'.failure, hd'.collector⟩, ho.prepared, rfl,
        List.mem_append_right _ (List.mem_singleton_self _)⟩ }
    intro hn
    rw [hout] at hn
    cases hn

theorem Inv.settle (h : s.Inv r) (ho : s.Open r) (result : Result ε) : (s.settle r result).Inv r := by
  have hs := h.setStop
  exact { hs with tasks := hs.tasks.congr rfl rfl, stage := ⟨ho.prepared, ho.opened, ho.closes⟩ }

theorem Idle.collector_inv (h : s.Idle) : ∀ c, s.collector = some c → r.collector.Inv c := fun c hc => by
  rw [h.collector] at hc
  cases hc

theorem Idle.tasks (h : s.Idle) : s.Tasks r s.monitor := by
  rw [h.monitor]
  exact ⟨h.collector, h.failure⟩

theorem startMonitor_collector (s : State σ ε) : ∀ c, (s.startMonitor r).collector = some c → r.collector.Inv c := by
  intro c hc
  have hc : (if s.stop then stopCollector r r.collector.created else r.collector.created) = c := Option.some.inj hc
  rw [← hc]
  split
  · exact getD_inv r.collector.created_inv _
  · exact r.collector.created_inv

/-- The body of the `try` begins. -/
theorem body_inv (hb : Bracketed s.calls) (hu : r.output = none → s.calls = []) (hidle : s.Idle) (ho : s.Open r) :
    (s.body r).Inv r := by
  unfold State.body
  split
  · exact ⟨hb, hu, fun _ => ho.prepared, hidle.collector_inv, hidle.tasks.congr rfl rfl,
      ⟨⟨ho.prepared, ho.opened, ho.closes⟩, hidle.monitor⟩⟩
  · exact ⟨hb, hu, fun _ => ho.prepared, startMonitor_collector s, trivial,
      ⟨⟨ho.prepared, ho.opened, ho.closes⟩, hidle.tui⟩⟩

/-- The code before the `try`. -/
theorem prepare_inv (hidle : s.Idle) (hcalls : s.calls = []) : (s.prepare r).Inv r := by
  have hempty : Bracketed s.calls := hcalls ▸ .nil
  unfold State.prepare
  dsimp only
  split
  · rename_i aware hout
    refine ⟨hempty.snoc fun ha => ?_, fun hn => ?_, fun _ => rfl, hidle.collector_inv, hidle.tasks.congr rfl rfl,
      ⟨hidle.tui, hidle.monitor, hidle.failure, hidle.collector⟩, rfl, ?_, ?_⟩
    · rcases ha with ha | ha <;> cases ha
    · rw [hout] at hn; cases hn
    · simp [hcalls]
    · exact ⟨by simp [hcalls], by rw [hout]; rfl⟩
  · rename_i hout
    refine body_inv hempty (fun _ => hcalls) ⟨hidle.tui, hidle.monitor, hidle.failure, hidle.collector⟩
      ⟨rfl, fun ho => ?_, by simp [hcalls]⟩
    rw [hout] at ho
    cases ho

theorem resumeMain_inv (h : s.Inv r) (hstep : s.resumeMain r = some s') : s'.Inv r := by
  have hst := h.stage
  have htasks := h.tasks
  unfold resumeMain at hstep
  split at hstep
  · rename_i hm
    rw [hm] at hst
    cases hstep
    rw [hst.2] at htasks
    exact { h with tasks := htasks, stage := ⟨hst.1.prepared, hst.1.opened, hst.1.closes⟩ }
  · rename_i hm
    rw [hm] at hst
    split at hstep <;> cases hstep
    · exact h.moves ⟨hst.prepared, hst.opened, hst.closes⟩
    · exact h.moves ⟨hst.prepared, hst.opened, hst.closes⟩
    · exact h.setStop.moves ⟨hst.prepared, hst.opened, hst.closes⟩
  · rename_i hm
    rw [hm] at hst
    split at hstep <;> cases hstep
    exact h.settle hst _
  · rename_i hm
    rw [hm] at hst
    split at hstep <;> cases hstep
    exact h.setStop.moves ⟨hst.prepared, hst.opened, hst.closes⟩
  · rename_i hm
    rw [hm] at hst
    split at hstep <;> cases hstep
    · exact h.settle hst _
    · exact h.settle hst _
  · rename_i result hm
    rw [hm] at hst
    simp only [Option.ite_none_right_eq_some, Option.some.injEq] at hstep
    obtain ⟨hdone, rfl⟩ := hstep
    refine h.finish hst ?_ result
    unfold tasksDone at hdone
    split at hdone
    · rename_i htui hmonitor
      rw [hmonitor] at htasks
      exact ⟨by rw [htui]; rfl, by rw [hmonitor]; rfl, htasks.2, htasks.1⟩
    · rename_i htui hmonitor
      rw [hmonitor] at htasks
      exact ⟨by rw [htui]; rfl, by rw [hmonitor]; rfl, by rw [htasks.2]; rfl, by rw [collectorDone, htasks.1]⟩
    · cases hdone
  · cases hstep

/-- The monitor goes on from one wait to the next. -/
theorem Inv.finishing (h : s.Inv r) {phase : Monitor ε} (hmonitor : s.monitor = .running phase) (phase' : Monitor ε) :
    ({ s with monitor := .running phase' } : State σ ε).Inv r := by
  refine { h with
    tasks := trivial
    stage := h.stage.stays (not_allDone_monitor hmonitor) rfl (fun ho => ⟨ho.prepared, ho.opened, ho.closes⟩)
      (fun _ habsent => ?_) (fun _ htui => htui) }
  rw [hmonitor] at habsent
  cases habsent

theorem cancelMonitor_inv (h : s.Inv r) (hstep : s.cancelMonitor r = some s') : s'.Inv r := by
  have hst := h.stage
  have htasks := h.tasks
  unfold State.cancelMonitor at hstep
  split at hstep
  · rename_i hmonitor
    cases hstep
    rw [hmonitor] at htasks
    refine { h with
      tasks := ⟨?_, ?_⟩
      stage := hst.stays (not_allDone_created hmonitor) rfl (fun ho => ⟨ho.prepared, ho.opened, ho.closes⟩)
        (fun _ habsent => ?_) (fun _ htui => htui) }
    · rw [collectorDone, show ({ s with monitor := .done (.error .cancelled) } : State σ ε).collector =
          s.collector from rfl, htasks.1]
    · rw [show ({ s with monitor := .done (.error .cancelled) } : State σ ε).failure = s.failure from rfl, htasks.2]
      rfl
    · rw [habsent] at hmonitor; cases hmonitor
  · rename_i hmonitor
    split at hstep <;> cases hstep
    · exact h.finishing hmonitor _
    · refine { h with
        collector := map_inv h.collector rfl
        tasks := ?_
        stage := hst.stays (not_allDone_monitor hmonitor) rfl (fun ho => ⟨ho.prepared, ho.opened, ho.closes⟩)
          (fun _ habsent => habsent) (fun _ htui => htui) }
      rw [show (s.cancelCollector r).monitor = s.monitor from rfl, hmonitor]
      trivial
  · rename_i hmonitor
    cases hstep
    exact h.finishing hmonitor _
  · cases hstep

/-- The product validation ends the runner. -/
theorem Inv.ends_unprepared (h : s.Inv r) (hidle : s.Idle) (hcalls : s.calls = []) (hprepared : s.prepared = false)
    (hsignals : s.signals = false) (e : RunError ε) : ({ s with main := .done (.error e) } : State σ ε).Inv r := by
  have hd : s.AllDone r := hidle.allDone
  refine h.moves ⟨⟨hd.tui, hd.monitor, hd.failure, hd.collector⟩, fun hp => ?_, hsignals, fun hmem => ?_⟩
  · rw [hprepared] at hp; cases hp
  · rw [hcalls] at hmem; cases hmem

theorem cancelMain_inv (h : s.Inv r) (hstep : s.cancelMain r = some s') : s'.Inv r := by
  have hst := h.stage
  unfold State.cancelMain at hstep
  split at hstep
  · rename_i hm
    rw [hm] at hst
    cases hstep
    obtain ⟨hidle, hcalls, hprepared, hsignals⟩ := hst
    exact h.ends_unprepared hidle hcalls hprepared hsignals _
  · cases hstep
    exact h.fail ‹_› _
  · rename_i hm
    rw [hm] at hst
    cases hstep
    exact h.settle hst.1 _
  · rename_i hm
    rw [hm] at hst
    cases hstep
    exact h.settle hst _
  · rename_i hm
    rw [hm] at hst
    cases hstep
    exact h.settle hst _
  · rename_i hm
    rw [hm] at hst
    cases hstep
    exact h.settle hst _
  · rename_i hm
    rw [hm] at hst
    split at hstep
    · cases hstep
      exact h.setStop.moves ⟨hst.prepared, hst.opened, hst.closes⟩
    · exact cancelMonitor_inv h hstep
  · rename_i hm
    rw [hm] at hst
    split at hstep <;> cases hstep
    · exact h.settle hst _
    · refine { h with tasks := h.tasks.congr rfl rfl, stage := ?_ }
      rw [show ({ s with tuiCancelled := true } : State σ ε).main = s.main from rfl, hm]
      exact ⟨hst.prepared, hst.opened, hst.closes⟩
  · exact cancelMonitor_inv h hstep
  · cases hstep; exact h
  · cases hstep

/-- The monitor ends. -/
theorem Inv.monitorDone (h : s.Inv r) {phase : Monitor ε} (hmonitor : s.monitor = .running phase)
    (hf : s.failure.over = true) (hc : s.collectorDone r = true) (result : Result ε) :
    ({ s with monitor := .done result } : State σ ε).Inv r := by
  refine { h with
    tasks := ⟨hc, hf⟩
    stage := h.stage.stays (not_allDone_monitor hmonitor) rfl (fun ho => ⟨ho.prepared, ho.opened, ho.closes⟩)
      (fun _ habsent => ?_) (fun _ htui => htui) }
  rw [hmonitor] at habsent
  cases habsent

theorem monitorEnds_inv (h : s.Inv r) {phase : Monitor ε} (hmonitor : s.monitor = .running phase)
    (hf : s.failure.over = true) {result : Result ε}
    (hstep : (if s.collectorDone r then
        match s.main with
        | .collecting => some (({ s with monitor := .done result } : State σ ε).finish r result)
        | _ => some { s with monitor := .done result }
      else none) = some s') : s'.Inv r := by
  simp only [Option.ite_none_right_eq_some] at hstep
  obtain ⟨hc, hstep⟩ := hstep
  have hdone := h.monitorDone hmonitor hf hc result
  split at hstep <;> cases hstep
  · rename_i hm
    have hst := h.stage
    rw [hm] at hst
    exact hdone.finish ⟨hst.1.prepared, hst.1.opened, hst.1.closes⟩ ⟨by rw [hst.2]; rfl, rfl, hf, hc⟩ result
  · exact hdone

theorem resumeMonitor_inv (h : s.Inv r) {phase : Monitor ε} (hmonitor : s.monitor = .running phase)
    (hstep : s.resumeMonitor r phase = some s') : s'.Inv r := by
  unfold resumeMonitor at hstep
  split at hstep
  · obtain ⟨result, -, rfl⟩ := Option.map_eq_some_iff.1 hstep
    exact h.finishing hmonitor _
  · split at hstep
    · cases hstep
      exact h.setStop.finishing (s := s.setStop r) hmonitor _
    · obtain ⟨result, -, rfl⟩ := Option.map_eq_some_iff.1 hstep
      exact h.finishing hmonitor _
  · split at hstep <;> cases hstep
    · exact h.finishing hmonitor _
    · exact h.finishing hmonitor _
  · split at hstep
    · rename_i hf
      exact monitorEnds_inv h hmonitor (by rw [hf]; rfl) hstep
    · rename_i hf
      exact monitorEnds_inv h hmonitor (by rw [hf]; rfl) hstep
    · cases hstep

/-- A step of the collector. -/
theorem stepCollector_inv (h : s.Inv r) {c : σ} (hc : s.collector = some c) {i : ι}
    (hstep : s.stepCollector r c i = some s') : s'.Inv r := by
  obtain ⟨c', hc', rfl⟩ := Option.map_eq_some_iff.1 hstep
  have hdone : s.collectorDone r = true → (r.collector.result c').isSome = true := fun hd => by
    rw [collectorDone, hc] at hd
    obtain ⟨result, hresult⟩ := Option.isSome_iff_exists.1 hd
    rw [r.collector.ended_stays (h.collector c hc) hresult hc']
    rfl
  have hst := h.stage
  refine { h with collector := ?collector, tasks := ?tasks, stage := ?stage }
  case collector =>
    intro d hd
    cases hd
    exact r.collector.step_inv (h.collector c hc) hc'
  case tasks =>
    have htasks := h.tasks
    revert htasks
    cases hmonitor : s.monitor with
    | absent | created => intro htasks; rw [htasks.1] at hc; cases hc
    | running => exact fun _ => trivial
    | done result => exact fun htasks => ⟨hdone htasks.1, htasks.2⟩
  case stage =>
    cases hm : s.main <;> rw [hm] at hst
    case validating | opening => have := hst.1.collector; rw [hc] at this; cases this
    case closing =>
      obtain ⟨hd, hprepared, hstop, hcloses⟩ := hst
      exact ⟨⟨hd.tui, hd.monitor, hd.failure, hdone hd.collector⟩, hprepared, by simp [hstop], hcloses⟩
    case done =>
      obtain ⟨hd, hstop, hrest⟩ := hst
      exact ⟨⟨hd.tui, hd.monitor, hd.failure, hdone hd.collector⟩, fun hp => by simp [hstop hp], hrest⟩
    case starting | collecting => exact ⟨⟨hst.1.prepared, hst.1.opened, hst.1.closes⟩, hst.2⟩
    all_goals exact ⟨hst.prepared, hst.opened, hst.closes⟩

/-- A write starts while a call of the handler is not over, so that the collector is running. -/
theorem write_inv (h : s.Inv r) {c : σ} (hc : s.collector = some c) (hh : r.collector.handling c = true)
    (hout : r.output.isSome = true) : ({ s with calls := s.calls ++ [.writes] } : State σ ε).Inv r := by
  have hnot : ¬s.AllDone r := fun hd => by
    have hdone := hd.collector
    rw [collectorDone, hc] at hdone
    obtain ⟨result, hresult⟩ := Option.isSome_iff_exists.1 hdone
    rw [r.collector.ended_quiet (h.collector c hc) hresult] at hh
    cases hh
  have hopen := h.stage.open hnot
  have hcloses : .closes ∉ s.calls ++ [.writes] := by simp [hopen.closes]
  refine ⟨h.bracketed.snoc fun _ => ⟨hopen.opened hout, hopen.closes⟩, fun hn => ?_, h.unvalidated, h.collector,
    h.tasks.congr rfl rfl, h.stage.stays hnot rfl (fun ho => ⟨ho.prepared, ?_, hcloses⟩) (fun _ hm => hm)
      (fun _ ht => ht)⟩
  · rw [hn] at hout; cases hout
  · exact fun ho' => List.mem_append_left _ (ho.opened ho')

/-- The TUI ends. -/
theorem Inv.tuiDone (h : s.Inv r) (htui : s.tui = .running ()) (result : Result ε) :
    ({ s with tui := .done result } : State σ ε).Inv r := by
  refine { h with
    tasks := h.tasks.congr rfl rfl
    stage := h.stage.stays (not_allDone_tui htui) rfl (fun ho => ⟨ho.prepared, ho.opened, ho.closes⟩)
      (fun _ hm => hm) (fun _ habsent => ?_) }
  rw [htui] at habsent
  cases habsent

/-- The task of the monitor starts. -/
theorem Inv.startMonitor (h : s.Inv r) (hmonitor : s.monitor = .created) : (s.startMonitor r).Inv r := by
  refine { h with
    collector := startMonitor_collector s
    tasks := trivial
    stage := h.stage.stays (not_allDone_created hmonitor) rfl (fun ho => ⟨ho.prepared, ho.opened, ho.closes⟩)
      (fun _ habsent => ?_) (fun _ htui => htui) }
  rw [hmonitor] at habsent
  cases habsent

/-- The task of `wait_for_output_failure()` ends. -/
theorem Inv.failureEnds (h : s.Inv r) {phase : Monitor ε} (hmonitor : s.monitor = .running phase) (result : Result ε) :
    ({ s with failure := .done result } : State σ ε).Inv r := by
  refine { h with
    tasks := ?_
    stage := h.stage.stays (not_allDone_monitor hmonitor) rfl (fun ho => ⟨ho.prepared, ho.opened, ho.closes⟩)
      (fun _ hm => hm) (fun _ htui => htui) }
  rw [show ({ s with failure := .done result } : State σ ε).monitor = s.monitor from rfl, hmonitor]
  trivial

end State

variable [DecidableEq ι]

/-- **A step keeps the invariant.** -/
theorem step_inv (h : s.Inv r) {i : Input ι ε} (hstep : (machine r).step s i = some s') : s'.Inv r := by
  have hst := h.stage
  change step r s i = some s' at hstep
  cases i with
  | setStop => cases hstep; exact h.setStop
  | validated ok =>
    simp only [step] at hstep
    split at hstep <;> cases hstep
    rename_i hm
    rw [hm] at hst
    obtain ⟨hidle, hcalls, hprepared, hsignals⟩ := hst
    cases ok with
    | true => exact State.prepare_inv hidle hcalls
    | false => exact h.ends_unprepared hidle hcalls hprepared hsignals _
  | opened ok =>
    simp only [step] at hstep
    split at hstep <;> cases hstep
    rename_i hm
    rw [hm] at hst
    obtain ⟨hidle, hprepared, -, hcloses, hout⟩ := hst
    cases ok with
    | true =>
      refine State.body_inv (h.bracketed.snoc fun ha => ?_) (fun hn => ?_) ⟨hidle.tui, hidle.monitor, hidle.failure,
        hidle.collector⟩ ⟨hprepared, fun _ => List.mem_append_right _ (List.mem_singleton_self _), ?_⟩
      · rcases ha with ha | ha <;> cases ha
      · rw [hn] at hout; cases hout
      · simp [hcloses]
    | false => exact h.fail hm _
  | main => exact State.resumeMain_inv h hstep
  | cancelMain => exact State.cancelMain_inv h hstep
  | tuiEnds result =>
    simp only [step] at hstep
    split at hstep
    · cases hstep; exact h.tuiDone ‹_› _
    · cases hstep; exact h.tuiDone ‹_› _
    · simp only [Option.ite_none_right_eq_some, Option.some.injEq] at hstep
      obtain ⟨-, rfl⟩ := hstep
      exact h.tuiDone ‹_› _
    · cases hstep
  | startMonitor =>
    simp only [step] at hstep
    split at hstep <;> cases hstep
    exact h.startMonitor ‹_›
  | monitor =>
    simp only [step] at hstep
    split at hstep
    · exact State.resumeMonitor_inv h ‹_› hstep
    · cases hstep
  | cancelMonitor =>
    simp only [step, Option.ite_none_right_eq_some] at hstep
    exact State.cancelMonitor_inv h hstep.2
  | failure | cancelFailure =>
    simp only [step] at hstep
    split at hstep <;> cases hstep
    exact h.failureEnds ‹_› _
  | collector i =>
    simp only [step] at hstep
    split at hstep
    · split at hstep
      · cases hstep
      · exact State.stepCollector_inv h ‹_› hstep
    · cases hstep
  | write =>
    simp only [step] at hstep
    split at hstep
    · rename_i hc hout
      simp only [Option.ite_none_right_eq_some, Option.some.injEq] at hstep
      obtain ⟨hh, rfl⟩ := hstep
      exact State.write_inv h hc hh (by rw [hout]; rfl)
    · cases hstep
  | closed e =>
    have hleave : ∀ result result', s.main = .closing result → (s.leave result').Inv r := fun result result' hm => by
      rw [hm] at hst
      exact h.leave hst.1 hst.2.2.1 (fun _ => hst.2.2.2) result'
    simp only [step] at hstep
    split at hstep <;> cases hstep
    all_goals exact hleave _ _ ‹_›

omit [DecidableEq ι] in
theorem begun_inv (r : Runner σ ι ε) (stop : Bool) : (begun r stop).Inv r := by
  unfold begun
  split
  · rename_i hvalidates
    refine ⟨.nil, fun _ => rfl, fun hv => ?_, nofun, ⟨rfl, rfl⟩, ⟨rfl, rfl, rfl, rfl⟩, rfl, rfl, rfl⟩
    rw [hvalidates] at hv
    cases hv
  · exact State.prepare_inv ⟨rfl, rfl, rfl, rfl⟩ rfl

/-! ## Main result -/

/-- What a runner keeps to: the order of the calls on the output, and what it leaves behind. -/
structure Bracket (r : Runner σ ι ε) (s : State σ ε) : Prop where
  order : Bracketed s.calls
  once : ∀ result, s.main = .done result → s.calls.count .closes = if .opened ∈ s.calls then 1 else 0
  stop : ∀ result, s.main = .done result → s.stop = true ∨ r.validates = true ∧ s.prepared = false
  tasks : ∀ result, s.main = .done result → s.AllDone r
  signals : ∀ result, s.main = .done result → s.signals = false

theorem always_bracket (r : Runner σ ι ε) : Always r (Bracket r) := by
  intro stop is s h
  have hs := h.invariant (I := State.Inv r) (fun _ _ _ _ hI hstep => step_inv hI hstep) (begun_inv r stop)
  have hst := hs.stage
  refine ⟨hs.bracketed, fun result hm => ?_, fun result hm => ?_, fun result hm => ?_, fun result hm => ?_⟩ <;>
    rw [hm] at hst
  · obtain ⟨hle, hopened⟩ := hs.bracketed.count_closes
    split
    · rename_i hmem
      have := List.count_pos_iff.2 (hst.2.2.2 hmem)
      omega
    · rename_i hmem
      exact List.count_eq_zero_of_not_mem fun hc => hmem (hopened hc)
  · cases hp : s.prepared with
    | true => exact .inl (hst.2.1 hp)
    | false =>
      refine .inr ⟨?_, rfl⟩
      by_contra hv
      rw [hs.unvalidated (Bool.eq_false_iff.2 hv)] at hp
      cases hp
  · exact hst.1
  · exact hst.2.2.1

/-- **The output is bracketed**, in every run of `run_collector` in either mode and of `run_multi_stream_collection`. -/
theorem output_bracket :
    (∀ symbols limits policy mode output managesSignals,
      Always (runCollector symbols limits policy mode output managesSignals)
        (Bracket (runCollector symbols limits policy mode output managesSignals))) ∧
    ∀ c validatesSymbols failureAware managesSignals,
      Always (runMultiStreamCollection c validatesSymbols failureAware managesSignals)
        (Bracket (runMultiStreamCollection c validatesSymbols failureAware managesSignals)) :=
  ⟨fun _ _ _ _ _ _ => always_bracket _, fun _ _ _ _ => always_bracket _⟩

/-- `run_collector` in the mode `json`, with an output that has no background task. -/
def jsonRunner : Runner (Connection.State WireMessage) Connection.Input Connection.Exc :=
  runCollector [str "BTCUSDT"] ⟨1000, 4300⟩ defaultPolicy .json (some false) true

/-- A message arrives and is written before a signal stops the runner. -/
theorem output_bracket_signal : ∃ is, ∃ s : State (Connection.State WireMessage) Connection.Exc,
    (machine jsonRunner).Path (fun _ _ => True) (begun jsonRunner false) is s ∧ s.main = .done (.ok ()) ∧
    s.calls = [.opens, .opened, .writes, .closes] ∧ Bracket jsonRunner s := by
  obtain ⟨s, hs, hp⟩ := Machine.exists_path_of_check (M := machine jsonRunner) (P := fun _ _ => True)
    (p := fun s : State (Connection.State WireMessage) Connection.Exc =>
      decide (s.main = .done (.ok ()) ∧ s.calls = [.opens, .opened, .writes, .closes]))
    (begun jsonRunner false)
    [.opened true, .collector .start, .collector .connected, .collector .sent, .collector (.receives (.text (str "x"))),
      .collector (.settled 0), .write, .setStop, .collector .stopSeen, .collector (.settled 1), .collector .closed,
      .monitor, .monitor, .closed none] (by decide +kernel)
  obtain ⟨hm, hcalls⟩ := of_decide_eq_true hp
  exact ⟨_, s, hs, hm, hcalls, output_bracket.1 _ _ _ _ _ _ _ _ _ hs⟩

/-- `run_multi_stream_collection` with the products validated and an output that has background tasks. -/
def multiRunner : Runner MultiCollector.State MultiCollector.Input MultiCollector.CollectorError :=
  runMultiStreamCollection MultiCollector.btcusdtCollector true true true

/-- `run_multi_stream_collection` is cancelled in the product validation: it ends, and the stop event is not set. -/
theorem stop_unset_validating : ∃ is s, (machine multiRunner).Path (fun _ _ => True) (begun multiRunner false) is s ∧
    s.main = .done (.error .cancelled) ∧ s.stop = false :=
  ⟨[.cancelMain], _, .cons trivial rfl (.nil _), rfl, rfl⟩

end Runtime

end BinanceCollector
