import BinanceCollector.RuntimeBracket

/-!
# Which error leaves a runner

- `Cause`: the result that the monitor has found, read off the state: the failure of the output before anything else,
  and otherwise what the collector has returned or raised.
- `Told`, `step_told`: as long as the runner is not cancelled, its result is the error of the TUI if that has raised,
  and otherwise the cause.
- `first_error_leaves_iff`: the first error of the collector or the output leaves either runner, exactly if the TUI does
  not raise and no later failure of the output comes before it has been seen.
-/

namespace BinanceCollector.Runtime

open Steps Text Json

variable {σ ι ε : Type} {r : Runner σ ι ε} {s s' t : State σ ε}

namespace State

/-! ## Causes -/

/-- The TUI has not raised. -/
def Quiet (s : State σ ε) : Prop := ∀ e, s.tui ≠ .done (.error e)

/-- The result that the monitor finds. -/
def Cause (r : Runner σ ι ε) (s : State σ ε) (result : Result ε) : Prop :=
  (s.failure = .done (.error .outputFailed) ∧ result = .error .outputFailed) ∨
  (s.failure ≠ .done (.error .outputFailed) ∧ s.collected r = some result)

theorem Cause.mono {result : Result ε} (h : s.Cause r result) (hf : t.failure = s.failure)
    (hc : ∀ x, s.collected r = some x → t.collected r = some x) : t.Cause r result := by
  rcases h with ⟨hs, hr⟩ | ⟨hs, hr⟩
  · exact .inl ⟨hf.trans hs, hr⟩
  · exact .inr ⟨hf ▸ hs, hc _ hr⟩

/-- What the place where the runner waits says about its result. -/
def Told.At (r : Runner σ ι ε) (s : State σ ε) : Main ε → Prop
  | .abandoning e => s.tui = .done (.error e)
  | .awaitingTui result => s.monitor.over = true ∧ (s.Quiet → s.Cause r result)
  | .settling result | .closing result => s.monitor.over = true ∧ s.tui.over = true ∧ (s.Quiet → s.Cause r result) ∧
      ∀ e, s.tui = .done (.error e) → result = .error e
  | .done result => s.monitor.over = true ∧ s.tui.over = true ∧
      (¬(s.collector = none ∧ s.failure = .absent) → s.Quiet → s.Cause r result ∨ s.Cause r (.ok ())) ∧
      ∀ e, s.tui = .done (.error e) → result = .error e
  | _ => True

/-- What holds as long as the runner is not cancelled. -/
structure Told (r : Runner σ ι ε) (s : State σ ε) : Prop where
  tui : ∀ e, s.tui = .done (.error e) → e = .tui ∨ e = .cancelled
  awaiting : s.monitor = .running .awaiting → s.failure = .absent
  waiting : ∀ result, s.monitor = .running .waiting → s.failure = .done result → result = .error .outputFailed
  failing : s.monitor = .running .failing → s.failure = .done (.error .outputFailed)
  monitor : s.Quiet → ∀ result, s.monitor = .running (.finishing result) ∨ s.monitor = .done result → s.Cause r result
  main : Told.At r s s.main

/-- What has been found stays. -/
theorem Told.At.mono {m : Main ε} (h : Told.At r s m) (hmonitor : t.monitor = s.monitor) (htui : t.tui = s.tui)
    (hf : t.failure = s.failure) (hc : ∀ x, s.collected r = some x → t.collected r = some x)
    (hnone : s.collector = none → t.collector = none) : Told.At r t m := by
  have hcause : ∀ result, s.Cause r result → t.Cause r result := fun result hr => hr.mono hf hc
  have hquiet : t.Quiet → s.Quiet := fun hq e he => hq e (htui.trans he)
  cases m with
  | abandoning => exact htui.trans h
  | awaitingTui => exact ⟨hmonitor ▸ h.1, fun hq => hcause _ (h.2 (hquiet hq))⟩
  | settling | closing =>
    exact ⟨hmonitor ▸ h.1, htui ▸ h.2.1, fun hq => hcause _ (h.2.2.1 (hquiet hq)), fun e he => h.2.2.2 e (htui ▸ he)⟩
  | done =>
    refine ⟨hmonitor ▸ h.1, htui ▸ h.2.1, fun hs hq => ?_, fun e he => h.2.2.2 e (htui ▸ he)⟩
    exact (h.2.2.1 (fun hidle => hs ⟨hnone hidle.1, hf.trans hidle.2⟩) (hquiet hq)).imp (hcause _) (hcause _)
  | validating | opening | starting | watching | awaitingMonitor | collecting => trivial

theorem Told.mono (h : s.Told r) (hmonitor : t.monitor = s.monitor) (htui : t.tui = s.tui) (hf : t.failure = s.failure)
    (hc : ∀ x, s.collected r = some x → t.collected r = some x) (hm : Told.At r t t.main) : t.Told r := by
  refine ⟨htui ▸ h.tui, hmonitor ▸ hf ▸ h.awaiting, hmonitor ▸ hf ▸ h.waiting, hmonitor ▸ hf ▸ h.failing,
    fun hq result hr => ?_, hm⟩
  exact (h.monitor (fun e he => hq e (htui.trans he)) result (hmonitor ▸ hr)).mono hf hc

/-! ### The collector -/

/-- The result of the collector stays. -/
theorem collected_map {i : ι} (hs : ∀ c, s.collector = some c → r.collector.Inv c)
    (ht : t.collector = s.collector.map fun c => (r.collector.machine.step c i).getD c) :
    ∀ x, s.collected r = some x → t.collected r = some x := by
  intro x hx
  unfold collected at *
  rw [ht]
  cases hc : s.collector with
  | none => rw [hc] at hx; cases hx
  | some c =>
    rw [hc] at hx
    cases hresult : r.collector.result c with
    | none => simp [hresult] at hx
    | some result =>
      have hsome : r.collector.result ((r.collector.machine.step c i).getD c) = some result := by
        cases hstep : r.collector.machine.step c i with
        | none => exact hresult
        | some c' => exact r.collector.ended_stays (hs c hc) hresult hstep
      simpa [hresult, hsome] using hx

theorem collected_step (hs : ∀ c, s.collector = some c → r.collector.Inv c) {c : σ} (hc : s.collector = some c) {i : ι}
    (h : s.stepCollector r c i = some t) : ∀ x, s.collected r = some x → t.collected r = some x := by
  obtain ⟨c', hc', rfl⟩ := Option.map_eq_some_iff.1 h
  exact collected_map (i := i) hs (by rw [hc, Option.map_some, hc']; rfl)

theorem collector_none_map {f : σ → σ} (ht : t.collector = s.collector.map f) (hs : s.collector = none) :
    t.collector = none := by
  rw [ht, hs]
  rfl

theorem Told.setStop (hs : s.Inv r) (h : s.Told r) : (s.setStop r).Told r :=
  h.mono rfl rfl rfl (collected_map (i := r.collector.setStop) hs.collector rfl)
    (h.main.mono rfl rfl rfl (collected_map (i := r.collector.setStop) hs.collector rfl) (collector_none_map rfl))

/-! ### The runner -/

/-- The monitor waits for the collector, and for the output if that may fail. -/
theorem startMonitor_waits (r : Runner σ ι ε) (s : State σ ε) :
    ((s.startMonitor r).monitor = .running .waiting ∧ (s.startMonitor r).failure = .running ()) ∨
    ((s.startMonitor r).monitor = .running .awaiting ∧ (s.startMonitor r).failure = .absent) := by
  unfold State.startMonitor
  by_cases hout : r.output = some true
  · exact .inl ⟨by simp [hout], by simp [hout]⟩
  · exact .inr ⟨by simp [hout], by simp [hout]⟩

/-- A monitor that has just started has found nothing. -/
theorem Told.started (hw : (t.monitor = .running .waiting ∧ t.failure = .running ()) ∨
      (t.monitor = .running .awaiting ∧ t.failure = .absent))
    (htui : ∀ e, t.tui = .done (.error e) → e = .tui ∨ e = .cancelled) (hm : Told.At r t t.main) : t.Told r := by
  rcases hw with ⟨hmonitor, hf⟩ | ⟨hmonitor, hf⟩
  · refine ⟨htui, fun h => ?_, fun x _ h => ?_, fun h => ?_, fun _ x h => ?_, hm⟩
    · rw [hmonitor] at h; cases h
    · rw [hf] at h; cases h
    · rw [hmonitor] at h; cases h
    · rw [hmonitor] at h; rcases h with h | h <;> cases h
  · refine ⟨htui, fun _ => hf, fun x h => ?_, fun h => ?_, fun _ x h => ?_, hm⟩
    · rw [hmonitor] at h; cases h
    · rw [hmonitor] at h; cases h
    · rw [hmonitor] at h; rcases h with h | h <;> cases h

/-- Nothing has been found before the tasks are created. -/
theorem Told.idle (hmonitor : t.monitor = .absent ∨ t.monitor = .created)
    (htui : ∀ e, t.tui = .done (.error e) → e = .tui ∨ e = .cancelled) (hm : Told.At r t t.main) : t.Told r := by
  refine ⟨htui, fun h => ?_, fun x h => ?_, fun h => ?_, fun _ x h => ?_, hm⟩
  · rcases hmonitor with hmonitor | hmonitor <;> rw [hmonitor] at h <;> cases h
  · rcases hmonitor with hmonitor | hmonitor <;> rw [hmonitor] at h <;> cases h
  · rcases hmonitor with hmonitor | hmonitor <;> rw [hmonitor] at h <;> cases h
  · rcases hmonitor with hmonitor | hmonitor <;> rw [hmonitor] at h <;> rcases h with h | h <;> cases h

theorem body_told (hidle : s.Idle) : (s.body r).Told r := by
  unfold State.body
  split
  · exact .idle (.inl hidle.monitor) nofun trivial
  · refine .started (startMonitor_waits r s) (fun e h => ?_) trivial
    rw [show ({ s.startMonitor r with main := .collecting } : State σ ε).tui = s.tui from rfl, hidle.tui] at h
    cases h

theorem prepare_told (hidle : s.Idle) : (s.prepare r).Told r := by
  unfold State.prepare
  dsimp only
  split
  · exact .idle (.inl hidle.monitor) (fun e h => by rw [hidle.tui] at h; cases h) trivial
  · exact body_told ⟨hidle.tui, hidle.monitor, hidle.failure, hidle.collector⟩

/-- The runner ends before it has created a task. -/
theorem Told.early (hidle : t.Idle) {result : Result ε} (hm : t.main = .done result) : t.Told r := by
  have htui : ∀ e, t.tui ≠ .done (.error e) := fun e h => by rw [hidle.tui] at h; cases h
  refine .idle (.inl hidle.monitor) (fun e h => absurd h (htui e)) ?_
  rw [hm]
  exact ⟨by rw [hidle.monitor]; rfl, by rw [hidle.tui]; rfl, fun h => absurd ⟨hidle.collector, hidle.failure⟩ h,
    fun e h => absurd h (htui e)⟩

/-- The runner goes on to another wait. -/
theorem Told.moves (h : s.Told r) (hmonitor : t.monitor = s.monitor) (htui : t.tui = s.tui) (hf : t.failure = s.failure)
    (hc : t.collector = s.collector) (hm : Told.At r s t.main) : t.Told r := by
  have hcollected : ∀ x, s.collected r = some x → t.collected r = some x := fun x hx => by
    rw [collected, hc]
    exact hx
  exact h.mono hmonitor htui hf hcollected (hm.mono hmonitor htui hf hcollected fun hnone => hc.trans hnone)

theorem Told.finish (hs : s.Inv r) (h : s.Told r) {result : Result ε} (hm : Told.At r s (.settling result)) :
    (s.finish r result).Told r := by
  have hstop := h.setStop hs
  have hat : Told.At r (s.setStop r) (.settling result) :=
    hm.mono rfl rfl rfl (collected_map (i := r.collector.setStop) hs.collector rfl) (collector_none_map rfl)
  unfold State.finish
  cases r.output with
  | none =>
    exact hstop.moves rfl rfl rfl rfl ⟨hat.1, hat.2.1, fun _ hq => .inl (hat.2.2.1 hq), hat.2.2.2⟩
  | some aware => exact hstop.moves rfl rfl rfl rfl hat

/-- The `finally` of `_run_with_tui`. -/
theorem Told.settle (hs : s.Inv r) (h : s.Told r) {result : Result ε} (hm : Told.At r s (.settling result)) :
    (s.settle r result).Told r :=
  (h.setStop hs).moves rfl rfl rfl rfl
    (hm.mono rfl rfl rfl (collected_map (i := r.collector.setStop) hs.collector rfl) (collector_none_map rfl))

theorem resumeMain_told (hs : s.Inv r) (h : s.Told r) (hstep : s.resumeMain r = some s') : s'.Told r := by
  have hat := h.main
  unfold resumeMain at hstep
  split at hstep
  · cases hstep
    exact .idle (.inr rfl) h.tui trivial
  · split at hstep <;> cases hstep
    · exact h.moves rfl rfl rfl rfl trivial
    · exact h.moves rfl rfl rfl rfl ‹_›
    · exact (h.setStop hs).moves rfl rfl rfl rfl trivial
  · rename_i e hm
    rw [hm] at hat
    split at hstep <;> cases hstep
    rename_i hmonitor
    have htui : s.tui = .done (.error e) := hat
    refine h.settle hs ⟨by rw [hmonitor]; rfl, by rw [htui]; rfl, fun hq => absurd htui (hq e), fun e' he' => ?_⟩
    rw [htui] at he'
    cases he'
    rfl
  · split at hstep <;> cases hstep
    rename_i result hmonitor
    refine (h.setStop hs).moves rfl rfl rfl rfl ⟨?_, fun hq => (h.setStop hs).monitor hq result (.inr hmonitor)⟩
    rw [show (s.setStop r).monitor = s.monitor from rfl, hmonitor]
    rfl
  · rename_i result hm
    rw [hm] at hat
    split at hstep <;> cases hstep
    · rename_i htui
      refine h.settle hs ⟨hat.1, by rw [htui]; rfl, hat.2, fun e he => ?_⟩
      rw [htui] at he
      cases he
    · rename_i e htui
      refine h.settle hs ⟨hat.1, by rw [htui]; rfl, fun hq => absurd htui (hq e), fun e' he' => ?_⟩
      rw [htui] at he'
      cases he'
      rfl
  · rename_i result hm
    rw [hm] at hat
    simp only [Option.ite_none_right_eq_some, Option.some.injEq] at hstep
    obtain ⟨-, rfl⟩ := hstep
    exact h.finish hs hat
  · cases hstep

/-! ### The monitor -/

/-- While the monitor runs, only an error of the TUI is on its way. -/
theorem Told.At.busy {m : Main ε} (h : Told.At r s m) (hb : s.monitor.over = false) (htui : t.tui = s.tui) :
    Told.At r t m := by
  cases m with
  | abandoning => exact htui.trans h
  | awaitingTui | settling | closing | done => rw [h.1] at hb; cases hb
  | validating | opening | starting | watching | awaitingMonitor | collecting => trivial

theorem Told.finishing (h : s.Told r) {phase : Monitor ε} (hmonitor : s.monitor = .running phase) {result : Result ε}
    (hc : s.Quiet → s.Cause r result) : ({ s with monitor := .running (.finishing result) } : State σ ε).Told r := by
  refine ⟨h.tui, nofun, nofun, nofun, fun hq x hx => ?_, h.main.busy (by rw [hmonitor]; rfl) rfl⟩
  rcases hx with hx | hx <;> cases hx
  exact (hc hq).mono rfl fun _ hx => hx

/-- The monitor ends with the result it has found. -/
theorem Told.monitorDone (h : s.Told r) {result : Result ε} (hmonitor : s.monitor = .running (.finishing result)) :
    ({ s with monitor := .done result } : State σ ε).Told r := by
  refine ⟨h.tui, nofun, nofun, nofun, fun hq x hx => ?_, h.main.busy (by rw [hmonitor]; rfl) rfl⟩
  rcases hx with hx | hx <;> cases hx
  exact (h.monitor hq result (.inl hmonitor)).mono rfl fun _ hx => hx

theorem monitorEnds_told (hs : s.Inv r) (h : s.Told r) {result : Result ε}
    (hmonitor : s.monitor = .running (.finishing result)) (hf : s.failure.over = true)
    (hstep : (if s.collectorDone r then
        match s.main with
        | .collecting => some (({ s with monitor := .done result } : State σ ε).finish r result)
        | _ => some { s with monitor := .done result }
      else none) = some s') : s'.Told r := by
  simp only [Option.ite_none_right_eq_some] at hstep
  obtain ⟨hc, hstep⟩ := hstep
  have hdone := h.monitorDone hmonitor
  split at hstep <;> cases hstep
  · rename_i hm
    have hst := hs.stage
    rw [hm] at hst
    refine hdone.finish (hs.monitorDone hmonitor hf hc result) ⟨rfl, by rw [hst.2]; rfl, fun hq => ?_, fun e he => ?_⟩
    · exact hdone.monitor hq result (.inr rfl)
    · rw [hst.2] at he; cases he
  · exact hdone

theorem resumeMonitor_told (hs : s.Inv r) (h : s.Told r) {phase : Monitor ε} (hmonitor : s.monitor = .running phase)
    (hstep : s.resumeMonitor r phase = some s') : s'.Told r := by
  unfold resumeMonitor at hstep
  split at hstep
  · obtain ⟨result, hc, rfl⟩ := Option.map_eq_some_iff.1 hstep
    refine h.finishing hmonitor fun _ => .inr ⟨?_, hc⟩
    rw [h.awaiting hmonitor]
    nofun
  · split at hstep
    · rename_i x hf
      cases hstep
      obtain rfl := h.waiting x hmonitor hf
      have hstop := h.setStop hs
      have hbusy : (s.setStop r).monitor.over = false := by
        rw [show (s.setStop r).monitor = s.monitor from rfl, hmonitor]
        rfl
      refine ⟨hstop.tui, nofun, nofun, fun _ => hf, fun _ x hx => ?_, hstop.main.busy hbusy rfl⟩
      rcases hx with hx | hx <;> cases hx
    · rename_i hnot
      obtain ⟨result, hc, rfl⟩ := Option.map_eq_some_iff.1 hstep
      exact h.finishing hmonitor fun _ => .inr ⟨hnot _, hc⟩
  · have hfailed := h.failing hmonitor
    split at hstep <;> cases hstep
    · rename_i e _ hf _
      rw [hfailed] at hf
      cases hf
      exact h.finishing hmonitor fun _ => .inl ⟨hfailed, rfl⟩
    · rename_i hf _
      rw [hfailed] at hf
      cases hf
  · rename_i result
    split at hstep
    · rename_i hf
      exact monitorEnds_told hs h hmonitor (by rw [hf]; rfl) hstep
    · rename_i hf
      exact monitorEnds_told hs h hmonitor (by rw [hf]; rfl) hstep
    · cases hstep

/-- The monitor is cancelled after the TUI has raised. -/
theorem cancelMonitor_told (hs : s.Inv r) (h : s.Told r) (hraised : ¬s.Quiet) (hstep : s.cancelMonitor r = some s') :
    s'.Told r := by
  unfold State.cancelMonitor at hstep
  split at hstep
  · rename_i hmonitor
    cases hstep
    exact ⟨h.tui, nofun, nofun, nofun, fun hq => absurd hq hraised, h.main.busy (by rw [hmonitor]; rfl) rfl⟩
  · rename_i hmonitor
    split at hstep <;> cases hstep
    · exact h.finishing hmonitor fun hq => absurd hq hraised
    · have hc := collected_map (r := r) (t := s.cancelCollector r) (i := r.collector.cancel) hs.collector rfl
      exact h.mono rfl rfl rfl hc (h.main.mono rfl rfl rfl hc (collector_none_map rfl))
  · rename_i hmonitor
    cases hstep
    exact h.finishing hmonitor fun hq => absurd hq hraised
  · cases hstep

/-! ### The TUI, the output and its failure -/

/-- The TUI ends. -/
theorem Told.tuiDone (h : s.Told r) (htui : s.tui = .running ()) {result : Result ε}
    (hr : ∀ e, result = .error e → e = .tui ∨ e = .cancelled) :
    ({ s with tui := .done result } : State σ ε).Told r := by
  have hquiet : s.Quiet := fun e he => by rw [htui] at he; cases he
  refine ⟨fun e he => hr e (by cases he; rfl), h.awaiting, h.waiting, h.failing,
    fun _ x hx => (h.monitor hquiet x hx).mono rfl fun _ hx => hx, ?_⟩
  have hat := h.main
  dsimp only
  revert hat
  cases s.main with
  | abandoning e => exact fun hat => absurd hat (hquiet e)
  | awaitingTui => exact fun hat => ⟨hat.1, fun _ => (hat.2 hquiet).mono rfl fun _ hx => hx⟩
  | settling | closing | done => intro hat; have := hat.2.1; rw [htui] at this; cases this
  | validating | opening | starting | watching | awaitingMonitor | collecting => exact fun _ => trivial

/-- The output fails while the monitor waits for that. -/
theorem Told.failure (h : s.Told r) (hmonitor : s.monitor = .running .waiting) :
    ({ s with failure := .done (.error .outputFailed) } : State σ ε).Told r := by
  refine ⟨h.tui, fun hm => ?_, fun x _ hx => ?_, fun _ => rfl, fun _ x hx => ?_,
    h.main.busy (by rw [hmonitor]; rfl) rfl⟩
  · rw [hmonitor] at hm; cases hm
  · cases hx; rfl
  · rw [hmonitor] at hx; rcases hx with hx | hx <;> cases hx

/-- The monitor cancels the task that waits for the failure of the output. -/
theorem Told.cancelFailure (h : s.Told r) {result : Result ε} (hmonitor : s.monitor = .running (.finishing result))
    (hf : s.failure = .running ()) : ({ s with failure := .done (.error .cancelled) } : State σ ε).Told r := by
  refine ⟨h.tui, fun hm => ?_, fun x hm => ?_, fun hm => ?_, fun hq x hx => ?_, h.main.busy (by rw [hmonitor]; rfl) rfl⟩
  · rw [hmonitor] at hm; cases hm
  · rw [hmonitor] at hm; cases hm
  · rw [hmonitor] at hm; cases hm
  · rcases h.monitor hq x hx with ⟨hfailed, -⟩ | ⟨-, hc⟩
    · rw [hf] at hfailed; cases hfailed
    · exact .inr ⟨nofun, hc⟩

/-- The output is closed, or fails to. -/
theorem Told.closed (h : s.Told r) {result result' : Result ε} (hm : s.main = .closing result)
    (hr : result' = result ∨ result = .ok ()) : (s.leave result').Told r := by
  have hat := h.main
  rw [hm] at hat
  refine h.moves rfl rfl rfl rfl ⟨hat.1, hat.2.1, fun _ hq => ?_, fun e he => ?_⟩
  · rcases hr with rfl | rfl
    · exact .inl (hat.2.2.1 hq)
    · exact .inr (hat.2.2.1 hq)
  · have hresult := hat.2.2.2 e he
    rcases hr with rfl | rfl
    · exact hresult
    · cases hresult

/-! ### What stays -/

/-- What the collector and the output have done stays. -/
structure Kept (r : Runner σ ι ε) (s t : State σ ε) : Prop where
  collected : ∀ x, s.collected r = some x → t.collected r = some x
  failure : t.failure = s.failure

theorem Kept.of_eq (hc : t.collector = s.collector) (hf : t.failure = s.failure) : Kept r s t :=
  ⟨fun x hx => by rw [State.collected, hc]; exact hx, hf⟩

theorem Kept.of_map {i : ι} (hs : s.Inv r)
    (hc : t.collector = s.collector.map fun c => (r.collector.machine.step c i).getD c) (hf : t.failure = s.failure) :
    Kept r s t :=
  ⟨collected_map (i := i) hs.collector hc, hf⟩

theorem Kept.finish (hs : s.Inv r) (result : Result ε) : Kept r s (s.finish r result) := by
  unfold State.finish
  split <;> exact .of_map (i := r.collector.setStop) hs rfl rfl

theorem resumeMain_kept (hs : s.Inv r) (hstep : s.resumeMain r = some s') : Kept r s s' := by
  unfold resumeMain at hstep
  split at hstep
  · cases hstep; exact .of_eq rfl rfl
  · split at hstep <;> cases hstep
    · exact .of_eq rfl rfl
    · exact .of_eq rfl rfl
    · exact .of_map (i := r.collector.setStop) hs rfl rfl
  · split at hstep <;> cases hstep
    exact .of_map (i := r.collector.setStop) hs rfl rfl
  · split at hstep <;> cases hstep
    exact .of_map (i := r.collector.setStop) hs rfl rfl
  · split at hstep <;> cases hstep <;> exact .of_map (i := r.collector.setStop) hs rfl rfl
  · simp only [Option.ite_none_right_eq_some, Option.some.injEq] at hstep
    obtain ⟨-, rfl⟩ := hstep
    exact .finish hs _
  · cases hstep

theorem monitorEnds_kept (hs : s.Inv r) {phase : Monitor ε} (hmonitor : s.monitor = .running phase)
    (hf : s.failure.over = true) {result : Result ε}
    (hstep : (if s.collectorDone r then
        match s.main with
        | .collecting => some (({ s with monitor := .done result } : State σ ε).finish r result)
        | _ => some { s with monitor := .done result }
      else none) = some s') : Kept r s s' := by
  simp only [Option.ite_none_right_eq_some] at hstep
  obtain ⟨hc, hstep⟩ := hstep
  split at hstep <;> cases hstep
  · have hkept : Kept r { s with monitor := .done result } _ := .finish (hs.monitorDone hmonitor hf hc result) result
    exact ⟨hkept.collected, hkept.failure⟩
  · exact .of_eq rfl rfl

theorem resumeMonitor_kept (hs : s.Inv r) {phase : Monitor ε} (hmonitor : s.monitor = .running phase)
    (hstep : s.resumeMonitor r phase = some s') : Kept r s s' := by
  unfold resumeMonitor at hstep
  split at hstep
  · obtain ⟨result, -, rfl⟩ := Option.map_eq_some_iff.1 hstep
    exact .of_eq rfl rfl
  · split at hstep
    · cases hstep
      exact .of_map (i := r.collector.setStop) hs rfl rfl
    · obtain ⟨result, -, rfl⟩ := Option.map_eq_some_iff.1 hstep
      exact .of_eq rfl rfl
  · split at hstep <;> cases hstep <;> exact .of_eq rfl rfl
  · split at hstep
    · rename_i hf
      exact monitorEnds_kept hs hmonitor (by rw [hf]; rfl) hstep
    · rename_i hf
      exact monitorEnds_kept hs hmonitor (by rw [hf]; rfl) hstep
    · cases hstep

theorem cancelMonitor_kept (hs : s.Inv r) (hstep : s.cancelMonitor r = some s') : Kept r s s' := by
  unfold State.cancelMonitor at hstep
  split at hstep
  · cases hstep; exact .of_eq rfl rfl
  · split at hstep <;> cases hstep
    · exact .of_eq rfl rfl
    · exact .of_map (i := r.collector.cancel) hs rfl rfl
  · cases hstep; exact .of_eq rfl rfl
  · cases hstep

end State

/-! ## Every run -/

/-- The runner waits in `dispatcher.close()`. -/
def State.closing (s : State σ ε) : Bool :=
  match s.main with
  | .closing _ => true
  | _ => false

theorem State.closing_iff : s.closing = true ↔ ∃ result, s.main = .closing result := by
  unfold State.closing
  cases s.main <;> simp

/-- The runner is not cancelled before it closes the output. -/
def Uncancelled (s : State σ ε) : Input ι ε → Prop
  | .cancelMain => s.closing = true
  | _ => True

/-- The collector or the output fails, and the other has not failed before. -/
inductive Fails (r : Runner σ ι ε) (s : State σ ε) : Input ι ε → State σ ε → RunError ε → Prop
  | collector {i : ι} {s' : State σ ε} {e : ε} : s.collected r = none → s'.collected r = some (.error (.collector e)) →
      s.failure ≠ .done (.error .outputFailed) → Fails r s (.collector i) s' (.collector e)
  | output {s' : State σ ε} : (∀ e, s.collected r ≠ some (.error e)) → Fails r s .failure s' .outputFailed

/-- The failure can be read off the state. -/
def Found (r : Runner σ ι ε) (s : State σ ε) : RunError ε → Prop
  | .collector e => s.collected r = some (.error (.collector e))
  | .outputFailed => s.failure = .done (.error .outputFailed)
  | _ => False

theorem Found.kept {e : RunError ε} (h : Found r s e) (hk : State.Kept r s t) : Found r t e := by
  cases e with
  | collector e => exact hk.collected _ h
  | outputFailed => exact hk.failure.trans h
  | cancelled | validation | outputOpen | tui | outputClose => cases h

/-- Nothing has failed before the tasks are created. -/
theorem Found.not_idle {e : RunError ε} (h : Found r s e) (hc : s.collector = none) (hf : s.failure = .absent) :
    False := by
  cases e with
  | collector e =>
    have hcollected : s.collected r = some (.error (.collector e)) := h
    rw [State.collected, hc] at hcollected
    cases hcollected
  | outputFailed => rw [show s.failure = _ from h] at hf; cases hf
  | cancelled | validation | outputOpen | tui | outputClose => cases h

variable [DecidableEq ι]

/-- **A step keeps what has been told.** -/
theorem step_told (hs : s.Inv r) (h : s.Told r) {i : Input ι ε} (hi : Uncancelled s i)
    (hstep : (machine r).step s i = some s') : s'.Told r := by
  have hst := hs.stage
  have hat := h.main
  change step r s i = some s' at hstep
  cases i with
  | setStop => cases hstep; exact h.setStop hs
  | validated ok =>
    simp only [step] at hstep
    split at hstep <;> cases hstep
    rename_i hm
    rw [hm] at hst
    cases ok with
    | true => exact State.prepare_told hst.1
    | false =>
      obtain ⟨hidle, -⟩ := hst
      exact .early ⟨hidle.tui, hidle.monitor, hidle.failure, hidle.collector⟩ rfl
  | opened ok =>
    simp only [step] at hstep
    split at hstep <;> cases hstep
    rename_i hm
    rw [hm] at hst
    obtain ⟨hidle, -⟩ := hst
    cases ok with
    | true => exact State.body_told ⟨hidle.tui, hidle.monitor, hidle.failure, hidle.collector⟩
    | false =>
      have hidle := hidle.setStop (r := r)
      exact .early ⟨hidle.tui, hidle.monitor, hidle.failure, hidle.collector⟩ rfl
  | main => exact State.resumeMain_told hs h hstep
  | cancelMain =>
    obtain ⟨result, hm⟩ := State.closing_iff.1 hi
    simp only [step, State.cancelMain, hm, Option.some.injEq] at hstep
    exact hstep ▸ h
  | tuiEnds result =>
    simp only [step] at hstep
    split at hstep
    · cases hstep; exact h.tuiDone ‹_› fun e he => by cases he
    · cases hstep; exact h.tuiDone ‹_› fun e he => by cases he; exact .inl rfl
    · simp only [Option.ite_none_right_eq_some, Option.some.injEq] at hstep
      obtain ⟨-, rfl⟩ := hstep
      exact h.tuiDone ‹_› fun e he => by cases he; exact .inr rfl
    · cases hstep
  | startMonitor =>
    simp only [step] at hstep
    split at hstep <;> cases hstep
    rename_i hmonitor
    exact .started (State.startMonitor_waits r s) h.tui (hat.busy (by rw [hmonitor]; rfl) rfl)
  | monitor =>
    simp only [step] at hstep
    split at hstep
    · exact State.resumeMonitor_told hs h ‹_› hstep
    · cases hstep
  | cancelMonitor =>
    simp only [step, Option.ite_none_right_eq_some] at hstep
    obtain ⟨hm, hstep⟩ := hstep
    unfold State.monitorCancelled at hm
    split at hm
    · rename_i e hmain
      rw [hmain] at hat
      exact State.cancelMonitor_told hs h (fun hq => hq e hat) hstep
    · rename_i hmain
      rw [hmain] at hat
      -- the monitor has ended before
      obtain ⟨hover, -⟩ := hat
      unfold State.cancelMonitor at hstep
      split at hstep <;> rename_i hmonitor
      · rw [hmonitor] at hover; cases hover
      · rw [hmonitor] at hover; cases hover
      · rw [hmonitor] at hover; cases hover
      · cases hstep
    · cases hm
  | failure =>
    simp only [step] at hstep
    split at hstep <;> cases hstep
    exact h.failure ‹_›
  | cancelFailure =>
    simp only [step] at hstep
    split at hstep <;> cases hstep
    exact h.cancelFailure ‹_› ‹_›
  | collector i =>
    simp only [step] at hstep
    split at hstep
    · rename_i c hc
      split at hstep
      · cases hstep
      · have hcollected := State.collected_step hs.collector hc hstep
        obtain ⟨c', -, rfl⟩ := Option.map_eq_some_iff.1 hstep
        exact h.mono rfl rfl rfl hcollected (hat.mono rfl rfl rfl hcollected fun hn => by rw [hn] at hc; cases hc)
    · cases hstep
  | write =>
    simp only [step] at hstep
    split at hstep
    · simp only [Option.ite_none_right_eq_some, Option.some.injEq] at hstep
      obtain ⟨-, rfl⟩ := hstep
      exact h.moves rfl rfl rfl rfl hat
    · cases hstep
  | closed e =>
    simp only [step] at hstep
    split at hstep <;> cases hstep
    · exact h.closed ‹_› (.inl rfl)
    · exact h.closed ‹_› (.inr rfl)
    · exact h.closed ‹_› (.inr rfl)
    · exact h.closed ‹_› (.inl rfl)
    · exact h.closed ‹_› (.inl rfl)

theorem step_found (hs : s.Inv r) {e : RunError ε} (h : Found r s e) {i : Input ι ε} (hi : Uncancelled s i)
    (hstep : (machine r).step s i = some s') : Found r s' e := by
  have hst := hs.stage
  have htasks := hs.tasks
  change step r s i = some s' at hstep
  cases i with
  | setStop => cases hstep; exact h.kept (.of_map (i := r.collector.setStop) hs rfl rfl)
  | validated ok | opened ok =>
    simp only [step] at hstep
    split at hstep <;> cases hstep
    rename_i hm
    rw [hm] at hst
    obtain ⟨hidle, -⟩ := hst
    exact (h.not_idle hidle.collector hidle.failure).elim
  | main => exact h.kept (State.resumeMain_kept hs hstep)
  | cancelMain =>
    obtain ⟨result, hm⟩ := State.closing_iff.1 hi
    simp only [step, State.cancelMain, hm, Option.some.injEq] at hstep
    exact hstep ▸ h
  | tuiEnds result =>
    simp only [step] at hstep
    split at hstep
    · cases hstep; exact h.kept (.of_eq rfl rfl)
    · cases hstep; exact h.kept (.of_eq rfl rfl)
    · simp only [Option.ite_none_right_eq_some, Option.some.injEq] at hstep
      obtain ⟨-, rfl⟩ := hstep
      exact h.kept (.of_eq rfl rfl)
    · cases hstep
  | startMonitor =>
    simp only [step] at hstep
    split at hstep <;> cases hstep
    rename_i hmonitor
    rw [hmonitor] at htasks
    exact (h.not_idle htasks.1 htasks.2).elim
  | monitor =>
    simp only [step] at hstep
    split at hstep
    · exact h.kept (State.resumeMonitor_kept hs ‹_› hstep)
    · cases hstep
  | cancelMonitor =>
    simp only [step, Option.ite_none_right_eq_some] at hstep
    exact h.kept (State.cancelMonitor_kept hs hstep.2)
  | failure =>
    simp only [step] at hstep
    split at hstep <;> cases hstep
    cases e with
    | collector e => exact h
    | outputFailed => rfl
    | cancelled | validation | outputOpen | tui | outputClose => cases h
  | cancelFailure =>
    simp only [step] at hstep
    split at hstep <;> cases hstep
    rename_i hf hmonitor
    cases e with
    | collector e => exact h
    | outputFailed => rw [show s.failure = _ from h] at hf; cases hf
    | cancelled | validation | outputOpen | tui | outputClose => cases h
  | collector i =>
    simp only [step] at hstep
    split at hstep
    · rename_i c hc
      split at hstep
      · cases hstep
      · have hcollected := State.collected_step hs.collector hc hstep
        obtain ⟨c', -, rfl⟩ := Option.map_eq_some_iff.1 hstep
        exact h.kept ⟨hcollected, rfl⟩
    · cases hstep
  | write =>
    simp only [step] at hstep
    split at hstep
    · simp only [Option.ite_none_right_eq_some, Option.some.injEq] at hstep
      obtain ⟨-, rfl⟩ := hstep
      exact h.kept (.of_eq rfl rfl)
    · cases hstep
  | closed e =>
    simp only [step] at hstep
    split at hstep <;> cases hstep <;> exact h.kept (.of_eq rfl rfl)

/-- A failure is found in the state it leads to. -/
theorem Fails.found {i : Input ι ε} {e : RunError ε} (h : Fails r s i s' e) (hstep : (machine r).step s i = some s') :
    Found r s' e := by
  change step r s i = some s' at hstep
  cases h with
  | collector _ hafter => exact hafter
  | output =>
    simp only [step] at hstep
    split at hstep <;> cases hstep
    rfl

omit [DecidableEq ι] in
theorem begun_told (r : Runner σ ι ε) (stop : Bool) : (begun r stop).Told r := by
  unfold begun
  split
  · exact .idle (.inl rfl) nofun trivial
  · exact State.prepare_told ⟨rfl, rfl, rfl, rfl⟩

/-! ## Main result -/

/-- The first error of the collector or the output leaves the runner, exactly if the TUI does not raise, and the output
does not fail in the background before the failure of the collector has been seen. -/
def FirstErrorLeaves (r : Runner σ ι ε) : Prop :=
  ∀ stop pre s i s' e post s'' result, (machine r).Path Uncancelled (begun r stop) pre s → Uncancelled s i →
    (machine r).step s i = some s' → Fails r s i s' e → (machine r).Path Uncancelled s' post s'' →
      s''.main = .done result →
        (result = .error e ↔ s''.Quiet ∧ (s''.failure = .done (.error .outputFailed) → e = .outputFailed))

theorem firstErrorLeaves (r : Runner σ ι ε) : FirstErrorLeaves r := by
  intro stop pre s i s' e post s'' result hpre hi hstep hfails hpost hm
  have hkeep : ∀ u j u', Uncancelled u j → (u.Inv r ∧ u.Told r) → (machine r).step u j = some u' →
      u'.Inv r ∧ u'.Told r :=
    fun u j u' hj hu hst => ⟨step_inv hu.1 hst, step_told hu.1 hu.2 hj hst⟩
  have hbefore := hpre.invariant (I := fun u => u.Inv r ∧ u.Told r) hkeep ⟨begun_inv r stop, begun_told r stop⟩
  obtain ⟨⟨hinv, htold⟩, hfound⟩ := hpost.invariant (I := fun u => (u.Inv r ∧ u.Told r) ∧ Found r u e)
    (fun u j u' hj hu hst => ⟨hkeep u j u' hj hu.1 hst, step_found hu.1.1 hu.2 hj hst⟩)
    ⟨hkeep s i s' hi hbefore hstep, hfails.found hstep⟩
  have hat := htold.main
  rw [hm] at hat
  obtain ⟨-, -, hcause, hraised⟩ := hat
  have hcause := hcause fun hidle => hfound.not_idle hidle.1 hidle.2
  constructor
  · rintro rfl
    have hquiet : s''.Quiet := fun e' he' => by
      have htui := htold.tui e' he'
      cases hraised e' he'
      rcases htui with rfl | rfl <;> cases hfound
    refine ⟨hquiet, fun hf => ?_⟩
    rcases hcause hquiet with (⟨-, hr⟩ | ⟨hf', -⟩) | (⟨-, hr⟩ | ⟨hf', -⟩)
    · cases hr; rfl
    · exact absurd hf hf'
    · cases hr
    · exact absurd hf hf'
  · rintro ⟨hquiet, hfirst⟩
    cases e with
    | collector e =>
      have hf : s''.failure ≠ .done (.error .outputFailed) := fun hf => by cases hfirst hf
      have hc : s''.collected r = some (.error (.collector e)) := hfound
      rcases hcause hquiet with (⟨hf', -⟩ | ⟨-, hc'⟩) | (⟨hf', -⟩ | ⟨-, hc'⟩)
      · exact absurd hf' hf
      · exact Option.some.inj (hc'.symm.trans hc)
      · exact absurd hf' hf
      · cases hc'.symm.trans hc
    | outputFailed =>
      have hf : s''.failure = .done (.error .outputFailed) := hfound
      rcases hcause hquiet with (⟨-, hr⟩ | ⟨hf', -⟩) | (⟨-, hr⟩ | ⟨hf', -⟩)
      · exact hr
      · exact absurd hf hf'
      · cases hr
      · exact absurd hf hf'
    | cancelled | validation | outputOpen | tui | outputClose => cases hfound

/-- **Which error leaves the runner**, in every run of `run_collector` and of `run_multi_stream_collection` that is not
cancelled. -/
theorem first_error_leaves_iff (symbols : List Str) (limits : Limits) (policy : ReconnectPolicy) (mode : Mode)
    (output : Option Bool) (c : MultiStreamCollector) (validatesSymbols failureAware managesSignals : Bool) :
    FirstErrorLeaves (runCollector symbols limits policy mode output managesSignals) ∧
      FirstErrorLeaves (runMultiStreamCollection c validatesSymbols failureAware managesSignals) :=
  ⟨firstErrorLeaves _, firstErrorLeaves _⟩

instance Uncancelled.decidable (s : State σ ε) : DecidablePred (Uncancelled (ι := ι) s)
  | .cancelMain => inferInstanceAs (Decidable (s.closing = true))
  | .setStop | .validated _ | .opened _ | .main | .tuiEnds _ | .startMonitor | .monitor | .cancelMonitor | .failure
  | .cancelFailure | .collector _ | .write | .closed _ => isTrue trivial

/-- `run_collector` in the mode `tui`, with an output that has no background task. -/
def tuiRunner : Runner (Connection.State WireMessage) Connection.Input Connection.Exc :=
  runCollector [str "BTCUSDT"] ⟨1000, 4300⟩ defaultPolicy .tui (some false) true

/-- A message arrives, and its handler raises. -/
def handlerRaises : List (Input Connection.Input Connection.Exc) :=
  [.opened true, .main, .startMonitor, .collector .start, .collector .connected, .collector .sent,
    .collector (.receives (.text (str "x"))), .collector (.settled 0), .write, .collector .handlerRaises,
    .collector (.settled 1)]

/-- The runner shuts down after the error of the collector; the TUI and `output.close()` end like this. -/
def shutsDown (tui : Result Connection.Exc) (close : Option (RunError Connection.Exc)) :
    List (Input Connection.Input Connection.Exc) :=
  [.monitor, .monitor, .main, .main, .tuiEnds tui, .main, .main, .closed close]

/-- The last step of the collector is a failure if it ends the collector with the error of the handler. -/
theorem handlerRaises_fails (post : List (Input Connection.Input Connection.Exc))
    {p : State (Connection.State WireMessage) Connection.Exc → Bool}
    (h : ((machine tuiRunner).check Uncancelled (begun tuiRunner false) handlerRaises).any (fun s =>
      decide (s.collected tuiRunner = none ∧ s.failure ≠ .done (.error .outputFailed)) &&
      ((machine tuiRunner).step s (.collector .closed)).any fun s' =>
        decide (s'.collected tuiRunner = some (.error (.collector .messageHandler))) &&
        ((machine tuiRunner).check Uncancelled s' post).any p) = true) :
    ∃ s s' s'', (machine tuiRunner).Path Uncancelled (begun tuiRunner false) handlerRaises s ∧
      (machine tuiRunner).step s (.collector .closed) = some s' ∧
      Fails tuiRunner s (.collector .closed) s' (.collector .messageHandler) ∧
      (machine tuiRunner).Path Uncancelled s' post s'' ∧ p s'' = true := by
  obtain ⟨s, hs, hp⟩ := Machine.exists_path_of_check _ _ h
  simp only [Bool.and_eq_true, decide_eq_true_eq] at hp
  obtain ⟨⟨hnone, hf⟩, hp⟩ := hp
  obtain ⟨s', hstep, hp'⟩ := (Option.any_eq_true _ _).1 hp
  simp only [Bool.and_eq_true, decide_eq_true_eq] at hp'
  obtain ⟨s'', hs'', hp''⟩ := Machine.exists_path_of_check _ _ hp'.2
  exact ⟨s, s', s'', hs, hstep, .collector hnone hp'.1 hf, hs'', hp''⟩

/-- The error of the handler leaves the runner although `output.close()` fails. -/
theorem first_error_leaves_iff_failedClose : ∃ s s' s'' : State (Connection.State WireMessage) Connection.Exc,
    (machine tuiRunner).Path Uncancelled (begun tuiRunner false) handlerRaises s ∧
    (machine tuiRunner).step s (.collector .closed) = some s' ∧
    Fails tuiRunner s (.collector .closed) s' (.collector .messageHandler) ∧
    (machine tuiRunner).Path Uncancelled s' (shutsDown (.ok ()) (some .outputClose)) s'' ∧
    s''.main = .done (.error (.collector .messageHandler)) := by
  obtain ⟨s, s', s'', hpre, hstep, hfails, hpost, hp⟩ := handlerRaises_fails (shutsDown (.ok ()) (some .outputClose))
    (p := fun s => decide (s.tui = .done (.ok ()) ∧ s.failure = .absent) &&
      (match s.main with | .done _ => true | _ => false))
    (by decide +kernel)
  simp only [Bool.and_eq_true, decide_eq_true_eq] at hp
  obtain ⟨⟨htui, hf⟩, hdone⟩ := hp
  split at hdone
  · rename_i result hm
    have hleaves := (first_error_leaves_iff [str "BTCUSDT"] ⟨1000, 4300⟩ defaultPolicy .tui (some false)
      MultiCollector.btcusdtCollector true true true).1 false _ s (.collector .closed) s' _ _ s'' result hpre trivial
      hstep hfails hpost hm
    have hfirst := hleaves.2 ⟨fun e he => ?_, fun hfailed => ?_⟩
    · exact ⟨s, s', s'', hpre, hstep, hfails, hpost, hm.trans (congrArg Main.done hfirst)⟩
    · rw [htui] at he; cases he
    · rw [hf] at hfailed; cases hfailed
  · cases hdone

/-- The TUI raises at its last refresh, after the handler has raised: the error of the TUI leaves the runner. -/
theorem tui_hides_error : ∃ s s' s'' : State (Connection.State WireMessage) Connection.Exc,
    (machine tuiRunner).Path Uncancelled (begun tuiRunner false) handlerRaises s ∧
    (machine tuiRunner).step s (.collector .closed) = some s' ∧
    Fails tuiRunner s (.collector .closed) s' (.collector .messageHandler) ∧
    (machine tuiRunner).Path Uncancelled s' (shutsDown (.error .tui) none) s'' ∧ s''.main = .done (.error .tui) := by
  obtain ⟨s, s', s'', hpre, hstep, hfails, hpost, hp⟩ := handlerRaises_fails (shutsDown (.error .tui) none)
    (p := fun s => decide (s.main = .done (.error .tui))) (by decide +kernel)
  exact ⟨s, s', s'', hpre, hstep, hfails, hpost, of_decide_eq_true hp⟩

end BinanceCollector.Runtime
