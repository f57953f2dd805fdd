import BinanceCollector.RuntimeErrors

/-!
# What a step of a runner does

- `Turn`, `turn_of_step`: the collector advances or stays, what the tasks have found stays found, and success goes from
  the collector to the monitor and from the monitor to the runner.
- **`returns_normally`**: a runner that returns, although it may have been cancelled, has seen its collector return and
  no failure of the output.
-/

namespace BinanceCollector.Runtime

open Steps Text Json

variable {σ ι ε : Type} {r : Runner σ ι ε} {s s' t : State σ ε} {i : Input ι ε}

/-- After the monitor has returned, without an error so far. -/
def Main.succeeds : Main ε → Bool
  | .awaitingTui (.ok ()) | .settling (.ok ()) | .closing (.ok ()) | .done (.ok ()) => true
  | _ => false

/-- The monitor returns or has returned. -/
def Monitored : Task (Monitor ε) (RunError ε) → Prop
  | .running (.finishing (.ok ())) | .done (.ok ()) => True
  | _ => False

theorem monitored_ok {result : Result ε} (h : Monitored (.running (.finishing result) : Task (Monitor ε) (RunError ε))) :
    result = .ok () := by
  match result, h with
  | .ok (), _ => rfl

/-- The collector, or the one that will be created. -/
def State.current (r : Runner σ ι ε) (s : State σ ε) : σ := s.collector.getD r.collector.created

/-- The collector stays or takes a step. -/
def Advances (r : Runner σ ι ε) (i : Input ι ε) (c c' : σ) : Prop :=
  c' = c ∨ ∃ j, (j = r.collector.setStop ∨ j = r.collector.cancel ∨ i = .collector j) ∧
    r.collector.machine.step c j = some c'

/-- What a step does. -/
structure Turn (r : Runner σ ι ε) (s : State σ ε) (i : Input ι ε) (s' : State σ ε) : Prop where
  current : Advances r i (s.current r) (s'.current r)
  collected : ∀ x, s.collected r = some x → s'.collected r = some x
  failure : ∀ x, s.failure = .done x → s'.failure = .done x
  fails : s'.failure = .done (.error .outputFailed) → s.failure = .done (.error .outputFailed) ∨
    i = .failure ∧ ¬Monitored s.monitor ∧ ¬Monitored s'.monitor
  monitor : Monitored s'.monitor → Monitored s.monitor ∨
    s.failure ≠ .done (.error .outputFailed) ∧ s.collected r = some (.ok ())
  returned : s.monitor = .done (.ok ()) → s'.monitor = .done (.ok ())
  awaiting : s'.monitor = .running .awaiting → s'.failure = .absent ∨
    s.monitor = .running .awaiting ∧ s'.failure = s.failure
  main : s'.main.succeeds = true → s.main.succeeds = true ∨ s'.monitor = .done (.ok ())
  done : s'.main = .done (.ok ()) → s.main = .done (.ok ()) ∨ i = .closed none ∨ r.output = none
  closes : .closes ∈ s'.calls → .closes ∈ s.calls ∨ ∃ result, s'.main = .closing result

namespace State

theorem advances_map {j : ι} (hj : j = r.collector.setStop ∨ j = r.collector.cancel)
    (ht : t.collector = s.collector.map fun c => (r.collector.machine.step c j).getD c) :
    Advances r i (s.current r) (t.current r) := by
  unfold current
  rw [ht]
  cases s.collector with
  | none => exact .inl rfl
  | some c =>
    cases hc : r.collector.machine.step c j with
    | none => exact .inl (by simp [hc])
    | some c' => exact .inr ⟨j, hj.imp_right .inl, by simp [hc]⟩

theorem advances_eq (ht : t.collector = s.collector) : Advances r i (s.current r) (t.current r) :=
  .inl (by rw [current, ht, current])

/-! ### Steps that leave the tasks alone -/

/-- The runner goes on, and the collector is the same or asked to stop or to end. -/
theorem turn_of_kept (hk : Kept r s t) (ha : Advances r i (s.current r) (t.current r))
    (hmonitor : Monitored t.monitor → Monitored s.monitor ∨
      s.failure ≠ .done (.error .outputFailed) ∧ s.collected r = some (.ok ()))
    (hreturned : s.monitor = .done (.ok ()) → t.monitor = .done (.ok ()))
    (hawaiting : t.monitor = .running .awaiting → s.monitor = .running .awaiting)
    (hmain : t.main.succeeds = true → s.main.succeeds = true ∨ t.monitor = .done (.ok ()))
    (hdone : t.main = .done (.ok ()) → s.main = .done (.ok ()) ∨ i = .closed none ∨ r.output = none)
    (hcalls : .closes ∈ t.calls → .closes ∈ s.calls ∨ ∃ result, t.main = .closing result) : Turn r s i t where
  current := ha
  collected := hk.collected
  failure _ hx := hk.failure.trans hx
  fails hf := .inl (hk.failure ▸ hf)
  monitor := hmonitor
  returned := hreturned
  awaiting h := .inr ⟨hawaiting h, hk.failure⟩
  main := hmain
  done := hdone
  closes := hcalls

/-- The runner goes on to another wait. -/
theorem turn_of_moves (hc : t.collector = s.collector) (hf : t.failure = s.failure) (hm : t.monitor = s.monitor)
    (hmain : t.main.succeeds = true → s.main.succeeds = true ∨ s.monitor = .done (.ok ()))
    (hdone : t.main = .done (.ok ()) → s.main = .done (.ok ()) ∨ i = .closed none ∨ r.output = none)
    (hcalls : .closes ∈ t.calls → .closes ∈ s.calls ∨ ∃ result, t.main = .closing result) : Turn r s i t :=
  turn_of_kept (.of_eq hc hf) (advances_eq hc) (fun h => .inl (hm ▸ h)) (fun h => hm.trans h) (fun h => hm ▸ h)
    (fun h => (hmain h).imp_right fun hd => hm.trans hd) hdone hcalls

/-- The same, with the stop event set. -/
theorem turn_of_stops (hs : s.Inv r) (hc : t.collector = (s.setStop r).collector) (hf : t.failure = s.failure)
    (hm : t.monitor = s.monitor) (hmain : t.main.succeeds = true → s.main.succeeds = true ∨ s.monitor = .done (.ok ()))
    (hdone : t.main = .done (.ok ()) → s.main = .done (.ok ()) ∨ i = .closed none ∨ r.output = none)
    (hcalls : .closes ∈ t.calls → .closes ∈ s.calls ∨ ∃ result, t.main = .closing result) : Turn r s i t :=
  turn_of_kept (.of_map (i := r.collector.setStop) hs hc hf) (advances_map (.inl rfl) hc) (fun h => .inl (hm ▸ h))
    (fun h => hm.trans h) (fun h => hm ▸ h) (fun h => (hmain h).imp_right fun hd => hm.trans hd) hdone hcalls

theorem finish_turn (hs : s.Inv r) {result : Result ε}
    (hr : result = .ok () → s.main.succeeds = true ∨ s.monitor = .done (.ok ())) : Turn r s i (s.finish r result) := by
  have hmain : ∀ m : Main ε, (m = .closing result ∨ m = .done result) → m.succeeds = true →
      s.main.succeeds = true ∨ s.monitor = .done (.ok ()) := by
    rintro m (rfl | rfl) h <;>
    · match result, h with
      | .ok (), _ => exact hr rfl
  unfold State.finish
  split
  · exact turn_of_stops hs rfl rfl rfl (hmain _ (.inl rfl)) nofun fun _ => .inr ⟨result, rfl⟩
  · exact turn_of_stops hs rfl rfl rfl (hmain _ (.inr rfl)) (fun _ => .inr (.inr ‹_›)) .inl

theorem settle_turn (hs : s.Inv r) {result : Result ε}
    (hr : result = .ok () → s.main.succeeds = true ∨ s.monitor = .done (.ok ())) : Turn r s i (s.settle r result) := by
  refine turn_of_stops hs rfl rfl rfl (fun h => ?_) nofun .inl
  match result, h with
  | .ok (), _ => exact hr rfl

theorem resumeMain_turn (hs : s.Inv r) (hstep : s.resumeMain r = some s') : Turn r s i s' := by
  unfold resumeMain at hstep
  split at hstep
  · rename_i hm
    have hst := hs.stage
    rw [hm] at hst
    cases hstep
    refine turn_of_kept (.of_eq rfl rfl) (advances_eq rfl) nofun (fun h => ?_) nofun nofun nofun .inl
    rw [hst.2] at h
    cases h
  · split at hstep <;> cases hstep
    · exact turn_of_moves rfl rfl rfl nofun nofun .inl
    · exact turn_of_moves rfl rfl rfl nofun nofun .inl
    · exact turn_of_stops hs rfl rfl rfl nofun nofun .inl
  · split at hstep <;> cases hstep
    exact settle_turn hs nofun
  · split at hstep <;> cases hstep
    rename_i result hmonitor
    refine turn_of_stops hs rfl rfl rfl (fun h => .inr ?_) nofun .inl
    match result, h with
    | .ok (), _ => exact hmonitor
  · rename_i result hm
    split at hstep <;> cases hstep
    · exact settle_turn hs fun hr => .inl (by rw [hm, hr]; rfl)
    · exact settle_turn hs nofun
  · rename_i result hm
    simp only [Option.ite_none_right_eq_some, Option.some.injEq] at hstep
    obtain ⟨-, rfl⟩ := hstep
    exact finish_turn hs fun hr => .inl (by rw [hm, hr]; rfl)
  · cases hstep

/-! ### The monitor -/

/-- The monitor goes on with a result. -/
theorem monitor_turn {phase phase' : Monitor ε} (hmonitor : s.monitor = .running phase)
    (hnew : phase' ≠ .awaiting) (hphase : Monitored (.running phase' : Task (Monitor ε) (RunError ε)) →
      s.failure ≠ .done (.error .outputFailed) ∧ s.collected r = some (.ok ())) :
    Turn r s i { s with monitor := .running phase' } :=
  turn_of_kept (.of_eq rfl rfl) (advances_eq rfl) (fun h => .inr (hphase h))
    (fun h => by rw [hmonitor] at h; cases h) (fun h => absurd (Task.running.inj h) hnew) .inl .inl .inl

theorem monitorEnds_turn (hs : s.Inv r) {result : Result ε} (hmonitor : s.monitor = .running (.finishing result))
    (hf : s.failure.over = true)
    (hstep : (if s.collectorDone r then
        match s.main with
        | .collecting => some (({ s with monitor := .done result } : State σ ε).finish r result)
        | _ => some { s with monitor := .done result }
      else none) = some s') : Turn r s i s' := by
  have hmon : Monitored (.done result : Task (Monitor ε) (RunError ε)) → Monitored s.monitor := fun h => by
    rw [hmonitor]
    match result, h with
    | .ok (), _ => trivial
  have hnot : s.monitor ≠ .done (.ok ()) := by rw [hmonitor]; exact nofun
  simp only [Option.ite_none_right_eq_some] at hstep
  obtain ⟨hc, hstep⟩ := hstep
  split at hstep <;> cases hstep
  · have hturn : Turn r { s with monitor := .done result } i _ :=
      finish_turn (hs.monitorDone hmonitor hf hc result) fun hr => .inr (congrArg Task.done hr)
    refine ⟨hturn.current, hturn.collected, hturn.failure, fun h => ?_, fun h => ?_, fun h => absurd h hnot,
      fun h => ?_, fun h => ?_, hturn.done, hturn.closes⟩
    · rcases hturn.fails h with hf | ⟨-, -, hf⟩
      · exact .inl hf
      · -- `finish` leaves the failure alone
        refine .inl ?_
        unfold State.finish at h
        split at h <;> exact h
    · exact (hturn.monitor h).imp_left hmon
    · rcases hturn.awaiting h with ha | ⟨ha, -⟩
      · exact .inl ha
      · cases ha
    · rcases hturn.main h with hm | hd
      · exact .inl hm
      · exact .inr hd
  · exact turn_of_kept (.of_eq rfl rfl) (advances_eq rfl) (fun h => .inl (hmon h)) (fun h => absurd h hnot) nofun .inl .inl
      .inl

theorem resumeMonitor_turn (hs : s.Inv r) (haware : s.monitor = .running .awaiting → s.failure = .absent)
    {phase : Monitor ε} (hmonitor : s.monitor = .running phase) (hstep : s.resumeMonitor r phase = some s') :
    Turn r s i s' := by
  unfold resumeMonitor at hstep
  split at hstep
  · obtain ⟨result, hc, rfl⟩ := Option.map_eq_some_iff.1 hstep
    refine monitor_turn hmonitor nofun fun h => ⟨?_, monitored_ok h ▸ hc⟩
    rw [haware hmonitor]
    exact nofun
  · split at hstep
    · cases hstep
      exact turn_of_kept (.of_map (i := r.collector.setStop) hs rfl rfl) (advances_map (.inl rfl) rfl) nofun
        (fun h => by rw [hmonitor] at h; cases h) nofun .inl .inl .inl
    · rename_i hnot
      obtain ⟨result, hc, rfl⟩ := Option.map_eq_some_iff.1 hstep
      exact monitor_turn hmonitor nofun fun h => ⟨hnot _, monitored_ok h ▸ hc⟩
  · split at hstep <;> cases hstep
    · exact monitor_turn hmonitor nofun nofun
    · rename_i hf hc
      refine monitor_turn hmonitor nofun fun h => ⟨?_, monitored_ok h ▸ hc⟩
      rw [hf]
      exact nofun
  · split at hstep
    · rename_i hf
      exact monitorEnds_turn hs hmonitor (by rw [hf]; rfl) hstep
    · rename_i hf
      exact monitorEnds_turn hs hmonitor (by rw [hf]; rfl) hstep
    · cases hstep

theorem cancelMonitor_turn (hs : s.Inv r) (hstep : s.cancelMonitor r = some s') : Turn r s i s' := by
  unfold State.cancelMonitor at hstep
  split at hstep
  · rename_i hmonitor
    cases hstep
    exact turn_of_kept (.of_eq rfl rfl) (advances_eq rfl) nofun (fun h => by rw [hmonitor] at h; cases h) nofun .inl
      .inl .inl
  · rename_i hmonitor
    split at hstep <;> cases hstep
    · exact monitor_turn hmonitor nofun nofun
    · exact turn_of_kept (.of_map (i := r.collector.cancel) hs rfl rfl) (advances_map (.inr rfl) rfl) .inl id id .inl .inl
        .inl
  · rename_i hmonitor
    cases hstep
    exact monitor_turn hmonitor nofun nofun
  · cases hstep

theorem cancelMain_turn (hs : s.Inv r) (hstep : s.cancelMain r = some s') : Turn r s i s' := by
  unfold State.cancelMain at hstep
  split at hstep
  · cases hstep; exact turn_of_moves rfl rfl rfl nofun nofun .inl
  · cases hstep; exact turn_of_stops hs rfl rfl rfl nofun nofun .inl
  · cases hstep; exact settle_turn hs nofun
  · cases hstep; exact settle_turn hs nofun
  · cases hstep; exact settle_turn hs nofun
  · cases hstep; exact settle_turn hs nofun
  · split at hstep
    · cases hstep; exact turn_of_stops hs rfl rfl rfl nofun nofun .inl
    · exact cancelMonitor_turn hs hstep
  · split at hstep <;> cases hstep
    · exact settle_turn hs nofun
    · exact turn_of_moves rfl rfl rfl .inl .inl .inl
  · exact cancelMonitor_turn hs hstep
  · cases hstep; exact turn_of_moves rfl rfl rfl .inl .inl .inl
  · cases hstep

/-- The monitor starts when there is no task that it will create. -/
theorem startMonitor_turn (hidle : s.collector = none) (hf : s.failure = .absent) (hm : ¬Monitored s.monitor)
    (hc : t.collector = (s.startMonitor r).collector) (hf' : t.failure = (s.startMonitor r).failure)
    (hm' : t.monitor = (s.startMonitor r).monitor) (hmain : t.main.succeeds = true → s.main.succeeds = true)
    (hdone : t.main = .done (.ok ()) → s.main = .done (.ok ())) (hcalls : .closes ∈ t.calls → .closes ∈ s.calls) :
    Turn r s i t := by
  have hwaits : (t.monitor = .running .waiting ∧ t.failure = .running ()) ∨
      (t.monitor = .running .awaiting ∧ t.failure = .absent) := by
    rw [hm', hf']
    exact startMonitor_waits r s
  have hnot : ¬Monitored t.monitor := by
    rcases hwaits with ⟨h, -⟩ | ⟨h, -⟩ <;> rw [h] <;> exact nofun
  refine ⟨?_, fun x hx => ?_, fun x hx => ?_, fun h => ?_, fun h => absurd h hnot, fun h => ?_, fun h => ?_,
    fun h => .inl (hmain h), fun h => .inl (hdone h), fun h => .inl (hcalls h)⟩
  · have hcurrent : t.current r = if s.stop then stopCollector r r.collector.created else r.collector.created := by
      rw [current, hc]
      rfl
    rw [hcurrent, current, hidle]
    split
    · unfold stopCollector
      cases hstop : r.collector.machine.step r.collector.created r.collector.setStop with
      | none => exact .inl rfl
      | some c' => exact .inr ⟨_, .inl rfl, hstop⟩
    · exact .inl rfl
  · rw [collected, hidle] at hx; cases hx
  · rw [hf] at hx; cases hx
  · rcases hwaits with ⟨-, h'⟩ | ⟨-, h'⟩ <;> rw [h'] at h <;> cases h
  · rw [h] at hm; exact absurd trivial hm
  · rcases hwaits with ⟨h', -⟩ | ⟨-, h'⟩
    · rw [h'] at h; cases h
    · exact .inl h'

/-- The body of the `try` begins. -/
theorem body_turn (hidle : s.Idle) (hcalls : .closes ∉ s.calls) : Turn r s i (s.body r) := by
  have hm : ¬Monitored s.monitor := by rw [hidle.monitor]; exact nofun
  unfold State.body
  split
  · exact turn_of_moves rfl rfl rfl nofun nofun .inl
  · exact startMonitor_turn hidle.collector hidle.failure hm rfl rfl rfl nofun nofun fun h => absurd h hcalls

theorem prepare_turn (hidle : s.Idle) (hcalls : s.calls = []) : Turn r s i (s.prepare r) := by
  unfold State.prepare
  dsimp only
  split
  · refine turn_of_moves rfl rfl rfl nofun nofun fun h => ?_
    simp [hcalls] at h
  · have hbody : Turn r { s with prepared := true, signals := r.managesSignals } i _ :=
      body_turn ⟨hidle.tui, hidle.monitor, hidle.failure, hidle.collector⟩ (by simp [hcalls])
    exact ⟨hbody.current, hbody.collected, hbody.failure, hbody.fails, hbody.monitor, hbody.returned, hbody.awaiting,
      hbody.main, hbody.done, hbody.closes⟩

end State

variable [DecidableEq ι]

/-- **What a step does.** -/
theorem turn_of_step (hs : s.Inv r) (haware : s.monitor = .running .awaiting → s.failure = .absent)
    (hstep : (machine r).step s i = some s') : Turn r s i s' := by
  have hst := hs.stage
  have htasks := hs.tasks
  change step r s i = some s' at hstep
  cases i with
  | setStop => cases hstep; exact State.turn_of_stops hs rfl rfl rfl .inl .inl .inl
  | validated ok =>
    simp only [step] at hstep
    split at hstep <;> cases hstep
    rename_i hm
    rw [hm] at hst
    cases ok with
    | true => exact State.prepare_turn hst.1 hst.2.1
    | false => exact State.turn_of_moves rfl rfl rfl (fun h => by cases h) (fun h => by cases h) .inl
  | opened ok =>
    simp only [step] at hstep
    split at hstep <;> cases hstep
    rename_i hm
    rw [hm] at hst
    obtain ⟨hidle, -, -, hcloses, -⟩ := hst
    cases ok with
    | true =>
      have hbody : Turn r { s with calls := s.calls ++ [OutputCall.opened] } (.opened true) _ :=
        State.body_turn ⟨hidle.tui, hidle.monitor, hidle.failure, hidle.collector⟩ (by simp [hcloses])
      refine ⟨hbody.current, hbody.collected, hbody.failure, hbody.fails, hbody.monitor, hbody.returned,
        hbody.awaiting, hbody.main, hbody.done, fun h => ?_⟩
      rcases hbody.closes h with h | h
      · simp [hcloses] at h
      · exact .inr h
    | false => exact State.turn_of_stops hs rfl rfl rfl (fun h => by cases h) (fun h => by cases h) .inl
  | main => exact State.resumeMain_turn hs hstep
  | cancelMain => exact State.cancelMain_turn hs hstep
  | tuiEnds result =>
    simp only [step] at hstep
    split at hstep
    · cases hstep; exact State.turn_of_moves rfl rfl rfl .inl .inl .inl
    · cases hstep; exact State.turn_of_moves rfl rfl rfl .inl .inl .inl
    · simp only [Option.ite_none_right_eq_some, Option.some.injEq] at hstep
      obtain ⟨-, rfl⟩ := hstep
      exact State.turn_of_moves rfl rfl rfl .inl .inl .inl
    · cases hstep
  | startMonitor =>
    simp only [step] at hstep
    split at hstep <;> cases hstep
    rename_i hmonitor
    rw [hmonitor] at htasks
    exact State.startMonitor_turn htasks.1 htasks.2 (by simp [hmonitor, Monitored]) rfl rfl rfl id id id
  | monitor =>
    simp only [step] at hstep
    split at hstep
    · exact State.resumeMonitor_turn hs haware ‹_› hstep
    · cases hstep
  | cancelMonitor =>
    simp only [step, Option.ite_none_right_eq_some] at hstep
    exact State.cancelMonitor_turn hs hstep.2
  | failure =>
    simp only [step] at hstep
    split at hstep <;> cases hstep
    rename_i hf hmonitor
    have hnot : ¬Monitored s.monitor := by simp [hmonitor, Monitored]
    refine ⟨.inl rfl, fun _ hx => hx, fun x hx => ?_, fun _ => .inr ⟨rfl, hnot, hnot⟩, fun h => absurd h hnot, id,
      fun h => ?_, .inl, .inl, .inl⟩
    · rw [hf] at hx; cases hx
    · rw [hmonitor] at h; cases h
  | cancelFailure =>
    simp only [step] at hstep
    split at hstep <;> cases hstep
    rename_i hf hmonitor
    refine ⟨.inl rfl, fun _ hx => hx, fun x hx => ?_, by simp, .inl, id, fun h => ?_, .inl, .inl, .inl⟩
    · rw [hf] at hx; cases hx
    · rw [hmonitor] at h; cases h
  | collector j =>
    simp only [step] at hstep
    split at hstep
    · rename_i c hc
      split at hstep
      · cases hstep
      · have hcollected := State.collected_step hs.collector hc hstep
        obtain ⟨c', hc', rfl⟩ := Option.map_eq_some_iff.1 hstep
        refine State.turn_of_kept ⟨hcollected, rfl⟩ (.inr ⟨j, .inr (.inr rfl), ?_⟩) .inl id id .inl .inl .inl
        rw [State.current, hc]
        exact hc'
    · cases hstep
  | write =>
    simp only [step] at hstep
    split at hstep
    · simp only [Option.ite_none_right_eq_some, Option.some.injEq] at hstep
      obtain ⟨-, rfl⟩ := hstep
      exact State.turn_of_moves rfl rfl rfl .inl .inl fun h => .inl (by simpa using h)
    · cases hstep
  | closed e =>
    simp only [step] at hstep
    split at hstep <;> cases hstep
    · rename_i result hm
      refine State.turn_of_moves rfl rfl rfl (fun h => .inl ?_) (fun _ => .inr (.inl rfl)) .inl
      rw [hm]
      cases result with
      | ok => rfl
      | error => cases h
    all_goals exact State.turn_of_moves rfl rfl rfl (fun h => by cases h) (fun h => by cases h) .inl

/-! ## Success -/

/-- What success rests on. -/
structure Succeeds (r : Runner σ ι ε) (s : State σ ε) : Prop where
  awaiting : s.monitor = .running .awaiting → s.failure = .absent
  unfailed : Monitored s.monitor → s.failure ≠ .done (.error .outputFailed)
  collected : Monitored s.monitor → s.collected r = some (.ok ())
  main : s.main.succeeds = true → s.monitor = .done (.ok ())

omit [DecidableEq ι] in
theorem Succeeds.turn (h : Succeeds r s) (ht : Turn r s i s') : Succeeds r s' where
  awaiting hm := by
    rcases ht.awaiting hm with hf | ⟨hm', hf⟩
    · exact hf
    · exact hf.trans (h.awaiting hm')
  unfailed hm hf := by
    rcases ht.fails hf with hf | ⟨-, -, hnot⟩
    · rcases ht.monitor hm with hm | ⟨hf', -⟩
      · exact h.unfailed hm hf
      · exact hf' hf
    · exact hnot hm
  collected hm := by
    rcases ht.monitor hm with hm | ⟨-, hc⟩
    · exact ht.collected _ (h.collected hm)
    · exact ht.collected _ hc
  main hm := by
    rcases ht.main hm with hm | hm
    · exact ht.returned (h.main hm)
    · exact hm

omit [DecidableEq ι] in
theorem begun_succeeds (r : Runner σ ι ε) (stop : Bool) : Succeeds r (begun r stop) := by
  unfold begun
  split
  · exact ⟨nofun, nofun, nofun, nofun⟩
  · have hidle : Succeeds r ({ main := .validating, stop := stop } : State σ ε) := ⟨nofun, nofun, nofun, nofun⟩
    exact hidle.turn (i := .main) (State.prepare_turn ⟨rfl, rfl, rfl, rfl⟩ rfl)

theorem step_succeeds (hs : s.Inv r) (h : Succeeds r s) (hstep : (machine r).step s i = some s') : Succeeds r s' :=
  h.turn (turn_of_step hs h.awaiting hstep)

/-- A runner that has returned has seen its collector return and no failure of the output. -/
def ReturnsNormally (r : Runner σ ι ε) (s : State σ ε) : Prop :=
  s.main = .done (.ok ()) → s.collected r = some (.ok ()) ∧ s.failure ≠ .done (.error .outputFailed)

theorem always_returnsNormally (r : Runner σ ι ε) : Always r (ReturnsNormally r) := by
  intro stop is s h hm
  obtain ⟨-, hs⟩ := h.invariant (I := fun s => s.Inv r ∧ Succeeds r s)
    (fun _ _ _ _ hI hstep => ⟨step_inv hI.1 hstep, step_succeeds hI.1 hI.2 hstep⟩)
    ⟨begun_inv r stop, begun_succeeds r stop⟩
  have hmon : Monitored s.monitor := by
    rw [hs.main (by rw [hm]; rfl)]
    trivial
  exact ⟨hs.collected hmon, hs.unfailed hmon⟩

/-- **A runner that returns** has seen its collector return and no failure of the output: `run_collector`,
`run_multi_stream_collection`, and any other runner of a collector with their interface, in every run. -/
theorem returns_normally :
    (∀ symbols limits policy mode output managesSignals,
      Always (runCollector symbols limits policy mode output managesSignals)
        (ReturnsNormally (runCollector symbols limits policy mode output managesSignals))) ∧
    (∀ c validatesSymbols failureAware managesSignals,
      Always (runMultiStreamCollection c validatesSymbols failureAware managesSignals)
        (ReturnsNormally (runMultiStreamCollection c validatesSymbols failureAware managesSignals))) ∧
    ∀ (σ ι ε : Type) [DecidableEq ι] (r : Runner σ ι ε), Always r (ReturnsNormally r) :=
  ⟨fun _ _ _ _ _ _ => always_returnsNormally _, fun _ _ _ _ => always_returnsNormally _,
    fun _ _ _ _ r => always_returnsNormally r⟩

/-- `run_collector` in the mode `tui`, with an output that has a background task. -/
def failureAwareRunner : Runner (Connection.State WireMessage) Connection.Input Connection.Exc :=
  runCollector [str "BTCUSDT"] ⟨1000, 4300⟩ defaultPolicy .tui (some true) true

/-- The TUI is left while the collector receives. -/
theorem returns_normally_tui : ∃ is, ∃ s : State (Connection.State WireMessage) Connection.Exc,
    (machine failureAwareRunner).Path (fun _ _ => True) (begun failureAwareRunner false) is s ∧
    s.main = .done (.ok ()) ∧ s.failure = .done (.error .cancelled) ∧
    s.collected failureAwareRunner = some (.ok ()) := by
  obtain ⟨s, hs, hp⟩ := Machine.exists_path_of_check (M := machine failureAwareRunner) (P := fun _ _ => True)
    (p := fun s : State (Connection.State WireMessage) Connection.Exc =>
      decide (s.main = .done (.ok ()) ∧ s.failure = .done (.error .cancelled)))
    (begun failureAwareRunner false)
    [.opened true, .main, .startMonitor, .collector .start, .collector .connected, .collector .sent, .tuiEnds (.ok ()),
      .main, .collector .stopSeen, .collector (.settled 0), .collector .closed, .monitor, .cancelFailure, .monitor,
      .main, .main, .main, .closed none] (by decide +kernel)
  obtain ⟨hm, hfailure⟩ := of_decide_eq_true hp
  have hreturns := returns_normally.1 [str "BTCUSDT"] ⟨1000, 4300⟩ defaultPolicy .tui (some true) true
  exact ⟨_, s, hs, hm, hfailure, (hreturns _ _ s hs hm).1⟩

end BinanceCollector.Runtime
