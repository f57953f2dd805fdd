import BinanceCollector.MultiRuntimeCustody

/-!
# No loss on normal termination

When `run_multi_stream_collection` returns, the monitor has returned before, and the collector before it, and all
connections before that; so no `write()` waits, and no failure of the output has been reported elsewhere, when
`close()` begins. Then `close()` returns only after the six workers have drained their queues.

- `Safe`: custody of the messages of all connections, in every state.
- `Supervised`: in which order the tasks end, in every state.
- `no_loss`: what the store holds when `run_multi_stream_collection` has returned.
-/

namespace BinanceCollector.MultiRuntime

open Text
open MultiMongo (Output BufferedDocument Settings)
open MultiMongo.Output (Sound Kept LateAccept)

variable {setup : Setup} {s s' : State} {c c' : MultiCollector.State} {o o' : Output (Group × ℕ) Event}

/-! ## Custody in every state -/

/-- The output is sound, every connection has a faithful history, and its messages are in custody. -/
structure Safe (setup : Setup) (c : MultiCollector.State) (o : Output (Group × ℕ) Event) : Prop where
  output : Sound setup.reading o
  connections : ∀ g, Connection.Delivering (setup.collector.connection g).profile (c.connections g)
  custody : ∀ g, ∃ served waiting, Custody setup g (c.connections g) o served waiting
  collector : MultiCollector.Returned c

theorem initial_safe (setup : Setup) : Safe setup initial.collector initial.output where
  output := MultiMongo.Output.opened_sound
  connections _ := Connection.initial_delivering _ _
  custody g := ⟨[], none, initial_custody setup g defaultPolicy⟩
  collector h := by rcases h with h | h <;> cases h

/-- Setting the stop event. -/
theorem Safe.setStop (h : Safe setup c o) : Safe setup c.setStop o where
  output := h.output
  connections g := Connection.step_delivering (i := .setStop) (h.connections g) rfl
  custody g := by
    obtain ⟨served, waiting, hc⟩ := h.custody g
    exact ⟨served, waiting, hc.congr rfl rfl⟩
  collector := MultiCollector.step_returned (c := setup.collector) (i := .setStop) h.collector rfl

/-- A step of the output on its own. -/
theorem Safe.outputStep (h : Safe setup c o) {i : MultiMongo.Output.Input (Group × ℕ) Event} (hi : i.CallbacksReturn)
    (hno : ∀ k event report, i ≠ .write k event report)
    (hstep : (MultiMongo.Output.machine setup.settings setup.reading).step o i = some o') : Safe setup c o' where
  output := h.output.step hi hstep
  connections := h.connections
  custody g := by
    obtain ⟨served, waiting, hc⟩ := h.custody g
    exact hc.output h.output hi (fun j event report heq => absurd heq (hno _ _ _)) hstep
  collector := h.collector

/-- A step of the collector that is not a step of a connection. -/
theorem Safe.collectorStep (h : Safe setup c o) {i : MultiCollector.Input} (hi : ∀ g j, i ≠ .connection g j)
    (hstep : (MultiCollector.machine setup.collector).step c i = some c') : Safe setup c' o := by
  have hret := MultiCollector.step_returned h.collector hstep
  have hkeep : (∀ g, c'.connections g = c.connections g) → Safe setup c' o := fun heq =>
    ⟨h.output, fun g => heq g ▸ h.connections g, fun g => heq g ▸ h.custody g, hret⟩
  cases MultiCollector.effect_of_step hstep with
  | setStop => exact h.setStop
  | connection => exact absurd rfl (hi _ _)
  | fails => exact ⟨h.output, h.setStop.connections, h.setStop.custody, hret⟩
  | unexpected => exact ⟨h.output, h.setStop.connections, h.setStop.custody, hret⟩
  | _ => exact hkeep fun _ => rfl

/-- A step of a connection. -/
theorem Safe.connectionStep (h : Safe setup c o) {g : Group} {i : Connection.Input}
    (hclose : ∀ e, i = .closeFails e → ∀ exc, (c.connections g).phase ≠ .closing (some exc))
    (hreturns : i = .handlerReturns →
      o.calls (g, (Connection.handledMessages (c.connections g).history).length - 1) = .returned)
    (hstep : (MultiCollector.machine setup.collector).step c (.connection g i) = some c') : Safe setup c' o := by
  have hret := MultiCollector.step_returned h.collector hstep
  cases MultiCollector.effect_of_step hstep with
  | @connection _ _ phase t _ _ ht =>
    refine ⟨h.output, fun g' => ?_, fun g' => ?_, hret⟩
    · by_cases hg : g' = g
      · subst hg
        simpa [MultiCollector.State.setConnection] using Connection.step_delivering (h.connections g') ht
      · simpa [MultiCollector.State.setConnection, hg] using h.connections g'
    · obtain ⟨served, waiting, hc⟩ := h.custody g'
      by_cases hg : g' = g
      · subst hg
        obtain ⟨waiting', hc'⟩ := hc.connection hclose (fun hi => hc.handed ▸ hreturns hi) ht
        exact ⟨served, waiting', by simpa [MultiCollector.State.setConnection] using hc'⟩
      · exact ⟨served, waiting, by simpa [MultiCollector.State.setConnection, hg] using hc⟩

/-- `write()` is called for the last message that a connection has handed on. -/
theorem Safe.writeStep (h : Safe setup c o) {g : Group} {message : ReceivedMessage} {n : NormalizedMessage}
    (hlast : (Connection.handledMessages (c.connections g).history).getLast? = some message)
    (hn : setup.normalize message = .ok n)
    (hstep : (MultiMongo.Output.machine setup.settings setup.reading).step o
      (.write (g, (Connection.handledMessages (c.connections g).history).length - 1) n.event .returns) = some o') :
    Safe setup c o' := by
  have hi : ∀ (k : Group × ℕ) (e : Event), MultiMongo.Output.Input.CallbacksReturn (.write k e .returns) :=
    fun _ _ => rfl
  refine ⟨h.output.step (hi _ _) hstep, h.connections, fun g' => ?_, h.collector⟩
  obtain ⟨served, waiting, hc⟩ := h.custody g'
  refine hc.output h.output (hi _ _) (fun j event report heq => ?_) hstep
  obtain ⟨hk, rfl, rfl⟩ : (g, _) = (g', j) ∧ n.event = event ∧ _ = report := by injection heq; exact ⟨‹_›, ‹_›, ‹_›⟩
  obtain ⟨rfl, rfl⟩ := Prod.mk.inj hk
  -- a message whose call has not been made is not served yet
  have hidle : o.calls (g, (Connection.handledMessages (c.connections g).history).length - 1) = .idle := by
    cases MultiMongo.Output.effect_of_step hstep with
    | write hidle => exact hidle
  rw [hc.handed] at hlast hidle ⊢
  cases waiting with
  | none =>
    have hne : served ≠ [] := by rintro rfl; cases hlast
    have hpos := List.length_pos_iff.2 hne
    rw [hc.returned _ (by simp; omega)] at hidle
    cases hidle
  | some m =>
    simp only [Option.toList_some, List.getLast?_concat, Option.some.injEq] at hlast
    exact ⟨by simp, m, n, rfl, hlast ▸ hn, rfl⟩

/-! ## The order in which the tasks end -/

/-- Before the monitor is created. -/
def Main.early : Main → Bool
  | .validating | .opening | .starting => true
  | _ => false

/-- `close()` has been called, or the run is over. -/
def Main.closes : Main → Bool
  | .closing _ | .done _ => true
  | _ => false

/-- After the monitor has returned, without an error so far. -/
def Main.succeeds : Main → Bool
  | .awaitingTui (.ok ()) | .settling (.ok ()) | .closing (.ok ()) | .done (.ok ()) => true
  | _ => false

/-- In which order the tasks end. -/
structure Supervised (s : State) : Prop where
  early : s.main.early = true → s.monitor = .absent
  unstarted : s.monitor = .absent ∨ s.monitor = .created → s.failure = .absent
  /-- a failure is reported to the monitor only -/
  reported : s.output.failureReported = true → s.failure = .done (.error .outputFailed)
  monitor : s.monitor = .running (.finishing (.ok ())) ∨ s.monitor = .done (.ok ()) →
    s.collector.task = .done (.ok ()) ∧ s.output.failureReported = false
  main : s.main.succeeds = true → s.monitor = .done (.ok ())
  closing : s.output.closeRequested = true → s.main.closes = true
  closed : s.main = .done (.ok ()) → s.output.closeCall = .returned
  kept : s.main.closes = true → s.main.succeeds = true → Kept s.output

theorem initial_supervised : Supervised initial where
  early _ := rfl
  unstarted _ := rfl
  reported h := by cases h
  monitor h := by rcases h with h | h <;> cases h
  main h := by cases h
  closing h := by cases h
  closed h := by cases h
  kept h := by cases h

section

variable (hs : Supervised s)
include hs

/-- The main task moves, before it calls `close()`. -/
theorem Supervised.moves {m : Main} (hc : c.task = s.collector.task) (hbefore : s.main.closes = false)
    (hearly : m.early = true → s.main.early = true)
    (hafter : m.succeeds = true → s.monitor = .done (.ok ()) ∧ m.closes = false) :
    Supervised { s with main := m, collector := c } where
  early h := hs.early (hearly h)
  unstarted := hs.unstarted
  reported := hs.reported
  monitor h := hc ▸ hs.monitor h
  main h := (hafter h).1
  closing h := absurd (hs.closing h) (by simp [hbefore])
  closed h := by
    have hm : m = .done (.ok ()) := h
    obtain ⟨-, hno⟩ := hafter (by rw [hm]; rfl)
    rw [hm] at hno
    cases hno
  kept hcl hsu := absurd (hafter hsu).2 (by rw [show m.closes = true from hcl]; simp)

/-- While the collector goes on, nothing has succeeded. -/
theorem Supervised.not_done (hc : s.collector.task ≠ .done (.ok ())) :
    ¬(s.monitor = .running (.finishing (.ok ())) ∨ s.monitor = .done (.ok ())) ∧ s.main.succeeds = false :=
  ⟨fun h => hc (hs.monitor h).1, Bool.eq_false_iff.2 fun h => hc (hs.monitor (.inr (hs.main h))).1⟩

/-- While the monitor goes on, the main task has not succeeded. -/
theorem Supervised.not_succeeded (hm : s.monitor ≠ .done (.ok ())) : s.main.succeeds = false :=
  Bool.eq_false_iff.2 fun h => hm (hs.main h)

/-- The collector or a connection takes a step, and the control state of the output stays. -/
theorem Supervised.collects (hc : s.collector.task ≠ .done (.ok ()))
    (hreported : o.failureReported = s.output.failureReported) (hclose : o.closeRequested = s.output.closeRequested) :
    Supervised { s with collector := c, output := o } := by
  obtain ⟨hmonitor, hmain⟩ := hs.not_done hc
  refine { hs with
    reported := fun h => hs.reported (hreported ▸ h)
    monitor := fun h => absurd h hmonitor
    closing := fun h => hs.closing (hclose ▸ h)
    closed := ?closed
    kept := ?kept }
  case closed =>
    intro h
    have hm : s.main = .done (.ok ()) := h
    rw [hm] at hmain
    cases hmain
  case kept =>
    intro _ h
    rw [show s.main.succeeds = true from h] at hmain
    cases hmain

/-- The monitor moves, when it has not succeeded. -/
theorem Supervised.monitors {m : Task Monitor RunError} (hc : c.task = s.collector.task)
    (hearly : s.main.early = false) (hno : s.monitor ≠ .done (.ok ())) (hstarted : m ≠ .absent ∧ m ≠ .created)
    (hok : m = .running (.finishing (.ok ())) ∨ m = .done (.ok ()) →
      s.collector.task = .done (.ok ()) ∧ s.output.failureReported = false) :
    Supervised { s with monitor := m, collector := c } where
  early h := absurd h (by rw [show s.main.early = false from hearly]; simp)
  unstarted h := absurd h (not_or.2 hstarted)
  reported := hs.reported
  monitor h := hc ▸ hok h
  main h := absurd (hs.main h) hno
  closing := hs.closing
  closed := hs.closed
  kept := hs.kept

/-- The task of `wait_for_output_failure` moves, when it has not ended. -/
theorem Supervised.watches {m : Task Unit RunError} (hf : s.failure = .created ∨ s.failure = .running ()) :
    Supervised { s with failure := m } := by
  refine { hs with unstarted := ?unstarted, reported := ?reported }
  case unstarted =>
    intro h
    rw [hs.unstarted h] at hf
    rcases hf with hf | hf <;> cases hf
  case reported =>
    intro h
    rw [hs.reported h] at hf
    rcases hf with hf | hf <;> cases hf

end

/-- A message handed on by a connection that has returned does not wait. -/
theorem Safe.not_late (h : Safe setup c o) (hc : ∀ g, (c.connections g).phase = .returned)
    {i : MultiMongo.Output.Input (Group × ℕ) Event} : ¬LateAccept setup.settings setup.reading o i := by
  intro hlate
  cases i with
  | resumeWrite k report =>
    obtain ⟨g, j⟩ := k
    obtain ⟨served, waiting, hcust⟩ := h.custody g
    simp only [LateAccept, MultiMongo.Output.Late] at hlate
    split at hlate
    · exact hcust.not_parked (by rw [hc g]; rfl) j _ _ ‹_›
    · exact hlate
  | _ => exact hlate

/-- What a step of the output on its own does to its control state. -/
theorem own_control (hs : Sound setup.reading o) {i : MultiMongo.Output.Input (Group × ℕ) Event}
    (hi : i.CallbacksReturn) (hown : outputOwn i = true)
    (hstep : (MultiMongo.Output.machine setup.settings setup.reading).step o i = some o') :
    o'.failureReported = o.failureReported ∧ o'.closeRequested = o.closeRequested ∧
      (o.closeCall = .returned → o'.closeCall = .returned) := by
  have hctl : i.control = false → o'.failureReported = o.failureReported ∧ o'.closeRequested = o.closeRequested ∧
      (o.closeCall = .returned → o'.closeCall = .returned) := fun hc => by
    have h := MultiMongo.Output.step_control hs.inv hi hc hstep
    exact ⟨h.failureReported, h.closeRequested, fun hr => h.closeCall.trans hr⟩
  cases MultiMongo.Output.effect_of_step hstep with
  | close | cancelClose | reportFailure => cases hown
  | @workersDone timedOut hw => exact ⟨rfl, rfl, fun hr => by rw [hr] at hw; cases timedOut <;> cases hw⟩
  | shutdownTimeout hg => exact ⟨rfl, rfl, fun hr => by rw [hr] at hg; cases hg⟩
  | clientClosed hcl => exact ⟨rfl, rfl, fun hr => by rw [hr] at hcl; cases hcl⟩
  | _ => exact hctl rfl

/-! ## One step -/

theorem collected_ok {result : Except MultiCollector.CollectorError Unit} (h : State.collected result = .ok ()) :
    result = .ok () := by
  match result, h with
  | .ok (), _ => rfl

/-- What holds in every state of the system. -/
structure Accounted (setup : Setup) (s : State) : Prop where
  safe : Safe setup s.collector s.output
  supervised : Supervised s

section

variable (hs : Accounted setup s)
include hs

/-- The main task moves, and sets the stop event or not. -/
theorem Accounted.moves {m : Main} (hbefore : s.main.closes = false)
    (hearly : m.early = true → s.main.early = true)
    (hafter : m.succeeds = true → s.monitor = .done (.ok ()) ∧ m.closes = false) :
    Accounted setup { s with main := m } ∧ Accounted setup { s.setStop with main := m } :=
  ⟨⟨hs.safe, hs.supervised.moves rfl hbefore hearly hafter⟩,
    ⟨hs.safe.setStop, hs.supervised.moves (c := s.collector.setStop) rfl hbefore hearly hafter⟩⟩

/-- `_run_with_tui` comes to its `finally`. -/
theorem Accounted.settle {result : Result} (hbefore : s.main.closes = false)
    (hresult : result = .ok () → s.monitor = .done (.ok ())) : Accounted setup (s.settle result) := by
  refine (hs.moves hbefore (fun h => by cases h) fun h => ⟨?_, rfl⟩).2
  match result, h with
  | .ok (), _ => exact hresult rfl

/-- `close()` is called, when nothing has closed the output before. -/
theorem Accounted.closes {result : Result} (hmain : s.main = .settling result)
    (ho : s.outputStep setup .close = some o) :
    Accounted setup { s with main := .closing result, output := o } := by
  have hsafe := hs.safe.outputStep (i := .close) trivial (by simp) ho
  have hopen : s.output.closeRequested = false := Bool.eq_false_iff.2 fun h => by
    have := hs.supervised.closing h
    rw [hmain] at this
    cases this
  have hkept : Kept s.output := fun r hr => by
    rw [hs.safe.output.closing.left r hr] at hopen
    cases hopen
  cases MultiMongo.Output.effect_of_step ho with
  | close =>
    refine ⟨hsafe, { hs.supervised with
      early := fun h => (by cases h)
      main := fun h => hs.supervised.main ?_
      closing := fun _ => rfl
      closed := fun h => (by cases h)
      kept := fun _ _ => hkept }⟩
    rw [hmain]
    match result, h with
    | .ok (), _ => rfl

/-- `close()` has ended. -/
theorem Accounted.closed {result result' : Result} (hmain : s.main = .closing result)
    (hresult : result' = .ok () → result = .ok () ∧ s.output.closeCall = .returned) :
    Accounted setup { s with main := .done result' } := by
  have hok : ∀ {m : Main}, m = .done result' → m.succeeds = true → result' = .ok () := fun hm h => by
    subst hm
    match result', h with
    | .ok (), _ => rfl
  have hbefore : result' = .ok () → s.main.succeeds = true := fun h => by
    rw [hmain, (hresult h).1]
    rfl
  refine ⟨hs.safe, { hs.supervised with
    early := fun h => (by cases h)
    main := fun h => hs.supervised.main (hbefore (hok rfl h))
    closing := fun _ => rfl
    closed := ?closed
    kept := ?kept }⟩
  case closed =>
    intro h
    have hr : result' = .ok () := Main.done.inj h
    exact (hresult hr).2
  case kept =>
    intro _ h
    exact hs.supervised.kept (by rw [hmain]; rfl) (hbefore (hok rfl h))

theorem Accounted.resumeMain (h : s.resumeMain setup = some s') : Accounted setup s' := by
  unfold State.resumeMain at h
  split at h
  · rename_i hmain
    cases h
    have habsent := hs.supervised.early (by rw [hmain]; rfl)
    have hfailure := hs.supervised.unstarted (.inl habsent)
    have hsucc : s.main.succeeds = false := by rw [hmain]; rfl
    refine ⟨hs.safe, { hs.supervised with
      early := fun h => (by cases h)
      unstarted := fun _ => hfailure
      monitor := fun h => (by rcases h with h | h <;> cases h)
      main := fun h => (by cases h)
      closing := ?closing
      closed := fun h => (by cases h)
      kept := fun h => (by cases h) }⟩
    intro h
    have hclosing := hs.supervised.closing h
    rw [hmain] at hclosing
    cases hclosing
  · rename_i hmain
    have hbefore : s.main.closes = false := by rw [hmain]; rfl
    split at h
    · cases h
      exact (hs.moves hbefore (fun h => by cases h) fun h => by cases h).1
    · cases h
      exact (hs.moves hbefore (fun h => by cases h) fun h => by cases h).1
    · cases h
      exact (hs.moves hbefore (fun h => by cases h) fun h => by cases h).2
    · cases h
  · rename_i e hmain
    split at h
    · cases h
      exact hs.settle (by rw [hmain]; rfl) fun h => by cases h
    · cases h
  · rename_i hmain
    split at h
    · rename_i result hdone
      cases h
      refine (hs.moves (by rw [hmain]; rfl) (fun h => by cases h) fun h => ⟨?_, rfl⟩).2
      match result, h with
      | .ok (), _ => exact hdone
    · cases h
  · rename_i result hmain
    have hbefore : s.main.closes = false := by rw [hmain]; rfl
    split at h
    · cases h
      refine hs.settle hbefore fun hr => hs.supervised.main ?_
      rw [hmain, hr]
      rfl
    · cases h
      exact hs.settle hbefore fun h => by cases h
    · cases h
  · rename_i result hmain
    split at h
    · obtain ⟨output, ho, rfl⟩ := Option.map_eq_some_iff.1 h
      have hstop : Accounted setup s.setStop := by
        have := (hs.moves (m := s.main) (by rw [hmain]; rfl) id fun h => ⟨hs.supervised.main h, by rw [hmain]; rfl⟩).2
        exact this
      exact hstop.closes hmain ho
    · cases h
  · rename_i result hmain
    split at h
    · rename_i hclose
      cases h
      exact hs.closed hmain fun hr => ⟨hr, hclose⟩
    · cases h
      exact hs.closed hmain fun hr => by cases hr
    · cases h
      exact hs.closed hmain fun hr => by cases hr
    · cases h
  · cases h
  · cases h
  · cases h

theorem Accounted.cancelMain (h : s.cancelMain setup = some s') : Accounted setup s' := by
  unfold State.cancelMain at h
  split at h <;> rename_i hmain
  · cases h
    exact (hs.moves (by rw [hmain]; rfl) (fun h => by cases h) fun h => by cases h).1
  · cases h
    exact (hs.moves (by rw [hmain]; rfl) (fun h => by cases h) fun h => by cases h).2
  · cases h
    exact hs.settle (by rw [hmain]; rfl) fun h => by cases h
  · cases h
    exact hs.settle (by rw [hmain]; rfl) fun h => by cases h
  · cases h
    exact hs.settle (by rw [hmain]; rfl) fun h => by cases h
  · cases h
    exact hs.settle (by rw [hmain]; rfl) fun h => by cases h
  · split at h <;> cases h
    exact (hs.moves (by rw [hmain]; rfl) (fun h => by cases h) fun h => by cases h).2
  · split at h <;> cases h
    exact hs.settle (by rw [hmain]; rfl) fun h => by cases h
  · rename_i result
    obtain ⟨output, ho, rfl⟩ := Option.map_eq_some_iff.1 h
    have hsafe := hs.safe.outputStep (i := .cancelClose) trivial (by simp) ho
    have hkept : s.main.closes = true → s.main.succeeds = true → Kept output := fun hcl hsu => by
      refine MultiMongo.Output.step_kept (i := .cancelClose) hs.safe.output (hs.supervised.kept hcl hsu) trivial ?_ ho
      exact id
    cases MultiMongo.Output.effect_of_step ho with
    | cancelClose =>
      refine ⟨hsafe, { hs.supervised with closed := ?closed, kept := hkept }⟩
      intro h
      rw [show s.main = .done (.ok ()) from h] at hmain
      cases hmain
  · cases h

/-- The monitor takes a step. -/
theorem Accounted.monitors {m : Task Monitor RunError} (hrun : ∃ phase, s.monitor = .running phase)
    (hstarted : m ≠ .absent ∧ m ≠ .created)
    (hok : m = .running (.finishing (.ok ())) ∨ m = .done (.ok ()) →
      s.collector.task = .done (.ok ()) ∧ s.output.failureReported = false) :
    Accounted setup { s with monitor := m } ∧ Accounted setup { s.setStop with monitor := m } := by
  obtain ⟨phase, hrun⟩ := hrun
  have hearly : s.main.early = false := Bool.eq_false_iff.2 fun h => by
    have := hs.supervised.early h
    rw [hrun] at this
    cases this
  have hno : s.monitor ≠ .done (.ok ()) := by rw [hrun]; simp
  exact ⟨⟨hs.safe, hs.supervised.monitors (c := s.collector) rfl hearly hno hstarted hok⟩,
    ⟨hs.safe.setStop, hs.supervised.monitors (c := s.collector.setStop) rfl hearly hno hstarted hok⟩⟩

theorem Accounted.resumeMonitor {phase : Monitor} (hrun : s.monitor = .running phase)
    (h : s.resumeMonitor phase = some s') : Accounted setup s' := by
  -- the monitor goes on with the result of the collector when no failure has been reported
  have hresult : ∀ {result : Except MultiCollector.CollectorError Unit}, s.collector.task = .done result →
      s.failure ≠ .done (.error .outputFailed) →
      (.running (.finishing (State.collected result)) : Task Monitor RunError) = .running (.finishing (.ok ())) ∨
        (.running (.finishing (State.collected result)) : Task Monitor RunError) = .done (.ok ()) →
      s.collector.task = .done (.ok ()) ∧ s.output.failureReported = false := by
    intro result hdone hno hm
    rcases hm with hm | hm
    · have hr := collected_ok (Monitor.finishing.inj (Task.running.inj hm))
      exact ⟨hr ▸ hdone, Bool.eq_false_iff.2 fun h => hno (hs.supervised.reported h)⟩
    · cases hm
  cases phase with
  | waiting =>
    simp only [State.resumeMonitor] at h
    split at h
    · cases h
      exact (hs.monitors ⟨_, hrun⟩ (by simp) (by simp)).2
    · rename_i hdone hno
      cases h
      exact (hs.monitors ⟨_, hrun⟩ (by simp) (hresult hdone (hno _))).1
    · cases h
  | failing =>
    simp only [State.resumeMonitor] at h
    split at h
    · cases h
      exact (hs.monitors ⟨_, hrun⟩ (by simp) (by simp)).1
    · rename_i hfailure hdone
      cases h
      exact (hs.monitors ⟨_, hrun⟩ (by simp) (hresult hdone (by rw [hfailure]; simp))).1
    · cases h
  | finishing result =>
    simp only [State.resumeMonitor] at h
    split at h
    · cases h
      refine (hs.monitors ⟨_, hrun⟩ (by simp) fun hm => hs.supervised.monitor (.inl ?_)).1
      rcases hm with hm | hm
      · cases hm
      · rw [hrun, Task.done.inj hm]
    · cases h

end

/-- A connection is cancelled, and the `write()` it waits in. -/
theorem Safe.cancelWrite (h : Safe setup s.collector s.output) (g : Group) :
    Safe setup s.collector (s.cancelWrite setup g) ∧
      (s.cancelWrite setup g).failureReported = s.output.failureReported ∧
      (s.cancelWrite setup g).closeRequested = s.output.closeRequested := by
  unfold State.cancelWrite
  cases ho : s.outputStep setup (.cancelWrite (s.lastCall g)) with
  | none => exact ⟨h, rfl, rfl⟩
  | some o =>
    refine ⟨h.outputStep (i := .cancelWrite (s.lastCall g)) trivial (by simp) ho, ?_⟩
    cases MultiMongo.Output.effect_of_step ho with
    | cancelWrite => exact ⟨rfl, rfl⟩

/-- The collector has not returned before it takes a step. -/
theorem collector_running {i : MultiCollector.Input} (hi : i ≠ .setStop)
    (h : (MultiCollector.machine setup.collector).step c i = some c') : c.task ≠ .done (.ok ()) := by
  intro hdone
  cases MultiCollector.effect_of_step h with
  | setStop => exact hi rfl
  | _ => simp_all

theorem Accounted.collectorStep (hs : Accounted setup s) {i : MultiCollector.Input}
    (hassumed : Assumed s (.collector i)) (h : step setup s (.collector i) = some s') : Accounted setup s' := by
  cases i with
  | setStop => cases h
  | connection g i =>
    simp only [step, Option.ite_none_right_eq_some, Option.map_eq_some_iff] at h
    obtain ⟨hadmits, c, hc, rfl⟩ := h
    have hrun := collector_running (by simp) hc
    have hclose : ∀ e, i = .closeFails e → ∀ exc, (s.collector.connections g).phase ≠ .closing (some exc) := by
      rintro e rfl exc hphase
      change s.closesQuietly _ = true at hassumed
      simp [State.closesQuietly, hphase] at hassumed
    have hreturns : ∀ o : Output (Group × ℕ) Event, o = s.output → i = .handlerReturns →
        o.calls (g, (Connection.handledMessages (s.collector.connections g).history).length - 1) = .returned := by
      rintro o rfl rfl
      simp only [State.handlerAdmits] at hadmits
      split at hadmits
      · assumption
      · cases hadmits
    by_cases hcancel : i = .cancel
    · obtain ⟨hsafe, hreported, hrequested⟩ := hs.safe.cancelWrite g
      rw [if_pos hcancel]
      exact ⟨hsafe.connectionStep hclose (fun hr => by rw [hcancel] at hr; cases hr) hc,
        hs.supervised.collects hrun hreported hrequested⟩
    · rw [if_neg hcancel]
      exact ⟨hs.safe.connectionStep hclose (hreturns _ rfl) hc, hs.supervised.collects hrun rfl rfl⟩
  | cancel =>
    simp only [step, Option.ite_none_right_eq_some, Option.map_eq_some_iff] at h
    obtain ⟨-, c, hc, rfl⟩ := h
    exact ⟨hs.safe.collectorStep (by simp) hc, hs.supervised.collects (collector_running (by simp) hc) rfl rfl⟩
  | start =>
    obtain ⟨c, hc, rfl⟩ := Option.map_eq_some_iff.1 h
    exact ⟨hs.safe.collectorStep (by simp) hc, hs.supervised.collects (collector_running (by simp) hc) rfl rfl⟩
  | resume g =>
    obtain ⟨c, hc, rfl⟩ := Option.map_eq_some_iff.1 h
    exact ⟨hs.safe.collectorStep (by simp) hc, hs.supervised.collects (collector_running (by simp) hc) rfl rfl⟩

theorem Accounted.writeStep (hs : Accounted setup s) {g : Group} {report : MultiMongo.Output.Callback}
    (hassumed : Assumed s (.write g report)) (h : step setup s (.write g report) = some s') : Accounted setup s' := by
  obtain rfl : report = .returns := hassumed
  simp only [step] at h
  split at h
  · rename_i payload message hphase hlast
    split at h
    · rename_i n hn
      obtain ⟨o, ho, rfl⟩ := Option.map_eq_some_iff.1 h
      have hctl := MultiMongo.Output.step_control
        (i := .write (s.lastCall g) n.event .returns) hs.safe.output.inv rfl rfl ho
      refine ⟨hs.safe.writeStep hlast hn ho, hs.supervised.collects (c := s.collector) (fun hdone => ?_)
        hctl.failureReported hctl.closeRequested⟩
      rw [hs.safe.collector (.inr hdone) g] at hphase
      cases hphase
    · cases h
  · cases h

theorem Accounted.ownStep (hs : Accounted setup s) {i : MultiMongo.Output.Input (Group × ℕ) Event}
    (hi : i.CallbacksReturn) (hown : outputOwn i = true) (ho : s.outputStep setup i = some o) :
    Accounted setup { s with output := o } := by
  obtain ⟨hreported, hrequested, hclosed⟩ := own_control hs.safe.output hi hown ho
  have hv := hs.supervised
  refine ⟨hs.safe.outputStep hi (fun k event report heq => by subst heq; cases hown) ho, { hv with
    reported := fun h => hv.reported (hreported ▸ h)
    monitor := fun h => ⟨(hv.monitor h).1, hreported.trans (hv.monitor h).2⟩
    closing := fun h => hv.closing (hrequested ▸ h)
    closed := fun h => hclosed (hv.closed h)
    kept := ?kept }⟩
  intro hcl hsu
  have hall := hs.safe.collector (.inr (hv.monitor (.inr (hv.main hsu))).1)
  exact MultiMongo.Output.step_kept hs.safe.output (hv.kept hcl hsu) hi (hs.safe.not_late hall) ho

/-- **One step keeps the account.** -/
theorem step_accounted (hs : Accounted setup s) {i : Input} (hassumed : Assumed s i)
    (h : (machine setup).step s i = some s') : Accounted setup s' := by
  have hv := hs.supervised
  change step setup s i = some s' at h
  cases i with
  | setStop =>
    cases h
    exact ⟨hs.safe.setStop, { hv with }⟩
  | validated ok =>
    simp only [step] at h
    split at h
    · rename_i hmain
      cases h
      cases ok
      · exact (hs.moves (by rw [hmain]; rfl) (fun h => by cases h) fun h => by cases h).1
      · exact (hs.moves (by rw [hmain]; rfl) (fun _ => by rw [hmain]; rfl) fun h => by cases h).1
    · cases h
  | opened ok =>
    simp only [step] at h
    split at h
    · rename_i hmain
      split at h
      · cases h
        have hstarting :=
          (hs.moves (m := .starting) (by rw [hmain]; rfl) (fun _ => by rw [hmain]; rfl) fun h => by cases h).1
        exact ⟨hstarting.safe, { hstarting.supervised with }⟩
      · cases h
        exact (hs.moves (by rw [hmain]; rfl) (fun h => by cases h) fun h => by cases h).2
    · cases h
  | main => exact hs.resumeMain h
  | cancelMain => exact hs.cancelMain h
  | tuiEnds result =>
    simp only [step] at h
    split at h
    · split at h
      · cases h
        exact ⟨hs.safe, { hv with }⟩
      · cases h
    · cases h
  | startMonitor =>
    simp only [step] at h
    split at h
    · rename_i hcreated
      cases h
      have hfailure := hv.unstarted (.inr hcreated)
      have hno : s.output.failureReported = false := Bool.eq_false_iff.2 fun h => by
        rw [hv.reported h] at hfailure
        cases hfailure
      have hsucc : s.main.succeeds = false := hv.not_succeeded (by rw [hcreated]; simp)
      have hearly : s.main.early = false := Bool.eq_false_iff.2 fun h => by
        rw [hv.early h] at hcreated
        cases hcreated
      refine ⟨{ hs.safe with collector := fun h => (by rcases h with h | h <;> cases h) }, { hv with
        early := ?early
        unstarted := fun h => (by rcases h with h | h <;> cases h)
        reported := ?reported
        monitor := fun h => (by rcases h with h | h <;> cases h)
        main := ?succeeds }⟩
      case early =>
        intro h
        rw [show s.main.early = true from h] at hearly
        cases hearly
      case reported =>
        intro h
        rw [show s.output.failureReported = true from h] at hno
        cases hno
      case succeeds =>
        intro h
        rw [show s.main.succeeds = true from h] at hsucc
        cases hsucc
    · cases h
  | monitor =>
    simp only [step] at h
    split at h
    · exact hs.resumeMonitor ‹_› h
    · cases h
  | cancelMonitor =>
    simp only [step] at h
    split at h
    · rename_i hcancels
      split at h
      · rename_i hcreated
        cases h
        have hearly : s.main.early = false := by
          revert hcancels
          cases s.main <;> simp [Main.cancelsMonitor, Main.early]
        exact ⟨hs.safe, hv.monitors (c := s.collector) rfl hearly (by rw [hcreated]; simp) (by simp) (by simp)⟩
      · cases h
        exact (hs.monitors ⟨_, ‹_›⟩ (by simp) (by simp)).1
      · cases h
    · cases h
  | startFailure =>
    simp only [step] at h
    split at h
    · rename_i hcreated
      split at h
      · cases h
      · cases h
        exact ⟨hs.safe, hv.watches (.inl hcreated)⟩
    · cases h
  | failure =>
    simp only [step] at h
    split at h
    · rename_i hrun
      split at h
      · cases h
      · rename_i hno
        obtain ⟨o, ho, rfl⟩ := Option.map_eq_some_iff.1 h
        have hsafe := hs.safe.outputStep (i := .reportFailure) trivial (by simp) ho
        -- the monitor has not come to its `finally`
        have hmonitor : ¬(s.monitor = .running (.finishing (.ok ())) ∨ s.monitor = .done (.ok ())) := by
          rintro (h | h) <;> simp [State.failureCancelled, h] at hno
        have hsucc : s.main.succeeds = false := hv.not_succeeded fun h => hmonitor (.inr h)
        cases MultiMongo.Output.effect_of_step ho with
        | reportFailure =>
          refine ⟨hsafe, { hv with
            unstarted := ?unstarted
            reported := fun _ => rfl
            monitor := fun h => absurd h hmonitor }⟩
          intro h
          rw [hv.unstarted h] at hrun
          cases hrun
    · cases h
  | cancelFailure =>
    simp only [step] at h
    split at h
    · split at h
      · cases h
        exact ⟨hs.safe, hv.watches (.inl ‹_›)⟩
      · cases h
        exact ⟨hs.safe, hv.watches (.inr ‹_›)⟩
      · cases h
    · cases h
  | collector i => exact hs.collectorStep hassumed h
  | write g report => exact hs.writeStep hassumed h
  | output i =>
    simp only [step, Option.ite_none_right_eq_some, Option.map_eq_some_iff, Bool.and_eq_true] at h
    obtain ⟨⟨-, hown⟩, o, ho, rfl⟩ := h
    exact hs.ownStep hassumed hown ho

/-! ## After the run -/

/-- What the store holds. -/
structure Stored (setup : Setup) (s : State) : Prop where
  /-- the document of each message is in one place of one call of `insert_many`, on the route of its event -/
  once : ∀ g j m, (s.handed g)[j]? = some m → ∃ n, setup.normalize m = .ok n ∧ ∀ r,
    ((s.output.lanes r).insertCalls.map fun batch => batch.countP fun d => d.call = (g, j)).sum =
      if eventRoute n.event = r then 1 else 0
  /-- the documents of each connection on each route are those of its messages, in the order of the messages -/
  stored : ∀ g r, ofGroup g (s.output.lanes r).insertCalls.flatten = due setup r (s.handed g)
  ascending : ∀ g, (s.handed g).Pairwise fun m m' =>
    m.connectionId = m'.connectionId → m.receiveSequence < m'.receiveSequence
  confirmed : ∀ r, (s.output.lanes r).insertCalls.flatten = (s.output.lanes r).confirmed
  pendingCount : s.output.pendingCount = 0

theorem countP_ofGroup (g : Group) (j : ℕ) (ds : List (BufferedDocument (Group × ℕ) Event)) :
    ds.countP (fun d => d.call = (g, j)) = (ofGroup g ds).countP fun entry => entry.1 = j := by
  rw [ofGroup, List.countP_map, List.countP_filter]
  congr 1
  funext d
  obtain ⟨⟨g', j'⟩, event, size⟩ := d
  simp [and_comm]

/-- A message is due once, on the route of its event. -/
theorem countP_due (r : StorageRoute) (j : ℕ) (messages : List ReceivedMessage) :
    (due setup r messages).countP (fun entry => entry.1 = j) =
      match messages[j]? with
      | some m => if (document setup r (m, j)).isSome then 1 else 0
      | none => 0 := by
  induction messages using List.reverseRecOn with
  | nil => simp [due]
  | append_singleton messages m ih =>
    rw [due_snoc, List.countP_append, ih]
    have hnumber : ∀ entry ∈ document setup r (m, messages.length), entry.1 = messages.length := by
      intro entry hentry
      simp only [document] at hentry
      split at hentry
      · split at hentry
        · cases hentry; rfl
        · cases hentry
      · cases hentry
    rcases Nat.lt_trichotomy j messages.length with hlt | rfl | hgt
    · rw [List.getElem?_append_left hlt]
      cases hd : document setup r (m, messages.length) with
      | none => simp
      | some entry =>
        have := hnumber entry hd
        simp
        omega
    · rw [List.getElem?_append_right le_rfl, List.getElem?_eq_none le_rfl]
      cases hd : document setup r (m, messages.length) with
      | none => simp [hd]
      | some entry => simp [hd, hnumber entry hd]
    · rw [List.getElem?_eq_none (by omega), List.getElem?_eq_none (by simp; omega)]
      cases hd : document setup r (m, messages.length) with
      | none => simp
      | some entry =>
        have := hnumber entry hd
        simp
        omega

/-- **No loss on normal termination.** When `run_multi_stream_collection` has returned, every message handed on is in
exactly one confirmed call of `insert_many`, on the route of its event and in order, and nothing else is stored or
pending. -/
theorem no_loss (setup : Setup) {is : List Input} {s : State} (h : (machine setup).Path Assumed initial is s)
    (hdone : s.main = .done (.ok ())) : Stored setup s := by
  have hs : Accounted setup s := h.invariant (I := Accounted setup)
    (fun _ _ _ hi hs hstep => step_accounted hs hi hstep) ⟨initial_safe setup, initial_supervised⟩
  have hsucc : s.main.succeeds = true := by rw [hdone]; rfl
  obtain ⟨hcollector, hreported⟩ := hs.supervised.monitor (.inr (hs.supervised.main hsucc))
  have hall := hs.safe.collector (.inr hcollector)
  have hclosed := hs.supervised.closed hdone
  have herrors : s.output.workerErrors = [] := by
    by_contra hne
    rw [hs.safe.output.closing.returned hclosed hne] at hreported
    cases hreported
  have hkept := hs.supervised.kept (by rw [hdone]; rfl) hsucc
  have hleft : ∀ r, (s.output.lanes r).worker.left = true := fun r => by
    rw [hs.safe.output.all_returned hclosed herrors r]
    rfl
  obtain ⟨hdrained, hpending⟩ := hs.safe.output.drained hclosed herrors fun r => hkept r (hleft r)
  have hcustody : ∀ g, (∀ r, ofGroup g (s.output.lanes r).accepted = due setup r (s.handed g)) ∧
      ∀ m ∈ s.handed g, ∃ n, setup.normalize m = .ok n := by
    intro g
    obtain ⟨served, waiting, hc⟩ := hs.safe.custody g
    obtain rfl := hc.idle (by rw [hall g]; rfl)
    have hhanded : s.handed g = served := hc.handed.trans (List.append_nil _)
    exact ⟨hhanded ▸ hc.stored, hhanded ▸ hc.decoded⟩
  have hstored : ∀ g r, ofGroup g (s.output.lanes r).insertCalls.flatten = due setup r (s.handed g) := fun g r => by
    rw [(hdrained r).2, ← (hdrained r).1]
    exact (hcustody g).1 r
  refine ⟨fun g j m hm => ?_, hstored, fun g => Connection.handed_ascending (hs.safe.connections g).logged.faithful,
    fun r => (hdrained r).2, hpending⟩
  obtain ⟨n, hn⟩ := (hcustody g).2 m (List.mem_of_getElem? hm)
  refine ⟨n, hn, fun r => ?_⟩
  rw [← List.countP_flatten, countP_ofGroup, hstored, countP_due, hm]
  simp only [document_ok hn]
  split <;> rfl

instance (s : State) : DecidablePred (Assumed s)
  | .write _ report => decEq report .returns
  | .output i => inferInstanceAs (Decidable i.CallbacksReturn)
  | .collector i => inferInstanceAs (Decidable (s.closesQuietly i = true))
  | .setStop | .validated _ | .opened _ | .main | .cancelMain | .tuiEnds _ | .startMonitor | .monitor | .cancelMonitor
  | .startFailure | .failure | .cancelFailure => isTrue trivial

/-- The defaults of `MongoMultiCollectionOutput`. -/
def defaultSettings : Settings :=
  (Settings.ofArguments 10000 (64 * 1024 * 1024) 1000 (4 * 1024 * 1024) 3).get (by decide)

/-- The subscriptions for `BTCUSDT`. -/
def btcusdtSpecs : List StreamSpec :=
  connectionGroups.flatMap fun group => group.streamTypes.map (streamSpec {} group (str "BTCUSDT"))

/-- The system for `BTCUSDT`; the two sizes are those of an acknowledgement and of the trade that `wholeRun`
receives. -/
def btcusdt : Setup where
  collector :=
    { specs := btcusdtSpecs
      runId := fun
        | .spotMarket => List.replicate 32 (code '0')
        | .spotDepth => List.replicate 32 (code '1')
        | .usdmMark => List.replicate 32 (code '2')
      limits := ⟨1000, 4300⟩ }
  index := btcusdtSpecs.map fun spec => (spec.key, spec)
  indexed := by decide
  settings := defaultSettings
  bsonSize event := if eventRoute event = .control then some 269 else some 302

/-- A message of the Spot market connection, from its arrival until the handler has returned. -/
def handsOn (payload : WireMessage) (now : ℤ) : List Input :=
  [.collector (.connection .spotMarket (.receives payload)), .collector (.connection .spotMarket (.settled now)),
    .write .spotMarket .returns, .collector (.connection .spotMarket .handlerReturns)]

/-- A worker that stores its queue and leaves. -/
def storesAll (r : StorageRoute) : List Input :=
  [.output (.worker r true), .output (.worker r true), .output (.insertDone r .success true)]

/-- An acknowledgement and a trade arrive before a signal stops the system. -/
def wholeRun : List Input :=
  [.validated true, .opened true, .main, .startMonitor, .startFailure, .collector .start,
    .collector (.connection .spotMarket .start), .collector (.connection .spotMarket .connected),
    .collector (.connection .spotMarket .sent)] ++
  handsOn (.text (str "\x7b\"result\":null,\"id\":1\x7d")) 1000 ++
  handsOn (.text (str "\x7b\"stream\":\"btcusdt@aggTrade\",\"data\":\x7b\"a\":7\x7d\x7d")) 1001 ++
  [.setStop, .collector (.connection .spotMarket .stopSeen), .collector (.connection .spotMarket (.settled 1002)),
    .collector (.connection .spotMarket .closed), .collector (.connection .spotDepth .start),
    .collector (.connection .usdmMark .start), .collector (.resume .spotMarket), .collector (.resume .spotMarket),
    .collector (.resume .spotMarket), .monitor, .cancelFailure, .monitor, .main, .main, .tuiEnds (.ok ()), .main,
    .main] ++
  storesAll .control ++ storesAll .aggTrade ++
  [.output (.worker .orderBookDepth true), .output (.worker .bookTicker true), .output (.worker .kline true),
    .output (.worker .markPrice true), .output .workersDone, .output (.clientClosed true), .main]

theorem no_loss_wholeRun : ∃ s, (machine btcusdt).Path Assumed initial wholeRun s ∧
    ((s.handed .spotMarket).length = 2 ∧ (s.output.lanes .aggTrade).insertCalls.length = 1) ∧ Stored btcusdt s := by
  obtain ⟨s, hpath, hp⟩ := Steps.Machine.exists_path_of_check (M := machine btcusdt) (P := Assumed)
    (p := fun s => decide (s.main = .done (.ok ()) ∧ (s.handed .spotMarket).length = 2 ∧
      (s.output.lanes .aggTrade).insertCalls.length = 1)) initial wholeRun (by decide +kernel)
  obtain ⟨hdone, hcounts⟩ := of_decide_eq_true hp
  exact ⟨s, hpath, hcounts, no_loss btcusdt hpath hdone⟩

end BinanceCollector.MultiRuntime
