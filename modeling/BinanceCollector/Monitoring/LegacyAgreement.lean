import BinanceCollector.LegacyRuntimeNoLoss
import BinanceCollector.Pipeline

/-!
# The legacy statistics agree with the store

The legacy profile with MongoDB, and the `StatsCollector` that `build_mongodb_runtime` shares between the dispatcher and
the output: `EventDispatcher.handle` counts a message before it calls `write()` and once more when `write()` has
returned, and the worker reports the batches it has stored.

- `EventDispatcher.handle_forward`: `handle` is the counting of a message, `write()`, and `forward`.
- `Agreed`, `Audited`, `step_audited`: what every step keeps.
- **`legacy_statistics_agree`**: the numbers on the screen and the output's own ones differ by at most one message.
-/

namespace BinanceCollector

open Text Json Steps

namespace EventDispatcher

/-- `handle` after the call of `output.write`. -/
def forward (stats : StatsCollector) : WriteOutcome → StatsCollector × HandleOutcome
  | .returns => (stats.recordForwarded, .returns)
  | .raises typeName => (stats.recordError (writeFailure typeName), .outputWriteError (writeFailure typeName))
  | .cancelled => (stats, .cancelled)

theorem handle_forward {lim : Limits} {message : WireMessage} {n : NormalizedMessage}
    (hn : normalizeMessage lim message = .ok n) (write : Event → WriteOutcome) (stats : StatsCollector) (now : ℚ) :
    EventDispatcher.handle lim true write stats now message =
      ⟨(forward (stats.recordReceived now n.event) (write n.event)).1, [n.event],
        (forward (stats.recordReceived now n.event) (write n.event)).2⟩ := by
  simp only [EventDispatcher.handle, hn]
  cases write n.event <;> rfl

end EventDispatcher

/-- The name of the exception class. -/
def Mongo.WriteError.typeName : Mongo.WriteError → Str
  | .state => str "MongoOutputStateError"
  | .workerFailed => str "MongoBatchWriteError"
  | .cancelled => str "CancelledError"

/-- How `write()` has ended, if it has. -/
def Mongo.WriteCall.outcome : Mongo.WriteCall → Option WriteOutcome
  | .returned => some .returns
  | .raised .cancelled => some .cancelled
  | .raised e => some (.raises e.typeName)
  | .idle | .racing | .abandoning _ | .leaving _ => none

namespace LegacyRuntime

open Mongo (Output)

/-! ## The system with its statistics -/

/-- The legacy profile with MongoDB, and the statistics. -/
structure Observed where
  system : State (Output ℕ Event)
  stats : StatsCollector

/-- What the event loop does next. -/
inductive ObservedInput where
  /-- a step of the system, at this reading of the clock -/
  | run (i : Input (Output.Input ℕ Event)) (now : ℚ)
  /-- a status callback of the collector -/
  | status (category value : Str)
  /-- an error is recorded: by the log, or because the output has failed outside of `write()` -/
  | error (message : Str)
  /-- the screen is drawn -/
  | snapshot (now : ℚ)

/-- `handle` goes on as far as its `write()` has. -/
def settle (stats : StatsCollector) (call : Mongo.WriteCall) : StatsCollector :=
  match call.outcome with
  | some outcome => (EventDispatcher.forward stats outcome).1
  | none => stats

/-- What a step of the system that leads to the output `o'` does to the statistics. -/
def observe (setup : Setup (Output ℕ Event) (Output.Input ℕ Event)) (s : State (Output ℕ Event)) (o' : Output ℕ Event)
    (now : ℚ) (stats : StatsCollector) : Input (Output.Input ℕ Event) → StatsCollector
  | .runner .write =>
    match (s.handed setup).getLast?.map setup.normalize with
    | some (.ok normalized) => settle (stats.recordReceived now normalized.event) (o'.calls (s.lastCall setup))
    | _ => stats
  | .runner _ => stats
  | .output (.resumeWrite k) => settle stats (o'.calls k)
  | .output i => (s.output.batchPersisted i).foldl StatsCollector.recordPersisted stats

/-- One step of the event loop. -/
def observedStep (setup : Setup (Output ℕ Event) (Output.Input ℕ Event)) (s : Observed) : ObservedInput → Option Observed
  | .run i now => (step setup s.system i).map fun t => ⟨t, observe setup s.system t.output now s.stats i⟩
  | .status category value => some { s with stats := s.stats.recordCollectorStatus category value }
  | .error message => some { s with stats := s.stats.recordError message }
  | .snapshot now => some { s with stats := (s.stats.snapshot now).1 }

def observedMachine (setup : Setup (Output ℕ Event) (Output.Input ℕ Event)) : Machine Observed ObservedInput :=
  ⟨observedStep setup⟩

/-- The system at the first wait of the runner, with fresh statistics. -/
def observedBegun (setup : Setup (Output ℕ Event) (Output.Input ℕ Event)) (stop : Bool) (startedAt : ℚ) : Observed :=
  ⟨begun setup stop, { symbols := setup.symbols, startedAt }⟩

/-- What is assumed of the code outside the repository, as in `Assumed`. -/
def ObservedAssumed (setup : Setup (Output ℕ Event) (Output.Input ℕ Event)) (s : Observed) : ObservedInput → Prop
  | .run i _ => Assumed setup s.system i
  | _ => True

instance ObservedAssumed.decidable (setup : Setup (Output ℕ Event) (Output.Input ℕ Event)) (s : Observed) :
    DecidablePred (ObservedAssumed setup s)
  | .run i _ => inferInstanceAs (Decidable (Assumed setup s.system i))
  | .status _ _ | .error _ | .snapshot _ => isTrue trivial

/-! ## Counting -/

/-- `stats'` has counted these numbers of messages more than `stats`. -/
structure Counts (received forwarded persisted : ℕ) (stats stats' : StatsCollector) : Prop where
  received : stats'.received = stats.received + received
  forwarded : stats'.forwardedMessages = stats.forwardedMessages + forwarded
  persisted : stats'.persistedMessages = stats.persistedMessages + persisted

theorem recordReceived_counts (stats : StatsCollector) (now : ℚ) (event : Event) :
    Counts 1 0 0 stats (stats.recordReceived now event) := by
  refine ⟨stats.recordReceived_received now event, ?_, ?_⟩ <;> unfold StatsCollector.recordReceived <;> split <;> rfl

theorem recordCollectorStatus_counts (stats : StatsCollector) (category value : Str) :
    Counts 0 0 0 stats (stats.recordCollectorStatus category value) := by
  unfold StatsCollector.recordCollectorStatus
  split
  · exact ⟨rfl, rfl, rfl⟩
  split
  · exact ⟨rfl, rfl, rfl⟩
  split <;> exact ⟨rfl, rfl, rfl⟩

theorem recordPersisted_counts (counts : List ℕ) (stats : StatsCollector) :
    Counts 0 0 counts.sum stats (counts.foldl StatsCollector.recordPersisted stats) := by
  induction counts generalizing stats with
  | nil => exact ⟨rfl, rfl, rfl⟩
  | cons count counts ih =>
    obtain ⟨hr, hf, hp⟩ := ih (stats.recordPersisted count)
    refine ⟨hr, hf, hp.trans ?_⟩
    rw [List.sum_cons]
    exact Nat.add_assoc ..

/-- `handle` counts a message as forwarded exactly if `write()` has returned. -/
theorem settle_counts (stats : StatsCollector) (call : Mongo.WriteCall) :
    Counts 0 (if call = .returned then 1 else 0) 0 stats (settle stats call) := by
  cases call with
  | returned => exact ⟨rfl, rfl, rfl⟩
  | raised e => cases e <;> exact ⟨rfl, rfl, rfl⟩
  | idle | racing | abandoning | leaving => exact ⟨rfl, rfl, rfl⟩

/-! ## Calls -/

variable {cfg : Mongo.Settings} {o o' : Output ℕ Event} {i : Output.Input ℕ Event}

/-- A call begins with `write()`. -/
theorem idle_iff_of_move {k : ℕ} (h : Output.Move o o' i k) (hi : ∀ event, i ≠ .write k event) :
    o'.calls k = .idle ↔ o.calls k = .idle := by
  refine ⟨fun h' => by_contra fun hne => h.not_idle hne h', fun hk => ?_⟩
  cases h with
  | still h | puts _ h => rwa [h]
  | starts heq | rejects heq => exact absurd heq (hi _)
  | abandons _ hk' | leaves _ hk' | givesUp _ hk' | returns _ hk' | raises _ hk' => rw [hk] at hk'; cases hk'
  | cancelled _ hk' _ hcase =>
    rw [hk] at hk'
    rcases hcase with ⟨rfl, -⟩ | ⟨⟨b, rfl⟩, -⟩ | ⟨⟨e, rfl⟩, -⟩ <;> cases hk'

/-- A call that has returned has ended; another one returns only when its task resumes. -/
theorem returned_iff_of_move {k : ℕ} (h : Output.Move o o' i k) (hi : i ≠ .resumeWrite k) :
    o'.calls k = .returned ↔ o.calls k = .returned := by
  have hneither : o.calls k ≠ .returned → o'.calls k ≠ .returned →
      (o'.calls k = .returned ↔ o.calls k = .returned) := fun h h' => iff_of_false h' h
  cases h with
  | still h | puts _ h => rw [h]
  | starts _ hk hk' | rejects _ hk hk' =>
    exact hneither (by rw [hk]; exact nofun) (by rw [hk']; exact nofun)
  | abandons heq | leaves heq | givesUp heq | returns heq | raises heq => exact absurd heq hi
  | cancelled _ hk _ hcase =>
    rcases hcase with ⟨rfl, hk'⟩ | ⟨⟨b, rfl⟩, hk'⟩ | ⟨⟨e, rfl⟩, hk'⟩ <;>
      exact hneither (by rw [hk]; exact nofun) (by rw [hk']; exact nofun)

theorem write_begins {k : ℕ} {event : Event} (h : (Output.machine cfg).step o (.write k event) = some o') :
    o.calls k = .idle ∧ o'.calls k ≠ .idle := by
  change Output.step cfg o (.write k event) = some o' at h
  simp only [Output.step] at h
  split at h
  · cases h
    refine ⟨‹_›, ?_⟩
    unfold Output.write
    split
    · simp [Output.setCall]
    split <;> simp [Output.setCall]
  · cases h

theorem resumeWrite_unreturned {k : ℕ} (h : (Output.machine cfg).step o (.resumeWrite k) = some o') :
    o.calls k ≠ .returned := by
  intro hk
  change o.resumeWrite k = some o' at h
  rw [Output.resumeWrite, hk] at h
  cases h

/-! ## Steps -/

variable {setup : Setup (Output ℕ Event) (Output.Input ℕ Event)} {s s' : Observed}

/-- The numbers of the calls that have begun, and of those that have returned, are those below the two counters; the
third one counts the documents stored. -/
structure Agreed (o : Output ℕ Event) (stats : StatsCollector) : Prop where
  begun : ∀ j, o.calls j ≠ .idle ↔ j < stats.received
  returned : ∀ j, o.calls j = .returned ↔ j < stats.forwardedMessages
  persisted : stats.persistedMessages = o.confirmed.length

theorem Agreed.counts {stats stats' : StatsCollector} (h : Agreed o stats) (hc : Counts 0 0 0 stats stats') :
    Agreed o stats' := by
  obtain ⟨hr, hf, hp⟩ := hc
  exact ⟨fun j => by rw [hr]; exact h.begun j, fun j => by rw [hf]; exact h.returned j, hp.trans h.persisted⟩

/-- A step of the output in which no call begins and no task of a call resumes. -/
theorem Agreed.worker {stats : StatsCollector} (h : Agreed o stats) (hc : Mongo.Output.Contract cfg o)
    (hwrite : ∀ k event, i ≠ .write k event) (hresume : ∀ k, i ≠ .resumeWrite k)
    (hstep : (Output.machine cfg).step o i = some o') :
    Agreed o' ((o.batchPersisted i).foldl StatsCollector.recordPersisted stats) := by
  obtain ⟨hr, hf, hp⟩ := recordPersisted_counts (o.batchPersisted i) stats
  have hmove := (Output.step_spec hstep).1
  have hturn := (Output.step_turn hc.sound.inv hc.sound.closing.ready hc.sound.ordered.held hstep).1
  refine ⟨fun j => ?_, fun j => ?_, ?_⟩
  · rw [hr, Nat.add_zero, ← h.begun j]
    exact not_congr (idle_iff_of_move (hmove j) (hwrite j))
  · rw [hf, Nat.add_zero, ← h.returned j]
    exact returned_iff_of_move (hmove j) (hresume j)
  · rw [hp, h.persisted, hturn.persisted]

/-- A step that is no step of the worker stores nothing. -/
theorem confirmed_of_step (hc : Mongo.Output.Contract cfg o) (hnone : o.batchPersisted i = [])
    (hstep : (Output.machine cfg).step o i = some o') : o'.confirmed.length = o.confirmed.length := by
  have hturn := (Output.step_turn hc.sound.inv hc.sound.closing.ready hc.sound.ordered.held hstep).1
  rw [hturn.persisted, hnone, List.sum_nil, Nat.add_zero]

/-- The task of a call resumes: `handle` goes on. -/
theorem Agreed.resumes {stats : StatsCollector} (h : Agreed o stats) (hc : Mongo.Output.Contract cfg o) {k n : ℕ}
    (hstep : (Output.machine cfg).step o (.resumeWrite k) = some o')
    (hserved : ∀ j, o'.calls j = .returned ↔ j < n) : Agreed o' (settle stats (o'.calls k)) := by
  obtain ⟨hr, hf, hp⟩ := settle_counts stats (o'.calls k)
  have hmove := (Output.step_spec hstep).1
  have hothers : ∀ j, j ≠ k → (o'.calls j = .returned ↔ j < stats.forwardedMessages) := fun j hj => by
    rw [← h.returned j]
    exact returned_iff_of_move (hmove j) fun heq => hj (by cases heq; rfl)
  have hk : ¬k < stats.forwardedMessages := fun hlt => resumeWrite_unreturned hstep ((h.returned k).2 hlt)
  refine ⟨fun j => ?_, fun j => ?_, ?_⟩
  · rw [hr, Nat.add_zero, ← h.begun j]
    exact not_congr (idle_iff_of_move (hmove j) nofun)
  · by_cases hret : o'.calls k = .returned
    · -- the numbers below `n` are those below the counter and `k`
      have heq : k = stats.forwardedMessages := by
        by_contra hne
        have hlt : stats.forwardedMessages < n := by
          have := (hserved k).1 hret
          omega
        exact absurd ((hothers _ (Ne.symm hne)).1 ((hserved _).2 hlt)) (Nat.lt_irrefl _)
      rw [hf, if_pos hret]
      by_cases hj : j = k
      · subst hj
        simp only [hret, true_iff]
        omega
      · rw [hothers j hj]
        omega
    · rw [hf, if_neg hret, Nat.add_zero]
      by_cases hj : j = k
      · subst hj
        exact iff_of_false hret hk
      · exact hothers j hj
  · rw [hp, Nat.add_zero, h.persisted, confirmed_of_step hc rfl hstep]

/-- `handle` counts the message and calls `write()`. -/
theorem Agreed.begins {stats : StatsCollector} (h : Agreed o stats) (hc : Mongo.Output.Contract cfg o) {k : ℕ}
    {event : Event} (hstep : (Output.machine cfg).step o (.write k event) = some o') (hk : k = stats.received)
    (now : ℚ) : Agreed o' (settle (stats.recordReceived now event) (o'.calls k)) := by
  obtain ⟨hidle, hbegun⟩ := write_begins hstep
  have hmove := (Output.step_spec hstep).1
  have hreturned : ∀ j, o'.calls j = .returned ↔ o.calls j = .returned := fun j => returned_iff_of_move (hmove j) nofun
  have hnot : o'.calls k ≠ .returned := fun hret => by
    rw [(hreturned k).1 hret] at hidle
    cases hidle
  obtain ⟨hr, hf, hp⟩ := recordReceived_counts stats now event
  obtain ⟨hr', hf', hp'⟩ := settle_counts (stats.recordReceived now event) (o'.calls k)
  rw [if_neg hnot] at hf'
  refine ⟨fun j => ?_, fun j => ?_, ?_⟩
  · rw [hr', hr, Nat.add_zero]
    by_cases hj : j = k
    · subst hj
      exact iff_of_true hbegun (by omega)
    · have hsame := not_congr (idle_iff_of_move (hmove j) fun e heq => hj (by cases heq; rfl))
      exact (hsame.trans (h.begun j)).trans (by omega)
  · rw [hf', hf, hreturned j]
    exact h.returned j
  · exact (hp'.trans (hp.trans h.persisted)).trans (confirmed_of_step hc rfl hstep).symm

/-- `handle` is called for a message whose event is known. -/
theorem handle_ok {s : State (Output ℕ Event)} (h : s.handle setup = some o') : ∃ m n,
    (s.handed setup).getLast? = some m ∧ setup.normalize m = .ok n ∧
      setup.output.machine.step s.output (setup.output.input (.write (s.lastCall setup) n.event)) = some o' := by
  unfold State.handle at h
  split at h
  · rename_i hlast
    split at h
    · exact ⟨_, _, hlast, ‹_›, h⟩
    · cases h
  · cases h

/-- What a step of the system does to the output. -/
inductive Outputs (setup : Setup (Output ℕ Event) (Output.Input ℕ Event)) (s : State (Output ℕ Event))
    (i : Input (Output.Input ℕ Event)) (o' : Output ℕ Event) : Prop
  | rests : i ≠ .runner .write → (∀ j, i ≠ .output j) → o' = s.output → Outputs setup s i o'
  | handles {m : WireMessage} {n : NormalizedMessage} : i = .runner .write → (s.handed setup).getLast? = some m →
      setup.normalize m = .ok n →
      setup.output.machine.step s.output (setup.output.input (.write (s.lastCall setup) n.event)) = some o' →
      Outputs setup s i o'
  | asks {q : Request} : i ≠ .runner .write → (∀ j, i ≠ .output j) → (∀ k event, q ≠ .write k event) →
      setup.output.machine.step s.output (setup.output.input q) = some o' → Outputs setup s i o'
  | runs {j : Output.Input ℕ Event} : i = .output j → setup.output.request j = none →
      setup.output.machine.step s.output j = some o' → Outputs setup s i o'

theorem outputs_of_step {s s' : State (Output ℕ Event)} {i : Input (Output.Input ℕ Event)}
    (h : (machine setup).step s i = some s') : Outputs setup s i s'.output := by
  change step setup s i = some s' at h
  cases i with
  | output j =>
    simp only [step, Option.ite_none_right_eq_some, Option.map_eq_some_iff] at h
    obtain ⟨⟨-, hown⟩, o', ho, rfl⟩ := h
    exact .runs rfl hown ho
  | runner i =>
    simp only [step, Option.ite_none_right_eq_some, Option.bind_eq_some_iff, Option.map_eq_some_iff] at h
    obtain ⟨-, t, ht, o', ho, rfl⟩ := h
    by_cases hi : i = .write
    · subst hi
      obtain ⟨m, n, hlast, hn, hstep⟩ := handle_ok ho
      exact .handles rfl hlast hn hstep
    have hne : Input.runner (ι := Output.Input ℕ Event) i ≠ .runner .write := fun heq => hi (by cases heq; rfl)
    cases asks_of_step ht ho with
    | rests heq => exact .rests hne (by simp) heq
    | writes heq => exact absurd heq hi
    | reports _ _ hstep => exact .asks (q := .reportFailure) hne (by simp) (by simp) hstep
    | closes _ _ hstep => exact .asks (q := .close) hne (by simp) (by simp) hstep
    | cancels hq _ hstep =>
      refine .asks hne (by simp) ?_ hstep
      rcases hq with rfl | rfl <;> simp

/-- **A step keeps the agreement.** -/
theorem observe_agreed (hout : setup.output = Output.eventOutput cfg) {s s' : State (Output ℕ Event)}
    {i : Input (Output.Input ℕ Event)} {stats : StatsCollector}
    (hs : Accounted setup (Mongo.Output.Contract cfg) Mongo.Output.Closed s)
    (hs' : Accounted setup (Mongo.Output.Contract cfg) Mongo.Output.Closed s') (h : Agreed s.output stats)
    (hstep : (machine setup).step s i = some s') (now : ℚ) :
    Agreed s'.output (observe setup s s'.output now stats i) := by
  have hserved : ∃ n, ∀ j, s'.output.calls j = .returned ↔ j < n := by
    obtain ⟨served, waiting, hc⟩ := hs'.custody
    refine ⟨served.length, fun j => ?_⟩
    rw [← hc.returned_iff j, hout]
    exact Mongo.Output.status_returned.symm
  -- a step of the runner that calls no `write()` records nothing
  have hquiet : i ≠ .runner .write → (∀ j, i ≠ .output j) → observe setup s s'.output now stats i = stats :=
    fun hrunner houtput => by
      cases i with
      | output j => exact absurd rfl (houtput j)
      | runner i => cases i <;> first | rfl | exact absurd rfl hrunner
  cases outputs_of_step hstep with
  | rests hrunner houtput heq =>
    rw [hquiet hrunner houtput, heq]
    exact h
  | @handles m n hi hlast hn hwrite =>
    subst hi
    rw [hout] at hwrite
    have hwrite : (Output.machine cfg).step s.output (.write (s.lastCall setup) n.event) = some s'.output := hwrite
    have hidle := (write_begins hwrite).1
    have hcall : s.lastCall setup = stats.received := by
      obtain ⟨served, waiting, hc⟩ := hs.custody
      have hnot : setup.output.call s.output (s.lastCall setup) ≠ .returned := fun hret => by
        rw [hout] at hret
        rw [Mongo.Output.status_returned.1 hret] at hidle
        cases hidle
      obtain ⟨-, heq⟩ := hc.unserved hlast hnot
      have hlast : s.lastCall setup = served.length := heq
      -- the calls of the messages served have begun, and the last one has not
      have hle : stats.received ≤ served.length := by
        rw [← hlast]
        exact not_lt.1 fun hlt => (h.begun _).2 hlt hidle
      refine hlast.trans (Nat.le_antisymm (not_lt.1 fun hlt => ?_) hle)
      have hret := hc.returned _ hlt
      rw [hout] at hret
      have hret : s.output.calls stats.received = .returned := Mongo.Output.status_returned.1 hret
      exact Nat.lt_irrefl _ ((h.begun stats.received).1 (by rw [hret]; exact nofun))
    have hobserve : observe setup s s'.output now stats (.runner .write) =
        settle (stats.recordReceived now n.event) (s'.output.calls (s.lastCall setup)) := by
      simp only [observe, hlast, Option.map_some, hn]
    rw [hobserve]
    exact h.begins hs.output hwrite hcall now
  | @asks q hrunner houtput hq hask =>
    rw [hquiet hrunner houtput]
    rw [hout] at hask
    have hquiet : ∀ j, (Output.machine cfg).step s.output j = some s'.output → (∀ k event, j ≠ .write k event) →
        (∀ k, j ≠ .resumeWrite k) → s.output.batchPersisted j = [] → Agreed s'.output stats := fun j hj hw hr hb => by
      have hworker := h.worker hs.output hw hr hj
      rwa [hb] at hworker
    cases q with
    | write k event => exact absurd rfl (hq k event)
    | cancelWrite k => exact hquiet (.cancelWrite k) hask nofun nofun rfl
    | close => exact hquiet .close hask nofun nofun rfl
    | cancelClose => exact hquiet .cancelClose hask nofun nofun rfl
    | reportFailure => exact hquiet .reportFailure hask nofun nofun rfl
  | @runs j hi hown hrun =>
    subst hi
    rw [hout] at hown hrun
    have hrun : (Output.machine cfg).step s.output j = some s'.output := hrun
    obtain ⟨n, hserved⟩ := hserved
    cases j with
    | write k event => cases hown
    | resumeWrite k => exact h.resumes hs.output hrun hserved
    | putTask | failureTask | cancelWrite | worker | insertDone | cancelWorker | close | workerDone | shutdownTimeout
    | clientClosed | cancelClose | reportFailure => exact h.worker hs.output nofun nofun hrun

/-- The account of the system and of its statistics. -/
structure Audited (setup : Setup (Output ℕ Event) (Output.Input ℕ Event)) (cfg : Mongo.Settings) (s : Observed) :
    Prop where
  accounted : Accounted setup (Mongo.Output.Contract cfg) Mongo.Output.Closed s.system
  agreed : Agreed s.system.output s.stats

theorem step_audited (hout : setup.output = Output.eventOutput cfg) (h : Audited setup cfg s) {i : ObservedInput}
    (hassumed : ObservedAssumed setup s i) (hstep : (observedMachine setup).step s i = some s') :
    Audited setup cfg s' := by
  change observedStep setup s i = some s' at hstep
  cases i with
  | run i now =>
    obtain ⟨t, ht, rfl⟩ := Option.map_eq_some_iff.1 hstep
    have hl : setup.output.Lawful (Mongo.Output.Contract cfg) Mongo.Output.Closed := by
      rw [hout]
      exact Mongo.Output.eventOutput_lawful cfg
    have ht' := step_accounted hl hassumed h.accounted ht
    exact ⟨ht', observe_agreed hout h.accounted ht' h.agreed ht now⟩
  | status category value =>
    cases hstep
    exact ⟨h.accounted, h.agreed.counts (recordCollectorStatus_counts ..)⟩
  | error message =>
    cases hstep
    exact ⟨h.accounted, h.agreed.counts ⟨rfl, rfl, rfl⟩⟩
  | snapshot now =>
    cases hstep
    exact ⟨h.accounted, h.agreed.counts ⟨rfl, rfl, rfl⟩⟩

theorem begun_audited (hout : setup.output = Output.eventOutput cfg) (stop : Bool) (startedAt : ℚ) :
    Audited setup cfg (observedBegun setup stop startedAt) := by
  have hl : setup.output.Lawful (Mongo.Output.Contract cfg) Mongo.Output.Closed := by
    rw [hout]
    exact Mongo.Output.eventOutput_lawful cfg
  have hopened : (observedBegun setup stop startedAt).system.output = Output.opened := by
    rw [show (observedBegun setup stop startedAt).system.output = setup.output.opened from rfl, hout]
    rfl
  refine ⟨begun_accounted hl stop, fun j => ?_, fun j => ?_, ?_⟩
  · rw [hopened]
    exact iff_of_false (fun hne => hne rfl) (Nat.not_lt_zero j)
  · rw [hopened]
    exact iff_of_false nofun (Nat.not_lt_zero j)
  · rw [hopened]
    rfl

/-! ## Main result -/

section

variable {c : Connection.State WireMessage} {served : List WireMessage} {waiting : Option WireMessage}
  {stats : StatsCollector} (hout : setup.output = Output.eventOutput cfg) (h : Agreed o stats)
  (hc : Custody setup c o served waiting)
include hout h hc

theorem Agreed.forwarded_eq : stats.forwardedMessages = served.length := by
  refine eq_of_forall_lt_iff fun j => ?_
  rw [← h.returned j, ← hc.returned_iff j, hout]
  exact Mongo.Output.status_returned.symm

/-- The message that waits has been counted, or it has not. -/
theorem Agreed.received_bounds : served.length ≤ stats.received ∧
    stats.received ≤ (Connection.handledMessages c.history).length := by
  have hreturned := hc.returned_iff stats.received
  have hfresh := hc.fresh (Connection.handledMessages c.history).length (by rw [hc.handed])
  rw [hout] at hreturned hfresh
  refine ⟨not_lt.1 fun hlt => ?_, not_lt.1 fun hlt => ?_⟩
  · have hret : o.calls stats.received = .returned := Mongo.Output.status_returned.1 (hreturned.2 hlt)
    exact Nat.lt_irrefl _ ((h.begun _).1 (by rw [hret]; exact nofun))
  · have hidle : (o.calls (Connection.handledMessages c.history).length).status = .idle := hfresh.1
    refine (h.begun _).2 hlt ?_
    cases hcall : o.calls (Connection.handledMessages c.history).length <;> rw [hcall] at hidle <;>
      first | rfl | cases hidle

omit h in
/-- The messages served have been accepted, and perhaps the one that waits. -/
theorem accepted_bounds : o.accepted.length = served.length ∨
    o.accepted.length = served.length + 1 ∧ o.calls ((Connection.handledMessages c.history).length - 1) ≠ .returned := by
  have hdue : (due setup served).length = served.length := by simpa using congrArg List.length (due_keys hc.decoded)
  have haccepted : (setup.output.accepted o).length = o.accepted.length := by
    rw [hout]
    exact List.length_map _
  rcases hc.accepted with ha | ⟨-, m, hm, n, -, ha⟩
  · exact .inl (by rw [← haccepted, ha, hdue])
  · refine .inr ⟨by rw [← haccepted, ha, List.length_append, hdue, List.length_singleton], fun hret => ?_⟩
    rw [hc.last_call hm] at hret
    refine hc.waits (by rw [Option.mem_def.1 hm]; exact nofun) ?_
    rw [hout]
    exact Mongo.Output.status_returned.2 hret

omit hout hc in
/-- What has been accepted is stored or pending. -/
theorem Agreed.accepted_eq (hcontract : Mongo.Output.Contract cfg o) :
    o.accepted.length = stats.persistedMessages + o.pendingCount := by
  have hsound := hcontract.sound
  rw [hsound.inv.conserved, ← hsound.ordered.held, h.persisted, List.length_append, List.length_append,
    Output.pendingCount]
  omega

end

/-- **The legacy statistics agree with the store up to one message**, in every state of every run, whatever is cancelled
and whatever fails. All messages handed on have been counted, but for the last one, and all that have been counted have
been forwarded, but for the last one; the calls of `write()` that have returned are the messages forwarded; what is
counted as persisted is stored. The messages that the screen shows as pending are those the output still holds, or one
less: the message whose `write()` has not returned. -/
theorem legacy_statistics_agree {symbols : List Str} {limits : Limits} {policy : ReconnectPolicy} {mode : Runtime.Mode}
    {managesSignals : Bool} {cfg : Mongo.Settings} {stop : Bool} {startedAt : ℚ} {is : List ObservedInput} {s : Observed}
    (h : (observedMachine (mongoSetup symbols limits policy mode managesSignals cfg)).Path
      (ObservedAssumed (mongoSetup symbols limits policy mode managesSignals cfg))
      (observedBegun (mongoSetup symbols limits policy mode managesSignals cfg) stop startedAt) is s) :
    let setup := mongoSetup symbols limits policy mode managesSignals cfg
    let handed := (s.system.handed setup).length
    let pending := s.system.output.pendingCount
    (s.stats.forwardedMessages ≤ s.stats.received ∧ s.stats.received ≤ handed ∧
      handed ≤ s.stats.forwardedMessages + 1) ∧
    (∀ k, s.system.output.calls k = .returned ↔ k < s.stats.forwardedMessages) ∧
    s.stats.persistedMessages = s.system.output.confirmed.length ∧
    (s.stats.persistedMessages + pending = s.stats.forwardedMessages ∨
      s.stats.persistedMessages + pending = s.stats.forwardedMessages + 1 ∧
        s.system.output.calls (s.system.lastCall setup) ≠ .returned) ∧
    ∀ now, (s.stats.snapshot now).2.pendingMessages = pending ∨
      (s.stats.snapshot now).2.pendingMessages + 1 = pending := by
  intro setup handed pending
  obtain ⟨haccounted, hagreed⟩ := h.invariant (I := Audited setup cfg)
    (fun _ _ _ hassumed hs hstep => step_audited rfl hs hassumed hstep) (begun_audited rfl stop startedAt)
  obtain ⟨served, waiting, hc⟩ := haccounted.custody
  have hforwarded := hagreed.forwarded_eq rfl hc
  have hreceived := hagreed.received_bounds rfl hc
  have hhanded : handed ≤ served.length + 1 := by
    rw [show handed = (served ++ waiting.toList).length from congrArg List.length hc.handed]
    cases waiting <;> simp
  have haccepted : _ = s.stats.persistedMessages + pending := hagreed.accepted_eq haccounted.output
  have hpending : s.stats.persistedMessages + pending = s.stats.forwardedMessages ∨
      s.stats.persistedMessages + pending = s.stats.forwardedMessages + 1 ∧
        s.system.output.calls (s.system.lastCall setup) ≠ .returned := by
    rw [← haccepted, hforwarded]
    exact accepted_bounds rfl hc
  refine ⟨⟨by omega, hreceived.2, by omega⟩, hagreed.returned, hagreed.persisted, hpending, fun now => ?_⟩
  have hshown : (s.stats.snapshot now).2.pendingMessages = s.stats.forwardedMessages - s.stats.persistedMessages := rfl
  omega

/-- A message is accepted before its `write()` returns, and the screen is drawn. -/
def acceptedBeforeReturn : List ObservedInput :=
  [.run (.runner (.opened true)) 0, .run (.runner (.collector .start)) 0, .run (.runner (.collector .connected)) 0,
    .run (.runner (.collector .sent)) 0, .run (.runner (.collector (.receives (.text (str "x"))))) 0,
    .run (.runner (.collector (.settled 0))) 0, .run (.runner .write) 0, .run (.output (.putTask 0)) 0, .snapshot 1]

theorem legacy_statistics_agree_acceptedBeforeReturn : ∃ s : Observed,
    (observedMachine btcusdtMongo).Path (ObservedAssumed btcusdtMongo) (observedBegun btcusdtMongo false 0)
      acceptedBeforeReturn s ∧ s.stats.received = 1 ∧ s.stats.forwardedMessages = 0 ∧ s.system.output.pendingCount = 1 ∧
      ∀ now, (s.stats.snapshot now).2.pendingMessages = s.system.output.pendingCount ∨
        (s.stats.snapshot now).2.pendingMessages + 1 = s.system.output.pendingCount := by
  obtain ⟨s, hs, hp⟩ := Machine.exists_path_of_check (M := observedMachine btcusdtMongo)
    (P := ObservedAssumed btcusdtMongo) (p := fun s : Observed => decide (s.stats.received = 1 ∧
      s.stats.forwardedMessages = 0 ∧ s.system.output.pendingCount = 1))
    (observedBegun btcusdtMongo false 0) acceptedBeforeReturn (by decide +kernel)
  obtain ⟨hreceived, hforwarded, hpending⟩ := of_decide_eq_true hp
  exact ⟨s, hs, hreceived, hforwarded, hpending, (legacy_statistics_agree hs).2.2.2.2⟩

end LegacyRuntime

end BinanceCollector
