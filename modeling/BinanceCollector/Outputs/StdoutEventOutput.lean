import Mathlib.Logic.Function.Basic
import BinanceCollector.Outputs.EventOutput
import BinanceCollector.Outputs.Stdout

/-!
# `StdoutOutput` keeps the contract of an output

`write()` runs `_write_sync` in a thread: the job waits for a thread, runs and ends, and a cancelled `write()` leaves a
running job alone. What has been written is at once stored.

- `Written`: the text of the stream is the lines of the accepted events.
- **`eventOutput_lawful`**: the contract.
-/

namespace BinanceCollector.StdoutOutput

open Steps Text Json

/-- The job of `asyncio.to_thread`. -/
inductive Job where
  | none
  /-- waiting for a thread -/
  | queued (event : Event)
  /-- in `_write_sync` -/
  | running (event : Event)
  | done
  | failed (e : StdoutError)
  | cancelled

/-- A call of `write()`. -/
inductive WriteCall where
  | idle
  /-- waiting for its job -/
  | waiting
  | returned
  /-- the exception of the job, or `CancelledError` -/
  | raised (e : Option StdoutError)

/-- What the output is built from: `float.__repr__`, the limits in a thread and the stream. -/
structure Settings where
  repr : Str → Option Str
  limits : Limits
  stream : TextIO

/-- The output, its jobs and the calls on it. -/
structure State where
  stream : TextIO
  jobs : ℕ → Job := fun _ => .none
  calls : ℕ → WriteCall := fun _ => .idle
  closeCall : CloseStatus := .idle
  /-- a history: the events written, with the numbers of their calls -/
  accepted : List (ℕ × Event) := []

/-- What happens next. -/
inductive Input where
  /-- a call `write(event)`, up to its first suspension point -/
  | write (k : ℕ) (event : Event)
  /-- a thread takes the job of a call -/
  | start (k : ℕ)
  /-- `_write_sync` ends -/
  | finish (k : ℕ)
  | resumeWrite (k : ℕ)
  | cancelWrite (k : ℕ)
  | close
  /-- `close()` has no suspension point -/
  | cancelClose
  /-- there is no `wait_failed()` -/
  | reportFailure

def State.setJob (s : State) (k : ℕ) (job : Job) : State := { s with jobs := Function.update s.jobs k job }

def State.setCall (s : State) (k : ℕ) (call : WriteCall) : State :=
  { s with calls := Function.update s.calls k call }

/-- `Future.cancel` on the future of a job: a running one goes on. -/
def Job.cancel : Job → Job
  | .queued _ => .cancelled
  | job => job

/-- One step. -/
def step (cfg : Settings) (s : State) : Input → Option State
  | .write k event => match s.calls k with
    | .idle => some ((s.setJob k (.queued event)).setCall k .waiting)
    | _ => none
  | .start k => match s.jobs k with
    | .queued event => some (s.setJob k (.running event))
    | _ => none
  | .finish k => match s.jobs k with
    | .running event =>
      match writeSync cfg.repr cfg.limits s.stream event with
      | .ok stream => some { s.setJob k .done with stream := stream, accepted := s.accepted ++ [(k, event)] }
      | .error e => some (s.setJob k (.failed e))
    | _ => none
  | .resumeWrite k => match s.calls k, s.jobs k with
    | .waiting, .done => some (s.setCall k .returned)
    | .waiting, .failed e => some (s.setCall k (.raised (some e)))
    | _, _ => none
  | .cancelWrite k => match s.calls k with
    | .waiting => some ((s.setJob k (s.jobs k).cancel).setCall k (.raised none))
    | _ => none
  | .close => match s.closeCall with
    | .idle => some { s with closeCall := .returned }
    | _ => none
  | .cancelClose | .reportFailure => none

/-- `StdoutOutput`. -/
def machine (cfg : Settings) : Machine State Input := ⟨step cfg⟩

/-- The event a job may still write. -/
def Job.event : Job → Option Event
  | .queued event | .running event => some event
  | _ => Option.none

/-- The caller's view of a `write()`. -/
def WriteCall.status : WriteCall → WriteStatus
  | .idle => .idle
  | .waiting => .waiting
  | .returned => .returned
  | .raised _ => .raised

/-- `StdoutOutput` as an `EventOutput`. -/
def eventOutput (cfg : Settings) : EventOutput State Input where
  machine := machine cfg
  opened := { stream := cfg.stream }
  failureAware := false
  input
    | .write k event => .write k event
    | .cancelWrite k => .cancelWrite k
    | .close => .close
    | .cancelClose => .cancelClose
    | .reportFailure => .reportFailure
  request
    | .write k event => some (.write k event)
    | .cancelWrite k => some (.cancelWrite k)
    | .close => some .close
    | .cancelClose => some .cancelClose
    | .reportFailure => some .reportFailure
    | _ => none
  call s k := (s.calls k).status
  closing s := s.closeCall
  reported _ := false
  held s k := (s.jobs k).event
  accepted s := s.accepted
  stored s := s.accepted

variable {cfg : Settings} {s s' : State} {i : Input}

/-! ## The contract -/

/-- The accepted events are the lines of the stream. -/
def Written (cfg : Settings) (s : State) : Prop :=
  s.stream.encodes = cfg.stream.encodes ∧ ∃ ls, s.stream.written = cfg.stream.written ++ lines ls ∧
    List.Forall₂ (fun (entry : ℕ × Event) line =>
      dumps (stdoutStyle cfg.repr) cfg.limits (.object entry.2) = .ok line) s.accepted ls

/-- What every run keeps. -/
structure Contract (cfg : Settings) (s : State) : Prop where
  written : Written cfg s
  idle : ∀ k, s.calls k = .idle → s.jobs k = .none
  done : ∀ k, s.jobs k = .done → k ∈ s.accepted.map (·.1)
  returned : ∀ k, s.calls k = .returned → s.jobs k = .done

theorem written_writeSync {event : Event} {stream : TextIO} (h : Written cfg s) (k : ℕ)
    (hw : writeSync cfg.repr cfg.limits s.stream event = .ok stream) :
    Written cfg { s.setJob k .done with stream := stream, accepted := s.accepted ++ [(k, event)] } := by
  obtain ⟨henc, ls, htext, hall⟩ := h
  unfold writeSync at hw
  cases hd : dumps (stdoutStyle cfg.repr) cfg.limits (.object event) with
  | error e => rw [hd] at hw; cases hw
  | ok line =>
    rw [hd] at hw
    unfold TextIO.write at hw
    dsimp only at hw
    split at hw
    · cases hw
      refine ⟨henc, ls ++ [line], ?_, List.rel_append hall (.cons hd .nil)⟩
      change s.stream.written ++ (line ++ [code '\n']) = _
      rw [htext, lines_append, List.append_assoc]
      simp [lines]
    · cases hw

/-- A value that the update has not put there was there before. -/
theorem of_update {β : Type} {f : ℕ → β} {k q : ℕ} {v w : β} (h : Function.update f k v q = w)
    (hv : v = w → f k = w) : f q = w := by
  by_cases hq : q = k
  · subst hq
    rw [Function.update_self] at h
    exact hv h
  · rwa [Function.update_of_ne hq] at h

/-- A value that has not been overwritten is still there. -/
theorem keep_update {β : Type} {f : ℕ → β} {k q : ℕ} {v w : β} (h : f q = w) (hk : f k ≠ w) :
    Function.update f k v q = w := by
  have hne : q ≠ k := fun heq => hk (by rw [← heq]; exact h)
  rwa [Function.update_of_ne hne]

/-- A job is replaced by one that is not done. -/
theorem Contract.job (h : Contract cfg s) {k : ℕ} {job : Job} (hold : s.jobs k ≠ .none) (hdone : s.jobs k ≠ .done)
    (hnew : job ≠ .done) : Contract cfg (s.setJob k job) where
  written := h.written
  idle _ hq := keep_update (h.idle _ hq) hold
  done q hq := h.done q (of_update hq fun heq => absurd heq hnew)
  returned q hq := keep_update (h.returned q hq) hdone

theorem Contract.cancelJob (h : Contract cfg s) {k : ℕ} : Contract cfg (s.setJob k (s.jobs k).cancel) := by
  cases hk : s.jobs k with
  | queued event => exact h.job (by rw [hk]; exact nofun) (by rw [hk]; exact nofun) nofun
  | none | running | done | failed | cancelled =>
    have hsame : s.setJob k (s.jobs k) = s := by rw [State.setJob, Function.update_eq_self]
    rw [hk] at hsame
    exact hsame.symm ▸ h

/-- A call that has been made moves. -/
theorem Contract.call (h : Contract cfg s) {k : ℕ} {call : WriteCall} (hmade : call = .idle → s.calls k = .idle)
    (hdone : call = .returned → s.jobs k = .done) : Contract cfg (s.setCall k call) where
  written := h.written
  idle q hq := h.idle q (of_update hq hmade)
  done := h.done
  returned q hq := by
    change Function.update s.calls k call q = .returned at hq
    by_cases heq : q = k
    · subst heq
      rw [Function.update_self] at hq
      exact hdone hq
    · rw [Function.update_of_ne heq] at hq
      exact h.returned q hq

theorem step_contract (h : Contract cfg s) (hstep : (machine cfg).step s i = some s') : Contract cfg s' := by
  change step cfg s i = some s' at hstep
  cases i with
  | write k event =>
    simp only [step] at hstep
    split at hstep <;> cases hstep
    rename_i hk
    have hnone : s.jobs k = .none := h.idle k hk
    refine ⟨h.written, fun q hq => ?_, fun q hq => h.done q (of_update hq nofun), fun q hq => ?_⟩
    · change Function.update s.calls k .waiting q = .idle at hq
      change Function.update s.jobs k (.queued event) q = .none
      have hne : q ≠ k := fun heq => by rw [heq, Function.update_self] at hq; cases hq
      rw [Function.update_of_ne hne] at hq ⊢
      exact h.idle q hq
    · have hq : s.calls q = .returned := of_update hq nofun
      exact keep_update (h.returned q hq) (by rw [hnone]; exact nofun)
  | start k =>
    simp only [step] at hstep
    split at hstep <;> cases hstep
    rename_i event hk
    exact h.job (by rw [hk]; exact nofun) (by rw [hk]; exact nofun) nofun
  | finish k =>
    simp only [step] at hstep
    split at hstep
    · rename_i event hk
      split at hstep <;> cases hstep
      · refine ⟨written_writeSync h.written k ‹_›, fun q hq => keep_update (h.idle q hq) (by rw [hk]; exact nofun),
          fun q hq => ?_, fun q hq => keep_update (h.returned q hq) (by rw [hk]; exact nofun)⟩
        change Function.update s.jobs k .done q = .done at hq
        change q ∈ (s.accepted ++ [(k, event)]).map (·.1)
        rw [List.map_append, List.mem_append]
        by_cases heq : q = k
        · exact .inr (List.mem_singleton.2 heq)
        · rw [Function.update_of_ne heq] at hq
          exact .inl (h.done q hq)
      · exact h.job (by rw [hk]; exact nofun) (by rw [hk]; exact nofun) nofun
    · cases hstep
  | resumeWrite k =>
    simp only [step] at hstep
    split at hstep <;> cases hstep
    · exact h.call nofun fun _ => ‹_›
    · exact h.call nofun nofun
  | cancelWrite k =>
    simp only [step] at hstep
    split at hstep <;> cases hstep
    exact h.cancelJob.call nofun nofun
  | close =>
    simp only [step] at hstep
    split at hstep <;> cases hstep
    exact ⟨h.written, h.idle, h.done, h.returned⟩
  | cancelClose | reportFailure => cases hstep

/-! ## The effect of a step -/

theorem call_of {k : ℕ} {c : WriteCall} (h : s.calls k = c) : (eventOutput cfg).call s k = c.status :=
  congrArg WriteCall.status h

theorem held_of_job {k : ℕ} {j : Job} (h : s.jobs k = j) : (eventOutput cfg).held s k = j.event :=
  congrArg Job.event h

theorem others_of_update {k : ℕ} (hcalls : ∀ q, q ≠ k → s'.calls q = s.calls q)
    (hjobs : ∀ q, q ≠ k → s'.jobs q = s.jobs q) : EventOutput.Others (eventOutput cfg) s s' k := fun q hq =>
  ⟨congrArg WriteCall.status (hcalls q hq), congrArg Job.event (hjobs q hq)⟩

/-- A job moves on and may give up its event. -/
theorem quiet_job {k : ℕ} {job : Job} (hjob : job.event = (s.jobs k).event ∨ job.event = none) :
    EventOutput.Effect (eventOutput cfg) s i (s.setJob k job) := by
  refine .quiet rfl (fun q => .inl rfl) fun q => ?_
  change (Function.update s.jobs k job q).event = (s.jobs q).event ∨ (Function.update s.jobs k job q).event = none
  by_cases hq : q = k
  · subst hq
    rwa [Function.update_self]
  · rw [Function.update_of_ne hq]
    exact .inl rfl

/-- A call that waits raises; its job may give up its event. -/
theorem quiet_call {k : ℕ} {e : Option StdoutError} (hk : s.calls k = .waiting)
    (hjobs : ∀ q, (s'.jobs q).event = (s.jobs q).event ∨ (s'.jobs q).event = none)
    (hcalls : s'.calls = Function.update s.calls k (.raised e)) (ha : s'.accepted = s.accepted) :
    EventOutput.Effect (eventOutput cfg) s i s' := by
  refine .quiet ha (fun q => ?_) hjobs
  change EventOutput.Stays (s.calls q).status (s'.calls q).status
  rw [hcalls]
  by_cases hq : q = k
  · subst hq
    rw [Function.update_self, hk]
    exact .inr ⟨rfl, rfl⟩
  · rw [Function.update_of_ne hq]
    exact .inl rfl

/-- **What a step does**, as the callers see it. -/
theorem effect_of_step (h : Contract cfg s) (hstep : (machine cfg).step s i = some s') :
    EventOutput.Effect (eventOutput cfg) s i s' := by
  change step cfg s i = some s' at hstep
  cases i with
  | write k event =>
    simp only [step] at hstep
    split at hstep <;> cases hstep
    rename_i hk
    exact .writes (k := k) (e := event) rfl (call_of hk)
      (.inl ⟨call_of (c := .waiting) (Function.update_self ..),
        held_of_job (j := .queued event) (Function.update_self ..)⟩) rfl
      (others_of_update (fun q hq => Function.update_of_ne hq ..) fun q hq => Function.update_of_ne hq ..)
  | start k =>
    simp only [step] at hstep
    split at hstep <;> cases hstep
    rename_i event hk
    exact quiet_job (.inl (by rw [hk]; rfl))
  | finish k =>
    simp only [step] at hstep
    split at hstep
    · rename_i event hk
      split at hstep <;> cases hstep
      · exact .accepts (k := k) (e := event) (held_of_job hk)
          (held_of_job (j := .done) (Function.update_self ..)) rfl rfl
          (others_of_update (fun _ _ => rfl) fun q hq => Function.update_of_ne hq ..)
      · exact quiet_job (.inr rfl)
    · cases hstep
  | resumeWrite k =>
    simp only [step] at hstep
    split at hstep <;> cases hstep
    · rename_i hk hjob
      exact .returns (k := k) (call_of hk) (call_of (c := .returned) (Function.update_self ..)) rfl
        (h.done k hjob) rfl (others_of_update (fun q hq => Function.update_of_ne hq ..) fun _ _ => rfl)
    · exact quiet_call ‹_› (fun _ => .inl rfl) rfl rfl
  | cancelWrite k =>
    simp only [step] at hstep
    split at hstep <;> cases hstep
    rename_i hk
    refine quiet_call hk (fun q => ?_) rfl rfl
    change (Function.update s.jobs k (s.jobs k).cancel q).event = _ ∨
      (Function.update s.jobs k (s.jobs k).cancel q).event = none
    by_cases hq : q = k
    · subst hq
      rw [Function.update_self]
      cases s.jobs q <;> first | exact .inl rfl | exact .inr rfl
    · rw [Function.update_of_ne hq]
      exact .inl rfl
  | close =>
    simp only [step] at hstep
    split at hstep <;> cases hstep
    exact .quiet rfl (fun _ => .inl rfl) fun _ => .inl rfl
  | cancelClose | reportFailure => cases hstep

theorem closeCall_stays (hstep : (machine cfg).step s i = some s') (hc : s.closeCall = .returned) :
    s'.closeCall = .returned := by
  change step cfg s i = some s' at hstep
  cases i with
  | finish k =>
    simp only [step] at hstep
    split at hstep
    · split at hstep <;> cases hstep <;> exact hc
    · cases hstep
  | close => simp [step, hc] at hstep
  | write | start | resumeWrite | cancelWrite =>
    simp only [step] at hstep
    split at hstep <;> cases hstep <;> exact hc
  | cancelClose | reportFailure => cases hstep

theorem status_returned {c : WriteCall} : c.status = .returned ↔ c = .returned := by
  cases c <;> simp [WriteCall.status]

/-- **`StdoutOutput` keeps the contract.** -/
theorem eventOutput_lawful (cfg : Settings) : (eventOutput cfg).Lawful (Contract cfg) fun _ => True where
  request_input q := by cases q <;> rfl
  opened_inv := ⟨⟨rfl, [], by simp [eventOutput, lines], .nil⟩, fun _ _ => rfl, nofun, nofun⟩
  opened_call _ := rfl
  opened_held _ := rfl
  opened_accepted := rfl
  opened_closing := rfl
  opened_reported := rfl
  step_inv := step_contract
  effect := effect_of_step
  stored _ := List.prefix_rfl
  reports _ _ hr := by cases hr
  close _ _ _ := trivial
  step_closed _ _ _ := trivial
  drained h _ _ _ k hk := h.done k (h.returned k (status_returned.1 hk))
  closing_stays _ hstep hc := closeCall_stays hstep hc

end BinanceCollector.StdoutOutput
