import BinanceCollector.Collector.Connection

/-!
# Waiting for something or for the stop event

`_receive_or_stop` of `StreamConnection` and of `BinanceCollector`, and `_handle_message_or_stop` of the latter. Each
creates a task for `websocket.recv()` or for the handler, and one for `stop_event.wait()`, and waits for the first of
them with `asyncio.wait`. A state is a call that is suspended where it awaits; an input is what the event loop does
next.

- A cancellation is requested first and raised when the calling task runs again: until then its children go on.
- `asyncio.wait` cancels nothing, whereas a cancelled `gather` still waits for what it gathers.
- **`receive_leaves_nothing_iff`**: a call of `_receive_or_stop` leaves nothing behind exactly when it is `Spared`.
- `leavesNothing_of_uncancelled`: it does so when nobody cancels the calling task.
- `cancelled_wait_leaves_task`, `handle_leaves_no_task`: a cancellation in `asyncio.wait` can leave `recv()` behind, but
  not the handler.
-/

namespace BinanceCollector.OrStop

open Steps

/-! ## The tasks a call creates -/

/-- A task that a call creates. -/
inductive Child (α : Type*) where
  | running
  /-- `cancel()` has been called on it -/
  | cancelling
  | done (how : α)
  deriving DecidableEq, Repr

namespace Child

variable {α : Type*}

/-- `not done()`. -/
def pending : Child α → Bool
  | .running | .cancelling => true
  | .done _ => false

/-- `cancel()`. -/
def cancel : Child α → Child α
  | .running => .cancelling
  | c => c

@[simp] theorem cancel_pending (c : Child α) : c.cancel.pending = c.pending := by cases c <;> rfl

theorem pending_of_ne_done {c : Child α} (h : ∀ how, c ≠ .done how) : c.pending = true := by
  cases c with
  | running | cancelling => rfl
  | done how => exact absurd rfl (h how)

end Child

variable {ω ε : Type*}

/-- How `recv()` or the handler ends. -/
inductive Ending (ω ε : Type*) where
  | returned (value : ω)
  | raised (e : ε)
  | cancelled
  deriving DecidableEq, Repr

/-- How `stop_event.wait()` ends. -/
inductive StopEnding where
  | returned
  | cancelled
  deriving DecidableEq, Repr

/-- What a call raises. -/
inductive Failure (ε : Type*) where
  /-- `CancelledError` -/
  | cancelled
  /-- `SubscriptionError`: no response in time -/
  | timeout
  /-- what `recv()` or the handler has raised -/
  | raised (e : ε)
  deriving DecidableEq, Repr

/-- `result()` of the task. -/
def Ending.result : Ending ω ε → Except (Failure ε) (Option ω)
  | .returned value => .ok (some value)
  | .raised e => .error (.raised e)
  | .cancelled => .error .cancelled

/-- What the task has returned. -/
def Child.returned : Child (Ending ω ε) → Option ω
  | .done (.returned value) => some value
  | _ => none

/-! ## Calls -/

/-- Where a call awaits, and with what it goes on. -/
inductive Phase (ω ε : Type*) where
  /-- `asyncio.wait` -/
  | waiting
  /-- the `gather` of the task it has cancelled -/
  | settling (result : Except (Failure ε) (Option ω))
  /-- the `gather` in `finally` -/
  | cleaning (result : Except (Failure ε) (Option ω))
  | ended (result : Except (Failure ε) (Option ω))
  deriving DecidableEq

/-- A call, with `some` for a value and `none` for a stop request as its results. -/
structure Call (ω ε : Type*) where
  timeout : Option ℚ
  /-- `stop_event.is_set()` -/
  stop : Bool
  /-- `receive_task` or `handler_task` -/
  task : Child (Ending ω ε)
  stopTask : Child StopEnding
  /-- the timeout of `asyncio.wait` has passed -/
  expired : Bool
  /-- `cancel()` has been called on the calling task, which has not run since -/
  cancelRequested : Bool
  phase : Phase ω ε
  /-- `asyncio.wait` has raised `CancelledError` -/
  struck : Bool
  /-- what the task had returned when `asyncio.wait` ended -/
  found : Option ω

namespace Call

/-- A call that has created its tasks. -/
def begun (stop : Bool) (timeout : Option ℚ) : Call ω ε where
  timeout := timeout
  stop := stop
  task := .running
  stopTask := .running
  expired := false
  cancelRequested := false
  phase := .waiting
  struck := false
  found := none

/-- The call has ended. -/
def hasEnded (s : Call ω ε) : Bool :=
  match s.phase with
  | .ended _ => true
  | _ => false

/-- A `gather` that has ended: with `CancelledError` if the calling task has been cancelled. -/
def gathered (s : Call ω ε) (result : Except (Failure ε) (Option ω)) : Except (Failure ε) (Option ω) :=
  if s.cancelRequested then .error .cancelled else result

/-- The `finally`, which cancels and gathers the stop task, and the other one as well if `both`. -/
def cleanUp (both : Bool) (s : Call ω ε) (result : Except (Failure ε) (Option ω)) : Call ω ε :=
  { s with
    task := if both then s.task.cancel else s.task
    stopTask := s.stopTask.cancel
    cancelRequested := false
    phase := .cleaning result }

/-- The task is cancelled and gathered. -/
def settle (s : Call ω ε) (result : Except (Failure ε) (Option ω)) : Call ω ε :=
  { s with task := s.task.cancel, phase := .settling result }

/-- The calling task after `asyncio.wait`. -/
def waited (both : Bool) (s : Call ω ε) : Option (Call ω ε) :=
  let t := { s with found := s.task.returned }
  if s.cancelRequested then some ({ t with struck := true }.cleanUp both (.error .cancelled))
  else
    match s.task, s.stopTask with
    | .done how, _ => some (t.cleanUp both how.result)
    | _, .done _ => some (t.settle (.ok none))
    | _, _ => if s.expired then some (t.settle (.error .timeout)) else none

/-- The calling task runs again, if what it awaits has ended. -/
def resume (both : Bool) (s : Call ω ε) : Option (Call ω ε) :=
  match s.phase with
  | .waiting => s.waited both
  | .settling result => if s.task.pending then none else some (s.cleanUp both (s.gathered result))
  | .cleaning result =>
    if s.stopTask.pending || both && s.task.pending then none
    else some { s with cancelRequested := false, phase := .ended (s.gathered result) }
  | .ended _ => none

end Call

/-- What the event loop does next. -/
inductive Input (ω ε : Type*) where
  /-- somebody sets the stop event -/
  | setStop
  /-- `recv()` or the handler ends -/
  | taskEnds (how : Ending ω ε)
  /-- `stop_event.wait()` ends -/
  | stopEnds
  /-- the timeout of `asyncio.wait` passes -/
  | expires
  /-- `cancel()` is called on the calling task; a `gather` it is in passes this on to what has been cancelled before -/
  | cancel
  /-- the calling task runs -/
  | resume
  deriving DecidableEq, Repr

/-- **One step of the event loop**, until the call has ended. -/
def step (both : Bool) (s : Call ω ε) (i : Input ω ε) : Option (Call ω ε) :=
  if s.hasEnded then none
  else
    match i with
    | .setStop => some { s with stop := true }
    | .taskEnds how =>
      match s.task, how with
      | .running, .cancelled | .done _, _ => none
      | _, _ => some { s with task := .done how }
    | .stopEnds =>
      match s.stopTask with
      | .running => if s.stop then some { s with stopTask := .done .returned } else none
      | .cancelling => some { s with stopTask := .done .cancelled }
      | .done _ => none
    | .expires =>
      match s.phase, s.timeout with
      | .waiting, some _ => some { s with expired := true }
      | _, _ => none
    | .cancel => some { s with cancelRequested := true }
    | .resume => s.resume both

/-- A call; `both` says whether `finally` cleans up the task as well as the stop task. -/
def machine (both : Bool) : Machine (Call ω ε) (Input ω ε) := ⟨step both⟩

/-- `_receive_or_stop` of `StreamConnection`. -/
def receiveOrStop : Machine (Call ω ε) (Input ω ε) := machine false

/-- `_receive_or_stop` of `BinanceCollector`. -/
def legacyReceiveOrStop : Machine (Call ω ε) (Input ω ε) := machine false

/-- `_handle_message_or_stop`, which waits without a timeout. -/
def handleMessageOrStop : Machine (Call ω ε) (Input ω ε) := machine true

variable {both : Bool} {s s' : Call ω ε} {i : Input ω ε}

/-! ## What a step does -/

/-- What an input does, under the condition that enables it. -/
inductive Effect (both : Bool) (s : Call ω ε) : Input ω ε → Call ω ε → Prop
  | setStop : Effect both s .setStop { s with stop := true }
  | taskEnds {how : Ending ω ε} : s.task.pending = true → (how = .cancelled → s.task = .cancelling) →
      Effect both s (.taskEnds how) { s with task := .done how }
  | stopReturns : s.stopTask = .running → s.stop = true →
      Effect both s .stopEnds { s with stopTask := .done .returned }
  | stopCancelled : s.stopTask = .cancelling → Effect both s .stopEnds { s with stopTask := .done .cancelled }
  | expires : s.phase = .waiting → s.timeout.isSome = true → Effect both s .expires { s with expired := true }
  | cancel : Effect both s .cancel { s with cancelRequested := true }
  | struck : s.phase = .waiting → s.cancelRequested = true → Effect both s .resume
      ({ s with found := s.task.returned, struck := true }.cleanUp both (.error .cancelled))
  | completes {how : Ending ω ε} : s.phase = .waiting → s.cancelRequested = false → s.task = .done how →
      Effect both s .resume ({ s with found := s.task.returned }.cleanUp both how.result)
  | stops {how : StopEnding} : s.phase = .waiting → s.cancelRequested = false → s.task.pending = true →
      s.stopTask = .done how → Effect both s .resume ({ s with found := s.task.returned }.settle (.ok none))
  | timesOut : s.phase = .waiting → s.cancelRequested = false → s.task.pending = true →
      s.stopTask.pending = true → s.expired = true →
      Effect both s .resume ({ s with found := s.task.returned }.settle (.error .timeout))
  | settled {result : Except (Failure ε) (Option ω)} : s.phase = .settling result → s.task.pending = false →
      Effect both s .resume (s.cleanUp both (s.gathered result))
  | ends {result : Except (Failure ε) (Option ω)} : s.phase = .cleaning result → s.stopTask.pending = false →
      (both = true → s.task.pending = false) →
      Effect both s .resume { s with cancelRequested := false, phase := .ended (s.gathered result) }

/-- The calling task after `asyncio.wait`, with or without a cancellation. -/
theorem effect_of_waited (hphase : s.phase = .waiting) (h : s.waited both = some s') : Effect both s .resume s' := by
  simp only [Call.waited] at h
  split at h
  · cases h
    exact .struck hphase ‹_›
  · rename_i hcancel
    rw [Bool.not_eq_true] at hcancel
    split at h
    · cases h
      exact .completes hphase hcancel ‹_›
    · rename_i hstop htask
      cases h
      exact .stops hphase hcancel (Child.pending_of_ne_done htask) hstop
    · rename_i htask hstop
      split at h <;> cases h
      exact .timesOut hphase hcancel (Child.pending_of_ne_done htask) (Child.pending_of_ne_done hstop) ‹_›

theorem effect_of_step (h : step both s i = some s') : s.hasEnded = false ∧ Effect both s i s' := by
  unfold step at h
  split at h
  · cases h
  refine ⟨Bool.eq_false_iff.2 ‹_›, ?_⟩
  cases i with
  | setStop => cases h; exact .setStop
  | taskEnds how =>
    simp only at h
    split at h <;> cases h
    rename_i hdone hrunning
    refine .taskEnds (Child.pending_of_ne_done hdone) fun hc => ?_
    cases htask : s.task with
    | running => exact (hrunning htask hc).elim
    | cancelling => rfl
    | done how' => exact absurd htask (hdone how')
  | stopEnds =>
    simp only at h
    split at h
    · split at h <;> cases h
      exact .stopReturns ‹_› ‹_›
    · cases h
      exact .stopCancelled ‹_›
    · cases h
  | expires =>
    simp only at h
    split at h <;> cases h
    rename_i hphase htimeout
    exact .expires hphase (by rw [htimeout]; rfl)
  | cancel => cases h; exact .cancel
  | resume =>
    simp only [Call.resume] at h
    split at h
    · exact effect_of_waited ‹_› h
    · split at h <;> cases h
      exact .settled ‹_› (Bool.eq_false_iff.2 ‹_›)
    · split at h <;> cases h
      rename_i hphase hended
      simp only [Bool.or_eq_true, Bool.and_eq_true, not_or, not_and, Bool.not_eq_true] at hended
      exact .ends hphase hended.1 hended.2
    · cases h

/-! ## What a call leaves behind -/

/-- Both tasks are done, and what the task had returned when `asyncio.wait` ended is the result. -/
structure LeavesNothing (s : Call ω ε) (result : Except (Failure ε) (Option ω)) : Prop where
  task : s.task.pending = false
  stopTask : s.stopTask.pending = false
  value : ∀ value, s.found = some value → result = .ok (some value)

/-- A cancellation that is raised here does not strike a call that holds a value, and where it has struck `asyncio.wait`
the task has ended by the end of `finally`. -/
def SparedAt (s : Call ω ε) : Phase ω ε → Prop
  | .waiting => s.cancelRequested = true → s.task.returned = none
  | .cleaning _ => (s.struck = true → s.task.pending = false) ∧ (s.cancelRequested = true → s.found = none)
  | .settling _ | .ended _ => True

/-- The step spares the call. -/
def Spared (s : Call ω ε) : Input ω ε → Prop
  | .resume => SparedAt s s.phase
  | _ => True

instance (s : Call ω ε) : DecidablePred (SparedAt s)
  | .waiting => inferInstanceAs (Decidable (s.cancelRequested = true → s.task.returned = none))
  | .cleaning _ => inferInstanceAs
      (Decidable ((s.struck = true → s.task.pending = false) ∧ (s.cancelRequested = true → s.found = none)))
  | .settling _ | .ended _ => isTrue trivial

instance (s : Call ω ε) : DecidablePred (Spared s)
  | .resume => inferInstanceAs (Decidable (SparedAt s s.phase))
  | .setStop | .taskEnds _ | .stopEnds | .expires | .cancel => isTrue trivial

/-- What holds in a call that is spared. -/
structure Kept (s : Call ω ε) : Prop where
  value : ∀ value, s.found = some value → s.phase = .cleaning (.ok (some value)) ∨ s.phase = .ended (.ok (some value))
  cleaning : ∀ result, s.phase = .cleaning result → s.struck = false → s.task.pending = false
  ended : ∀ result, s.phase = .ended result → s.task.pending = false ∧ s.stopTask.pending = false

theorem Kept.leavesNothing (hs : Kept s) {result : Except (Failure ε) (Option ω)} (hended : s.phase = .ended result) :
    LeavesNothing s result := by
  refine ⟨(hs.ended result hended).1, (hs.ended result hended).2, fun value hv => ?_⟩
  rcases hs.value value hv with hp | hp <;> rw [hended] at hp <;> cases hp
  rfl

theorem begun_kept (stop : Bool) (timeout : Option ℚ) : Kept (Call.begun stop timeout : Call ω ε) := by
  constructor <;> simp [Call.begun]

theorem Child.returned_of_pending {c : Child (Ending ω ε)} (h : c.pending = true) : c.returned = none := by
  cases c with
  | running | cancelling => rfl
  | done how => cases h

theorem Child.result_of_returned {how : Ending ω ε} {value : ω} (h : (Child.done how).returned = some value) :
    how.result = .ok (some value) := by
  cases how with
  | returned v =>
    cases h
    rfl
  | raised e => cases h
  | cancelled => cases h

/-- The `finally` after `asyncio.wait`, or after the `gather` that followed it. -/
theorem cleanUp_kept {t : Call ω ε} {result : Except (Failure ε) (Option ω)}
    (hvalue : ∀ value, t.found = some value → result = .ok (some value))
    (htask : t.struck = false → t.task.pending = false) : Kept (t.cleanUp both result) where
  value := by
    intro value hv
    exact .inl (congrArg Phase.cleaning (hvalue value hv))
  cleaning := by
    intro _ _ hs
    cases both <;> simpa [Call.cleanUp] using htask hs
  ended := by
    intro _ hp
    cases hp

theorem Call.ne_ended (h : s.hasEnded = false) (result : Except (Failure ε) (Option ω)) : s.phase ≠ .ended result := by
  intro hp
  simp [Call.hasEnded, hp] at h

/-- Without a value, nothing has been found by `asyncio.wait`. -/
theorem settle_kept {result : Except (Failure ε) (Option ω)} (htask : s.task.pending = true) :
    Kept ({ s with found := s.task.returned }.settle result) where
  value := by
    intro value hv
    rw [Call.settle, Child.returned_of_pending htask] at hv
    cases hv
  cleaning := by
    intro _ hp
    cases hp
  ended := by
    intro _ hp
    cases hp

/-- **A step that spares the call keeps what it has found.** -/
theorem step_kept (hs : Kept s) (hi : Spared s i) (h : step both s i = some s') : Kept s' := by
  obtain ⟨hopen, heffect⟩ := effect_of_step h
  cases heffect with
  | setStop | cancel | expires => exact { hs with }
  | taskEnds => exact { hs with
      cleaning := fun _ _ _ => rfl
      ended := fun result hp => absurd hp (s.ne_ended hopen result) }
  | stopReturns | stopCancelled => exact { hs with ended := fun result hp => absurd hp (s.ne_ended hopen result) }
  | struck hphase hcancel =>
    simp only [Spared, SparedAt, hphase] at hi
    refine cleanUp_kept (fun value hv => ?_) fun hstruck => nomatch hstruck
    rw [show s.task.returned = none from hi hcancel] at hv
    cases hv
  | completes hphase hcancel htask =>
    refine cleanUp_kept (fun value hv => ?_) fun _ => ?_
    · exact Child.result_of_returned (htask ▸ hv)
    · show s.task.pending = false
      rw [htask]
      rfl
  | stops _ _ htask | timesOut _ _ htask => exact settle_kept htask
  | settled hphase htask =>
    refine cleanUp_kept (fun value hv => ?_) fun _ => htask
    rcases hs.value value hv with hp | hp <;> rw [hphase] at hp <;> cases hp
  | @ends result hphase hstop hboth =>
    simp only [Spared, SparedAt, hphase] at hi
    have htask : s.task.pending = false := by
      cases hstruck : s.struck with
      | true => exact hi.1 hstruck
      | false => exact hs.cleaning result hphase hstruck
    refine ⟨fun value hv => .inr ?_, fun _ hp => (nomatch hp), fun _ _ => ⟨htask, hstop⟩⟩
    have hcancel : s.cancelRequested = false := by
      rw [← Bool.not_eq_true]
      intro hc
      rw [hi.2 hc] at hv
      cases hv
    rcases hs.value value hv with hp | hp <;> rw [hphase] at hp <;> cases hp
    simp [Call.gathered, hcancel]

/-! ## Calls that are not spared -/

/-- The value that was found is not going to be returned. -/
def Lost (s : Call ω ε) : Prop :=
  (∃ value, s.found = some value) ∧ (s.phase = .cleaning (.error .cancelled) ∨ s.phase = .ended (.error .cancelled))

/-- The call has lost its value, or has ended before its task. -/
def Spoilt (s : Call ω ε) : Prop := Lost s ∨ s.hasEnded = true ∧ s.task.pending = true

theorem step_spoilt (hs : Spoilt s) (h : step both s i = some s') : Spoilt s' := by
  obtain ⟨hopen, heffect⟩ := effect_of_step h
  rcases hs with ⟨hfound, hphase⟩ | ⟨hended, -⟩
  · have hcleaning : s.phase = .cleaning (.error .cancelled) := by
      rcases hphase with hp | hp
      · exact hp
      · exact absurd hp (s.ne_ended hopen _)
    refine .inl ?_
    cases heffect with
    | setStop | cancel | expires | taskEnds | stopReturns | stopCancelled => exact ⟨hfound, .inl hcleaning⟩
    | struck hp | completes hp | stops hp | timesOut hp | settled hp => rw [hcleaning] at hp; cases hp
    | ends hp =>
      rw [hcleaning] at hp
      cases hp
      exact ⟨hfound, .inr (by simp [Call.gathered])⟩
  · rw [hopen] at hended
    cases hended

/-- A step that does not spare the call spoils it. -/
theorem step_not_spared (hi : ¬Spared s i) (h : step both s i = some s') : Spoilt s' := by
  obtain ⟨hopen, heffect⟩ := effect_of_step h
  cases heffect with
  | setStop | cancel | expires | taskEnds | stopReturns | stopCancelled => exact absurd trivial hi
  | struck hphase hcancel =>
    simp only [Spared, SparedAt, hphase, hcancel, true_implies] at hi
    exact .inl ⟨Option.ne_none_iff_exists'.1 hi, .inl rfl⟩
  | completes hphase hcancel | stops hphase hcancel | timesOut hphase hcancel =>
    simp [Spared, SparedAt, hphase, hcancel] at hi
  | settled hphase => simp [Spared, SparedAt, hphase] at hi
  | ends hphase hstop hboth =>
    simp only [Spared, SparedAt, hphase, not_and_or, Classical.not_imp] at hi
    rcases hi with ⟨-, htask⟩ | ⟨hcancel, hfound⟩
    · exact .inr ⟨rfl, by simpa using htask⟩
    · refine .inl ⟨Option.ne_none_iff_exists'.1 hfound, .inr ?_⟩
      simp [Call.gathered, hcancel]

theorem LeavesNothing.not_spoilt {result : Except (Failure ε) (Option ω)} (h : LeavesNothing s result)
    (hended : s.phase = .ended result) : ¬Spoilt s := by
  rintro (⟨⟨value, hv⟩, hphase⟩ | ⟨-, htask⟩)
  · rw [hended, h.value value hv] at hphase
    rcases hphase with hp | hp <;> cases hp
  · rw [h.task] at htask
    cases htask

/-- **A call leaves nothing behind exactly when all its steps spare it.** -/
theorem leavesNothing_iff_spared {stop : Bool} {timeout : Option ℚ} {is : List (Input ω ε)}
    {result : Except (Failure ε) (Option ω)}
    (h : (machine both).Path (fun _ _ => True) (.begun stop timeout) is s) (hended : s.phase = .ended result) :
    LeavesNothing s result ↔ (machine both).Path Spared (.begun stop timeout) is s := by
  constructor
  · intro hclean
    by_contra hbad
    obtain ⟨pre, i, post, s₁, s₂, -, -, -, hi, hstep, hrest⟩ := h.exists_violation hbad
    have hspoilt : Spoilt s₂ := step_not_spared hi hstep
    have hend : Spoilt s :=
      hrest.invariant (I := Spoilt) (fun _ _ _ _ hs hstep => step_spoilt hs hstep) hspoilt
    exact hclean.not_spoilt hended hend
  · intro hspared
    have hkept := hspared.invariant (fun _ _ _ hi hs hstep => step_kept hs hi hstep) (begun_kept stop timeout)
    exact hkept.leavesNothing hended

/-! ## Cancellations -/

/-- Nobody has cancelled the calling task. -/
structure Undisturbed (s : Call ω ε) : Prop where
  cancelRequested : s.cancelRequested = false
  struck : s.struck = false

theorem Undisturbed.spared (hs : Undisturbed s) (i : Input ω ε) : Spared s i := by
  cases i with
  | resume =>
    show SparedAt s s.phase
    cases s.phase with
    | waiting => simp [SparedAt, hs.cancelRequested]
    | cleaning _ => simp [SparedAt, hs.cancelRequested, hs.struck]
    | settling _ | ended _ => trivial
  | _ => trivial

theorem step_undisturbed (hs : Undisturbed s) (hi : i ≠ .cancel) (h : step both s i = some s') : Undisturbed s' := by
  cases (effect_of_step h).2 with
  | setStop | taskEnds | stopReturns | stopCancelled | expires => exact ⟨hs.cancelRequested, hs.struck⟩
  | cancel => exact absurd rfl hi
  | struck _ hcancel => rw [hs.cancelRequested] at hcancel; cases hcancel
  | completes | settled | ends => exact ⟨rfl, hs.struck⟩
  | stops | timesOut => exact ⟨hs.cancelRequested, hs.struck⟩

/-- A call that is not cancelled leaves nothing behind. -/
theorem leavesNothing_of_uncancelled {stop : Bool} {timeout : Option ℚ} {is : List (Input ω ε)}
    {result : Except (Failure ε) (Option ω)}
    (h : (machine both).Path (fun _ i => i ≠ .cancel) (.begun stop timeout) is s)
    (hended : s.phase = .ended result) : LeavesNothing s result := by
  have hkept : Undisturbed s ∧ Kept s := h.invariant (I := fun s => Undisturbed s ∧ Kept s)
    (fun _ i _ hi hs hstep => ⟨step_undisturbed hs.1 hi hstep, step_kept hs.2 (hs.1.spared i) hstep⟩)
    ⟨⟨rfl, rfl⟩, begun_kept stop timeout⟩
  exact hkept.2.leavesNothing hended

/-- The end of the `finally` of `_receive_or_stop`. -/
theorem step_cleaning {result : Except (Failure ε) (Option ω)} (hphase : s.phase = .cleaning result)
    (hstop : s.stopTask.pending = false) : receiveOrStop.step s .resume =
      some { s with cancelRequested := false, phase := .ended (s.gathered result) } := by
  simp [receiveOrStop, machine, step, Call.hasEnded, Call.resume, hphase, hstop]

/-- The `finally` of `_receive_or_stop` ends without the task. -/
theorem finally_ends {result : Except (Failure ε) (Option ω)} (hphase : s.phase = .cleaning result)
    (hstop : s.stopTask ≠ .running) : ∃ js s', receiveOrStop.Path (fun _ _ => True) s js s' ∧
      s'.phase = .ended (s.gathered result) ∧ s'.task = s.task := by
  cases hs : s.stopTask with
  | running => exact absurd hs hstop
  | cancelling =>
    have hends : receiveOrStop.step s .stopEnds = some { s with stopTask := .done .cancelled } := by
      simp [receiveOrStop, machine, step, Call.hasEnded, hphase, hs]
    have hresumes := step_cleaning (s := { s with stopTask := .done .cancelled }) hphase rfl
    exact ⟨[.stopEnds, .resume], _, .cons trivial hends (.cons trivial hresumes (.nil _)), rfl, rfl⟩
  | done how =>
    have hresumes := step_cleaning hphase (by rw [hs]; rfl)
    exact ⟨[.resume], _, .cons trivial hresumes (.nil _), rfl, rfl⟩

/-- **A call that is cancelled in `asyncio.wait` can end before its task**, whatever it has been waiting for. -/
theorem cancelled_wait_leaves_task (hphase : s.phase = .waiting) (htask : s.task.pending = true) :
    ∃ js s', receiveOrStop.Path (fun _ _ => True) s (.cancel :: .resume :: js) s' ∧
      s'.phase = .ended (.error .cancelled) ∧ s'.task.pending = true := by
  have hcancels : receiveOrStop.step s .cancel = some { s with cancelRequested := true } := by
    simp [receiveOrStop, machine, step, Call.hasEnded, hphase]
  have hstrikes : receiveOrStop.step { s with cancelRequested := true } .resume =
      some ({ s with found := s.task.returned, cancelRequested := true, struck := true }.cleanUp false
        (.error .cancelled)) := by
    simp [receiveOrStop, machine, step, Call.hasEnded, Call.resume, Call.waited, hphase]
  have hstop : s.stopTask.cancel ≠ .running := by
    cases s.stopTask <;> simp [Child.cancel]
  obtain ⟨js, s', hpath, hended, htask'⟩ := finally_ends (s := { s with
    found := s.task.returned, cancelRequested := true, struck := true }.cleanUp false (.error .cancelled)) rfl hstop
  refine ⟨js, s', .cons trivial hcancels (.cons trivial hstrikes hpath), hended, ?_⟩
  rw [htask']
  exact htask

/-- A call ends by the last step of `finally` only. -/
theorem ends_of_step (h : step both s i = some s') (hended' : s'.hasEnded = true) :
    s'.stopTask.pending = false ∧ (both = true → s'.task.pending = false) := by
  obtain ⟨hopen, heffect⟩ := effect_of_step h
  cases heffect with
  | setStop | taskEnds | stopReturns | stopCancelled | expires | cancel =>
    exact absurd (hopen.symm.trans hended') Bool.false_ne_true
  | struck | completes | stops | timesOut | settled => exact absurd hended' Bool.false_ne_true
  | ends _ hstop hboth => exact ⟨hstop, hboth⟩

/-- **`_handle_message_or_stop` leaves no task behind**, cancelled or not. -/
theorem handle_leaves_no_task {stop : Bool} {is : List (Input ω ε)} {result : Except (Failure ε) (Option ω)}
    (h : handleMessageOrStop.Path (fun _ _ => True) (.begun stop none) is s) (hended : s.phase = .ended result) :
    s.task.pending = false ∧ s.stopTask.pending = false := by
  have hlast : s.hasEnded = true := by simp [Call.hasEnded, hended]
  have hends := h.invariant (I := fun s => s.hasEnded = true → s.stopTask.pending = false ∧ s.task.pending = false)
    (fun _ _ _ _ _ hstep hended' => ⟨(ends_of_step hstep hended').1, (ends_of_step hstep hended').2 rfl⟩)
    (fun hbegun => nomatch hbegun)
  exact (hends hlast).symm

/-! ## Receiving -/

/-- **What receiving leaves behind**, for both collectors. -/
theorem receive_leaves_nothing_iff (stop : Bool) (timeout : Option ℚ) (is : List (Input ω ε))
    (result : Except (Failure ε) (Option ω)) (hended : s.phase = .ended result) :
    (receiveOrStop.Path (fun _ _ => True) (.begun stop timeout) is s →
      (LeavesNothing s result ↔ receiveOrStop.Path Spared (.begun stop timeout) is s)) ∧
    (legacyReceiveOrStop.Path (fun _ _ => True) (.begun stop timeout) is s →
      (LeavesNothing s result ↔ legacyReceiveOrStop.Path Spared (.begun stop timeout) is s)) :=
  ⟨fun h => leavesNothing_iff_spared h hended, fun h => leavesNothing_iff_spared h hended⟩

/-- No response in time, and a cancellation while the cancelled `recv()` ends. -/
def cancelledTimeout : List (Input WireMessage Connection.LinkError) :=
  [.expires, .resume, .cancel, .taskEnds .cancelled, .resume, .stopEnds, .resume]

theorem receive_leaves_nothing_cancelledTimeout : ∃ s : Call WireMessage Connection.LinkError,
    receiveOrStop.Path (fun _ _ => True) (.begun false (some 10)) cancelledTimeout s ∧
      s.phase = .ended (.error .cancelled) ∧ LeavesNothing s (.error .cancelled) := by
  obtain ⟨s, hs, hp⟩ := Machine.exists_path_of_check (M := receiveOrStop) (P := Spared)
    (p := fun s : Call WireMessage Connection.LinkError => decide (s.phase = .ended (.error .cancelled)))
    (.begun false (some 10)) cancelledTimeout (by decide)
  have hended := of_decide_eq_true hp
  have hpath := hs.mono fun _ _ _ => trivial
  exact ⟨s, hpath, hended, ((receive_leaves_nothing_iff _ _ _ _ hended).1 hpath).2 hs⟩

/-- A stop request together with a cancellation, as when `MultiStreamCollector.run` gives up. -/
def cancelledWait : List (Input WireMessage Connection.LinkError) := [.setStop, .cancel, .stopEnds, .resume, .resume]

/-- `recv()` returns, and the calling task is cancelled while `finally` waits for the stop task. -/
def cancelledFinally (payload : WireMessage) : List (Input WireMessage Connection.LinkError) :=
  [.taskEnds (.returned payload), .resume, .cancel, .stopEnds, .resume]

/-- A call that is cancelled in `asyncio.wait` ends before its `recv()`, and one that is cancelled in `finally` does not
return what `recv()` has returned. -/
theorem cancelled_calls_not_clean :
    (∃ s : Call WireMessage Connection.LinkError,
      receiveOrStop.Path (fun _ _ => True) (.begun false none) cancelledWait s ∧
        legacyReceiveOrStop.Path (fun _ _ => True) (.begun false none) cancelledWait s ∧
        s.phase = .ended (.error .cancelled) ∧ s.task = .running ∧ ¬LeavesNothing s (.error .cancelled)) ∧
    ∃ s : Call WireMessage Connection.LinkError,
      receiveOrStop.Path (fun _ _ => True) (.begun false none) (cancelledFinally (.text [])) s ∧
        legacyReceiveOrStop.Path (fun _ _ => True) (.begun false none) (cancelledFinally (.text [])) s ∧
        s.phase = .ended (.error .cancelled) ∧ s.found = some (.text []) ∧ ¬LeavesNothing s (.error .cancelled) := by
  constructor
  · obtain ⟨s, hs, hp⟩ := Machine.exists_path_of_check (M := receiveOrStop) (P := fun _ _ => True)
      (p := fun s : Call WireMessage Connection.LinkError =>
        decide (s.phase = .ended (.error .cancelled) ∧ s.task = .running)) (.begun false none) cancelledWait (by decide)
    obtain ⟨hended, htask⟩ := of_decide_eq_true hp
    refine ⟨s, hs, hs, hended, htask, fun h => ?_⟩
    have hdone := h.task
    rw [htask] at hdone
    cases hdone
  · obtain ⟨s, hs, hp⟩ := Machine.exists_path_of_check (M := receiveOrStop) (P := fun _ _ => True)
      (p := fun s : Call WireMessage Connection.LinkError =>
        decide (s.phase = .ended (.error .cancelled) ∧ s.found = some (.text []))) (.begun false none)
      (cancelledFinally (.text [])) (by decide)
    obtain ⟨hended, hfound⟩ := of_decide_eq_true hp
    exact ⟨s, hs, hs, hended, hfound, fun h => nomatch h.value _ hfound⟩

end BinanceCollector.OrStop
