import BinanceCollector.Outputs.MultiMongoCalls

/-!
# `close()` and late writes

What a step does to one lane is `LaneStep`, and what it does to the control state is `SameControl`, or one of the
inputs of `close()`. From these follow the invariant of shutting down (`Closing`), and what a document meets that is
accepted after the worker of its route has left: it stays in the queue (`Stuck`).

- `graceful_close_iff`: a graceful close serves every accepted document if and only if no write was granted the
  budget after the worker of its route had left.
- `lateWrite_lost`: a run with such a write.
-/

namespace BinanceCollector.MultiMongo.Output

open Steps

variable {κ ε : Type*} {cfg : Settings} {rd : Reading ε} {s s' : Output κ ε}

/-! ## One lane in one step -/

/-- What a step does to the worker and the queue of the lane `r`. -/
inductive LaneStep (cfg : Settings) (rd : Reading ε) (s s' : Output κ ε) (i : Input κ ε) (r : StorageRoute) : Prop
  | same : (s'.lanes r).worker = (s.lanes r).worker → (s'.lanes r).queue = (s.lanes r).queue →
      LaneStep cfg rd s s' i r
  | accepts {d : BufferedDocument κ ε} : (s'.lanes r).worker = (s.lanes r).worker →
      (s'.lanes r).queue = (s.lanes r).queue ++ [d] → s.budget.failed = false → s.budget.Admits cfg d.bsonSize →
      rd.route d.event = r →
      s.lifecycle = .open ∨ (∃ k report, i = .resumeWrite k report ∧ s.calls k = .parked d true) →
      LaneStep cfg rd s s' i r
  | runs : (s.lanes r).worker.done = false → (s.lanes r).worker.left = false →
      (s'.lanes r).worker.done = false → (s'.lanes r).worker.left = false → LaneStep cfg rd s s' i r
  | leaves : (s.lanes r).worker.done = false → (s.lanes r).worker.left = false → s.closeRequested = true →
      (s'.lanes r).worker.left = true → (s'.lanes r).queue = [] → LaneStep cfg rd s s' i r
  | returns : (s.lanes r).worker.done = false → (s.lanes r).worker.left = true →
      (s'.lanes r).worker = .returned → (s'.lanes r).queue = (s.lanes r).queue → LaneStep cfg rd s s' i r
  | fails (passed unpassed : List (BufferedDocument κ ε)) : (s.lanes r).worker.done = false →
      (s.lanes r).worker.left = false → (s'.lanes r).worker = .failed passed unpassed → s'.workerErrors ≠ [] →
      LaneStep cfg rd s s' i r
  | cancels (passed unpassed : List (BufferedDocument κ ε)) : (s.lanes r).worker.done = false →
      s.workersCancelled = true → (s'.lanes r).worker = .cancelled passed unpassed → LaneStep cfg rd s s' i r

/-- The control state is left alone, except that a running worker may fail. -/
structure SameControl (s s' : Output κ ε) (i : Input κ ε) : Prop where
  lifecycle : s'.lifecycle = s.lifecycle
  closeRequested : s'.closeRequested = s.closeRequested
  connected : s'.connected = s.connected
  workersCancelled : s'.workersCancelled = s.workersCancelled
  closeCall : s'.closeCall = s.closeCall
  failureReported : s'.failureReported = s.failureReported
  errors : s'.workerErrors = s.workerErrors ∨ s'.workerErrors ≠ [] ∧ ∃ r, (s.lanes r).worker.done = false ∧
    (s.connected = false ∨ ∃ outcome expired, i = .insertDone r outcome expired ∧ outcome ≠ .success)

/-- The inputs that belong to `close()` and `wait_failed()`. -/
def Input.control : Input κ ε → Bool
  | .close | .workersDone | .shutdownTimeout | .clientClosed _ | .cancelClose | .reportFailure => true
  | _ => false

theorem laneStep_of_ne {i : Input κ ε} {r q : StorageRoute} {l : Lane κ ε} (hq : q ≠ r) :
    LaneStep cfg rd s (s.setLane r l) i q := .same (by simp [setLane, hq]) (by simp [setLane, hq])

/-- Worker code of a lane whose worker runs. -/
theorem proceed_lane {i : Input κ ε} {r : StorageRoute} {p : Progress κ ε} {t : Output κ ε}
    (ht : ∀ q, q ≠ r → t.lanes q = s.lanes q) (hd : (s.lanes r).worker.done = false)
    (hl : (s.lanes r).worker.left = false) (hp : p.Ends s.connected s.closeRequested) (q : StorageRoute) :
    LaneStep cfg rd s (t.proceed r p) i q := by
  by_cases hq : q = r
  · subst hq
    cases hp with
    | suspends h h' => exact .runs hd hl (by simpa [proceed, setLane] using h) (by simpa [proceed, setLane] using h')
    | leaves h h' h'' =>
      exact .leaves hd hl h'' (by simpa [proceed, setLane] using h) (by simpa [proceed, setLane] using h')
    | @raises l unpassed h h' =>
      exact .fails _ _ hd hl (by simpa [proceed, setLane, workerFails, notifyAll] using h')
        (by simp [proceed, workerFails, notifyAll])
  · cases p with
    | goes l => exact .same (by simp [proceed, setLane, hq, ht q hq]) (by simp [proceed, setLane, hq, ht q hq])
    | fails l e =>
      exact .same (by simp [proceed, setLane, workerFails, notifyAll, hq, ht q hq])
        (by simp [proceed, setLane, workerFails, notifyAll, hq, ht q hq])

variable [DecidableEq κ]

/-- `write()` at the predicate of `acquire`. -/
theorem tryWrite_lane (hs : s.Inv) {i : Input κ ε} {d : BufferedDocument κ ε}
    (hi : s.lifecycle = .open ∨ ∃ k report, i = .resumeWrite k report ∧ s.calls k = .parked d true)
    (q : StorageRoute) : LaneStep cfg rd s (s.tryWrite cfg (rd.route d.event) d .returns) i q := by
  rcases tryWrite_cases hs.failed (rd.route d.event) d with ⟨hf, ha, h⟩ | ⟨-, h⟩ | ⟨-, -, h⟩
  · rw [h]
    by_cases hq : q = rd.route d.event
    · subst hq
      exact .accepts (by simp [accepted, setCall, reportBuffer, setLane, setBudget, Lane.accept])
        (by simp [accepted, setCall, reportBuffer, setLane, setBudget, Lane.accept]) hf ha rfl hi
    · exact .same (by simp [accepted, setCall, reportBuffer, setLane, setBudget, hq])
        (by simp [accepted, setCall, reportBuffer, setLane, setBudget, hq])
  · rw [h]; exact .same rfl rfl
  · rw [h]; exact .same rfl rfl

omit [DecidableEq κ] in
/-- A worker that raises out of `_persist_batch`. -/
theorem insertFails_lane (cfg : Settings) (rd : Reading ε) (i : Input κ ε) (r : StorageRoute)
    (passed inflight : List (BufferedDocument κ ε)) (carry : Option (BufferedDocument κ ε)) (e : WorkerError)
    {t : Output κ ε} (ht : ∀ q, q ≠ r → t.lanes q = s.lanes q) (hd : (s.lanes r).worker.done = false)
    (hl : (s.lanes r).worker.left = false) (q : StorageRoute) :
    LaneStep cfg rd s ((t.setLane r { t.lanes r with inflight := inflight }).insertFails r passed carry e) i q := by
  by_cases hq : q = r
  · subst hq
    exact .fails passed carry.toList hd hl
      (by simp [insertFails, workerFails, notifyAll, setLane]) (by simp [insertFails, workerFails, notifyAll])
  · exact .same (by simp [insertFails, workerFails, notifyAll, setLane, hq, ht q hq])
      (by simp [insertFails, workerFails, notifyAll, setLane, hq, ht q hq])

omit [DecidableEq κ] in
theorem settled_lanes (s : Output κ ε) (r : StorageRoute) (ds : List (BufferedDocument κ ε)) (q : StorageRoute)
    (hq : q ≠ r) : (s.settled r ds).lanes q = s.lanes q := Function.update_of_ne hq _ _

omit [DecidableEq κ] in
theorem insertDone_lane (hs : s.Inv) {i : Input κ ε} {r : StorageRoute} {batch : List (BufferedDocument κ ε)}
    {carry : Option (BufferedDocument κ ε)} (hw : (s.lanes r).worker = .inserting batch carry)
    (outcome : InsertOutcome) (expired : Bool) (q : StorageRoute) :
    LaneStep cfg rd s (s.insertDone cfg r batch carry outcome expired) i q := by
  have hd : (s.lanes r).worker.done = false := by rw [hw]; rfl
  have hl : (s.lanes r).worker.left = false := by rw [hw]; rfl
  have hends := insertDone_ends cfg hs hw outcome expired
  generalize s.insertDone cfg r batch carry outcome expired = s' at hends ⊢
  cases hends with
  | goesOn => exact proceed_lane (settled_lanes s r batch) hd hl (runWorker_ends _ _ _ _ _ _) q
  | raises => exact insertFails_lane _ _ _ _ _ _ _ _ (fun _ _ => rfl) hd hl q
  | confirms => exact insertFails_lane _ _ _ _ _ _ _ _ (settled_lanes s r _) hd hl q

/-- **What a step does to a lane.** -/
theorem step_lane (hs : s.Inv) {i : Input κ ε} (hi : i.CallbacksReturn)
    (h : (machine cfg rd).step s i = some s') (q : StorageRoute) : LaneStep cfg rd s s' i q := by
  cases effect_of_step h with
  | @write k event report hk =>
    cases hi
    unfold write
    split
    · exact .same rfl rfl
    · rename_i ho
      split
      · exact .same rfl rfl
      · split
        · exact .same rfl rfl
        · rename_i size _
          split
          · exact .same rfl rfl
          · exact tryWrite_lane (d := ⟨k, event, size⟩) hs (.inl (not_not.1 ho)) q
  | @resumeWrite k d report hk =>
    cases hi
    exact tryWrite_lane hs (.inr ⟨k, .returns, rfl, hk⟩) q
  | cancelWrite _ => exact .same rfl rfl
  | @getTask r l hl =>
    by_cases hq : q = r
    · subst hq
      unfold Lane.getTask at hl
      split at hl
      · rename_i hw _; cases hl
        exact .runs (by rw [hw]; rfl) (by rw [hw]; rfl) (by simp [setLane, Worker.done])
          (by simp [setLane, Worker.left])
      · rename_i hw _; cases hl
        exact .runs (by rw [hw]; rfl) (by rw [hw]; rfl) (by simp [setLane, Worker.done])
          (by simp [setLane, Worker.left])
      · cases hl
    · exact laneStep_of_ne hq
  | @worker r expired p hp =>
    have hd := resume_done hp
    rcases resume_ends hp with ⟨hl, rfl⟩ | ⟨hl, he⟩
    · by_cases hq : q = r
      · subst hq
        exact .returns hd hl (by simp [proceed, setLane]) (by simp [proceed, setLane])
      · exact laneStep_of_ne hq
    · exact proceed_lane (fun _ _ => rfl) hd hl he q
  | insertDone hw => exact insertDone_lane hs hw _ _ q
  | @cancelWorker r hc hd =>
    by_cases hq : q = r
    · subst hq
      exact .cancels (s.lanes q).worker.passed (s.lanes q).worker.unpassed hd hc
        (by simp [setLane])
    · exact laneStep_of_ne hq
  | close _ _ => exact .same rfl rfl
  | workersDone _ _ => exact .same rfl rfl
  | shutdownTimeout _ => exact .same rfl rfl
  | clientClosed _ => exact .same rfl rfl
  | cancelClose _ => exact .same rfl rfl
  | reportFailure _ => exact .same rfl rfl

/-! ## The control state -/

omit [DecidableEq κ] in
theorem SameControl.rfl {i : Input κ ε} : SameControl s s i :=
  ⟨Eq.refl _, Eq.refl _, Eq.refl _, Eq.refl _, Eq.refl _, Eq.refl _, .inl (Eq.refl _)⟩

omit [DecidableEq κ] in
/-- Lanes, the budget, the calls and the reports are no part of the control state. -/
theorem SameControl.frame {i : Input κ ε} (h : SameControl s s' i) (lanes : StorageRoute → Lane κ ε)
    (budget : BufferBudget) (failureEvent : Bool) (calls : κ → WriteCall κ ε) (reports : List Report) :
    SameControl s { s' with
      lanes := lanes, budget := budget, failureEvent := failureEvent, calls := calls, reports := reports } i :=
  ⟨h.lifecycle, h.closeRequested, h.connected, h.workersCancelled, h.closeCall, h.failureReported, h.errors⟩

omit [DecidableEq κ] in
/-- A worker that runs may fail, when the collections are gone or its insert failed. -/
theorem SameControl.fails {i : Input κ ε} (h : SameControl s s' i) {r : StorageRoute} {e : WorkerError}
    (hd : (s.lanes r).worker.done = false)
    (hi : s.connected = false ∨ ∃ outcome expired, i = .insertDone r outcome expired ∧ outcome ≠ .success) :
    SameControl s (s'.workerFails r e) i :=
  ⟨h.lifecycle, h.closeRequested, h.connected, h.workersCancelled, h.closeCall, h.failureReported,
    .inr ⟨by simp [workerFails, notifyAll], r, hd, hi⟩⟩

theorem tryWrite_control (hs : s.Inv) {i : Input κ ε} {r : StorageRoute} {d : BufferedDocument κ ε} :
    SameControl s (s.tryWrite cfg r d .returns) i := by
  rcases tryWrite_cases hs.failed r d with ⟨-, -, h⟩ | ⟨-, h⟩ | ⟨-, -, h⟩ <;> rw [h] <;>
    exact SameControl.rfl.frame _ _ _ _ _

omit [DecidableEq κ] in
theorem proceed_control {i : Input κ ε} {t : Output κ ε} (ht : SameControl s t i) {r : StorageRoute}
    {p : Progress κ ε} (hd : (s.lanes r).worker.done = false) (hp : p.Ends s.connected s.closeRequested) :
    SameControl s (t.proceed r p) i := by
  cases hp with
  | suspends => exact ht.frame _ _ _ _ _
  | leaves => exact ht.frame _ _ _ _ _
  | raises hc => exact (ht.frame _ _ _ _ _).fails hd (.inl hc)

omit [DecidableEq κ] in
theorem insertDone_control (hs : s.Inv) {r : StorageRoute} {batch : List (BufferedDocument κ ε)}
    {carry : Option (BufferedDocument κ ε)} (hw : (s.lanes r).worker = .inserting batch carry)
    (outcome : InsertOutcome) (expired : Bool) :
    SameControl s (s.insertDone cfg r batch carry outcome expired) (.insertDone r outcome expired) := by
  have hd : (s.lanes r).worker.done = false := by rw [hw]; rfl
  have hends := insertDone_ends cfg hs hw outcome expired
  generalize s.insertDone cfg r batch carry outcome expired = s' at hends ⊢
  cases hends with
  | goesOn => exact proceed_control (SameControl.rfl.frame _ _ _ _ _) hd (runWorker_ends _ _ _ _ _ _)
  | raises hfails => exact (SameControl.rfl.frame _ _ _ _ _).fails hd (.inr ⟨_, _, rfl, hfails⟩)
  | confirms hfails => exact (SameControl.rfl.frame _ _ _ _ _).fails hd (.inr ⟨_, _, rfl, hfails⟩)

/-- **Steps of writers and workers leave the control state alone.** -/
theorem step_control (hs : s.Inv) {i : Input κ ε} (hi : i.CallbacksReturn) (hc : i.control = false)
    (h : (machine cfg rd).step s i = some s') : SameControl s s' i := by
  cases effect_of_step h with
  | @write k event report hk =>
    cases hi
    unfold write
    split
    · exact SameControl.rfl.frame _ _ _ _ _
    · split
      · exact SameControl.rfl.frame _ _ _ _ _
      · split
        · exact SameControl.rfl.frame _ _ _ _ _
        · split
          · exact SameControl.rfl.frame _ _ _ _ _
          · exact tryWrite_control hs
  | resumeWrite _ => cases hi; exact tryWrite_control hs
  | cancelWrite _ => exact SameControl.rfl.frame _ _ _ _ _
  | getTask _ => exact SameControl.rfl.frame _ _ _ _ _
  | worker hp =>
    rcases resume_ends hp with ⟨-, rfl⟩ | ⟨-, he⟩
    · exact SameControl.rfl.frame _ _ _ _ _
    · exact proceed_control SameControl.rfl (resume_done hp) he
  | insertDone hw => exact insertDone_control hs hw _ _
  | cancelWorker _ _ => exact SameControl.rfl.frame _ _ _ _ _
  | close _ _ => cases hc
  | workersDone _ _ => cases hc
  | shutdownTimeout _ => cases hc
  | clientClosed _ => cases hc
  | cancelClose _ => cases hc
  | reportFailure _ => cases hc

/-! ## Shutting down -/

/-- How far the workers are, read off the control state. -/
structure Closing (s : Output κ ε) : Prop where
  cancelled : ∀ r p u, (s.lanes r).worker = .cancelled p u → s.workersCancelled = true
  failed : ∀ r p u, (s.lanes r).worker = .failed p u → s.workerErrors ≠ []
  left : ∀ r, (s.lanes r).worker.left = true → s.closeRequested = true
  requested : s.lifecycle = .open → s.closeRequested = false
  gone : s.connected = false → ∀ r, (s.lanes r).worker.done = true
  finished : (∃ timedOut, s.closeCall = .closingClient timedOut) ∨ s.closeCall = .returned →
    ∀ r, (s.lanes r).worker.done = true
  timedOut : s.workersCancelled = true →
    s.closeCall = .reaping ∨ s.closeCall = .closingClient true ∨ ∃ e, s.closeCall = .raised e
  returned : s.closeCall = .returned → s.workerErrors ≠ [] → s.failureReported = true

omit [DecidableEq κ] in
theorem opened_closing : Closing (opened : Output κ ε) where
  cancelled _ _ _ h := nomatch h
  failed _ _ _ h := nomatch h
  left _ h := nomatch h
  requested _ := rfl
  gone h := nomatch h
  finished h := by rcases h with ⟨_, h⟩ | h <;> cases h
  timedOut h := nomatch h
  returned h := nomatch h

omit [DecidableEq κ] in
/-- A worker that is done stays as it is. -/
theorem LaneStep.of_done {i : Input κ ε} {q : StorageRoute} (h : LaneStep cfg rd s s' i q)
    (hd : (s.lanes q).worker.done = true) : (s'.lanes q).worker = (s.lanes q).worker := by
  cases h with
  | same hw => exact hw
  | accepts hw => exact hw
  | runs h => rw [hd] at h; cases h
  | leaves h => rw [hd] at h; cases h
  | returns h => rw [hd] at h; cases h
  | fails _ _ h => rw [hd] at h; cases h
  | cancels _ _ h => rw [hd] at h; cases h

omit [DecidableEq κ] in
/-- Steps of writers and workers keep the invariant of shutting down. -/
theorem Closing.lanes (hc : Closing s) {i : Input κ ε} (hctl : SameControl s s' i)
    (hl : ∀ q, LaneStep cfg rd s s' i q) : Closing s' := by
  have herr : s.workerErrors ≠ [] → s'.workerErrors ≠ [] := fun h => by
    rcases hctl.errors with he | ⟨he, -⟩
    · rwa [he]
    · exact he
  constructor
  case cancelled =>
    intro r p u hr
    rw [hctl.workersCancelled]
    cases hl r with
    | same hw => exact hc.cancelled r p u (hw ▸ hr)
    | accepts hw => exact hc.cancelled r p u (hw ▸ hr)
    | runs _ _ h => rw [hr] at h; cases h
    | leaves _ _ _ h => rw [hr] at h; cases h
    | returns _ _ h => rw [hr] at h; cases h
    | fails _ _ _ _ h => rw [hr] at h; cases h
    | cancels _ _ _ h => exact h
  case failed =>
    intro r p u hr
    cases hl r with
    | same hw => exact herr (hc.failed r p u (hw ▸ hr))
    | accepts hw => exact herr (hc.failed r p u (hw ▸ hr))
    | runs _ _ h => rw [hr] at h; cases h
    | leaves _ _ _ h => rw [hr] at h; cases h
    | returns _ _ h => rw [hr] at h; cases h
    | fails _ _ _ _ _ h => exact h
    | cancels _ _ _ _ h => rw [hr] at h; cases h
  case left =>
    intro r hr
    rw [hctl.closeRequested]
    cases hl r with
    | same hw => exact hc.left r (hw ▸ hr)
    | accepts hw => exact hc.left r (hw ▸ hr)
    | runs _ _ _ h => rw [hr] at h; cases h
    | leaves _ _ h => exact h
    | returns _ h => exact hc.left r h
    | fails _ _ _ _ h => rw [h] at hr; cases hr
    | cancels _ _ _ _ h => rw [h] at hr; cases hr
  case requested =>
    intro ho
    rw [hctl.closeRequested]
    exact hc.requested (hctl.lifecycle ▸ ho)
  case gone =>
    intro hg r
    have hd := hc.gone (hctl.connected ▸ hg) r
    rwa [(hl r).of_done hd]
  case finished =>
    intro hf r
    have hd := hc.finished (hctl.closeCall ▸ hf) r
    rwa [(hl r).of_done hd]
  case timedOut =>
    intro h
    rw [hctl.closeCall]
    exact hc.timedOut (hctl.workersCancelled ▸ h)
  case returned =>
    intro h he
    have hret := hctl.closeCall ▸ h
    rw [hctl.failureReported]
    rcases hctl.errors with heq | ⟨-, r, hd, -⟩
    · exact hc.returned hret (heq ▸ he)
    · rw [hc.finished (.inr hret) r] at hd
      cases hd

omit [DecidableEq κ] in
theorem all_done (h : s.workersAllDone = true) (r : StorageRoute) : (s.lanes r).worker.done = true := by
  rw [workersAllDone, List.all_eq_true] at h
  exact h r (by cases r <;> decide)

/-- **A step keeps the invariant of shutting down.** -/
theorem step_closing (hs : s.Inv) (hc : Closing s) {i : Input κ ε} (hi : i.CallbacksReturn)
    (h : (machine cfg rd).step s i = some s') : Closing s' := by
  have hquiet : i.control = false → Closing s' := fun hctl =>
    hc.lanes (step_control hs hi hctl h) (step_lane hs hi h)
  cases effect_of_step h with
  | write | resumeWrite | cancelWrite | getTask | worker | insertDone | cancelWorker => exact hquiet rfl
  | close hidle ho =>
    refine { hc with
      left := fun _ _ => rfl
      requested := fun h => (nomatch h)
      finished := fun h => ?_
      timedOut := fun h => ?_
      returned := fun h => (nomatch h) }
    · rcases h with ⟨_, h⟩ | h <;> cases h
    · rcases hc.timedOut h with h | h | ⟨e, h⟩ <;> rw [hidle] at h <;> cases h
  | @workersDone timedOut hw hd =>
    refine { hc with
      finished := fun _ => all_done hd
      timedOut := fun h => ?_
      returned := fun h => (nomatch h) }
    rcases hc.timedOut h with h | h | ⟨e, h⟩
    · rw [h] at hw
      cases timedOut
      · cases hw
      · exact .inr (.inl rfl)
    · rw [h] at hw; cases timedOut <;> cases hw
    · rw [h] at hw; cases timedOut <;> cases hw
  | shutdownTimeout hg =>
    exact { hc with
      cancelled := fun _ _ _ _ => rfl
      finished := by rintro (⟨_, h⟩ | h) <;> cases h
      timedOut := fun _ => .inl rfl
      returned := fun h => (nomatch h) }
  | @clientClosed timedOut ok hcl =>
    have hdone := hc.finished (.inl ⟨timedOut, hcl⟩)
    refine { hc with
      requested := fun h => (nomatch h)
      gone := fun _ => hdone
      finished := fun _ => hdone
      timedOut := fun h => ?_
      returned := fun h he => ?_ }
    · have ht : timedOut = true := by
        rcases hc.timedOut h with h | h | ⟨e, h⟩ <;> rw [hcl] at h <;> cases h
        rfl
      refine .inr (.inr ?_)
      simp only [finishClose, ht, if_true]
      split
      · exact ⟨_, rfl⟩
      · exact ⟨_, rfl⟩
    · simp only [finishClose] at h he
      by_contra hf
      rw [if_pos ⟨he, hf⟩] at h
      cases h
  | @cancelClose b hb =>
    refine { hc with
      cancelled := fun r p u hr => ?_
      finished := by rintro (⟨_, h⟩ | h) <;> cases h
      timedOut := fun _ => .inr (.inr ⟨_, rfl⟩)
      returned := fun h => (nomatch h) }
    have hcancelled := hc.cancelled r p u hr
    rcases hb with ⟨-, rfl⟩ | ⟨-, rfl⟩ | ⟨-, rfl⟩
    · rfl
    · exact hcancelled
    · exact hcancelled
  | reportFailure _ =>
    exact { hc with returned := fun _ _ => rfl }

/-- What holds in every state of a run whose callbacks return. -/
structure Sound (rd : Reading ε) (s : Output κ ε) : Prop where
  inv : s.Inv
  tracked : Tracked rd s
  closing : Closing s

omit [DecidableEq κ] in
theorem opened_sound : Sound rd (opened : Output κ ε) := ⟨opened_inv, opened_tracked, opened_closing⟩

theorem Sound.step (hs : Sound rd s) {i : Input κ ε} (hi : i.CallbacksReturn)
    (h : (machine cfg rd).step s i = some s') : Sound rd s' :=
  ⟨(step_sound hs.inv hi h).1, step_tracked hs.inv hs.tracked hi h, step_closing hs.inv hs.closing hi h⟩

omit [DecidableEq κ] in
/-- After a `close()` that returned without an unreported failure, every worker has returned. -/
theorem Sound.all_returned (hs : Sound rd s) (hc : s.closeCall = .returned) (he : s.workerErrors = [])
    (r : StorageRoute) : (s.lanes r).worker = .returned := by
  have hd := hs.closing.finished (.inr hc) r
  cases hw : (s.lanes r).worker with
  | returned => rfl
  | failed p u => exact absurd he (hs.closing.failed r p u hw)
  | cancelled p u =>
    rcases hs.closing.timedOut (hs.closing.cancelled r p u hw) with h | h | ⟨e, h⟩ <;> rw [hc] at h <;> cases h
  | _ => rw [hw] at hd; cases hd

omit [DecidableEq κ] in
/-- After such a `close()`, nothing is left in the output if nothing is left in its queues. -/
theorem Sound.drained (hs : Sound rd s) (hc : s.closeCall = .returned) (he : s.workerErrors = [])
    (hq : ∀ r, (s.lanes r).queue = []) :
    (∀ r, (s.lanes r).accepted = (s.lanes r).confirmed ∧ (s.lanes r).insertCalls.flatten = (s.lanes r).confirmed) ∧
      s.pendingCount = 0 := by
  have hret := hs.all_returned hc he
  have hheld : ∀ r, (s.lanes r).held = [] := fun r => by
    simp [Lane.held, hret r, Worker.passed, Worker.unpassed, hq r]
  refine ⟨fun r => ⟨?_, ?_⟩, ?_⟩
  · rw [(hs.inv.lanes r).accepted, hheld r, List.append_nil]
  · rw [(hs.inv.lanes r).inserted, hret r]
    simp [Worker.passed]
  · show s.budget.documents = 0
    rw [hs.inv.documents]
    simp [Ledger.Book.count, book, hheld]

/-! ## Late writes -/

/-- A woken `write()` would be granted the budget, and the worker of its route has left. -/
def Late (cfg : Settings) (rd : Reading ε) (s : Output κ ε) : WriteCall κ ε → Prop
  | .parked d true => s.budget.failed = false ∧ s.budget.Admits cfg d.bsonSize ∧
      (s.lanes (rd.route d.event)).worker.left = true
  | _ => False

/-- The step grants the budget late. -/
def LateAccept (cfg : Settings) (rd : Reading ε) (s : Output κ ε) : Input κ ε → Prop
  | .resumeWrite k _ => Late cfg rd s (s.calls k)
  | _ => False

/-- The lane of a worker that has left is empty. -/
def Kept (s : Output κ ε) : Prop := ∀ r, (s.lanes r).worker.left = true → (s.lanes r).queue = []

/-- A document is in the queue of a lane whose worker has left. -/
def Stuck (r : StorageRoute) (s : Output κ ε) : Prop := (s.lanes r).worker.left = true ∧ (s.lanes r).queue ≠ []

/-- Without late writes, the lane of a worker that has left stays empty. -/
theorem step_kept (hs : Sound rd s) (hk : Kept s) {i : Input κ ε} (hi : i.CallbacksReturn)
    (hlate : ¬LateAccept cfg rd s i) (h : (machine cfg rd).step s i = some s') : Kept s' := by
  intro r hr
  cases step_lane hs.inv hi h r with
  | same hw hq => rw [hq]; exact hk r (hw ▸ hr)
  | @accepts d hw hq hf ha hroute hcase =>
    subst hroute
    rw [hw] at hr
    rcases hcase with ho | ⟨k, report, rfl, hpark⟩
    · have := hs.closing.left _ hr
      rw [hs.closing.requested ho] at this
      cases this
    · refine absurd ?_ hlate
      simp only [LateAccept, hpark]
      exact ⟨hf, ha, hr⟩
  | runs _ _ _ hl => rw [hr] at hl; cases hl
  | leaves _ _ _ _ hq => exact hq
  | returns _ hl _ hq => rw [hq]; exact hk r hl
  | fails _ _ _ _ hw => rw [hw] at hr; cases hr
  | cancels _ _ _ _ hw => rw [hw] at hr; cases hr

/-- A late write leaves its document in the queue. -/
theorem step_lateAccept (hs : Sound rd s) {i : Input κ ε} (hi : i.CallbacksReturn) (hlate : LateAccept cfg rd s i)
    (h : (machine cfg rd).step s i = some s') : ∃ r, Stuck r s' := by
  cases effect_of_step h with
  | @resumeWrite k d report hk =>
    simp only [LateAccept, hk] at hlate
    obtain ⟨hf, ha, hl⟩ := hlate
    cases hi
    refine ⟨rd.route d.event, ?_⟩
    rcases tryWrite_cases hs.inv.failed (rd.route d.event) d with ⟨-, -, he⟩ | ⟨hf', -⟩ | ⟨-, ha', -⟩
    · rw [he]
      simp [Stuck, accepted, setCall, reportBuffer, setLane, setBudget, Lane.accept, hl]
    · rw [hf] at hf'; cases hf'
    · exact absurd ha ha'
  | _ => exact hlate.elim

/-- What a worker has left in its queue stays there, as long as `close()` cancels no worker. -/
theorem step_stuck (hs : Sound rd s) {r : StorageRoute} (hr : Stuck r s) {i : Input κ ε} (hi : i.CallbacksReturn)
    (hc : s.workersCancelled = false) (h : (machine cfg rd).step s i = some s') : Stuck r s' := by
  obtain ⟨hl, hq⟩ := hr
  cases step_lane hs.inv hi h r with
  | same hw hq' => exact ⟨hw ▸ hl, hq' ▸ hq⟩
  | accepts hw hq' => exact ⟨hw ▸ hl, by rw [hq']; simp⟩
  | runs _ hl' => rw [hl] at hl'; cases hl'
  | leaves _ hl' => rw [hl] at hl'; cases hl'
  | returns _ _ hw hq' => exact ⟨by rw [hw]; rfl, hq' ▸ hq⟩
  | fails _ _ _ hl' => rw [hl] at hl'; cases hl'
  | cancels _ _ _ hc' => rw [hc] at hc'; cases hc'

/-! ## Graceful runs -/

/-- Callbacks return, every insert succeeds, and neither the timeout of `close()` nor its cancellation strikes. -/
def Input.Graceful : Input κ ε → Prop
  | .write _ _ report => report = .returns
  | .resumeWrite _ report => report = .returns
  | .insertDone _ outcome _ => outcome = .success
  | .shutdownTimeout => False
  | .cancelClose => False
  | _ => True

omit [DecidableEq κ] in
theorem Input.Graceful.callbacksReturn {i : Input κ ε} (h : i.Graceful) : i.CallbacksReturn := by
  cases i <;> first | exact h | exact trivial

/-- No worker has failed or has been cancelled. -/
structure Healthy (s : Output κ ε) : Prop where
  errors : s.workerErrors = []
  uncancelled : s.workersCancelled = false

theorem step_healthy (hs : Sound rd s) (hh : Healthy s) {i : Input κ ε} (hi : i.Graceful)
    (h : (machine cfg rd).step s i = some s') : Healthy s' := by
  by_cases hctl : i.control = false
  · have hsame := step_control hs.inv hi.callbacksReturn hctl h
    refine ⟨?_, hsame.workersCancelled.trans hh.uncancelled⟩
    rcases hsame.errors with he | ⟨-, r, hd, hg | ⟨outcome, expired, rfl, ho⟩⟩
    · exact he.trans hh.errors
    · rw [hs.closing.gone hg r] at hd
      cases hd
    · exact absurd hi ho
  · cases effect_of_step h with
    | close _ _ => exact ⟨hh.errors, hh.uncancelled⟩
    | workersDone _ _ => exact ⟨hh.errors, hh.uncancelled⟩
    | shutdownTimeout _ => exact hi.elim
    | clientClosed _ => exact ⟨hh.errors, hh.uncancelled⟩
    | cancelClose _ => exact hi.elim
    | reportFailure _ => exact ⟨hh.errors, hh.uncancelled⟩
    | _ => exact absurd rfl hctl

/-- Every event whose `write()` has returned is confirmed, and nothing is left. -/
structure Served (rd : Reading ε) (is : List (Input κ ε)) (s : Output κ ε) : Prop where
  confirmed : ∀ k event report, .write k event report ∈ is → s.calls k = .returned →
    ∃ d ∈ (s.lanes (rd.route event)).confirmed, d.call = k ∧ d.event = event ∧
      d ∈ (s.lanes (rd.route event)).insertCalls.flatten
  queues : ∀ r, (s.lanes r).queue = []
  pendingCount : s.pendingCount = 0

/-- After a graceful close, a lane whose queue is empty holds nothing. -/
theorem served_of_queues {is : List (Input κ ε)} (hs : Sound rd s) (hh : Healthy s)
    (h : (machine cfg rd).Path Quiet opened is s) (hc : s.closeCall = .returned) (hq : ∀ r, (s.lanes r).queue = []) :
    Served rd is s := by
  obtain ⟨hdrained, hpending⟩ := hs.drained hc hh.errors hq
  refine ⟨fun k event report hmem hk => ?_, hq, hpending⟩
  obtain ⟨r, d, hd, rfl⟩ := hs.tracked.returned k hk
  have hevent := (path_written h opened_inv opened_tracked hmem).2.2 r d hd rfl
  obtain ⟨-, hroute, -⟩ := hs.tracked.accepted r d hd
  rw [hevent] at hroute
  obtain ⟨haccepted, hinserted⟩ := hdrained r
  rw [haccepted] at hd
  exact ⟨d, hroute ▸ hd, rfl, hevent, by rw [hroute, hinserted]; exact hd⟩

/-- **A graceful close serves every accepted document exactly when no write was granted the budget late.** -/
theorem graceful_close_iff {is : List (Input κ ε)} (h : (machine cfg rd).Path (fun _ i => i.Graceful) opened is s)
    (hc : s.closeCall = .returned) :
    Served rd is s ↔ (machine cfg rd).Path (fun s i => i.Graceful ∧ ¬LateAccept cfg rd s i) opened is s := by
  have hopened : Sound rd (opened : Output κ ε) ∧ Healthy (opened : Output κ ε) := ⟨opened_sound, rfl, rfl⟩
  have hkeep : ∀ (s : Output κ ε) i s', i.Graceful → Sound rd s ∧ Healthy s → (machine cfg rd).step s i = some s' →
      Sound rd s' ∧ Healthy s' := fun s i s' hi hI hstep =>
    ⟨hI.1.step hi.callbacksReturn hstep, step_healthy hI.1 hI.2 hi hstep⟩
  have hquiet : (machine cfg rd).Path Quiet opened is s := h.mono fun _ _ hi => hi.callbacksReturn
  constructor
  · intro hserved
    by_contra hlate
    obtain ⟨pre, i, post, s₁, s₂, -, h₁, hi, hbad, hstep, h₂⟩ := h.exists_violation hlate
    obtain ⟨hs₁, hh₁⟩ :=
      h₁.invariant (I := fun s => Sound rd s ∧ Healthy s) (fun s i s' hi => hkeep s i s' hi.1) hopened
    have hlate' : LateAccept cfg rd s₁ i := by
      by_contra hn
      exact hbad ⟨hi, hn⟩
    obtain ⟨r, hr⟩ := step_lateAccept hs₁ hi.callbacksReturn hlate' hstep
    have hend := h₂.invariant (I := fun s => (Sound rd s ∧ Healthy s) ∧ Stuck r s)
      (fun s i s' hi hI hstep => ⟨hkeep s i s' hi hI.1 hstep,
        step_stuck hI.1.1 hI.2 hi.callbacksReturn hI.1.2.uncancelled hstep⟩) ⟨hkeep _ _ _ hi ⟨hs₁, hh₁⟩ hstep, hr⟩
    exact hend.2.2 (hserved.queues r)
  · intro hpath
    obtain ⟨⟨hs, hh⟩, hk⟩ := hpath.invariant (I := fun s => (Sound rd s ∧ Healthy s) ∧ Kept s)
      (fun s i s' hi hI hstep => ⟨hkeep s i s' hi.1 hI.1 hstep,
        step_kept hI.1.1 hI.2 hi.1.callbacksReturn hi.2 hstep⟩) ⟨hopened, fun _ _ => rfl⟩
    exact served_of_queues hs hh hquiet hc fun r =>
      hk r (by rw [hs.all_returned hc hh.errors r]; rfl)

instance : DecidablePred (Input.Graceful (κ := κ) (ε := ε))
  | .write _ _ report | .resumeWrite _ report => decEq report .returns
  | .insertDone _ outcome _ => decEq outcome .success
  | .shutdownTimeout | .cancelClose => isFalse id
  | .cancelWrite _ | .getTask _ | .worker _ _ | .cancelWorker _ | .close | .workersDone | .clientClosed _
  | .reportFailure => isTrue trivial

instance (s : Output κ ε) : DecidablePred (Late cfg rd s)
  | .parked d true => inferInstanceAs (Decidable (_ = _ ∧ s.budget.Admits cfg d.bsonSize ∧ _ = _))
  | .parked _ false | .idle | .returned | .raised _ => isFalse id

instance (s : Output κ ε) : DecidablePred (LateAccept cfg rd s)
  | .resumeWrite k _ => inferInstanceAs (Decidable (Late cfg rd s (s.calls k)))
  | .write _ _ _ | .cancelWrite _ | .getTask _ | .worker _ _ | .insertDone _ _ _ | .cancelWorker _ | .close
  | .workersDone | .shutdownTimeout | .clientClosed _ | .cancelClose | .reportFailure => isFalse id

/-- The second `write()` waits for the only place in the buffer, which a batch in flight occupies. -/
def waitingWrite : List (Input Bool StorageRoute) :=
  storageRoutes.map (.worker · false) ++ [.write false .aggTrade .returns, .getTask .aggTrade,
    .worker .aggTrade false, .worker .aggTrade false, .worker .aggTrade false, .write true .kline .returns]

/-- Workers that have nothing to do, from the close request to the end of `_run_worker`. -/
def leave (routes : List StorageRoute) : List (Input Bool StorageRoute) :=
  routes.flatMap fun r => [.worker r false, .worker r false]

/-- The second document is accepted and inserted before `close()` is called. -/
def promptWrite : List (Input Bool StorageRoute) :=
  waitingWrite ++ [.insertDone .aggTrade .success false, .resumeWrite true .returns, .getTask .kline,
    .worker .kline false, .worker .kline false, .worker .kline false, .insertDone .kline .success false, .close] ++
    leave storageRoutes ++ [.workersDone, .clientClosed true]

/-- `close()` is called while the second `write()` waits, and all other workers leave before the batch in flight is
confirmed. -/
def lateWrite : List (Input Bool StorageRoute) :=
  waitingWrite ++ [.close] ++ leave (storageRoutes.erase .aggTrade) ++
    [.insertDone .aggTrade .success false, .resumeWrite true .returns, .workersDone, .clientClosed true]

theorem graceful_close_promptWrite : ∃ s,
    (machine singleBuffer routeEvents).Path (fun _ i => i.Graceful) opened promptWrite s ∧ s.closeCall = .returned ∧
    s.calls true = .returned ∧ Served routeEvents promptWrite s := by
  obtain ⟨s, hs, hp⟩ := Machine.exists_path_of_check (M := machine singleBuffer routeEvents)
    (P := fun s i => i.Graceful ∧ ¬LateAccept singleBuffer routeEvents s i)
    (p := fun s : Output Bool StorageRoute => decide (s.closeCall = .returned ∧ s.calls true = .returned)) opened
    promptWrite (by decide)
  obtain ⟨hc, hk⟩ := of_decide_eq_true hp
  have hpath := hs.mono fun _ _ h => h.1
  exact ⟨s, hpath, hc, hk, (graceful_close_iff hpath hc).2 hs⟩

/-- The second `write()` returns after the worker of its route has left: `close()` returns as well, and the document
stays in the queue. -/
theorem lateWrite_lost : ∃ s, (machine singleBuffer routeEvents).Path (fun _ i => i.Graceful) opened lateWrite s ∧
    s.closeCall = .returned ∧ (∀ k, s.calls k = .returned) ∧ (s.lanes .kline).queue.map (·.call) = [true] ∧
    s.pendingCount = 1 ∧ ¬Served routeEvents lateWrite s := by
  obtain ⟨s, hs, hp⟩ := Machine.exists_path_of_check (M := machine singleBuffer routeEvents)
    (P := fun _ i => i.Graceful)
    (p := fun s : Output Bool StorageRoute => decide (s.closeCall = .returned ∧ (∀ k, s.calls k = .returned) ∧
      (s.lanes .kline).queue.map (·.call) = [true] ∧ s.pendingCount = 1)) opened lateWrite (by decide)
  obtain ⟨hc, hk, hq, hn⟩ := of_decide_eq_true hp
  refine ⟨s, hs, hc, hk, hq, hn, fun h => ?_⟩
  rw [h.pendingCount] at hn
  cases hn

end BinanceCollector.MultiMongo.Output
