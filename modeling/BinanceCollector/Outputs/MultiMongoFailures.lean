import BinanceCollector.Outputs.MultiMongoCalls

/-!
# Failing writes

A `write()` call that has not put its document has changed nothing but its own outcome: the run without its inputs leads
to the state without the call (`Output.without`), since every step of the others commutes with leaving it out. A call
that has put its document fails only where `on_buffer_changed` raises, and then leaves the document behind.

- `step_without`, `path_without`: the run as if the call had never been made.
- `failed_write_atomic_iff`: failing writes are atomic, and the budget is never driven below zero, if and only if no
  callback raises in a `write()` that has put its document.
- `raisingCallback_negative`: a run with such a callback.
-/

namespace BinanceCollector.MultiMongo.Output

open Steps

variable {κ ε : Type*} {cfg : Settings} {rd : Reading ε} {s s' : Output κ ε}

/-! ## Writes that put their document -/

/-- `acquire` grants the budget to a document of this size, and no worker has failed. -/
def grants (cfg : Settings) (s : Output κ ε) (size : ℕ) : Bool :=
  !s.budget.failed && decide (s.budget.Admits cfg size) && s.workerErrors.isEmpty

/-- The input is a `write()` that puts its document into the queue. -/
def puts (cfg : Settings) (rd : Reading ε) (s : Output κ ε) : Input κ ε → Bool
  | .write _ event _ =>
    decide (s.lifecycle = .open) &&
      (rd.bsonSize event).any fun size => decide (size ≤ cfg.bufferMaxBytes) && s.grants cfg size
  | .resumeWrite k _ =>
    match s.calls k with
    | .parked d true => s.grants cfg d.bsonSize
    | _ => false
  | _ => false

/-- `on_buffer_changed` does not raise in a `write()` that has put its document. -/
def ReportsPut (cfg : Settings) (rd : Reading ε) (s : Output κ ε) (i : Input κ ε) : Prop :=
  s.puts cfg rd i = true → i.CallbacksReturn

/-- The budget with one more document. -/
def granted (s : Output κ ε) (size : ℕ) : BufferBudget :=
  { s.budget with documents := s.budget.documents + 1, bytes := s.budget.bytes + size }

/-- The `write()` call that an input belongs to. -/
def Input.call : Input κ ε → Option κ
  | .write k _ _ | .resumeWrite k _ | .cancelWrite k => some k
  | _ => none

/-- The same input with a callback that returns. -/
def Input.returning : Input κ ε → Input κ ε
  | .write k event _ => .write k event .returns
  | .resumeWrite k _ => .resumeWrite k .returns
  | i => i

theorem Input.returning_callbacksReturn (i : Input κ ε) : i.returning.CallbacksReturn := by
  cases i <;> trivial

theorem Input.returning_of_callbacksReturn {i : Input κ ε} (h : i.CallbacksReturn) : i.returning = i := by
  cases i <;> first | rfl | (cases h; rfl)

variable [DecidableEq κ]

/-- At the predicate of `acquire`, a document is put, or its call waits or fails. -/
theorem tryWrite_grants (cfg : Settings) (hs : s.budget.failed = true ↔ s.workerErrors ≠ []) (r : StorageRoute)
    (d : BufferedDocument κ ε) :
    (s.grants cfg d.bsonSize = true ∧ s.budget.failed = false ∧ s.workerErrors = [] ∧
      ∀ report, s.tryWrite cfg r d report = s.enqueue r d (s.granted d.bsonSize) report) ∨
    (s.grants cfg d.bsonSize = false ∧
      ∃ c, c ≠ .returned ∧ ∀ report, s.tryWrite cfg r d report = s.setCall d.call c) := by
  unfold tryWrite
  rcases acquire_cases (b := s.budget) with ⟨hf, h⟩ | ⟨hf, ha, h⟩ | ⟨hf, ha, h⟩
  · exact .inr ⟨by simp [grants, hf], .raised .budgetFailed, by simp, fun report => by rw [h]⟩
  · have he : s.workerErrors = [] := by
      by_contra hne
      rw [hs.2 hne] at hf
      cases hf
    refine .inl ⟨by simp [grants, hf, ha, he], hf, he, fun report => ?_⟩
    rw [h]
    rfl
  · exact .inr ⟨by simp [grants, ha], .parked d false, by simp, fun report => by rw [h]⟩

/-- A `write()` up to its first suspension point: its document is put, or its call waits or fails. -/
theorem write_puts (cfg : Settings) (rd : Reading ε) (hs : s.budget.failed = true ↔ s.workerErrors ≠ []) (k : κ)
    (event : ε) :
    (∃ d : BufferedDocument κ ε, d.call = k ∧ s.budget.failed = false ∧ s.workerErrors = [] ∧ ∀ report,
      s.puts cfg rd (.write k event report) = true ∧
        s.write cfg rd k event report = s.enqueue (rd.route event) d (s.granted d.bsonSize) report) ∨
    (∃ c, c ≠ .returned ∧ ∀ report,
      s.puts cfg rd (.write k event report) = false ∧ s.write cfg rd k event report = s.setCall k c) := by
  unfold write puts
  by_cases ho : s.lifecycle = .open
  · by_cases he : s.workerErrors = []
    · cases hsize : rd.bsonSize event with
      | none => exact .inr ⟨.raised .serialization, by simp, fun report => by simp [ho, he, hsize]⟩
      | some size =>
        by_cases hmax : cfg.bufferMaxBytes < size
        · exact .inr ⟨.raised .capacity, by simp, fun report => by simp [ho, he, hsize, hmax]⟩
        · have hle : size ≤ cfg.bufferMaxBytes := Nat.le_of_not_lt hmax
          have htry := tryWrite_grants cfg hs (rd.route event) ⟨k, event, size⟩
          rcases htry with ⟨hg, hf, -, h⟩ | ⟨hg, c, hc, h⟩
          · exact .inl ⟨⟨k, event, size⟩, rfl, hf, he, fun report => by simp [ho, he, hsize, hmax, hle, hg, h]⟩
          · exact .inr ⟨c, hc, fun report => by simp [ho, he, hsize, hmax, hg, h]⟩
    · exact .inr ⟨.raised .workerFailed, by simp, fun report => by
        cases hsize : rd.bsonSize event <;> simp [ho, he, grants, hsize]⟩
  · exact .inr ⟨.raised (if s.workerErrors ≠ [] then .workerFailed else .state), by simp, fun report => by simp [ho]⟩

/-- A step of the call `k`: its document is put, or nothing but its own outcome changes. -/
theorem step_call (hs : s.Inv) (ht : Tracked rd s) {i : Input κ ε} {k : κ} (hk : i.call = some k)
    (h : (machine cfg rd).step s i = some s') :
    (s.puts cfg rd i = true ∧ s.calls k ≠ .returned ∧ ∃ r d report, d.call = k ∧ s.workerErrors = [] ∧
      (report = Callback.returns ↔ i.CallbacksReturn) ∧ s' = s.enqueue r d (s.granted d.bsonSize) report) ∨
    (s.puts cfg rd i = false ∧ s.calls k ≠ .returned ∧ ∃ c, c ≠ .returned ∧ s' = s.setCall k c) := by
  cases effect_of_step h with
  | @write q event report hq =>
    cases hk
    have hidle : s.calls k ≠ .returned := by simp [hq]
    rcases write_puts cfg rd hs.failed k event with ⟨d, hd, -, he, hw⟩ | ⟨c, hc, hw⟩
    · exact .inl ⟨(hw report).1, hidle, _, d, report, hd, he, Iff.rfl, (hw report).2⟩
    · exact .inr ⟨(hw report).1, hidle, c, hc, (hw report).2⟩
  | @resumeWrite q d report hq =>
    cases hk
    have hparked : s.calls k ≠ .returned := by simp [hq]
    have hd := (ht.parked k d true hq).1
    rcases tryWrite_grants cfg hs.failed (rd.route d.event) d with ⟨hg, -, he, hw⟩ | ⟨hg, c, hc, hw⟩
    · exact .inl ⟨by simpa [puts, hq] using hg, hparked, _, d, report, hd, he, Iff.rfl, hw report⟩
    · exact .inr ⟨by simpa [puts, hq] using hg, hparked, c, hc, hd ▸ hw report⟩
  | @cancelWrite q d n hq =>
    cases hk
    exact .inr ⟨rfl, by simp [hq], .raised .cancelled, by simp, rfl⟩
  | _ => cases hk

/-- A step under the condition is one whose callback returns. -/
theorem step_returning (hs : s.Inv) {i : Input κ ε} (hi : ReportsPut cfg rd s i)
    (h : (machine cfg rd).step s i = some s') :
    (machine cfg rd).step s i.returning = some s' := by
  by_cases hr : i.CallbacksReturn
  · rw [Input.returning_of_callbacksReturn hr]
    exact h
  · have hp : s.puts cfg rd i = false := by
      rw [← Bool.not_eq_true]
      exact fun hp => hr (hi hp)
    cases effect_of_step h with
    | @write k event report hk =>
      rcases write_puts cfg rd hs.failed k event with ⟨d, -, -, -, hw⟩ | ⟨c, -, hw⟩
      · rw [(hw report).1] at hp
        cases hp
      · simp [machine, step, Input.returning, hk, (hw report).2, (hw .returns).2]
    | @resumeWrite k d report hk =>
      rcases tryWrite_grants cfg hs.failed (rd.route d.event) d with ⟨hg, -⟩ | ⟨-, c, -, hw⟩
      · simp [puts, hk, hg] at hp
      · simp [machine, step, Input.returning, hk, hw report, hw .returns]
    | _ => exact absurd trivial hr

theorem path_reports {is : List (Input κ ε)} (h : (machine cfg rd).Path (ReportsPut cfg rd) s is s') (hs : s.Inv)
    (ht : Tracked rd s) : s'.Inv ∧ Tracked rd s' :=
  h.invariant (I := fun s => s.Inv ∧ Tracked rd s) (fun _ i _ hi hI hstep =>
    have hstep' := step_returning hI.1 hi hstep
    have hi' := i.returning_callbacksReturn
    ⟨(step_sound hI.1 hi' hstep').1, step_tracked hI.1 hI.2 hi' hstep'⟩) ⟨hs, ht⟩

/-! ## Leaving a call out -/

/-- The output as it would be had the call `k` never been made, as long as its document has not been put. -/
def without (s : Output κ ε) (k : κ) : Output κ ε := s.setCall k .idle

section

variable {k : κ}

theorem setCall_without_self (s : Output κ ε) (k : κ) (c : WriteCall κ ε) :
    (s.setCall k c).without k = s.without k := by
  simp [without, setCall]

theorem setCall_without {q : κ} (hq : q ≠ k) (s : Output κ ε) (c : WriteCall κ ε) :
    (s.without k).setCall q c = (s.setCall q c).without k := by
  simp only [without, setCall]
  rw [Function.update_comm hq]

theorem notifyAll_without (s : Output κ ε) (k : κ) : (s.without k).notifyAll = s.notifyAll.without k := by
  have hcalls : (fun q => (Function.update s.calls k .idle q).notify) =
      Function.update (fun q => (s.calls q).notify) k .idle := by
    funext q
    by_cases hq : q = k
    · subst hq
      simp [WriteCall.notify]
    · simp [hq]
  simp only [without, setCall, notifyAll, hcalls]

theorem workerFails_without (s : Output κ ε) (k : κ) (r : StorageRoute) (e : WorkerError) :
    (s.without k).workerFails r e = (s.workerFails r e).without k :=
  notifyAll_without
    { s with
      workerErrors := s.workerErrors ++ [(r, e)]
      failureEvent := true
      budget := s.budget.markFailed } k

theorem proceed_without (s : Output κ ε) (k : κ) (r : StorageRoute) (p : Progress κ ε) :
    (s.without k).proceed r p = (s.proceed r p).without k := by
  cases p with
  | goes l => rfl
  | fails l e => exact workerFails_without (s.setLane r l) k r e

theorem insertFails_without (s : Output κ ε) (k : κ) (r : StorageRoute) (passed : List (BufferedDocument κ ε))
    (carry : Option (BufferedDocument κ ε)) (e : WorkerError) :
    (s.without k).insertFails r passed carry e = (s.insertFails r passed carry e).without k :=
  workerFails_without (s.setLane r { s.lanes r with worker := .failed passed carry.toList }) k r e

/-! ### Writes of other calls -/

theorem giveBack_without {d : BufferedDocument κ ε} (hd : d.call ≠ k) (s : Output κ ε) (e : WriteError) :
    (s.without k).giveBack d e = (s.giveBack d e).without k := by
  have hbudget : (s.without k).budget = s.budget := rfl
  have hset : ∀ b, (s.without k).setBudget b = (s.setBudget b).without k := fun _ => rfl
  unfold giveBack
  rw [hbudget]
  split
  split
  · rw [hset, notifyAll_without, setCall_without hd]
  · rw [hset, setCall_without hd]

theorem enqueue_without {d : BufferedDocument κ ε} (hd : d.call ≠ k) (s : Output κ ε) (r : StorageRoute)
    (b : BufferBudget) (report : Callback) :
    (s.without k).enqueue r d b report = (s.enqueue r d b report).without k := by
  by_cases he : s.workerErrors = []
  · have he' : (s.without k).workerErrors = [] := he
    cases report with
    | returns =>
      rw [enqueue_returns he, enqueue_returns he']
      exact setCall_without hd (s.put r d b) _
    | raises =>
      rw [enqueue_giveBack he, enqueue_giveBack he']
      exact giveBack_without hd (s.put r d b) _
  · have he' : (s.without k).workerErrors ≠ [] := he
    simp only [enqueue, setBudget, ne_eq, he, he', not_false_eq_true, if_true]
    exact giveBack_without hd (s.setBudget b) _

theorem tryWrite_without {d : BufferedDocument κ ε} (hd : d.call ≠ k) (s : Output κ ε) (r : StorageRoute)
    (report : Callback) : (s.without k).tryWrite cfg r d report = (s.tryWrite cfg r d report).without k := by
  have hbudget : (s.without k).budget = s.budget := rfl
  unfold tryWrite
  rw [hbudget]
  split
  · exact enqueue_without hd s r _ report
  · exact setCall_without hd s _
  · exact setCall_without hd s _

theorem write_without {q : κ} (hq : q ≠ k) (s : Output κ ε) (event : ε) (report : Callback) :
    (s.without k).write cfg rd q event report = (s.write cfg rd q event report).without k := by
  have hlifecycle : (s.without k).lifecycle = s.lifecycle := rfl
  have herrors : (s.without k).workerErrors = s.workerErrors := rfl
  unfold write
  rw [hlifecycle, herrors]
  split
  · exact setCall_without hq s _
  · split
    · exact setCall_without hq s _
    · split
      · exact setCall_without hq s _
      · split
        · exact setCall_without hq s _
        · exact tryWrite_without hq s _ report

/-! ### Worker code -/

theorem confirmBatch_without (s : Output κ ε) (k : κ) (r : StorageRoute) (ds : List (BufferedDocument κ ε)) :
    (∀ t, s.confirmBatch r ds = .ok t → (s.without k).confirmBatch r ds = .ok (t.without k)) ∧
    ∀ t e, s.confirmBatch r ds = .error (t, e) → (s.without k).confirmBatch r ds = .error (t.without k, e) := by
  have hlanes : (s.without k).lanes = s.lanes := rfl
  have hbudget : (s.without k).budget = s.budget := rfl
  unfold confirmBatch
  dsimp only
  rw [hlanes, hbudget]
  by_cases htasks : (s.lanes r).unfinishedTasks < ds.length
  · rw [if_pos htasks, if_pos htasks]
    refine ⟨by simp, fun t e h => ?_⟩
    cases h
    rfl
  · rw [if_neg htasks, if_neg htasks]
    by_cases hok : (s.budget.release ds.length (byteCount ds)).2 = true
    · rw [if_pos hok, if_pos hok]
      refine ⟨fun t h => ?_, by simp⟩
      cases h
      rw [show ((s.without k).setLane r ((s.lanes r).settle ds)).setBudget
            (s.budget.release ds.length (byteCount ds)).1 =
          ((s.setLane r ((s.lanes r).settle ds)).setBudget
            (s.budget.release ds.length (byteCount ds)).1).without k from rfl,
        notifyAll_without]
      rfl
    · rw [if_neg hok, if_neg hok]
      refine ⟨by simp, fun t e h => ?_⟩
      cases h
      rfl

theorem insertDone_without (s : Output κ ε) (k : κ) (r : StorageRoute) (batch : List (BufferedDocument κ ε))
    (carry : Option (BufferedDocument κ ε)) (outcome : InsertOutcome) (expired : Bool) :
    (s.without k).insertDone cfg r batch carry outcome expired =
      (s.insertDone cfg r batch carry outcome expired).without k := by
  cases outcome with
  | success =>
    rw [insertDone, insertDone]
    cases hc : s.confirmBatch r batch with
    | ok t =>
      rw [(confirmBatch_without s k r batch).1 t hc]
      exact proceed_without t k r _
    | error p =>
      rw [(confirmBatch_without s k r batch).2 p.1 p.2 hc]
      exact insertFails_without p.1 k r batch carry p.2
  | bulkWriteError nInserted =>
    simp only [insertDone]
    generalize (max 0 (min (batch.length : ℤ) nInserted)).toNat = n
    by_cases h0 : n = 0
    · rw [if_pos h0, if_pos h0]
      exact insertFails_without (s.setLane r { s.lanes r with inflight := batch.drop n }) k r _ carry _
    · rw [if_neg h0, if_neg h0]
      cases hc : s.confirmBatch r (batch.take n) with
      | ok t =>
        rw [(confirmBatch_without s k r (batch.take n)).1 t hc]
        exact insertFails_without (t.setLane r { t.lanes r with inflight := batch.drop n }) k r _ carry _
      | error p =>
        rw [(confirmBatch_without s k r (batch.take n)).2 p.1 p.2 hc]
        exact insertFails_without p.1 k r batch carry p.2
  | otherError => exact insertFails_without s k r batch carry .insert
  | timeout => exact insertFails_without s k r batch carry .timeout

/-! ### Steps and runs -/

/-- **A step of anything but the call `k` does not depend on it.** -/
theorem step_without (ht : Tracked rd s) {i : Input κ ε} (hi : i.call ≠ some k)
    (h : (machine cfg rd).step s i = some s') : (machine cfg rd).step (s.without k) i = some (s'.without k) := by
  have hcalls : ∀ q, q ≠ k → (s.without k).calls q = s.calls q := fun q hq => Function.update_of_ne hq _ _
  have hlanes : (s.without k).lanes = s.lanes := rfl
  cases effect_of_step h with
  | @write q event report hq =>
    have hne : q ≠ k := fun heq => hi (congrArg some heq)
    simp only [machine, step, hcalls q hne, hq, write_without hne]
  | @resumeWrite q d report hq =>
    have hne : q ≠ k := fun heq => hi (congrArg some heq)
    have hd : d.call ≠ k := (ht.parked q d true hq).1 ▸ hne
    simp only [machine, step, hcalls q hne, hq, tryWrite_without hd]
  | @cancelWrite q d n hq =>
    have hne : q ≠ k := fun heq => hi (congrArg some heq)
    simp only [machine, step, hcalls q hne, hq, setCall_without hne]
  | @getTask r l hl =>
    simp only [machine, step, hlanes, hl]
    rfl
  | @worker r expired p hp =>
    have hp' : ((s.without k).lanes r).resume cfg (s.without k).connected (s.without k).closeRequested expired
        ((s.without k).slotFree cfg) = some p := hp
    simp only [machine, step, hp', Option.map_some, proceed_without]
  | @insertDone r batch carry outcome expired hw =>
    simp only [machine, step, hlanes, hw, insertDone_without]
  | @cancelWorker r hc hd =>
    simp only [machine, step]
    rw [if_pos ⟨hc, by rw [hlanes, hd]; simp⟩]
    rfl
  | close hc ho =>
    have hc' : (s.without k).closeCall = .idle := hc
    have ho' : (s.without k).lifecycle = .open := ho
    simp only [machine, step, hc', ho']
    rfl
  | @workersDone timedOut hc hall =>
    have hc' : (s.without k).closeCall = if timedOut then .reaping else .gathering := hc
    have hall' : (s.without k).workersAllDone = true := hall
    cases timedOut <;> simp [machine, step, hc', hall'] <;> rfl
  | shutdownTimeout hc =>
    have hc' : (s.without k).closeCall = .gathering := hc
    simp only [machine, step, hc']
    rfl
  | @clientClosed timedOut ok hc =>
    have hc' : (s.without k).closeCall = .closingClient timedOut := hc
    simp only [machine, step, hc']
    rfl
  | @cancelClose cancelled hc =>
    have hclose : (s.without k).closeCall = s.closeCall := rfl
    rcases hc with ⟨hc, rfl⟩ | ⟨hc, rfl⟩ | ⟨⟨timedOut, hc⟩, rfl⟩
    · simp only [machine, step, hclose, hc]
      rfl
    · simp only [machine, step, hclose, hc]
      rfl
    · simp only [machine, step, hclose, hc]
      rfl
  | reportFailure hf =>
    have hf' : (s.without k).failureEvent = true := hf
    simp only [machine, step]
    rw [if_pos hf']
    rfl

/-- A call that has returned stays so. -/
theorem step_returned (hs : s.Inv) (ht : Tracked rd s) {i : Input κ ε} (hi : ReportsPut cfg rd s i)
    (h : (machine cfg rd).step s i = some s') (hk : s.calls k = .returned) : s'.calls k = .returned := by
  have hstep := step_returning hs hi h
  have hreturn := i.returning_callbacksReturn
  generalize i.returning = j at hstep hreturn
  have haccepts : ∀ {r d}, Accepts rd s s' r d → s'.calls k = .returned := by
    intro r d ha
    by_cases hd : k = d.call
    · rw [hd]
      exact ha.returned
    · rw [ha.call k hd]
      exact hk
  cases step_calls hs (fun q d n hq => (ht.parked q d n hq).1) hreturn hstep with
  | written _ _ ha => exact haccepts ha
  | resumed _ ha => exact haccepts ha
  | quiet _ hc => exact (hc k).returned_iff.2 hk

/-- **The run without the call.** Where the document of the call `k` has not been put, the other inputs lead to the same
output without the call. -/
theorem path_without {is : List (Input κ ε)} (h : (machine cfg rd).Path (ReportsPut cfg rd) s is s') (hs : s.Inv)
    (ht : Tracked rd s) (hk : s'.calls k ≠ .returned) :
    (machine cfg rd).Path (fun _ _ => True) (s.without k) (is.filter fun i => i.call ≠ some k) (s'.without k) := by
  induction h with
  | nil s => exact .nil _
  | @cons s s₁ s' i is hi hstep hpath ih =>
    have hkeep : s₁.Inv ∧ Tracked rd s₁ := path_reports (.cons hi hstep (.nil s₁)) hs ht
    have hrest := ih hkeep.1 hkeep.2 hk
    by_cases hcall : i.call = some k
    · -- the call's own step changes nothing but its outcome
      have hnot : s₁.calls k ≠ .returned := by
        intro hret
        have hend := hpath.invariant (I := fun t => (t.Inv ∧ Tracked rd t) ∧ t.calls k = .returned)
          (fun _ _ _ hi' hI hstep' => ⟨path_reports (.cons hi' hstep' (.nil _)) hI.1.1 hI.1.2,
            step_returned hI.1.1 hI.1.2 hi' hstep' hI.2⟩) ⟨hkeep, hret⟩
        exact hk hend.2
      have hsame : s₁.without k = s.without k := by
        rcases step_call hs ht hcall hstep with ⟨hp, -, r, d, report, rfl, he, hreport, rfl⟩ | ⟨-, -, c, -, rfl⟩
        · rw [hreport.2 (hi hp), enqueue_returns he] at hnot
          simp [setCall] at hnot
        · exact setCall_without_self s k c
      rw [List.filter_cons_of_neg (by simp [hcall]), ← hsame]
      exact hrest
    · rw [List.filter_cons_of_pos (by simpa using hcall)]
      exact .cons trivial (step_without ht hcall hstep) hrest

end

/-! ## Main result -/

/-- The queues, their counters and the budget are the same. -/
structure SameBuffer (s t : Output κ ε) : Prop where
  queue : ∀ r, (s.lanes r).queue = (t.lanes r).queue
  pendingDocuments : ∀ r, (s.lanes r).pendingDocuments = (t.lanes r).pendingDocuments
  pendingBytes : ∀ r, (s.lanes r).pendingBytes = (t.lanes r).pendingBytes
  documents : s.budget.documents = t.budget.documents
  bytes : s.budget.bytes = t.budget.bytes

/-- After the run `is` of the output, every failed call has left everything as if it had never been made, and no
confirmation has driven the budget below zero. -/
structure Atomic (cfg : Settings) (rd : Reading ε) (is : List (Input κ ε)) (s : Output κ ε) : Prop where
  undone : ∀ k e, s.calls k = .raised e → ∃ t,
    (machine cfg rd).Path (fun _ _ => True) opened (is.filter fun i => i.call ≠ some k) t ∧ s.SameBuffer t
  documents : 0 ≤ s.budget.documents
  bytes : 0 ≤ s.budget.bytes
  confirmed : ∀ p ∈ s.workerErrors, p.2 ≠ .budgetNegative

theorem opened_without (k : κ) : (opened : Output κ ε).without k = opened := by
  simp [without, setCall, opened]

theorem atomic_of_path {is : List (Input κ ε)} (h : (machine cfg rd).Path (ReportsPut cfg rd) opened is s) :
    Atomic cfg rd is s := by
  obtain ⟨hs, ht⟩ := path_reports h opened_inv opened_tracked
  refine ⟨fun k e hk => ⟨s.without k, ?_, ⟨fun _ => rfl, fun _ => rfl, fun _ => rfl, rfl, rfl⟩⟩, ?_, ?_,
    fun p hp => (hs.errors p hp).2⟩
  · have hpath := path_without h opened_inv opened_tracked (k := k) (by simp [hk])
    rwa [opened_without] at hpath
  · rw [hs.documents]
    exact Int.natCast_nonneg _
  · rw [hs.bytes]
    exact Int.natCast_nonneg _

omit [DecidableEq κ] in
theorem call_of_puts {i : Input κ ε} (h : s.puts cfg rd i = true) : ∃ k, i.call = some k := by
  cases i with
  | write k event report => exact ⟨k, rfl⟩
  | resumeWrite k report => exact ⟨k, rfl⟩
  | _ => cases h

/-- A callback that raises leaves the document in the queue. -/
theorem not_atomic {is : List (Input κ ε)} (h : (machine cfg rd).Path (ReportsPut cfg rd) opened is s) {i : Input κ ε}
    (hi : ¬ReportsPut cfg rd s i) (hstep : (machine cfg rd).step s i = some s') : ¬Atomic cfg rd (is ++ [i]) s' := by
  obtain ⟨hs, ht⟩ := path_reports h opened_inv opened_tracked
  obtain ⟨hp, hreturn⟩ := Classical.not_imp.1 hi
  obtain ⟨k, hk⟩ := call_of_puts hp
  rcases step_call hs ht hk hstep with ⟨-, hnot, r, d, report, hd, he, hreport, rfl⟩ | ⟨hp', -⟩
  · intro hatomic
    have hraises : report = .raises := by
      cases report with
      | returns => exact absurd (hreport.1 rfl) hreturn
      | raises => rfl
    have hback : (s.granted d.bsonSize).release 1 d.bsonSize = (s.budget, true) :=
      release_granted (by rw [hs.documents]; exact Int.natCast_nonneg _)
        (by rw [hs.bytes]; exact Int.natCast_nonneg _) _
    have hend : s.enqueue r d (s.granted d.bsonSize) report =
        ((s.put r d (s.granted d.bsonSize)).setBudget s.budget).notifyAll.setCall d.call (.raised .callback) := by
      rw [hraises, enqueue_raises he r d hback]
    rw [hend] at hatomic
    have hraised : (((s.put r d (s.granted d.bsonSize)).setBudget s.budget).notifyAll.setCall d.call
        (.raised .callback)).calls k = .raised .callback := by simp [setCall, hd]
    obtain ⟨t, hpath, hsame⟩ := hatomic.undone k _ hraised
    -- the run without the call has not put its document
    rw [List.filter_append, List.filter_cons_of_neg (by simp [hk]), List.filter_nil, List.append_nil] at hpath
    have hwithout := path_without h opened_inv opened_tracked hnot
    rw [opened_without] at hwithout
    have hqueue := hsame.queue r
    rw [hpath.unique hwithout] at hqueue
    have hlane : (((s.put r d (s.granted d.bsonSize)).setBudget s.budget).notifyAll.setCall d.call
        (.raised .callback)).lanes r = (s.lanes r).accept d := Function.update_self ..
    rw [hlane] at hqueue
    have hgrown : (s.lanes r).queue ++ [d] = (s.lanes r).queue := hqueue
    simp at hgrown
  · rw [hp] at hp'
    cases hp'

/-- **Failing writes are atomic exactly when no callback raises in a `write()` that has put its document**; and a
`write()` outside the state `open` changes nothing but its own outcome. -/
theorem failed_write_atomic_iff {is : List (Input κ ε)} (h : (machine cfg rd).Path (fun _ _ => True) opened is s) :
    ((∀ js t, js <+: is → (machine cfg rd).Path (fun _ _ => True) opened js t → Atomic cfg rd js t) ↔
      (machine cfg rd).Path (ReportsPut cfg rd) opened is s) ∧
    ∀ (t : Output κ ε) k event report, t.lifecycle ≠ .open →
      ∃ e, t.write cfg rd k event report = t.setCall k (.raised e) := by
  refine ⟨⟨fun hall => ?_, fun hpath js t hjs ht => ?_⟩, fun t k event report ht => ?_⟩
  · by_contra hno
    obtain ⟨pre, i, post, s₁, s₂, rfl, hpre, -, hi, hstep, -⟩ := h.exists_violation hno
    have hreports := hpre.mono fun _ _ hp => hp.2
    refine not_atomic hreports hi hstep (hall _ s₂ ⟨post, by simp⟩ ?_)
    exact (hreports.mono fun _ _ _ => trivial).snoc trivial hstep
  · obtain ⟨ks, rfl⟩ := hjs
    obtain ⟨t', ht', -⟩ := hpath.split
    rw [ht.unique ht']
    exact atomic_of_path ht'
  · exact ⟨if t.workerErrors ≠ [] then .workerFailed else .state, by simp [write, ht]⟩

instance (s : Output κ ε) : DecidablePred (ReportsPut cfg rd s) := fun _ => inferInstanceAs (Decidable (_ → _))

/-- A document waits for the full buffer, and its call is cancelled. -/
def cancelledWrite : List (Input ℕ StorageRoute) :=
  [.write 0 .aggTrade .returns, .write 1 .kline .returns, .cancelWrite 1]

theorem failed_write_atomic_cancelled : ∃ s : Output ℕ StorageRoute,
    (machine singleBuffer routeEvents).Path (fun _ _ => True) opened cancelledWrite s ∧
    s.calls 1 = .raised .cancelled ∧ s.budget.documents = 1 ∧ Atomic singleBuffer routeEvents cancelledWrite s := by
  obtain ⟨s, hs, hp⟩ := Machine.exists_path_of_check (M := machine singleBuffer routeEvents)
    (P := ReportsPut singleBuffer routeEvents)
    (p := fun s : Output ℕ StorageRoute => decide (s.calls 1 = .raised .cancelled ∧ s.budget.documents = 1)) opened
    cancelledWrite (by decide)
  obtain ⟨hcall, hdocuments⟩ := of_decide_eq_true hp
  have hpath : (machine singleBuffer routeEvents).Path (fun _ _ => True) opened cancelledWrite s :=
    hs.mono fun _ _ _ => trivial
  exact ⟨s, hpath, hcall, hdocuments, (failed_write_atomic_iff hpath).1.2 hs _ _ List.prefix_rfl hpath⟩

/-- The callback of a `write()` raises, and the document that it leaves behind is inserted. -/
def raisingCallback : List (Input ℕ StorageRoute) :=
  [.write 0 .aggTrade .raises, .worker .aggTrade false, .worker .aggTrade false, .insertDone .aggTrade .success false]

/-- **A callback that raises leaves its document in the queue, without the budget that the worker releases for it.** -/
theorem raisingCallback_negative :
    (∃ s : Output ℕ StorageRoute, (machine singleBuffer routeEvents).Path (fun _ _ => True) opened
        [.write 0 .aggTrade .raises] s ∧ s.calls 0 = .raised .callback ∧ (s.lanes .aggTrade).pendingDocuments = 1 ∧
      s.budget.documents = 0 ∧ ¬Atomic singleBuffer routeEvents [.write 0 .aggTrade .raises] s) ∧
    ∃ s : Output ℕ StorageRoute, (machine singleBuffer routeEvents).Path (fun _ _ => True) opened raisingCallback s ∧
      s.budget.documents = -1 ∧ s.workerErrors = [(.aggTrade, .budgetNegative)] := by
  obtain ⟨s, hs, hp⟩ := Machine.exists_path_of_check (M := machine singleBuffer routeEvents) (P := fun _ _ => True)
    (p := fun s : Output ℕ StorageRoute => decide (s.calls 0 = .raised .callback ∧
      (s.lanes .aggTrade).pendingDocuments = 1 ∧ s.budget.documents = 0)) opened
    [.write 0 .aggTrade .raises] (by decide)
  obtain ⟨t, ht, hq⟩ := Machine.exists_path_of_check (M := machine singleBuffer routeEvents) (P := fun _ _ => True)
    (p := fun s : Output ℕ StorageRoute => decide (s.budget.documents = -1 ∧
      s.workerErrors = [(.aggTrade, .budgetNegative)])) opened raisingCallback (by decide)
  obtain ⟨hcall, hpending, hdocuments⟩ := of_decide_eq_true hp
  obtain ⟨-, u, hstep, hnil⟩ := Machine.Path.cons_iff.1 hs
  cases Machine.Path.nil_iff.1 hnil
  refine ⟨⟨s, hs, hcall, hpending, hdocuments, ?_⟩, t, ht, of_decide_eq_true hq⟩
  have hnil : (machine singleBuffer routeEvents).Path (ReportsPut singleBuffer routeEvents)
      (opened : Output ℕ StorageRoute) [] opened := .nil opened
  exact not_atomic hnil (by decide) hstep

end BinanceCollector.MultiMongo.Output
