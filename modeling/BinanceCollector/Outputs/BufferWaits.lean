import BinanceCollector.Lib.Monitor
import BinanceCollector.Outputs.MultiMongoCalls

/-!
# Waiting for the buffer budget

`BufferBudget` is a monitor: `acquire` goes on when the budget has failed or admits the document, `release` and
`mark_failed` notify all. Every run of the output is one of the monitor (`path_monitored`), so that what holds of its
waiting callers holds of the waiting `write()` calls.

- `no_lost_wakeup`: whoever waits without having been notified waits for a reason that still holds.
-/

namespace BinanceCollector.MultiMongo

open Steps

/-! ## The monitor -/

/-- The operations that notify all. -/
inductive BudgetChange where
  | release (documents size : ℕ)
  /-- a release that raises, and the `mark_failed` of the worker it ends -/
  | overRelease (documents size : ℕ)
  | markFailed

namespace BufferBudget

/-- `acquire` as its callers see it: the budget once it has returned or raised, or `none` where it waits. -/
def enter (cfg : Settings) (b : BufferBudget) (size : ℕ) : Option BufferBudget :=
  if cfg.bufferMaxBytes < size then some b
  else
    match b.acquire cfg size with
    | .granted b' => some b'
    | .failed => some b
    | .waits => none

/-- `release` and `mark_failed`. -/
def change (b : BufferBudget) : BudgetChange → Option BufferBudget
  | .release documents size => if (b.release documents size).2 then some (b.release documents size).1 else none
  | .overRelease documents size =>
    if (b.release documents size).2 then none else some (b.release documents size).1.markFailed
  | .markFailed => some b.markFailed

/-- The budget as a monitor. -/
def monitor (cfg : Settings) : Monitor BufferBudget ℕ BudgetChange := ⟨enter cfg, change⟩

variable {cfg : Settings} {b b' : BufferBudget} {size : ℕ}

theorem enter_eq_none : b.enter cfg size = none ↔
    size ≤ cfg.bufferMaxBytes ∧ b.failed = false ∧ ¬b.Admits cfg size := by
  unfold enter acquire
  by_cases hsize : cfg.bufferMaxBytes < size
  · simp [hsize, Nat.not_le.2 hsize]
  · by_cases hf : b.failed = true
    · simp [hsize, hf]
    · by_cases ha : b.Admits cfg size <;> simp [hsize, hf, ha, Nat.le_of_not_lt hsize]

/-- An `acquire` that goes on raises and leaves the budget alone, or takes room that is there. -/
theorem enter_cases (h : b.enter cfg size = some b') :
    b' = b ∨ b.Admits cfg size ∧ b' = { b with documents := b.documents + 1, bytes := b.bytes + size } := by
  unfold enter acquire at h
  split at h
  · exact .inl (Option.some.inj h).symm
  · by_cases hf : b.failed = true
    · simp only [hf, if_true] at h
      exact .inl (Option.some.inj h).symm
    · by_cases ha : b.Admits cfg size
      · simp only [if_neg hf, ha, if_true] at h
        exact .inr ⟨ha, (Option.some.inj h).symm⟩
      · simp [hf, ha] at h

/-- **A document that takes room makes room for nobody.** -/
theorem monitor_neverEnables (cfg : Settings) : (monitor cfg).NeverEnables := by
  intro b size b' other henter hwaits
  obtain ⟨hsize, hfailed, hadmits⟩ := enter_eq_none.1 hwaits
  rcases enter_cases henter with rfl | ⟨-, rfl⟩
  · exact hwaits
  · refine enter_eq_none.2 ⟨hsize, hfailed, fun h => hadmits ?_⟩
    have hd := h.1
    have hb := h.2
    dsimp only at hd hb
    exact ⟨by omega, by omega⟩

/-- A budget that has not failed is within its limits. -/
def Within (cfg : Settings) (b : BufferBudget) : Prop :=
  b.failed = false → (0 ≤ b.documents ∧ b.documents ≤ cfg.bufferMaxDocuments) ∧
    0 ≤ b.bytes ∧ b.bytes ≤ cfg.bufferMaxBytes

theorem within_empty (cfg : Settings) : empty.Within cfg := fun _ =>
  ⟨⟨le_refl _, Int.natCast_nonneg _⟩, le_refl _, Int.natCast_nonneg _⟩

theorem Within.enter (hb : b.Within cfg) (h : b.enter cfg size = some b') : b'.Within cfg := by
  rcases enter_cases h with rfl | ⟨ha, rfl⟩
  · exact hb
  · intro hf
    obtain ⟨⟨hd, -⟩, hy, -⟩ := hb hf
    have had := ha.1
    have hay := ha.2
    dsimp only
    omega

theorem Within.change {o : BudgetChange} (hb : b.Within cfg) (h : b.change o = some b') : b'.Within cfg := by
  cases o with
  | release documents size =>
    simp only [BufferBudget.change, Option.ite_none_right_eq_some, Option.some.injEq] at h
    obtain ⟨hok, rfl⟩ := h
    simp only [release, decide_eq_true_eq] at hok ⊢
    intro hf
    obtain ⟨⟨-, hd⟩, -, hy⟩ := hb hf
    dsimp only
    omega
  | overRelease documents size =>
    simp only [BufferBudget.change, Option.ite_none_left_eq_some, Option.some.injEq] at h
    obtain ⟨-, rfl⟩ := h
    intro hf
    cases hf
  | markFailed =>
    cases h
    intro hf
    cases hf

/-- What a run of the monitor says about its waiting callers and its budget. -/
def Waits (cfg : Settings) {κ : Type} (s : Monitor.State κ BufferBudget ℕ) : Prop :=
  s.Justified (monitor cfg) ∧ s.resource.Within cfg

variable {κ : Type} [DecidableEq κ] {s s' : Monitor.State κ BufferBudget ℕ}

theorem step_within {i : Monitor.Input κ ℕ BudgetChange} (hs : s.resource.Within cfg)
    (h : (monitor cfg).machine.step s i = some s') : s'.resource.Within cfg := by
  have htest : ∀ k x, (s.test (monitor cfg) k x).resource.Within cfg := by
    intro k x
    unfold Monitor.State.test
    cases he : (monitor cfg).enter s.resource x with
    | some b => exact hs.enter he
    | none => exact hs
  change (monitor cfg).step s i = some s' at h
  cases i with
  | enter k x =>
    simp only [Monitor.step, Option.ite_none_right_eq_some, Option.some.injEq] at h
    rw [← h.2]
    exact htest k x
  | resume k =>
    simp only [Monitor.step] at h
    split at h
    · cases h
      exact htest k _
    · cases h
  | leave k =>
    simp only [Monitor.step, Option.ite_none_right_eq_some, Option.some.injEq] at h
    rw [← h.2]
    exact hs
  | change o =>
    simp only [Monitor.step, Option.map_eq_some_iff] at h
    obtain ⟨b, hb, rfl⟩ := h
    exact hs.change hb

theorem path_waits {is : List (Monitor.Input κ ℕ BudgetChange)}
    (h : (monitor cfg).machine.Path (fun _ _ => True) s is s') (hs : Waits cfg s) : Waits cfg s' :=
  ⟨Monitor.path_justified (monitor_neverEnables cfg) h hs.1,
    h.invariant (I := fun s => s.resource.Within cfg) (fun _ _ _ _ => step_within) hs.2⟩

omit [DecidableEq κ] in
theorem idle_waits (cfg : Settings) : Waits cfg (Monitor.State.idle empty : Monitor.State κ BufferBudget ℕ) :=
  ⟨Monitor.idle_justified _, within_empty cfg⟩

end BufferBudget

/-! ## The output -/

/-- What a waiting `write()` call asks the budget for. -/
def WriteCall.waits {κ ε : Type} : WriteCall κ ε → Option (ℕ × Bool)
  | .parked d notified => some (d.bsonSize, notified)
  | _ => none

namespace Output

open BufferBudget

variable {κ ε : Type} [DecidableEq κ] {cfg : Settings} {rd : Reading ε} {s s' : Output κ ε}

/-- The budget with the `write()` calls that wait for it. -/
def waiters (s : Output κ ε) : Monitor.State κ BufferBudget ℕ := ⟨s.budget, fun k => (s.calls k).waits⟩

theorem waiters_setCall (s : Output κ ε) (k : κ) (c : WriteCall κ ε) :
    (s.setCall k c).waiters = s.waiters.set k c.waits := by
  simp only [waiters, setCall, Monitor.State.set, Monitor.State.mk.injEq, true_and]
  funext q
  by_cases hq : q = k
  · subst hq
    simp
  · simp [hq]

omit [DecidableEq κ] in
theorem waiters_notifyAll (s : Output κ ε) : s.notifyAll.waiters = s.waiters.notifyAll := by
  simp only [waiters, notifyAll, Monitor.State.notifyAll, Monitor.State.mk.injEq, true_and]
  funext q
  cases s.calls q <;> rfl

/-- Waiting calls carry their own document, which the buffer can hold; the budget has failed once a worker has. -/
structure Sane (cfg : Settings) (s : Output κ ε) : Prop where
  parked : ∀ k d n, s.calls k = .parked d n → d.call = k ∧ d.bsonSize ≤ cfg.bufferMaxBytes
  failed : s.budget.failed = true ↔ s.workerErrors ≠ []

omit [DecidableEq κ] in
theorem Sane.woken (hs : s.Sane cfg) (h : Woken s s') (hf : s'.budget.failed = true ↔ s'.workerErrors ≠ []) :
    s'.Sane cfg := by
  refine ⟨fun k d n hk => ?_, hf⟩
  rcases h k with heq | heq
  · exact hs.parked k d n (heq ▸ hk)
  · rw [heq] at hk
    cases hc : s.calls k with
    | parked d' n' =>
      rw [hc] at hk
      cases hk
      exact hs.parked k d n' hc
    | _ => rw [hc] at hk; cases hk

/-- The monitor follows. -/
abbrev Follows (cfg : Settings) (w w' : Monitor.State κ BufferBudget ℕ) : Prop := (monitor cfg).machine.Reachable w w'

theorem Follows.trans {w w' w'' : Monitor.State κ BufferBudget ℕ} (h : Follows cfg w w') (h' : Follows cfg w' w'') :
    Follows cfg w w'' := by
  obtain ⟨is, hi⟩ := h
  obtain ⟨js, hj⟩ := h'
  exact ⟨is ++ js, hi.append hj⟩

theorem Follows.refl (w : Monitor.State κ BufferBudget ℕ) : Follows cfg w w := ⟨[], .nil w⟩

theorem follows_change {w : Monitor.State κ BufferBudget ℕ} {b : BufferBudget} {o : BudgetChange}
    (h : w.resource.change o = some b) : Follows cfg w { w with resource := b }.notifyAll :=
  ⟨[.change o], .cons trivial (by simp [Monitor.machine, Monitor.step, monitor, h]) (.nil _)⟩

theorem follows_test {w : Monitor.State κ BufferBudget ℕ} {k : κ} {size : ℕ}
    (hk : w.waiting k = none ∨ w.waiting k = some (size, true)) : Follows cfg w (w.test (monitor cfg) k size) := by
  rcases hk with hk | hk
  · exact ⟨[.enter k size], .cons trivial (by simp [Monitor.machine, Monitor.step, hk]) (.nil _)⟩
  · exact ⟨[.resume k], .cons trivial (by simp [Monitor.machine, Monitor.step, hk]) (.nil _)⟩

/-! ### Steps -/

omit [DecidableEq κ] in
theorem waiters_workerFails (s : Output κ ε) (r : StorageRoute) (e : WorkerError) :
    (s.workerFails r e).waiters = { s.waiters with resource := s.budget.markFailed }.notifyAll :=
  waiters_notifyAll _

theorem Sane.setCall (hs : s.Sane cfg) {k : κ} {c : WriteCall κ ε}
    (hc : ∀ d n, c = .parked d n → d.call = k ∧ d.bsonSize ≤ cfg.bufferMaxBytes) : (s.setCall k c).Sane cfg := by
  refine ⟨fun q d n hq => ?_, hs.failed⟩
  by_cases hqk : q = k
  · subst hqk
    exact hc d n (by simpa [Output.setCall] using hq)
  · exact hs.parked q d n (by simpa [Output.setCall, hqk] using hq)

omit [DecidableEq κ] in
theorem put_sane (hs : s.Sane cfg) (r : StorageRoute) (d : BufferedDocument κ ε) {b : BufferBudget}
    (hb : b.failed = s.budget.failed) : (s.put r d b).Sane cfg :=
  ⟨hs.parked, by rw [show (s.put r d b).budget.failed = s.budget.failed from hb]; exact hs.failed⟩

omit [DecidableEq κ] in
theorem back_sane (hs : s.Sane cfg) (r : StorageRoute) (d : BufferedDocument κ ε) (b : BufferBudget) :
    ((s.put r d b).setBudget s.budget).notifyAll.Sane cfg :=
  hs.woken (fun _ => .inr rfl) hs.failed

theorem back_follows {b b' : BufferBudget} {size : ℕ} (h : b.release 1 size = (b', true))
    (waiting : κ → Option (ℕ × Bool)) (k : κ) :
    Follows cfg (Monitor.State.set ⟨b, waiting⟩ k none)
      (Monitor.State.set (Monitor.State.notifyAll ⟨b', waiting⟩) k none) := by
  rw [← Monitor.State.notifyAll_set_none]
  exact follows_change (o := .release 1 size) (by simp [change, Monitor.State.set, h])

/-- A `write()` at the predicate of `acquire` is a caller of the monitor at its test, which may give back what it
took. -/
theorem tryWrite_follows (hs : s.Sane cfg) (hb : s.budget.Within cfg) (r : StorageRoute) {d : BufferedDocument κ ε}
    (report : Callback) (hsize : d.bsonSize ≤ cfg.bufferMaxBytes)
    (hk : (s.calls d.call).waits = none ∨ (s.calls d.call).waits = some (d.bsonSize, true)) :
    Follows cfg s.waiters (s.tryWrite cfg r d report).waiters ∧ (s.tryWrite cfg r d report).Sane cfg := by
  have htest : Follows cfg s.waiters (s.waiters.test (monitor cfg) d.call d.bsonSize) := follows_test hk
  have henter : (monitor cfg).enter s.waiters.resource d.bsonSize = s.budget.enter cfg d.bsonSize := rfl
  rw [Monitor.State.test, henter, BufferBudget.enter, if_neg (Nat.not_lt.2 hsize)] at htest
  unfold tryWrite
  have hacquire : (s.budget.failed = true ∧ s.budget.acquire cfg d.bsonSize = .failed) ∨ _ := acquire_cases
  rcases hacquire with ⟨-, ha⟩ | ⟨hf, -, ha⟩ | ⟨-, -, ha⟩
  · rw [ha] at htest ⊢
    refine ⟨?_, hs.setCall (by simp)⟩
    rw [waiters_setCall]
    exact htest
  · rw [ha] at htest ⊢
    have he : s.workerErrors = [] := by
      by_contra hne
      rw [hs.failed.2 hne] at hf
      cases hf
    obtain ⟨⟨hd, -⟩, hy, -⟩ := hb hf
    have hrelease := release_granted hd hy d.bsonSize
    cases report with
    | returns =>
      dsimp only
      rw [enqueue_returns he]
      refine ⟨?_, (put_sane hs r d (by rfl)).setCall (by simp)⟩
      rw [waiters_setCall]
      exact htest
    | raises =>
      dsimp only
      rw [enqueue_raises he r d hrelease]
      refine ⟨htest.trans ?_, (back_sane hs r d _).setCall (by simp)⟩
      rw [waiters_setCall, waiters_notifyAll]
      exact back_follows hrelease s.waiters.waiting d.call
  · rw [ha] at htest ⊢
    refine ⟨?_, hs.setCall fun d' n h => ?_⟩
    · rw [waiters_setCall]
      exact htest
    · cases h
      exact ⟨rfl, hsize⟩

/-- A worker fails, with its lane as it leaves it. -/
theorem workerFails_follows (hs : s.Sane cfg) (r : StorageRoute) (e : WorkerError) :
    Follows cfg s.waiters (s.workerFails r e).waiters ∧ (s.workerFails r e).Sane cfg := by
  refine ⟨?_, hs.woken (fun k => .inr rfl) ?_⟩
  · rw [waiters_workerFails]
    exact follows_change (o := .markFailed) rfl
  · simp [workerFails, notifyAll, markFailed]

theorem proceed_follows (hs : s.Sane cfg) (r : StorageRoute) (p : Progress κ ε) :
    Follows cfg s.waiters (s.proceed r p).waiters ∧ (s.proceed r p).Sane cfg := by
  cases p with
  | goes l => exact ⟨.refl _, hs.parked, hs.failed⟩
  | fails l e => exact workerFails_follows (s := s.setLane r l) ⟨hs.parked, hs.failed⟩ r e

/-- `_confirm_batch` releases, or raises before or while it does. -/
theorem confirmBatch_follows (hs : s.Sane cfg) (r : StorageRoute) (ds : List (BufferedDocument κ ε)) :
    (∀ t, s.confirmBatch r ds = .ok t → Follows cfg s.waiters t.waiters ∧ t.Sane cfg) ∧
      ∀ t e, s.confirmBatch r ds = .error (t, e) →
        ∀ l, Follows cfg s.waiters ((t.setLane r l).workerFails r e).waiters ∧
        ((t.setLane r l).workerFails r e).Sane cfg := by
  unfold confirmBatch
  by_cases htask : (s.lanes r).unfinishedTasks < ds.length
  · simp only [htask, if_true, reduceCtorEq, false_imp_iff, implies_true, true_and, Except.error.injEq, Prod.mk.injEq]
    rintro t e ⟨rfl, rfl⟩ l
    exact workerFails_follows (s := (s.setLane r _).setLane r l) ⟨hs.parked, hs.failed⟩ r _
  · cases hrelease : s.budget.release ds.length (byteCount ds) with
    | mk b ok =>
      have hfailed : b.failed = s.budget.failed := by
        rw [← show (s.budget.release ds.length (byteCount ds)).1 = b by rw [hrelease]]
        rfl
      simp only [htask, if_false]
      cases ok with
      | true =>
        simp only [if_true, Except.ok.injEq, reduceCtorEq, false_imp_iff, implies_true, and_true]
        rintro t rfl
        have hchange : s.budget.change (.release ds.length (byteCount ds)) = some b := by simp [change, hrelease]
        refine ⟨?_, hs.woken (fun _ => .inr rfl) (show b.failed = true ↔ _ by rw [hfailed]; exact hs.failed)⟩
        show Follows cfg s.waiters ((s.setLane r _).setBudget b).notifyAll.waiters
        rw [waiters_notifyAll]
        exact follows_change hchange
      | false =>
        simp only [Bool.false_eq_true, if_false, reduceCtorEq, false_imp_iff, implies_true, true_and,
          Except.error.injEq, Prod.mk.injEq]
        rintro t e ⟨rfl, rfl⟩ l
        have hchange : s.budget.change (.overRelease ds.length (byteCount ds)) = some b.markFailed := by
          simp [change, hrelease]
        refine ⟨?_, hs.woken (fun _ => .inr rfl) (by simp [workerFails, notifyAll, markFailed])⟩
        rw [waiters_workerFails]
        exact follows_change hchange

theorem insertDone_follows (hs : s.Sane cfg) (r : StorageRoute) (batch : List (BufferedDocument κ ε))
    (carry : Option (BufferedDocument κ ε)) (outcome : InsertOutcome) (expired : Bool) :
    Follows cfg s.waiters (s.insertDone cfg r batch carry outcome expired).waiters ∧
      (s.insertDone cfg r batch carry outcome expired).Sane cfg := by
  have hfails : ∀ {t : Output κ ε} {l : Lane κ ε}, Follows cfg s.waiters t.waiters ∧ t.Sane cfg → ∀ e,
      Follows cfg s.waiters ((t.setLane r l).workerFails r e).waiters ∧ ((t.setLane r l).workerFails r e).Sane cfg := by
    intro t l ht e
    obtain ⟨hw, hsane⟩ := workerFails_follows (s := t.setLane r l) ⟨ht.2.parked, ht.2.failed⟩ r e
    exact ⟨ht.1.trans hw, hsane⟩
  cases outcome with
  | success =>
    rw [insertDone]
    cases hc : s.confirmBatch r batch with
    | ok t =>
      obtain ⟨hw, hsane⟩ := (confirmBatch_follows hs r batch).1 t hc
      have hp := proceed_follows hsane r
        (Lane.runWorker cfg t.connected t.closeRequested expired { t.lanes r with inflight := [] } carry)
      exact ⟨hw.trans hp.1, hp.2⟩
    | error p => exact (confirmBatch_follows hs r batch).2 p.1 p.2 hc _
  | bulkWriteError nInserted =>
    simp only [insertDone]
    generalize (max 0 (min (batch.length : ℤ) nInserted)).toNat = n
    by_cases h0 : n = 0
    · rw [if_pos h0]
      exact hfails (t := s.setLane r { s.lanes r with inflight := batch.drop n }) ⟨.refl _, hs.parked, hs.failed⟩ _
    · rw [if_neg h0]
      cases hc : s.confirmBatch r (batch.take n) with
      | ok t =>
        obtain ⟨hw, hsane⟩ := (confirmBatch_follows hs r (batch.take n)).1 t hc
        exact hfails (t := t.setLane r { t.lanes r with inflight := batch.drop n }) ⟨hw, hsane.parked, hsane.failed⟩ _
      | error p => exact (confirmBatch_follows hs r (batch.take n)).2 p.1 p.2 hc _
  | otherError => exact hfails ⟨.refl _, hs⟩ _
  | timeout => exact hfails ⟨.refl _, hs⟩ _

/-- **A step of the output is followed by the monitor.** -/
theorem step_follows (hs : s.Sane cfg) (hb : s.budget.Within cfg) {i : Input κ ε}
    (h : (machine cfg rd).step s i = some s') :
    Follows cfg s.waiters s'.waiters ∧ s'.Sane cfg := by
  have hraise : ∀ {k : κ} (e : WriteError), (s.calls k).waits = none →
      Follows cfg s.waiters (s.setCall k (.raised e)).waiters ∧ (s.setCall k (.raised e)).Sane cfg := by
    intro k e hk
    refine ⟨?_, hs.setCall (by simp)⟩
    rw [waiters_setCall, show (WriteCall.raised e : WriteCall κ ε).waits = none from rfl, Monitor.State.set_none_eq hk]
    exact .refl _
  cases effect_of_step h with
  | @write k event report hk =>
    have hwaits : (s.calls k).waits = none := by rw [hk]; rfl
    unfold write
    split
    · exact hraise _ hwaits
    · split
      · exact hraise _ hwaits
      · split
        · exact hraise _ hwaits
        · split
          · exact hraise _ hwaits
          · exact tryWrite_follows hs hb _ _ (Nat.le_of_not_lt ‹_›) (.inl hwaits)
  | @resumeWrite k d report hk =>
    obtain ⟨rfl, hsize⟩ := hs.parked k d true hk
    exact tryWrite_follows hs hb _ _ hsize (.inr (by rw [hk]; rfl))
  | @cancelWrite k d n hk =>
    have hwaiting : (s.waiters.waiting k).isSome = true := by
      rw [show s.waiters.waiting k = (s.calls k).waits from rfl, hk]
      rfl
    refine ⟨⟨[.leave k], .cons trivial ?_ (.nil _)⟩, hs.setCall (by simp)⟩
    simp only [Monitor.machine, Monitor.step, hwaiting, if_true, waiters_setCall]
    rfl
  | getTask hl => exact ⟨.refl _, hs.parked, hs.failed⟩
  | worker hp => exact proceed_follows hs _ _
  | insertDone hw => exact insertDone_follows hs _ _ _ _ _
  | cancelWorker _ _ => exact ⟨.refl _, hs.parked, hs.failed⟩
  | close _ _ => exact ⟨.refl _, hs.parked, hs.failed⟩
  | workersDone _ _ => exact ⟨.refl _, hs.parked, hs.failed⟩
  | shutdownTimeout _ => exact ⟨.refl _, hs.parked, hs.failed⟩
  | clientClosed _ => exact ⟨.refl _, hs.parked, hs.failed⟩
  | cancelClose _ => exact ⟨.refl _, hs.parked, hs.failed⟩
  | reportFailure _ => exact ⟨.refl _, hs.parked, hs.failed⟩

omit [DecidableEq κ] in
theorem opened_sane (cfg : Settings) : (opened : Output κ ε).Sane cfg := by
  constructor
  · intro k d n hk
    cases hk
  · simp [opened, empty]

/-- **Every run of the output is one of the monitor.** -/
theorem path_monitored {is : List (Input κ ε)} (h : (machine cfg rd).Path (fun _ _ => True) opened is s) :
    Waits cfg s.waiters := by
  have hrun : Waits cfg s.waiters ∧ s.Sane cfg := by
    refine h.invariant (I := fun s => Waits cfg s.waiters ∧ s.Sane cfg) (fun t i t' _ ht hstep => ?_)
      ⟨idle_waits cfg, opened_sane cfg⟩
    obtain ⟨⟨js, hjs⟩, hsane⟩ := step_follows ht.2 ht.1.2 hstep
    exact ⟨path_waits hjs ht.1, hsane⟩
  exact hrun.1

end Output

/-! ## Main result -/

section

variable {κ ε : Type} [DecidableEq κ]

/-- Whoever waits and has not been notified waits for a reason that still holds; so nobody does where the budget is
empty or has failed. -/
structure WaitsRightly (cfg : Settings) (s : Monitor.State κ BufferBudget ℕ) : Prop where
  reason : ∀ k size, s.waiting k = some (size, false) → s.resource.failed = false ∧
    (s.resource.documents = cfg.bufferMaxDocuments ∨ cfg.bufferMaxBytes < s.resource.bytes + size)
  empty : s.resource.documents = 0 → s.resource.bytes = 0 → ∀ k size, s.waiting k ≠ some (size, false)
  failed : s.resource.failed = true → ∀ k size, s.waiting k ≠ some (size, false)

omit [DecidableEq κ] in
theorem BufferBudget.Waits.rightly {cfg : Settings} {s : Monitor.State κ BufferBudget ℕ}
    (h : BufferBudget.Waits cfg s) :
    WaitsRightly cfg s := by
  have hwaits : ∀ k size, s.waiting k = some (size, false) → size ≤ cfg.bufferMaxBytes ∧ s.resource.failed = false ∧
      ¬s.resource.Admits cfg size := fun k size hk => BufferBudget.enter_eq_none.1 (h.1 k size hk)
  refine ⟨fun k size hk => ?_, fun hd hy k size hk => ?_, fun hf k size hk => ?_⟩
  · obtain ⟨-, hf, hno⟩ := hwaits k size hk
    obtain ⟨⟨-, hd⟩, -⟩ := h.2 hf
    refine ⟨hf, ?_⟩
    by_contra hneither
    rw [not_or] at hneither
    exact hno ⟨by omega, by omega⟩
  · obtain ⟨hsize, -, hno⟩ := hwaits k size hk
    have hdocuments := cfg.bufferMaxDocuments_pos
    exact hno ⟨by omega, by omega⟩
  · obtain ⟨-, hnot, -⟩ := hwaits k size hk
    rw [hf] at hnot
    cases hnot

/-- **No wake-up is lost in the buffer budget**: after every sequence of acquisitions of any sizes, releases,
`mark_failed` and cancellations, and in every run of the output. -/
theorem no_lost_wakeup (cfg : Settings) :
    (∀ is (s : Monitor.State κ BufferBudget ℕ),
      (BufferBudget.monitor cfg).machine.Path (fun _ _ => True) (.idle .empty) is s → WaitsRightly cfg s) ∧
    ∀ (rd : Reading ε) is (s : Output κ ε),
      (Output.machine cfg rd).Path (fun _ _ => True) .opened is s → WaitsRightly cfg s.waiters :=
  ⟨fun _ _ h => (BufferBudget.path_waits h (BufferBudget.idle_waits cfg)).rightly,
    fun _ _ _ h => (Output.path_monitored h).rightly⟩

/-- One document fills the buffer, and a second caller waits for it to be released. -/
theorem no_lost_wakeup_full : ∃ is, ∃ s : Output ℕ StorageRoute,
    (Output.machine Output.singleBuffer Output.routeEvents).Path (fun _ _ => True) .opened is s ∧
    s.waiters.waiting 1 = some (10, false) ∧ WaitsRightly Output.singleBuffer s.waiters := by
  obtain ⟨s, hs, hp⟩ := Machine.exists_path_of_check (M := Output.machine Output.singleBuffer Output.routeEvents)
    (P := fun _ _ => True) (p := fun s : Output ℕ StorageRoute =>
      decide (s.waiters.waiting 1 = some (10, false))) .opened
    [.write 0 .aggTrade .returns, .write 1 .kline .returns] (by decide)
  exact ⟨_, s, hs, of_decide_eq_true hp, (no_lost_wakeup Output.singleBuffer).2 _ _ s hs⟩

end

end BinanceCollector.MultiMongo
