import Mathlib.Data.List.Nodup
import Mathlib.Data.List.Perm.Subperm
import BinanceCollector.Outputs.Mongo

/-!
# Deliveries of `MongoBatchOutput` that end without returning

What a step does to one `write()` call and its put task is `Move`, what it does to the documents is `Flow`. A call that
raises has dropped its document for good (`Dropped`), unless the step that ends it orphans the put task or leaves the
document behind it (`Orphans`).

- `dropped_delivery`: in runs without such a step, the document of a call that raised is never in the queue nor passed
  to `insert_many` afterwards, and no more documents are confirmed than calls have returned or are running.
- `orphaned_put`: a run with such a step.
-/

namespace BinanceCollector.Mongo

open Steps

variable {κ ε : Type*}

/-! ## Put tasks -/

/-- The task will never put its document, and has not put it. -/
def PutTask.dropped : PutTask κ ε → Bool
  | .none => true
  | .cancelling _ => true
  | .cancelled => true
  | _ => false

/-- A put task that goes on waiting, or that has finished being cancelled. -/
inductive PutTask.Same : PutTask κ ε → PutTask κ ε → Prop
  | rfl (p : PutTask κ ε) : Same p p
  | parks (d : Document κ ε) (n : Bool) : Same (.created d) (.parked d n)
  | waits (d : Document κ ε) (n m : Bool) : Same (.parked d n) (.parked d m)
  | ends (n : Bool) : Same (.cancelling n) .cancelled

theorem PutTask.Same.notify (p : PutTask κ ε) : PutTask.Same p p.notify := by
  cases p with
  | parked d n => exact .waits d n true
  | _ => exact .rfl _

theorem PutTask.Same.trans {p q r : PutTask κ ε} (h : PutTask.Same p q) (h' : PutTask.Same q r) : PutTask.Same p r := by
  cases h with
  | rfl => exact h'
  | parks d n => cases h' with
    | rfl => exact .parks d n
    | waits _ _ m => exact .parks d m
  | waits d n m => cases h' with
    | rfl => exact .waits d n m
    | waits _ _ m' => exact .waits d n m'
  | ends n => cases h'; exact .ends n

theorem PutTask.Same.document {p q : PutTask κ ε} (h : PutTask.Same p q) : q.document = p.document := by
  cases h <;> rfl

theorem PutTask.Same.done_iff {p q : PutTask κ ε} (h : PutTask.Same p q) : q = .done ↔ p = .done := by
  cases h <;> simp

theorem PutTask.Same.none_iff {p q : PutTask κ ε} (h : PutTask.Same p q) : q = .none ↔ p = .none := by
  cases h <;> simp

theorem PutTask.Same.dropped {p q : PutTask κ ε} (h : PutTask.Same p q) : q.dropped = p.dropped := by
  cases h <;> rfl

theorem PutTask.not_dropped {p : PutTask κ ε} {d : Document κ ε} (h : p.document = some d) : p.dropped = false := by
  cases p <;> first | rfl | cases h

theorem PutTask.cancel_dropped {p : PutTask κ ε} (h : p ≠ .done) : p.cancel.dropped = true := by
  cases p <;> simp_all [cancel, PutTask.dropped]

namespace Output

variable [DecidableEq κ] {cfg : Settings} {s s' : Output κ ε}

/-! ## One step -/

/-- What a step does to the call `k` and its put task. -/
inductive Move (s s' : Output κ ε) (i : Input κ ε) (k : κ) : Prop
  | still : s'.calls k = s.calls k → (s.puts k).Same (s'.puts k) → Move s s' i k
  | starts {event : ε} : i = .write k event → s.calls k = .idle → s'.calls k = .racing →
      s'.puts k = .created ⟨k, event⟩ → Move s s' i k
  | rejects {event : ε} {e : WriteError} : i = .write k event → s.calls k = .idle → s'.calls k = .raised e →
      s'.puts k = s.puts k → Move s s' i k
  | puts {d : Document κ ε} : (s.puts k).document = some d → s'.calls k = s.calls k → s'.puts k = .done → Move s s' i k
  | abandons : i = .resumeWrite k → s.calls k = .racing → s.puts k ≠ .done → s'.calls k = .abandoning false →
      s'.puts k = (s.puts k).cancel → Move s s' i k
  | leaves : i = .resumeWrite k → s.calls k = .racing → s.puts k = .done → s'.calls k = .leaving s.checked →
      s'.puts k = s.puts k → Move s s' i k
  | givesUp {c : Bool} {e : WriteError} :
      i = .resumeWrite k → s.calls k = .abandoning c → s'.calls k = .leaving (some e) →
      s'.puts k = s.puts k → Move s s' i k
  | returns : i = .resumeWrite k → s.calls k = .leaving none → s'.calls k = .returned → s'.puts k = s.puts k →
      Move s s' i k
  | raises {e : WriteError} : i = .resumeWrite k → s.calls k = .leaving (some e) → s'.calls k = .raised e →
      s'.puts k = s.puts k → Move s s' i k
  | cancelled {c : WriteCall} : i = .cancelWrite k → s.calls k = c → s'.puts k = s.puts k →
      c = .racing ∧ s'.calls k = .leaving (some .cancelled) ∨
        (∃ b, c = .abandoning b) ∧ s'.calls k = .abandoning true ∨
        (∃ o, c = .leaving o) ∧ s'.calls k = .leaving (some .cancelled) → Move s s' i k

/-- What a step does to the documents: one is put, or the worker takes some from the head of the queue. -/
inductive Flow (s s' : Output κ ε) : Prop
  | put {k : κ} {d : Document κ ε} : (s.puts k).document = some d → s'.puts k = .done →
      s'.accepted = s.accepted ++ [d] → s'.queue = s.queue ++ [d] → s'.unfinishedTasks = s.unfinishedTasks + 1 →
      s'.worker = s.worker → s'.insertCalls = s.insertCalls → s'.confirmed = s.confirmed → Flow s s'
  | work (taken : List (Document κ ε)) : s'.accepted = s.accepted → s.queue = taken ++ s'.queue →
      (s.worker.done = true → s'.worker = s.worker ∧ taken = []) →
      s'.confirmed ++ s'.worker.batch = s.confirmed ++ s.worker.batch ++ taken →
      s'.unfinishedTasks + s'.confirmed.length = s.unfinishedTasks + s.confirmed.length →
      (s'.insertCalls = s.insertCalls ∨ s'.insertCalls = s.insertCalls ++ [taken]) → Flow s s'

/-- Waking put tasks changes nothing but which of them have been woken. -/
theorem wakeup_spec (s : Output κ ε) (n : ℕ) :
    ∃ putters puts, s.wakeup n = { s with putters := putters, puts := puts } ∧
    ∀ k, (s.puts k).Same (puts k) := by
  induction n generalizing s with
  | zero => exact ⟨s.putters, s.puts, rfl, fun k => .rfl _⟩
  | succ n ih =>
    unfold wakeup
    cases hp : s.putters with
    | nil => exact ⟨s.putters, s.puts, rfl, fun k => .rfl _⟩
    | cons q putters =>
      obtain ⟨putters', puts', h, hsame⟩ :=
        ih { s with putters := putters, puts := Function.update s.puts q (s.puts q).notify }
      refine ⟨putters', puts', h, fun k => ?_⟩
      have hk := hsame k
      by_cases hkq : k = q
      · subst hkq
        simp only [Function.update_self] at hk
        exact (PutTask.Same.notify _).trans hk
      · simpa [hkq] using hk

/-- One round of the worker: it takes documents from the head of the queue and holds them. -/
theorem drain_spec (cfg : Settings) (s : Output κ ε) : ∃ taken, s.queue = taken ++ (s.drain cfg).queue ∧
    (s.drain cfg).worker.batch = taken ∧ (s.drain cfg).accepted = s.accepted ∧
    (s.drain cfg).confirmed = s.confirmed ∧ (s.drain cfg).unfinishedTasks = s.unfinishedTasks ∧
    ((s.drain cfg).insertCalls = s.insertCalls ∨ (s.drain cfg).insertCalls = s.insertCalls ++ [taken]) ∧
    (s.drain cfg).calls = s.calls ∧ ∀ k, (s.puts k).Same ((s.drain cfg).puts k) := by
  refine ⟨s.queue.take cfg.batchMaxsize, ?_⟩
  obtain ⟨putters, puts, h, hsame⟩ := wakeup_spec { s with queue := s.queue.drop cfg.batchMaxsize }
    (s.queue.take cfg.batchMaxsize).length
  have hq := (List.take_append_drop cfg.batchMaxsize s.queue).symm
  simp only [drain, h]
  split
  · rename_i hb
    refine ⟨hq, ?_, rfl, rfl, rfl, .inl rfl, rfl, hsame⟩
    rw [hb]
    dsimp only
    split <;> rfl
  · split
    · exact ⟨hq, rfl, rfl, rfl, rfl, .inr rfl, rfl, hsame⟩
    · exact ⟨hq, rfl, rfl, rfl, rfl, .inl rfl, rfl, hsame⟩

omit [DecidableEq κ] in
/-- A step that leaves the documents where they are. -/
theorem Flow.quiet (ha : s'.accepted = s.accepted) (hq : s'.queue = s.queue) (hw : s'.worker = s.worker)
    (hc : s'.confirmed = s.confirmed) (hu : s'.unfinishedTasks = s.unfinishedTasks)
    (hi : s'.insertCalls = s.insertCalls) : Flow s s' :=
  .work [] ha (by rw [hq]; rfl) (fun _ => ⟨hw, rfl⟩) (by rw [hc, hw, List.append_nil]) (by rw [hu, hc])
    (.inl hi)

theorem setCall_move {i : Input κ ε} {k : κ} {c : WriteCall} (h : Move s (s.setCall k c) i k) (q : κ) :
    Move s (s.setCall k c) i q := by
  by_cases hq : q = k
  · subst hq; exact h
  · exact .still (by simp [setCall, hq]) (.rfl _)

theorem write_spec {k : κ} {event : ε} (hk : s.calls k = .idle) :
    (∀ q, Move s (s.write k event) (.write k event) q) ∧ Flow s (s.write k event) := by
  have hraise : ∀ e, (∀ q, Move s (s.setCall k (.raised e)) (.write k event) q) ∧ Flow s (s.setCall k (.raised e)) :=
    fun e => ⟨setCall_move (.rejects (e := e) rfl hk (by simp [setCall]) rfl), .quiet rfl rfl rfl rfl rfl rfl⟩
  unfold write
  split
  · exact hraise _
  · split
    · exact hraise _
    · refine ⟨fun q => ?_, .quiet rfl rfl rfl rfl rfl rfl⟩
      by_cases hq : q = k
      · subst hq
        exact .starts rfl hk (by simp [setCall, setPut]) (by simp [setCall, setPut])
      · exact .still (by simp [setCall, setPut, hq]) (by simpa [setCall, setPut, hq] using .rfl _)

theorem tryPut_spec {i : Input κ ε} {k : κ} {d : Document κ ε} (hd : (s.puts k).document = some d)
    (hp : ∀ n, (s.puts k).Same (.parked d n)) :
    (∀ q, Move s (s.tryPut cfg k d) i q) ∧ Flow s (s.tryPut cfg k d) := by
  unfold tryPut
  split
  · refine ⟨fun q => ?_, .quiet rfl rfl rfl rfl rfl rfl⟩
    by_cases hq : q = k
    · subst hq
      exact .still rfl (by simpa [setPut] using hp false)
    · exact .still rfl (by simpa [setPut, hq] using .rfl _)
  · refine ⟨fun q => ?_, .put hd (by simp [setPut]) rfl rfl rfl rfl rfl rfl⟩
    by_cases hq : q = k
    · subst hq
      exact .puts hd rfl (by simp [setPut])
    · exact .still rfl (by simpa [setPut, hq] using .rfl _)

theorem runPut_spec {i : Input κ ε} {k : κ} (h : s.runPut cfg k = some s') : (∀ q, Move s s' i q) ∧ Flow s s' := by
  unfold runPut at h
  split at h
  · rename_i d hk
    cases h
    exact tryPut_spec (by rw [hk]; rfl) (by rw [hk]; exact .parks d)
  · rename_i d hk
    cases h
    exact tryPut_spec (by rw [hk]; rfl) (by rw [hk]; exact .waits d true)
  · rename_i n hk
    have hset : ∀ q, (s.puts q).Same ((s.setPut k .cancelled).puts q) := fun q => by
      by_cases hq : q = k
      · subst hq
        rw [hk]
        simpa [setPut] using .ends n
      · simpa [setPut, hq] using .rfl _
    obtain ⟨putters, puts, hw, hsame⟩ := wakeup_spec (s.setPut k .cancelled) 1
    cases h
    split
    · rw [hw]
      exact ⟨fun q => .still rfl ((hset q).trans (hsame q)), .quiet rfl rfl rfl rfl rfl rfl⟩
    · exact ⟨fun q => .still rfl (hset q), .quiet rfl rfl rfl rfl rfl rfl⟩
  · cases h

theorem resumeWrite_spec {k : κ} (h : s.resumeWrite k = some s') :
    (∀ q, Move s s' (.resumeWrite k) q) ∧ Flow s s' := by
  unfold resumeWrite at h
  split at h
  · rename_i hk
    split at h
    · rename_i hp
      cases h
      exact ⟨setCall_move (.leaves rfl hk hp (by simp [setCall]) rfl), .quiet rfl rfl rfl rfl rfl rfl⟩
    · rename_i hp
      cases h
      refine ⟨fun q => ?_, .quiet rfl rfl rfl rfl rfl rfl⟩
      by_cases hq : q = k
      · subst hq
        exact .abandons rfl hk (by simpa using hp) (by simp [setCall]) (by simp [setCall, cancelPut, setPut])
      · exact .still (by simp [setCall, cancelPut, setPut, hq]) (by simpa [setCall, cancelPut, setPut, hq] using .rfl _)
    · cases h
  · rename_i c hk
    split at h
    · cases h
      refine ⟨setCall_move ?_, .quiet rfl rfl rfl rfl rfl rfl⟩
      have he : ∃ e, (if c = true then some WriteError.cancelled else s.checked.or (some .cancelled)) = some e := by
        cases c <;> cases hc : s.checked <;> simp
      obtain ⟨e, he⟩ := he
      exact .givesUp (e := e) rfl hk (by simpa [setCall] using he) rfl
    · cases h
  · rename_i hk
    cases h
    exact ⟨setCall_move (.returns rfl hk (by simp [setCall]) rfl), .quiet rfl rfl rfl rfl rfl rfl⟩
  · rename_i e hk
    cases h
    exact ⟨setCall_move (.raises (e := e) rfl hk (by simp [setCall]) rfl), .quiet rfl rfl rfl rfl rfl rfl⟩
  · cases h

theorem cancelWrite_spec {k : κ} (h : s.cancelWrite k = some s') :
    (∀ q, Move s s' (.cancelWrite k) q) ∧ Flow s s' := by
  unfold cancelWrite at h
  split at h
  · rename_i hk
    cases h
    exact ⟨setCall_move (.cancelled rfl hk rfl (.inl ⟨rfl, by simp [setCall]⟩)), .quiet rfl rfl rfl rfl rfl rfl⟩
  · rename_i hk
    cases h
    exact ⟨setCall_move (.cancelled rfl hk rfl (.inr (.inl ⟨⟨_, rfl⟩, by simp [setCall]⟩))),
      .quiet rfl rfl rfl rfl rfl rfl⟩
  · rename_i hk
    cases h
    exact ⟨setCall_move (.cancelled rfl hk rfl (.inr (.inr ⟨⟨_, rfl⟩, by simp [setCall]⟩))),
      .quiet rfl rfl rfl rfl rfl rfl⟩
  · cases h

theorem drain_flow {t : Output κ ε} (hd : s.worker.done = false) (ha : t.accepted = s.accepted)
    (hq : t.queue = s.queue) (hc : t.confirmed = s.confirmed ++ s.worker.batch)
    (hu : t.unfinishedTasks + t.confirmed.length = s.unfinishedTasks + s.confirmed.length)
    (hi : t.insertCalls = s.insertCalls) : Flow s (t.drain cfg) := by
  obtain ⟨taken, hq', hb, ha', hc', hu', hi', -, -⟩ := drain_spec cfg t
  refine .work taken (ha'.trans ha) (by rw [← hq, hq']) (fun h => by rw [hd] at h; cases h) ?_ ?_ ?_
  · rw [hc', hb, hc]
  · rw [hu', hc', hu]
  · rw [← hi]; exact hi'

theorem drain_move {t : Output κ ε} {i : Input κ ε} (hc : t.calls = s.calls) (hp : t.puts = s.puts) (k : κ) :
    Move s (t.drain cfg) i k := by
  obtain ⟨-, -, -, -, -, -, -, hc', hsame⟩ := drain_spec cfg t
  exact .still (by rw [hc', hc]) (by rw [← hp]; exact hsame k)

theorem runWorker_spec (h : s.runWorker cfg = some s') : (∀ k, Move s s' .worker k) ∧ Flow s s' := by
  unfold runWorker at h
  split at h
  · rename_i hw
    cases h
    split
    · exact ⟨drain_move rfl rfl, drain_flow (by rw [hw]; rfl) rfl rfl (by rw [hw]; simp [Worker.batch]) rfl rfl⟩
    · exact ⟨fun k => .still rfl (.rfl _), .work [] rfl rfl (fun hd => by rw [hw] at hd; cases hd)
        (by rw [hw]; simp [Worker.batch]) rfl (.inl rfl)⟩
  · rename_i hw
    cases h
    exact ⟨drain_move rfl rfl, drain_flow (by rw [hw]; rfl) rfl rfl (by rw [hw]; simp [Worker.batch]) rfl rfl⟩
  · cases h

omit [DecidableEq κ] in
/-- The worker ends with the batch it holds. -/
theorem workerEnds_flow {w : Worker κ ε} (hd : s.worker.done = false) (hb : w.batch = s.worker.batch)
    (hw : s'.worker = w) (ha : s'.accepted = s.accepted) (hq : s'.queue = s.queue) (hc : s'.confirmed = s.confirmed)
    (hu : s'.unfinishedTasks = s.unfinishedTasks) (hi : s'.insertCalls = s.insertCalls) : Flow s s' :=
  .work [] ha (by rw [hq]; rfl) (fun h => by rw [hd] at h; cases h)
    (by rw [hc, hw, hb, List.append_nil]) (by rw [hu, hc]) (.inl hi)

theorem insertDone_spec {batch : List (Document κ ε)} (hw : s.worker = .inserting batch) (ok : Bool) :
    (∀ k, Move s (s.insertDone cfg batch ok) (.insertDone ok) k) ∧ Flow s (s.insertDone cfg batch ok) := by
  have hd : s.worker.done = false := by rw [hw]; rfl
  have hb : s.worker.batch = batch := by rw [hw]; rfl
  have hfails : ∀ e inflight,
      (∀ k, Move s ({ s with inflightBatch := inflight }.workerFails batch e) (.insertDone ok) k) ∧
      Flow s ({ s with inflightBatch := inflight }.workerFails batch e) := fun e inflight =>
    ⟨fun k => .still rfl (.rfl _), workerEnds_flow (w := .failed batch) hd hb.symm rfl rfl rfl rfl rfl rfl⟩
  unfold insertDone
  cases ok with
  | false => exact hfails .insert s.inflightBatch
  | true =>
    simp only [if_true]
    by_cases hu : s.unfinishedTasks < batch.length
    · simp only [hu, if_true]
      exact hfails .taskDone []
    · have hlen : s.unfinishedTasks - batch.length + (s.confirmed ++ batch).length =
          s.unfinishedTasks + s.confirmed.length := by rw [List.length_append]; omega
      simp only [hu, if_false]
      split
      · split
        · exact ⟨fun k => .still rfl (.rfl _), .work [] rfl rfl (fun h => by rw [hd] at h; cases h)
            (by rw [hb]; simp [Worker.batch]) hlen (.inl rfl)⟩
        · exact ⟨drain_move rfl rfl, drain_flow hd rfl rfl (by rw [hb]) hlen rfl⟩
      · exact ⟨fun k => .still rfl (.rfl _), .work [] rfl rfl (fun h => by rw [hd] at h; cases h)
          (by rw [hb]; simp [Worker.batch]) hlen (.inl rfl)⟩

/-- **What a step does** to every call and to the documents. -/
theorem step_spec {i : Input κ ε} (h : (machine cfg).step s i = some s') : (∀ k, Move s s' i k) ∧ Flow s s' := by
  change step cfg s i = some s' at h
  have hstill : s'.calls = s.calls → s'.puts = s.puts → ∀ k, Move s s' i k := fun hc hp k =>
    .still (by rw [hc]) (by rw [hp]; exact .rfl _)
  cases i with
  | write k event =>
    simp only [step] at h
    split at h
    · cases h; exact write_spec ‹_›
    · cases h
  | putTask k => exact runPut_spec h
  | failureTask k =>
    simp only [step, Option.ite_none_right_eq_some, Option.some.injEq] at h
    obtain ⟨-, rfl⟩ := h
    exact ⟨hstill rfl rfl, .quiet rfl rfl rfl rfl rfl rfl⟩
  | resumeWrite k => exact resumeWrite_spec h
  | cancelWrite k => exact cancelWrite_spec h
  | worker => exact runWorker_spec h
  | insertDone ok =>
    simp only [step] at h
    split at h
    · cases h; exact insertDone_spec ‹_› ok
    · cases h
  | cancelWorker =>
    simp only [step, Option.ite_none_right_eq_some, Option.some.injEq] at h
    obtain ⟨⟨-, hd⟩, rfl⟩ := h
    exact ⟨hstill rfl rfl, workerEnds_flow
      (w := .cancelled s.worker.batch) (by simpa using hd) rfl rfl rfl rfl rfl rfl rfl⟩
  | close =>
    simp only [step] at h
    split at h <;> cases h
    exact ⟨hstill rfl rfl, .quiet rfl rfl rfl rfl rfl rfl⟩
  | workerDone =>
    simp only [step] at h
    split at h <;> cases h <;> exact ⟨hstill rfl rfl, .quiet rfl rfl rfl rfl rfl rfl⟩
  | shutdownTimeout =>
    simp only [step] at h
    split at h <;> cases h
    exact ⟨hstill rfl rfl, .quiet rfl rfl rfl rfl rfl rfl⟩
  | clientClosed ok =>
    simp only [step] at h
    split at h <;> cases h
    exact ⟨hstill rfl rfl, .quiet rfl rfl rfl rfl rfl rfl⟩
  | cancelClose =>
    simp only [step] at h
    split at h <;> cases h <;> exact ⟨hstill rfl rfl, .quiet rfl rfl rfl rfl rfl rfl⟩
  | reportFailure =>
    simp only [step, Option.ite_none_right_eq_some, Option.some.injEq] at h
    obtain ⟨-, rfl⟩ := h
    exact ⟨hstill rfl rfl, .quiet rfl rfl rfl rfl rfl rfl⟩

/-! ## Every run -/

/-- A call and its put task agree, as long as the call does not raise. -/
def Agrees (p : PutTask κ ε) : WriteCall → Prop
  | .idle => p = .none
  | .racing => p.dropped = false
  | .abandoning _ => p.dropped = true
  | .leaving none => p = .done
  | .leaving (some _) => True
  | .returned => p = .done
  | .raised _ => True

/-- Documents are accepted once, by their own put task, and taken in order. -/
structure Inv (s : Output κ ε) : Prop where
  conserved : s.accepted = s.confirmed ++ s.worker.batch ++ s.queue
  unfinished : s.unfinishedTasks = s.worker.batch.length + s.queue.length
  nodup : (s.accepted.map (·.call)).Nodup
  put : ∀ d ∈ s.accepted, s.puts d.call = .done
  pending : ∀ k d, (s.puts k).document = some d → d.call = k
  agrees : ∀ k, Agrees (s.puts k) (s.calls k)

omit [DecidableEq κ] in
theorem opened_inv : (opened : Output κ ε).Inv where
  conserved := rfl
  unfinished := rfl
  nodup := List.nodup_nil
  put _ h := nomatch h
  pending _ _ h := nomatch h
  agrees _ := rfl

omit [DecidableEq κ] in
theorem Agrees.same {p q : PutTask κ ε} {c : WriteCall} (h : p.Same q) (ha : Agrees p c) : Agrees q c := by
  cases c with
  | idle => exact h.none_iff.2 ha
  | racing => exact h.dropped.trans ha
  | abandoning b => exact h.dropped.trans ha
  | leaving o => cases o with
    | none => exact h.done_iff.2 ha
    | some e => trivial
  | returned => exact h.done_iff.2 ha
  | raised e => trivial

omit [DecidableEq κ] in
/-- A step keeps calls and put tasks in agreement. -/
theorem Move.agrees {i : Input κ ε} {k : κ} (h : Move s s' i k) (ha : Agrees (s.puts k) (s.calls k)) :
    Agrees (s'.puts k) (s'.calls k) := by
  cases h with
  | still hc hp => rw [hc]; exact ha.same hp
  | starts _ _ hc hp => rw [hc, hp]; rfl
  | rejects _ _ hc => rw [hc]; trivial
  | @puts d hd hc hp =>
    rw [hc, hp]
    generalize s.puts k = p at ha hd
    generalize s.calls k = c at ha
    cases c with
    | racing => rfl
    | leaving o => cases o with
      | none => rw [show p = .done from ha] at hd; cases hd
      | some e => trivial
    | raised e => trivial
    | idle => rw [show p = .none from ha] at hd; cases hd
    | abandoning b => exact absurd ha (by simp [Agrees, PutTask.not_dropped hd])
    | returned => rw [show p = .done from ha] at hd; cases hd
  | abandons _ _ hne hc hp => rw [hc, hp]; exact PutTask.cancel_dropped hne
  | leaves _ _ hd hc hp =>
    rw [hc, hp, hd]
    cases s.checked with
    | none => rfl
    | some e => trivial
  | givesUp _ _ hc => rw [hc]; trivial
  | returns _ hk hc hp => rw [hk] at ha; rw [hc, hp]; exact ha
  | raises _ _ hc => rw [hc]; trivial
  | cancelled _ hk hp hcase =>
    rcases hcase with ⟨-, hc⟩ | ⟨⟨b, rfl⟩, hc⟩ | ⟨-, hc⟩
    · rw [hc]; trivial
    · rw [hk] at ha; rw [hc, hp]; exact ha
    · rw [hc]; trivial

omit [DecidableEq κ] in
theorem Move.pending {i : Input κ ε} {k : κ} (h : Move s s' i k) {d : Document κ ε}
    (hp : ∀ d, (s.puts k).document = some d → d.call = k) (hd : (s'.puts k).document = some d) : d.call = k := by
  cases h with
  | still _ hs => exact hp d (hs.document ▸ hd)
  | starts _ _ _ hs => rw [hs] at hd; cases hd; rfl
  | puts _ _ hs => rw [hs] at hd; cases hd
  | abandons _ _ _ _ hs => rw [hs] at hd; revert hd; cases s.puts k <;> simp [PutTask.cancel, PutTask.document]
  | rejects _ _ _ hs | leaves _ _ _ _ hs | givesUp _ _ _ hs | returns _ _ _ hs | raises _ _ _ hs | cancelled _ _ hs =>
    exact hp d (hs ▸ hd)

omit [DecidableEq κ] in
/-- A put task that has put its document stays so. -/
theorem Move.done {i : Input κ ε} {k : κ} (h : Move s s' i k) (hd : s.puts k = .done)
    (ha : Agrees (s.puts k) (s.calls k)) : s'.puts k = .done := by
  cases h with
  | still _ hs => exact hs.done_iff.2 hd
  | starts _ hk => rw [hk, hd] at ha; cases ha
  | puts _ _ hs => exact hs
  | abandons _ _ hne => exact absurd hd hne
  | rejects _ _ _ hs | leaves _ _ _ _ hs | givesUp _ _ _ hs | returns _ _ _ hs | raises _ _ _ hs | cancelled _ _ hs =>
    exact hs.trans hd

/-- **A step keeps the invariant.** -/
theorem step_inv (hs : s.Inv) {i : Input κ ε} (h : (machine cfg).step s i = some s') : s'.Inv := by
  obtain ⟨hm, hf⟩ := step_spec h
  have hdone : ∀ d ∈ s.accepted, s'.puts d.call = .done := fun d hd =>
    (hm d.call).done (hs.put d hd) (hs.agrees d.call)
  have hpend : ∀ k d, (s'.puts k).document = some d → d.call = k := fun k d hd => (hm k).pending (hs.pending k) hd
  have hagree : ∀ k, Agrees (s'.puts k) (s'.calls k) := fun k => (hm k).agrees (hs.agrees k)
  cases hf with
  | @put k d hd hp ha hq hu hw hi hc =>
    have hk := hs.pending k d hd
    refine ⟨?_, ?_, ?_, fun e he => ?_, hpend, hagree⟩
    · rw [ha, hs.conserved, hc, hw, hq]
      simp
    · rw [hu, hs.unfinished, hw, hq, List.length_append, List.length_singleton]
      omega
    · rw [ha, List.map_append, List.nodup_append]
      refine ⟨hs.nodup, List.nodup_singleton _, fun c hc' c' hc'' heq => ?_⟩
      obtain ⟨e, he, rfl⟩ := List.mem_map.1 hc'
      rw [List.map_singleton, List.mem_singleton] at hc''
      have := hs.put e he
      rw [heq, hc'', hk] at this
      rw [this] at hd
      cases hd
    · rw [ha, List.mem_append, List.mem_singleton] at he
      rcases he with he | rfl
      · exact hdone e he
      · rw [hk]; exact hp
  | @work taken ha hq hw hc hu hi =>
    have hlen := congrArg List.length hc
    have hlenq := congrArg List.length hq
    have hun := hs.unfinished
    simp only [List.length_append] at hlen hlenq
    refine ⟨?_, by omega, ha ▸ hs.nodup, fun d hd => hdone d (ha ▸ hd), hpend, hagree⟩
    rw [ha, hs.conserved, hc, hq]
    simp

/-! ## Calls that raise -/

/-- The document of `k` is in the batch that a worker held when it ended. -/
def Lost (s : Output κ ε) (k : κ) : Prop := s.worker.done = true ∧ ∃ d ∈ s.worker.batch, d.call = k

/-- The document of `k` has not been put and will not be, or it is lost with the worker. -/
def Dropped (s : Output κ ε) (k : κ) : Prop := (s.puts k).dropped = true ∨ Lost s k

/-- The step ends a call without a result while its put task lives on or its document has been put, unless the
document is lost with the worker. -/
def Orphans (s : Output κ ε) : Input κ ε → Prop
  | .cancelWrite k => (s.calls k = .racing ∨ s.calls k = .leaving none) ∧ ¬Lost s k
  | .resumeWrite k => s.calls k = .racing ∧ s.puts k = .done ∧ s.workerError.isSome = true ∧ ¬Lost s k
  | _ => False

/-- Calls that raise or are about to have dropped their document. -/
def Delivered (s : Output κ ε) : Prop :=
  ∀ k e, s.calls k = .leaving (some e) ∨ s.calls k = .raised e → Dropped s k

omit [DecidableEq κ] in
theorem Flow.lost {k : κ} (h : Flow s s') (hl : Lost s k) : Lost s' k := by
  obtain ⟨hd, hb⟩ := hl
  cases h with
  | put _ _ _ _ _ hw => exact ⟨hw ▸ hd, hw ▸ hb⟩
  | work _ _ _ hw =>
    obtain ⟨hw, -⟩ := hw hd
    exact ⟨hw ▸ hd, hw ▸ hb⟩

omit [DecidableEq κ] in
/-- A dropped put task of a call that has started stays dropped. -/
theorem Move.dropped {i : Input κ ε} {k : κ} (h : Move s s' i k) (hc : s.calls k ≠ .idle)
    (hd : (s.puts k).dropped = true) : (s'.puts k).dropped = true := by
  cases h with
  | still _ hs => exact hs.dropped.trans hd
  | starts _ hk => exact absurd hk hc
  | puts hp => rw [PutTask.not_dropped hp] at hd; cases hd
  | abandons _ _ hne _ hs => rw [hs]; exact PutTask.cancel_dropped hne
  | rejects _ _ _ hs | leaves _ _ _ _ hs | givesUp _ _ _ hs | returns _ _ _ hs | raises _ _ _ hs | cancelled _ _ hs =>
    rw [hs]; exact hd

/-- What has been dropped stays dropped. -/
theorem step_dropped {i : Input κ ε} {k : κ} (h : (machine cfg).step s i = some s') (hc : s.calls k ≠ .idle)
    (hd : Dropped s k) : Dropped s' k := by
  obtain ⟨hm, hf⟩ := step_spec h
  rcases hd with hd | hl
  · exact .inl ((hm k).dropped hc hd)
  · exact .inr (hf.lost hl)

omit [DecidableEq κ] in
theorem Move.not_idle {i : Input κ ε} {k : κ} (h : Move s s' i k) (hc : s.calls k ≠ .idle) : s'.calls k ≠ .idle := by
  cases h with
  | still h | puts _ h => rwa [h]
  | starts _ hk | rejects _ hk => exact absurd hk hc
  | abandons _ _ _ h | leaves _ _ _ h | givesUp _ _ h | returns _ _ h | raises _ _ h => simp [h]
  | cancelled _ _ _ h => rcases h with ⟨-, h⟩ | ⟨-, h⟩ | ⟨-, h⟩ <;> simp [h]

/-- **Without an orphaning step, calls that raise have dropped their document.** -/
theorem step_delivered (hs : s.Inv) (hd : Delivered s) {i : Input κ ε} (hi : ¬Orphans s i)
    (h : (machine cfg).step s i = some s') : Delivered s' := by
  intro k e hk
  obtain ⟨hm, hf⟩ := step_spec h
  have hold : ∀ e, s.calls k = .leaving (some e) ∨ s.calls k = .raised e → Dropped s' k := fun e he =>
    step_dropped h (by rcases he with he | he <;> simp [he]) (hd k e he)
  have hagree := hs.agrees k
  cases hm k with
  | still hc => exact hold e (hc ▸ hk)
  | starts _ _ hc => rw [hc] at hk; rcases hk with hk | hk <;> cases hk
  | rejects _ hidle _ hs => rw [hidle] at hagree; exact .inl (by rw [hs, show s.puts k = .none from hagree]; rfl)
  | puts _ hc => exact hold e (hc ▸ hk)
  | abandons _ _ _ hc => rw [hc] at hk; rcases hk with hk | hk <;> cases hk
  | leaves heq hr hp hc =>
    subst heq
    rw [hc] at hk
    rcases hk with hk | hk
    · have hw : s.workerError.isSome = true := by
        by_contra hw
        simp [checked, hw] at hk
      exact .inr (hf.lost (not_not.1 fun hl => hi ⟨hr, hp, hw, hl⟩))
    · cases hk
  | givesUp heq ha _ hs => rw [ha] at hagree; exact .inl (by rw [hs]; exact hagree)
  | returns _ _ hc => rw [hc] at hk; rcases hk with hk | hk <;> cases hk
  | raises _ hl => exact hold _ (.inl hl)
  | cancelled heq hc hs hcase =>
    subst heq
    have hlost : s.calls k = .racing ∨ s.calls k = .leaving none → Dropped s' k := fun h' =>
      .inr (hf.lost (not_not.1 fun hl => hi ⟨h', hl⟩))
    rcases hcase with ⟨rfl, -⟩ | ⟨-, hc'⟩ | ⟨⟨o, rfl⟩, -⟩
    · exact hlost (.inl hc)
    · rw [hc'] at hk; rcases hk with hk | hk <;> cases hk
    · cases o with
      | none => exact hlost (.inr hc)
      | some e => exact hold e (.inl hc)

omit [DecidableEq κ] in
/-- A dropped document is neither queued nor confirmed. -/
theorem Dropped.absent (hs : s.Inv) {k : κ} (hd : Dropped s k) :
    (∀ d ∈ s.queue, d.call ≠ k) ∧ ∀ d ∈ s.confirmed, d.call ≠ k := by
  have hmem : ∀ d, d ∈ s.queue ∨ d ∈ s.confirmed → d.call = k → s.puts k = .done := by
    rintro d hmem rfl
    refine hs.put d ?_
    rw [hs.conserved]
    rcases hmem with hmem | hmem <;> simp [hmem]
  rcases hd with hdrop | ⟨-, b, hb, rfl⟩
  · have hne : ∀ d, d ∈ s.queue ∨ d ∈ s.confirmed → d.call ≠ k := fun d hd heq => by
      rw [hmem d hd heq] at hdrop
      cases hdrop
    exact ⟨fun d hd => hne d (.inl hd), fun d hd => hne d (.inr hd)⟩
  · have hn := hs.nodup
    rw [hs.conserved] at hn
    simp only [List.map_append, List.nodup_append, List.mem_append, List.mem_map] at hn
    obtain ⟨⟨-, -, hcb⟩, -, hbq⟩ := hn
    exact ⟨fun d hd heq => hbq _ (.inr ⟨b, hb, rfl⟩) _ ⟨d, hd, rfl⟩ heq.symm,
      fun d hd heq => hcb _ ⟨d, hd, rfl⟩ _ ⟨b, hb, rfl⟩ heq⟩

/-- From a state in which `k` has dropped its document, no run puts it into the queue or passes it on. -/
theorem dropped_forever (hs : s.Inv) {k : κ} (hc : s.calls k ≠ .idle) (hd : Dropped s k)
    (h : (machine cfg).Reachable s s') :
    (∀ d ∈ s'.queue, d.call ≠ k) ∧ ∀ d ∈ s'.insertCalls.flatten, d.call = k → d ∈ s.insertCalls.flatten := by
  have hkeep : ∀ (t : Output κ ε) i t', True → (t.Inv ∧ t.calls k ≠ .idle ∧ Dropped t k) →
      (machine cfg).step t i = some t' → t'.Inv ∧ t'.calls k ≠ .idle ∧ Dropped t' k := fun t i t' _ hI hstep =>
    ⟨step_inv hI.1 hstep, ((step_spec hstep).1 k).not_idle hI.2.1, step_dropped hstep hI.2.1 hI.2.2⟩
  obtain ⟨is, hpath⟩ := h
  have hend := hpath.invariant (I := fun t => t.Inv ∧ t.calls k ≠ .idle ∧ Dropped t k) hkeep ⟨hs, hc, hd⟩
  refine ⟨(hend.2.2.absent hend.1).1, ?_⟩
  refine hpath.related (I := fun t => t.Inv ∧ t.calls k ≠ .idle ∧ Dropped t k)
    (R := fun t t' => ∀ d ∈ t'.insertCalls.flatten, d.call = k → d ∈ t.insertCalls.flatten)
    (fun _ _ hd _ => hd) (fun _ _ _ h₁ h₂ d hd heq => h₁ d (h₂ d hd heq) heq) hkeep ?_ ⟨hs, hc, hd⟩
  intro t i t' _ hI hstep d hd heq
  have habs := (hI.2.2.absent hI.1).1
  cases (step_spec hstep).2 with
  | put _ _ _ _ _ _ hi => rwa [hi] at hd
  | @work taken _ hq _ _ _ hi =>
    rcases hi with hi | hi
    · rwa [hi] at hd
    · rw [hi, List.flatten_append, List.mem_append] at hd
      rcases hd with hd | hd
      · exact hd
      · rw [List.flatten_singleton] at hd
        exact absurd heq (habs d (by rw [hq]; exact List.mem_append_left _ hd))

/-! ## Main results -/

/-- The calls `write()` made in a run, in order. -/
def started (is : List (Input κ ε)) : List κ :=
  is.filterMap fun
    | .write k _ => some k
    | _ => none

/-- The call is running or has returned. -/
def counts : WriteCall → Bool
  | .idle => false
  | .raised _ => false
  | _ => true

/-- A call that has not been made is idle. -/
theorem path_idle {P : Output κ ε → Input κ ε → Prop} {is : List (Input κ ε)} {k : κ}
    (h : (machine cfg).Path P s is s') (hk : s.calls k = .idle) (hn : k ∉ started is) : s'.calls k = .idle := by
  induction h with
  | nil => exact hk
  | @cons s s₁ s₂ i is _ hstep _ ih =>
    have hne : ∀ event, i ≠ .write k event := by
      rintro event rfl
      exact hn (by simp [started])
    refine ih ?_ fun hmem => hn ?_
    · cases (step_spec hstep).1 k with
      | still hc => exact hc.trans hk
      | starts heq | rejects heq => exact absurd heq (hne _)
      | puts _ hc => exact hc.trans hk
      | abandons _ hc | leaves _ hc | givesUp _ hc | returns _ hc | raises _ hc => rw [hk] at hc; cases hc
      | cancelled _ hc _ hcase =>
        rw [hk] at hc
        subst hc
        rcases hcase with ⟨h, -⟩ | ⟨⟨_, h⟩, -⟩ | ⟨⟨_, h⟩, -⟩ <;> cases h
    · unfold started at hmem ⊢
      rw [List.filterMap_cons]
      split
      · exact hmem
      · exact List.mem_cons_of_mem _ hmem

/-- **A delivery that ends without returning is dropped**, in every run without an orphaning step; and no more
documents are confirmed than calls have returned or are running. -/
theorem dropped_delivery {is : List (Input κ ε)}
    (h : (machine cfg).Path (fun s i => ¬Orphans s i) opened is s) :
    (∀ k e, s.calls k = .raised e → ∀ s', (machine cfg).Reachable s s' →
      (∀ d ∈ s'.queue, d.call ≠ k) ∧ ∀ d ∈ s'.insertCalls.flatten, d.call = k → d ∈ s.insertCalls.flatten) ∧
    s.confirmed.length ≤ ((started is).filter fun k => counts (s.calls k)).length := by
  obtain ⟨hs, hd⟩ := h.invariant (I := fun s => s.Inv ∧ Delivered s)
    (fun s i s' hi hI hstep => ⟨step_inv hI.1 hstep, step_delivered hI.1 hI.2 hi hstep⟩)
    ⟨opened_inv, fun k e hk => by rcases hk with hk | hk <;> cases hk⟩
  refine ⟨fun k e hk s' hreach => dropped_forever hs (by simp [hk]) (hd k e (.inr hk)) hreach, ?_⟩
  have hnodup : (s.confirmed.map (·.call)).Nodup := by
    have hn := hs.nodup
    rw [hs.conserved, List.append_assoc, List.map_append] at hn
    exact hn.of_append_left
  have hsub : s.confirmed.map (·.call) ⊆ (started is).filter fun k => counts (s.calls k) := by
    intro k hk
    obtain ⟨d, hdc, rfl⟩ := List.mem_map.1 hk
    have hdone := hs.put d (by rw [hs.conserved]; simp [hdc])
    have hagree := hs.agrees d.call
    rw [hdone] at hagree
    have hcounts : counts (s.calls d.call) = true := by
      cases hc : s.calls d.call with
      | idle => rw [hc] at hagree; cases hagree
      | raised e => exact absurd rfl ((hd _ _ (.inr hc)).absent hs |>.2 d hdc)
      | _ => rfl
    refine List.mem_filter.2 ⟨?_, hcounts⟩
    by_contra hn
    rw [path_idle h rfl hn] at hcounts
    cases hcounts
  have hle := (List.subperm_of_subset hnodup hsub).length_le
  rwa [List.length_map] at hle

instance (s : Output κ ε) (k : κ) : Decidable (Lost s k) :=
  inferInstanceAs (Decidable (_ ∧ ∃ d ∈ s.worker.batch, d.call = k))

instance [DecidableEq ε] (s : Output κ ε) : DecidablePred (Orphans s)
  | .cancelWrite k => inferInstanceAs (Decidable ((s.calls k = .racing ∨ s.calls k = .leaving none) ∧ ¬Lost s k))
  | .resumeWrite k => inferInstanceAs (Decidable (s.calls k = .racing ∧ _ = PutTask.done ∧ _ = true ∧ ¬Lost s k))
  | .write _ _ | .putTask _ | .failureTask _ | .worker | .insertDone _ | .cancelWorker | .close | .workerDone
  | .shutdownTimeout | .clientClosed _ | .cancelClose | .reportFailure => isFalse id

/-- A queue for one document. -/
def singleQueue : Settings := (Settings.ofArguments 1 1).get (by decide)

/-- The first document is accepted, and the put task of the second one waits. -/
def waitingPut : List (Input ℕ Unit) :=
  [.worker, .write 0 (), .putTask 0, .resumeWrite 0, .resumeWrite 0, .write 1 (), .putTask 1]

/-- The insert of the first document fails while the second call waits, which cancels its put task and raises. -/
theorem dropped_delivery_failedInsert : ∃ is, ∃ s : Output ℕ Unit,
    (machine singleQueue).Path (fun s i => ¬Orphans s i) opened is s ∧ s.calls 1 = .raised .workerFailed ∧
    (∀ d ∈ s.queue, d.call ≠ 1) ∧ s.confirmed.length ≤ 1 := by
  obtain ⟨s, hs, hp⟩ := Machine.exists_path_of_check (M := machine singleQueue) (P := fun s i => ¬Orphans s i)
    (p := fun s : Output ℕ Unit => decide (s.calls 1 = .raised .workerFailed ∧ counts (s.calls 0) = true)) opened
    (waitingPut ++ [.worker, .insertDone false, .failureTask 1, .resumeWrite 1, .putTask 1, .resumeWrite 1,
      .resumeWrite 1]) (by decide)
  obtain ⟨hk, hk'⟩ := of_decide_eq_true hp
  have hd := dropped_delivery hs
  refine ⟨_, s, hs, hk, (hd.1 1 _ hk s ⟨[], .nil s⟩).1, ?_⟩
  have hle := hd.2
  rwa [show started _ = [0, 1] from rfl, List.filter_cons_of_pos (by simpa using hk'),
    List.filter_cons_of_neg (by simp [hk, counts])] at hle

/-- The second call is cancelled while its put task waits: the task puts the document after the call has raised, and
the document is inserted and confirmed. -/
theorem orphaned_put : ∃ s s' : Output ℕ Unit,
    (machine singleQueue).Path (fun _ _ => True) opened (waitingPut ++ [.cancelWrite 1, .resumeWrite 1]) s ∧
    (machine singleQueue).Path (fun _ _ => True) s
      [.worker, .putTask 1, .insertDone true, .worker, .insertDone true] s' ∧
    s.calls 1 = .raised .cancelled ∧ (∀ d ∈ s.insertCalls.flatten, d.call ≠ 1) ∧
    (∃ d ∈ s'.insertCalls.flatten, d.call = 1) ∧
    ((started waitingPut).filter fun k => counts (s'.calls k)).length < s'.confirmed.length := by
  obtain ⟨s, hs, hp⟩ := Machine.exists_path_of_check (M := machine singleQueue) (P := fun _ _ => True)
    (p := fun s : Output ℕ Unit => decide (s.calls 1 = .raised .cancelled ∧ ∀ d ∈ s.insertCalls.flatten, d.call ≠ 1) &&
      ((machine singleQueue).check (fun _ _ => True) s
        [.worker, .putTask 1, .insertDone true, .worker, .insertDone true]).any fun s' : Output ℕ Unit =>
          decide ((∃ d ∈ s'.insertCalls.flatten, d.call = 1) ∧
            ((started waitingPut).filter fun k => counts (s'.calls k)).length < s'.confirmed.length))
    opened (waitingPut ++ [.cancelWrite 1, .resumeWrite 1]) (by decide)
  rw [Bool.and_eq_true] at hp
  obtain ⟨hk, hn⟩ := of_decide_eq_true hp.1
  obtain ⟨s', hs', hp'⟩ := Machine.exists_path_of_check _ _ hp.2
  obtain ⟨hi, hc⟩ := of_decide_eq_true hp'
  exact ⟨s, s', hs, hs', hk, hn, hi, hc⟩

end Output

end BinanceCollector.Mongo
