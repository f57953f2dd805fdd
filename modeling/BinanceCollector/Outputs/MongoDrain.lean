import Mathlib.Algebra.GroupWithZero.Nat
import BinanceCollector.Outputs.MongoDelivery

/-!
# What `MongoBatchOutput` has inserted and still holds

`Turn` is what a step does to the worker: it rests, it ends with the batch it holds, or the batch it holds has been
stored and it goes on, idle or with the next batch.

- `Ordered` describes the worker's batch, the calls of `insert_many` and the readiness of the collection.
- `Closing` relates `close()` to how the worker has ended.
- `Settled`: after a `close()` that finds no `write()` in progress nothing is put any more.
- `ordered_drain`: conservation, order and the bounds of batches in every run, and an output that closes normally has
  stored everything.
-/

namespace BinanceCollector.Mongo

open Steps

variable {κ ε : Type*}

theorem PutTask.document_of_dropped {p : PutTask κ ε} (h : p.dropped = true) : p.document = Option.none := by
  cases p <;> first | rfl | cases h

namespace Output

variable [DecidableEq κ] {cfg : Settings} {s s' : Output κ ε}

/-! ## One step -/

/-- The calls of `_on_batch_persisted` in a step, each with the size of the batch. -/
def batchPersisted (s : Output κ ε) : Input κ ε → List ℕ
  | .insertDone true =>
    match s.worker with
    | .inserting batch => if s.unfinishedTasks < batch.length then [] else [batch.length]
    | _ => []
  | _ => []

/-- What a step does to the worker and the batch it holds. -/
inductive Turn (cfg : Settings) (s s' : Output κ ε) (i : Input κ ε) : Prop
  | rests : s'.worker = s.worker → s'.workerError = s.workerError → s'.inflightBatch = s.inflightBatch →
      s'.insertCalls = s.insertCalls → s'.confirmed = s.confirmed → s.batchPersisted i = [] → Turn cfg s s' i
  | ends : s.worker.done = false → s'.worker.done = true → s'.worker.batch = s.worker.batch → s'.worker ≠ .returned →
      (∀ batch, s'.worker = .failed batch → s'.workerError.isSome = true) →
      s'.inflightBatch = s.inflightBatch → s'.insertCalls = s.insertCalls → s'.confirmed = s.confirmed →
      s.batchPersisted i = [] → Turn cfg s s' i
  | idles : s.worker.done = false →
      s'.worker = .sleeping ∨ s'.worker = .returned ∧ s.closeRequested = true ∧ s'.queue = [] →
      s'.inflightBatch = [] → s'.insertCalls = s.insertCalls → s'.confirmed = s.confirmed ++ s.worker.batch →
      (s.batchPersisted i).sum = s.worker.batch.length → Turn cfg s s' i
  | inserts (batch : List (Document κ ε)) : s.worker.done = false → batch ≠ [] → batch.length ≤ cfg.batchMaxsize →
      s'.worker = .inserting batch → s'.inflightBatch = batch → s'.insertCalls = s.insertCalls ++ [batch] →
      s'.confirmed = s.confirmed ++ s.worker.batch → (s.batchPersisted i).sum = s.worker.batch.length → Turn cfg s s' i

/-- What a step leaves alone that is no part of `close()` and does not report a failure. -/
structure Apart (s s' : Output κ ε) : Prop where
  lifecycle : s'.lifecycle = s.lifecycle
  closeRequested : s'.closeRequested = s.closeRequested
  closeCall : s'.closeCall = s.closeCall
  connected : s'.connected = s.connected
  failureReported : s'.failureReported = s.failureReported

/-- One round of the worker, once what it held is stored. -/
theorem drain_turn {t : Output κ ε} {i : Input κ ε} (hd : s.worker.done = false) (hready : t.connected = true)
    (hinflight : t.inflightBatch = []) (hcalls : t.insertCalls = s.insertCalls)
    (hconfirmed : t.confirmed = s.confirmed ++ s.worker.batch)
    (hpersisted : (s.batchPersisted i).sum = s.worker.batch.length) (happart : Apart s t) :
    Turn cfg s (t.drain cfg) i ∧ Apart s (t.drain cfg) := by
  obtain ⟨putters, puts, hw, -⟩ := wakeup_spec { t with queue := t.queue.drop cfg.batchMaxsize }
    (t.queue.take cfg.batchMaxsize).length
  obtain ⟨hl, hrequested, hc, hconnected, hr⟩ := happart
  simp only [drain, hw]
  split
  · rename_i hempty
    have hqueue : t.queue = [] := (List.take_eq_nil_iff.1 hempty).resolve_left (Nat.ne_of_gt cfg.batchMaxsize_pos)
    refine ⟨.idles hd ?_ hinflight hcalls hconfirmed hpersisted, ⟨hl, hrequested, hc, hconnected, hr⟩⟩
    dsimp only
    split
    · rename_i hclose
      exact .inr ⟨rfl, hrequested.symm.trans hclose, by rw [hqueue, List.drop_nil]⟩
    · exact .inl rfl
  · rename_i hne
    exact ⟨.inserts _ hd hne (List.length_take_le _ _) rfl rfl (by rw [hcalls]) hconfirmed hpersisted,
      ⟨hl, hrequested, hc, hconnected, hr⟩⟩

/-- `insert_many` has ended. -/
theorem insertDone_turn (hs : s.Inv) (hready : s.connected = true) {batch : List (Document κ ε)}
    (hw : s.worker = .inserting batch) (ok : Bool) :
    Turn cfg s (s.insertDone cfg batch ok) (.insertDone ok) ∧ Apart s (s.insertDone cfg batch ok) := by
  have hd : s.worker.done = false := by rw [hw]; rfl
  have hb : s.worker.batch = batch := by rw [hw]; rfl
  have hcount : ¬s.unfinishedTasks < batch.length := by
    have hun := hs.unfinished
    rw [hb] at hun
    omega
  unfold insertDone
  cases ok with
  | false =>
    exact ⟨.ends hd rfl hb.symm (by simp [workerFails]) (fun _ _ => rfl) rfl rfl rfl rfl, ⟨rfl, rfl, rfl, rfl, rfl⟩⟩
  | true =>
    have hpersisted : (s.batchPersisted (.insertDone true)).sum = s.worker.batch.length := by
      simp [batchPersisted, hw, hcount, Worker.batch]
    simp only [if_true, hcount, if_false]
    split
    · rename_i hclose
      split
      · exact ⟨.idles hd (.inr ⟨rfl, hclose, ‹_›⟩) rfl rfl (by rw [hb]) hpersisted, ⟨rfl, rfl, rfl, rfl, rfl⟩⟩
      · exact drain_turn hd hready rfl rfl (by rw [hb]) hpersisted ⟨rfl, rfl, rfl, rfl, rfl⟩
    · exact ⟨.idles hd (.inl rfl) rfl rfl (by rw [hb]) hpersisted, ⟨rfl, rfl, rfl, rfl, rfl⟩⟩

theorem runWorker_turn (hready : s.worker.done = false → s.connected = true)
    (hinflight : s.inflightBatch = s.worker.batch) (h : s.runWorker cfg = some s') :
    Turn cfg s s' .worker ∧ Apart s s' := by
  unfold runWorker at h
  split at h
  · rename_i hw
    have hb : s.worker.batch = [] := by rw [hw]; rfl
    rw [hw] at hready
    cases h
    split
    · exact drain_turn (by rw [hw]; rfl) (hready rfl) (hinflight.trans hb) rfl (by simp [hb])
        (by rw [hb]; rfl) ⟨rfl, rfl, rfl, rfl, rfl⟩
    · exact ⟨.idles (by rw [hw]; rfl) (.inl rfl) (hinflight.trans hb) rfl (by simp [hb]) (by rw [hb]; rfl),
        ⟨rfl, rfl, rfl, rfl, rfl⟩⟩
  · rename_i hw
    have hb : s.worker.batch = [] := by rw [hw]; rfl
    rw [hw] at hready
    cases h
    exact drain_turn (by rw [hw]; rfl) (hready rfl) (hinflight.trans hb) rfl (by simp [hb]) (by rw [hb]; rfl)
      ⟨rfl, rfl, rfl, rfl, rfl⟩
  · cases h

/-- A put task runs. -/
theorem runPut_turn {k : κ} (h : s.runPut cfg k = some s') : Turn cfg s s' (.putTask k) ∧ Apart s s' := by
  have htry : ∀ d, Turn cfg s (s.tryPut cfg k d) (.putTask k) ∧ Apart s (s.tryPut cfg k d) := fun d => by
    unfold tryPut
    split <;> exact ⟨.rests rfl rfl rfl rfl rfl rfl, ⟨rfl, rfl, rfl, rfl, rfl⟩⟩
  unfold runPut at h
  split at h
  · cases h; exact htry _
  · cases h; exact htry _
  · obtain ⟨putters, puts, hw, -⟩ := wakeup_spec (s.setPut k .cancelled) 1
    cases h
    split
    · rw [hw]
      exact ⟨.rests rfl rfl rfl rfl rfl rfl, ⟨rfl, rfl, rfl, rfl, rfl⟩⟩
    · exact ⟨.rests rfl rfl rfl rfl rfl rfl, ⟨rfl, rfl, rfl, rfl, rfl⟩⟩
  · cases h

/-- A call runs on. -/
theorem resumeWrite_turn {k : κ} (h : s.resumeWrite k = some s') : Turn cfg s s' (.resumeWrite k) ∧ Apart s s' := by
  unfold resumeWrite at h
  split at h <;> try split at h
  all_goals cases h
  all_goals exact ⟨.rests rfl rfl rfl rfl rfl rfl, ⟨rfl, rfl, rfl, rfl, rfl⟩⟩

/-- The input is a step of `close()`, or reports the failure. -/
def OfClose : Input κ ε → Prop
  | .close | .workerDone | .shutdownTimeout | .clientClosed _ | .cancelClose | .reportFailure => True
  | _ => False

/-- **What a step does** to the worker, and to `close()`. -/
theorem step_turn (hs : s.Inv) (hready : s.worker.done = false → s.connected = true)
    (hinflight : s.inflightBatch = s.worker.batch) {i : Input κ ε} (h : (machine cfg).step s i = some s') :
    Turn cfg s s' i ∧ (Apart s s' ∨ OfClose i) := by
  change step cfg s i = some s' at h
  cases i with
  | write k event =>
    simp only [step] at h
    split at h
    · cases h
      unfold write
      split
      · exact ⟨.rests rfl rfl rfl rfl rfl rfl, .inl ⟨rfl, rfl, rfl, rfl, rfl⟩⟩
      · split <;> exact ⟨.rests rfl rfl rfl rfl rfl rfl, .inl ⟨rfl, rfl, rfl, rfl, rfl⟩⟩
    · cases h
  | putTask k => exact (runPut_turn h).imp_right .inl
  | failureTask k =>
    simp only [step, Option.ite_none_right_eq_some, Option.some.injEq] at h
    obtain ⟨-, rfl⟩ := h
    exact ⟨.rests rfl rfl rfl rfl rfl rfl, .inl ⟨rfl, rfl, rfl, rfl, rfl⟩⟩
  | resumeWrite k => exact (resumeWrite_turn h).imp_right .inl
  | cancelWrite k =>
    change s.cancelWrite k = some s' at h
    unfold cancelWrite at h
    split at h <;> cases h <;> exact ⟨.rests rfl rfl rfl rfl rfl rfl, .inl ⟨rfl, rfl, rfl, rfl, rfl⟩⟩
  | worker => exact (runWorker_turn hready hinflight h).imp_right .inl
  | insertDone ok =>
    simp only [step] at h
    split at h
    · rename_i hw
      cases h
      exact (insertDone_turn hs (hready (by rw [hw]; rfl)) hw ok).imp_right .inl
    · cases h
  | cancelWorker =>
    simp only [step, Option.ite_none_right_eq_some, Option.some.injEq] at h
    obtain ⟨⟨-, hd⟩, rfl⟩ := h
    refine ⟨.ends (by simpa using hd) rfl rfl ?_ ?_ rfl rfl rfl rfl, .inl ⟨rfl, rfl, rfl, rfl, rfl⟩⟩
    · intro h; cases h
    · intro batch h; cases h
  | close =>
    simp only [step] at h
    split at h <;> cases h
    exact ⟨.rests rfl rfl rfl rfl rfl rfl, .inr trivial⟩
  | workerDone =>
    simp only [step] at h
    split at h <;> cases h <;> exact ⟨.rests rfl rfl rfl rfl rfl rfl, .inr trivial⟩
  | shutdownTimeout | clientClosed ok =>
    simp only [step] at h
    split at h <;> cases h
    exact ⟨.rests rfl rfl rfl rfl rfl rfl, .inr trivial⟩
  | cancelClose =>
    simp only [step] at h
    split at h <;> cases h <;> exact ⟨.rests rfl rfl rfl rfl rfl rfl, .inr trivial⟩
  | reportFailure =>
    simp only [step, Option.ite_none_right_eq_some, Option.some.injEq] at h
    obtain ⟨-, rfl⟩ := h
    exact ⟨.rests rfl rfl rfl rfl rfl rfl, .inr trivial⟩

/-! ## The batches -/

/-- What has been passed to `insert_many` is confirmed or held by the worker, as `_inflight_batch` says. -/
structure Ordered (cfg : Settings) (s : Output κ ε) : Prop where
  held : s.inflightBatch = s.worker.batch
  passed : s.insertCalls.flatten = s.confirmed ++ s.worker.batch
  sizes : ∀ batch ∈ s.insertCalls, batch ≠ [] ∧ batch.length ≤ cfg.batchMaxsize

omit [DecidableEq κ] in
theorem Turn.ordered {i : Input κ ε} (h : Turn cfg s s' i) (ho : Ordered cfg s) : Ordered cfg s' := by
  obtain ⟨hheld, hpassed, hsizes⟩ := ho
  cases h with
  | rests hw _ hi hcalls hc =>
    exact ⟨by rw [hi, hheld, hw], by rw [hcalls, hpassed, hc, hw], hcalls ▸ hsizes⟩
  | ends _ _ hb _ _ hi hcalls hc =>
    exact ⟨by rw [hi, hheld, hb], by rw [hcalls, hpassed, hc, hb], hcalls ▸ hsizes⟩
  | idles _ hw hi hcalls hc =>
    have hb : s'.worker.batch = [] := by rcases hw with hw | ⟨hw, -⟩ <;> rw [hw] <;> rfl
    exact ⟨by rw [hi, hb], by rw [hcalls, hpassed, hc, hb, List.append_nil], hcalls ▸ hsizes⟩
  | inserts batch _ hne hlen hw hi hcalls hc =>
    have hb : s'.worker.batch = batch := by rw [hw]; rfl
    refine ⟨by rw [hi, hb], ?_, fun b hmem => ?_⟩
    · rw [hcalls, List.flatten_append, List.flatten_singleton, hpassed, hc, hb]
    · rw [hcalls, List.mem_append, List.mem_singleton] at hmem
      rcases hmem with hmem | rfl
      · exact hsizes b hmem
      · exact ⟨hne, hlen⟩

omit [DecidableEq κ] in
/-- The batches reported as stored are the confirmed ones. -/
theorem Turn.persisted {i : Input κ ε} (h : Turn cfg s s' i) :
    s'.confirmed.length = s.confirmed.length + (s.batchPersisted i).sum := by
  cases h with
  | rests _ _ _ _ hc hp => rw [hc, hp]; rfl
  | ends _ _ _ _ _ _ _ hc hp => rw [hc, hp]; rfl
  | idles _ _ _ _ hc hp => rw [hc, hp, List.length_append]
  | inserts _ _ _ _ _ _ _ hc hp => rw [hc, hp, List.length_append]

omit [DecidableEq κ] in
/-- A worker that has ended inserts nothing more. -/
theorem Turn.insertCalls {i : Input κ ε} (h : Turn cfg s s' i) (hd : s.worker.done = true) :
    s'.insertCalls = s.insertCalls ∧ s'.worker.done = true := by
  cases h with
  | rests hw _ _ hcalls => exact ⟨hcalls, hw ▸ hd⟩
  | ends hd' | idles hd' | inserts _ hd' => rw [hd] at hd'; cases hd'

/-! ## The end of `close()` -/

/-- What `close()` and the fields it reads say about the worker. -/
structure Closing (s : Output κ ε) : Prop where
  ready : s.worker.done = false → s.connected = true
  requested : s.worker = .returned → s.closeRequested = true
  failed : ∀ batch, s.worker = .failed batch → s.workerError.isSome = true
  fresh : s.lifecycle = .open → s.closeRequested = false
  client : ∀ timedOut, s.closeCall = .closingClient timedOut → s.worker.done = true ∧
    (timedOut = false → s.worker = .returned ∨ s.workerError.isSome = true)
  returned : s.closeCall = .returned → s.worker.done = true ∧ (s.failureReported = true ∨ s.worker = .returned)

omit [DecidableEq κ] in
theorem Turn.closing {i : Input κ ε} (h : Turn cfg s s' i) (ha : Apart s s') (hc : Closing s) : Closing s' := by
  obtain ⟨hl, hrequested, hcall, hconnected, hreported⟩ := ha
  cases h with
  | rests hw he =>
    refine ⟨?_, ?_, ?_, ?_, ?_, ?_⟩
    · rw [hw, hconnected]; exact hc.ready
    · rw [hw, hrequested]; exact hc.requested
    · rw [hw, he]; exact hc.failed
    · rw [hl, hrequested]; exact hc.fresh
    · rw [hcall, hw, he]; exact hc.client
    · rw [hcall, hw, hreported]; exact hc.returned
  | ends hd hd' _ hne hfailed =>
    refine ⟨fun h => ?_, fun h => absurd h hne, hfailed, ?_, fun t ht => ?_, fun ht => ?_⟩
    · rw [hd'] at h; cases h
    · rw [hl, hrequested]; exact hc.fresh
    · have := (hc.client t (hcall ▸ ht)).1; rw [hd] at this; cases this
    · have := (hc.returned (hcall ▸ ht)).1; rw [hd] at this; cases this
  | idles hd hw =>
    refine ⟨fun _ => hconnected.trans (hc.ready hd), fun h => ?_, fun b h => ?_, ?_, fun t ht => ?_, fun ht => ?_⟩
    · rcases hw with hw | ⟨-, hw, -⟩
      · rw [hw] at h; cases h
      · exact hrequested.trans hw
    · rcases hw with hw | ⟨hw, -⟩ <;> rw [hw] at h <;> cases h
    · rw [hl, hrequested]; exact hc.fresh
    · have := (hc.client t (hcall ▸ ht)).1; rw [hd] at this; cases this
    · have := (hc.returned (hcall ▸ ht)).1; rw [hd] at this; cases this
  | inserts batch hd _ _ hw =>
    refine ⟨fun _ => hconnected.trans (hc.ready hd), fun h => ?_, fun b h => ?_, ?_, fun t ht => ?_, fun ht => ?_⟩
    · rw [hw] at h; cases h
    · rw [hw] at h; cases h
    · rw [hl, hrequested]; exact hc.fresh
    · have := (hc.client t (hcall ▸ ht)).1; rw [hd] at this; cases this
    · have := (hc.returned (hcall ▸ ht)).1; rw [hd] at this; cases this

/-- A step of `close()` finds the worker as `Closing` says. -/
theorem step_closing (hs : s.Inv) (ho : Ordered cfg s) (hc : Closing s) {i : Input κ ε}
    (h : (machine cfg).step s i = some s') : Closing s' := by
  obtain ⟨ht, ha | hi⟩ := step_turn hs hc.ready ho.held h
  · exact ht.closing ha hc
  change step cfg s i = some s' at h
  cases i with
  | write | putTask | failureTask | resumeWrite | cancelWrite | worker | insertDone | cancelWorker => cases hi
  | close =>
    simp only [step] at h
    split at h <;> cases h
    exact { hc with
      requested := fun _ => rfl
      fresh := fun hl => (by cases hl)
      client := fun t ht => (by cases ht)
      returned := fun ht => (by cases ht) }
  | workerDone =>
    -- `close()` goes on to the client, and the rest is as before
    have hcloses : ∀ {timedOut : Bool}, (∀ t, CloseCall.closingClient timedOut = .closingClient t →
        s.worker.done = true ∧ (t = false → s.worker = .returned ∨ s.workerError.isSome = true)) →
        Closing { s with closeCall := .closingClient timedOut } := fun hclient =>
      { hc with client := hclient, returned := fun ht => (by cases ht) }
    simp only [step] at h
    split at h <;> cases h
    all_goals rename_i hw
    · exact hcloses fun t _ => ⟨by rw [hw]; rfl, fun _ => .inl hw⟩
    · exact hcloses fun t _ => ⟨by rw [hw]; rfl, fun _ => .inr (hc.failed _ hw)⟩
    · exact hcloses fun t _ => ⟨by rw [hw]; rfl, fun _ => .inl hw⟩
    · exact hcloses fun t _ => ⟨by rw [hw]; rfl, fun _ => .inr (hc.failed _ hw)⟩
    · exact hcloses fun t ht => ⟨by rw [hw]; rfl, fun hf => by cases ht; cases hf⟩
  | shutdownTimeout =>
    simp only [step] at h
    split at h <;> cases h
    exact { hc with client := fun t ht => (by cases ht), returned := fun ht => (by cases ht) }
  | clientClosed ok =>
    simp only [step] at h
    split at h <;> cases h
    rename_i timedOut hcall
    obtain ⟨hd, hended⟩ := hc.client timedOut hcall
    refine { hc with
      ready := fun h => ?_
      fresh := fun hl => (by cases hl)
      client := fun t ht => ?_
      returned := fun ht => ⟨hd, ?_⟩ }
    · rw [show (s.finishClose timedOut ok).worker = s.worker from rfl, hd] at h
      cases h
    · simp only [finishClose] at ht
      split at ht
      · cases ht
      · split at ht
        · cases ht
        · split at ht <;> cases ht
    · simp only [finishClose] at ht
      split at ht
      · cases ht
      · rename_i herr
        split at ht
        · cases ht
        · rename_i htimed
          rcases hended (by simpa using htimed) with hw | he
          · exact .inr hw
          · exact .inl (not_not.1 fun hr => herr ⟨he, hr⟩)
  | cancelClose =>
    simp only [step] at h
    split at h <;> cases h <;>
      exact { hc with client := fun t ht => (by cases ht), returned := fun ht => (by cases ht) }
  | reportFailure =>
    simp only [step, Option.ite_none_right_eq_some, Option.some.injEq] at h
    obtain ⟨-, rfl⟩ := h
    exact { hc with returned := fun ht => ⟨(hc.returned ht).1, .inl rfl⟩ }

/-! ## After `close()` -/

/-- The step cancels no `write()`. -/
def Uncancelled (_ : Output κ ε) : Input κ ε → Prop
  | .cancelWrite _ => False
  | _ => True

/-- Calls that raise or are about to leave no put task that may still put. -/
def Abandoned (s : Output κ ε) : Prop :=
  ∀ k e, s.calls k = .leaving (some e) ∨ s.calls k = .raised e → (s.puts k).document = none

/-- No put task may still put, and no call can start one. -/
structure Settled (s : Output κ ε) : Prop where
  closed : s.lifecycle ≠ .open
  idle : ∀ k, (s.puts k).document = none
  drained : s.worker = .returned → s.queue = []

/-- Without cancelled calls, calls that raise have given up their put task. -/
theorem step_abandoned (hs : s.Inv) (hq : s.Abandoned) {i : Input κ ε} (hi : Uncancelled s i)
    (h : (machine cfg).step s i = some s') : s'.Abandoned := by
  intro k e hk
  have hagree := hs.agrees k
  cases (step_spec h).1 k with
  | still hc hp => rw [hp.document]; exact hq k e (hc ▸ hk)
  | starts _ _ hc => rw [hc] at hk; rcases hk with hk | hk <;> cases hk
  | rejects _ hidle _ hp => rw [hidle] at hagree; rw [hp, show s.puts k = .none from hagree]; rfl
  | puts hd hc => rw [hq k e (hc ▸ hk)] at hd; cases hd
  | abandons _ _ _ hc => rw [hc] at hk; rcases hk with hk | hk <;> cases hk
  | leaves _ _ hd _ hp => rw [hp, hd]; rfl
  | givesUp _ ha _ hp => rw [ha] at hagree; rw [hp]; exact PutTask.document_of_dropped hagree
  | returns _ _ hc => rw [hc] at hk; rcases hk with hk | hk <;> cases hk
  | raises _ hl _ hp => rw [hp]; exact hq k _ (.inl hl)
  | cancelled heq => subst heq; cases hi

/-- The call is in progress. -/
def inProgress : WriteCall → Bool
  | .racing | .abandoning _ | .leaving _ => true
  | _ => false

/-- No `write()` is in progress. -/
def NoWrites (s : Output κ ε) : Prop := ∀ k, inProgress (s.calls k) = false

omit [DecidableEq κ] in
theorem NoWrites.idle (h : s.NoWrites) (hs : s.Inv) (hq : s.Abandoned) (k : κ) : (s.puts k).document = none := by
  have hagree := hs.agrees k
  have hk := h k
  cases hc : s.calls k with
  | idle => rw [hc] at hagree; rw [show s.puts k = .none from hagree]; rfl
  | returned => rw [hc] at hagree; rw [show s.puts k = .done from hagree]; rfl
  | raised e => exact hq k e (.inr hc)
  | racing | abandoning | leaving => rw [hc] at hk; cases hk

/-- The lifecycle never opens again. -/
theorem step_closed {i : Input κ ε} (hl : s.lifecycle ≠ .open) (hs : s.Inv) (ho : Ordered cfg s) (hc : Closing s)
    (h : (machine cfg).step s i = some s') : s'.lifecycle ≠ .open := by
  obtain ⟨-, ha | hi⟩ := step_turn hs hc.ready ho.held h
  · rw [ha.lifecycle]; exact hl
  change step cfg s i = some s' at h
  cases i with
  | write | putTask | failureTask | resumeWrite | cancelWrite | worker | insertDone | cancelWorker => cases hi
  | close | clientClosed =>
    simp only [step] at h
    split at h <;> cases h
    intro ho
    cases ho
  | workerDone | shutdownTimeout | cancelClose =>
    simp only [step] at h
    split at h <;> cases h <;> exact hl
  | reportFailure =>
    simp only [step, Option.ite_none_right_eq_some, Option.some.injEq] at h
    obtain ⟨-, rfl⟩ := h
    exact hl

/-- An output that is settled stays so. -/
theorem step_settled (hs : s.Inv) (ho : Ordered cfg s) (hc : Closing s) (hq : s.Settled) {i : Input κ ε}
    (h : (machine cfg).step s i = some s') : s'.Settled := by
  obtain ⟨hmove, hflow⟩ := step_spec h
  obtain ⟨hturn, -⟩ := step_turn hs hc.ready ho.held h
  refine ⟨step_closed hq.closed hs ho hc h, fun k => ?_, fun hw => ?_⟩
  · have hidle := hq.idle k
    cases hmove k with
    | still _ hp => rw [hp.document, hidle]
    | @starts event heq hk hcall =>
      subst heq
      change step cfg s (.write k event) = some s' at h
      simp only [step, hk, write, if_pos hq.closed, Option.some.injEq] at h
      rw [← h] at hcall
      simp [setCall] at hcall
    | puts hd => rw [hidle] at hd; cases hd
    | abandons _ _ hne _ hp => rw [hp]; exact PutTask.document_of_dropped (PutTask.cancel_dropped hne)
    | rejects _ _ _ hp | leaves _ _ _ _ hp | givesUp _ _ _ hp | returns _ _ _ hp | raises _ _ _ hp
    | cancelled _ _ hp => rw [hp, hidle]
  · cases hturn with
    | rests hw' =>
      rw [hw'] at hw
      cases hflow with
      | put hd => rw [hq.idle] at hd; cases hd
      | work taken _ hqueue =>
        rw [hq.drained hw] at hqueue
        exact (List.append_eq_nil_iff.1 hqueue.symm).2
    | ends _ _ _ hne => exact absurd hw hne
    | idles _ hw' =>
      rcases hw' with hw' | ⟨-, -, hqueue⟩
      · rw [hw'] at hw; cases hw
      · exact hqueue
    | inserts _ _ _ _ hw' => rw [hw'] at hw; cases hw

/-- A `close()` that finds no `write()` in progress settles the output. -/
theorem close_settled (hs : s.Inv) (hc : Closing s) (hq : s.Abandoned) (hn : s.NoWrites)
    (h : (machine cfg).step s .close = some s') : s'.Settled := by
  change step cfg s .close = some s' at h
  simp only [step] at h
  split at h <;> cases h
  rename_i hl
  refine ⟨fun ho => (by cases ho), hn.idle hs hq, fun hw => ?_⟩
  have hrequested := hc.requested hw
  rw [hc.fresh hl] at hrequested
  cases hrequested

/-! ## Main results -/

/-- The calls of `_on_batch_persisted` in a run. -/
def batchesPersisted (cfg : Settings) : Output κ ε → List (Input κ ε) → List ℕ
  | _, [] => []
  | s, i :: is =>
    match step cfg s i with
    | some s' => s.batchPersisted i ++ batchesPersisted cfg s' is
    | none => []

/-- What every run keeps. -/
structure Sound (cfg : Settings) (s : Output κ ε) : Prop where
  inv : s.Inv
  ordered : Ordered cfg s
  closing : Closing s

omit [DecidableEq κ] in
theorem opened_sound : Sound cfg (opened : Output κ ε) where
  inv := opened_inv
  ordered := ⟨rfl, rfl, fun batch hb => by cases hb⟩
  closing := ⟨fun _ => rfl, fun hw => (by cases hw), fun _ hw => (by cases hw), fun _ => rfl, fun _ ht => (by cases ht),
    fun ht => by cases ht⟩

theorem step_sound (h : Sound cfg s) {i : Input κ ε} (hstep : (machine cfg).step s i = some s') : Sound cfg s' where
  inv := step_inv h.inv hstep
  ordered := (step_turn h.inv h.closing.ready h.ordered.held hstep).1.ordered h.ordered
  closing := step_closing h.inv h.ordered h.closing hstep

/-- Along a run the reported batches add up to what has been confirmed. -/
theorem path_persisted {P : Output κ ε → Input κ ε → Prop} {is : List (Input κ ε)} (h : (machine cfg).Path P s is s')
    (hs : Sound cfg s) : s'.confirmed.length = s.confirmed.length + (batchesPersisted cfg s is).sum := by
  induction h with
  | nil => rfl
  | @cons s s₁ s₂ i is _ hstep _ ih =>
    have hturn := (step_turn hs.inv hs.closing.ready hs.ordered.held hstep).1
    have hreports : batchesPersisted cfg s (i :: is) = s.batchPersisted i ++ batchesPersisted cfg s₁ is := by
      simp only [batchesPersisted, show step cfg s i = some s₁ from hstep]
    rw [ih (step_sound hs hstep), hturn.persisted, hreports, List.sum_append, Nat.add_assoc]

/-- Once the worker has ended, nothing more is inserted. -/
theorem ended_inserts (hs : Sound cfg s) (hd : s.worker.done = true) (h : (machine cfg).Reachable s s') :
    s'.insertCalls = s.insertCalls := by
  obtain ⟨is, hpath⟩ := h
  refine hpath.related (I := fun t => Sound cfg t ∧ t.worker.done = true)
    (R := fun t t' => t'.insertCalls = t.insertCalls) (fun _ => rfl) (fun _ _ _ h₁ h₂ => h₂.trans h₁) ?_ ?_ ⟨hs, hd⟩
  · intro t i t' _ ⟨ht, hdone⟩ hstep
    exact ⟨step_sound ht hstep,
      ((step_turn ht.inv ht.closing.ready ht.ordered.held hstep).1.insertCalls hdone).2⟩
  · intro t i t' _ ⟨ht, hdone⟩ hstep
    exact ((step_turn ht.inv ht.closing.ready ht.ordered.held hstep).1.insertCalls hdone).1

/-- A failed `insert_many` ends the worker. -/
theorem failedInsert_done (h : (machine cfg).step s (.insertDone false) = some s') :
    s'.worker.done = true ∧ s'.insertCalls = s.insertCalls := by
  change step cfg s (.insertDone false) = some s' at h
  simp only [step] at h
  split at h
  · cases h; exact ⟨rfl, rfl⟩
  · cases h

omit [DecidableEq κ] in
/-- An output that was closed while no `write()` was in progress, and has closed normally, has stored everything. -/
theorem returned_drained (hs : Sound cfg s) (hq : s.Settled) (hc : s.closeCall = .returned)
    (hr : s.failureReported = false) : s.queue = [] ∧ s.inflightBatch = [] := by
  obtain ⟨-, hreported | hw⟩ := hs.closing.returned hc
  · rw [hr] at hreported; cases hreported
  · exact ⟨hq.drained hw, by rw [hs.ordered.held, hw]; rfl⟩

/-- **Conservation and ordered drain**, in every run in which no `write()` is cancelled. -/
theorem ordered_drain {is : List (Input κ ε)} (h : (machine cfg).Path Uncancelled opened is s) :
    s.accepted = s.confirmed ++ s.inflightBatch ++ s.queue ∧
    s.insertCalls.flatten = s.confirmed ++ s.inflightBatch ∧
    s.pendingCount = s.accepted.length - s.confirmed.length ∧
    (batchesPersisted cfg opened is).sum = s.confirmed.length ∧
    s.insertCalls.flatten.Nodup ∧
    (∀ batch ∈ s.insertCalls, batch ≠ [] ∧ batch.length ≤ cfg.batchMaxsize) ∧
    (∀ s₁ s₂, (machine cfg).step s (.insertDone false) = some s₁ → (machine cfg).Reachable s₁ s₂ →
      s₂.insertCalls = s.insertCalls) ∧
    (∀ s₁ s₂ js, s.NoWrites → (machine cfg).step s .close = some s₁ → (machine cfg).Path Uncancelled s₁ js s₂ →
      s₂.closeCall = .returned → s₂.failureReported = false → s₂.queue = [] ∧ s₂.inflightBatch = []) := by
  obtain ⟨hs, hq⟩ := h.invariant (I := fun s => Sound cfg s ∧ s.Abandoned)
    (fun _ _ _ hi hI hstep => ⟨step_sound hI.1 hstep, step_abandoned hI.1.inv hI.2 hi hstep⟩)
    ⟨opened_sound, fun k e hk => by rcases hk with hk | hk <;> cases hk⟩
  have hconserved : s.accepted = s.confirmed ++ s.inflightBatch ++ s.queue := by
    rw [hs.ordered.held]
    exact hs.inv.conserved
  have hpassed : s.insertCalls.flatten = s.confirmed ++ s.inflightBatch := by
    rw [hs.ordered.held]
    exact hs.ordered.passed
  refine ⟨hconserved, hpassed, ?_, ?_, ?_, hs.ordered.sizes, fun s₁ s₂ hstep hreach => ?_,
    fun s₁ s₂ js hn hstep hpath => ?_⟩
  · rw [hconserved, List.length_append, List.length_append, pendingCount]
    omega
  · have hsum := path_persisted h opened_sound
    rw [hsum]
    exact (Nat.zero_add _).symm
  · rw [hpassed]
    exact (hconserved ▸ hs.inv.nodup.of_map).of_append_left
  · obtain ⟨hd, hcalls⟩ := failedInsert_done hstep
    exact (ended_inserts (step_sound hs hstep) hd hreach).trans hcalls
  · obtain ⟨hs₂, hq₂⟩ := hpath.invariant (I := fun t => Sound cfg t ∧ t.Settled)
      (fun _ _ _ _ hI hst => ⟨step_sound hI.1 hst, step_settled hI.1.inv hI.1.ordered hI.1.closing hI.2 hst⟩)
      ⟨step_sound hs hstep, close_settled hs.inv hs.closing hq hn hstep⟩
    exact returned_drained hs₂ hq₂

instance (s : Output κ ε) : DecidablePred (Uncancelled s)
  | .cancelWrite _ => isFalse id
  | .write _ _ | .putTask _ | .failureTask _ | .resumeWrite _ | .worker | .insertDone _ | .cancelWorker | .close
  | .workerDone | .shutdownTimeout | .clientClosed _ | .cancelClose | .reportFailure => isTrue trivial

/-- Two documents are accepted, the first of them is stored before `close()` and the second one after it. -/
theorem ordered_drain_twoBatches : ∃ is, ∃ s s₁ s' : Output (Fin 2) Unit,
    (machine singleQueue).Path Uncancelled opened is s ∧ (machine singleQueue).step s .close = some s₁ ∧
    (machine singleQueue).Path Uncancelled s₁ [.worker, .insertDone true, .workerDone, .clientClosed true] s' ∧
    s.accepted = s.confirmed ++ s.inflightBatch ++ s.queue ∧ s.confirmed.length = 1 ∧ s.queue.length = 1 ∧
    s'.queue = [] ∧ s'.inflightBatch = [] := by
  obtain ⟨s, hs, hp⟩ := Machine.exists_path_of_check (M := machine singleQueue) (P := Uncancelled)
    (p := fun s : Output (Fin 2) Unit => decide (∀ k, inProgress (s.calls k) = false) &&
      decide (s.confirmed.length = 1 ∧ s.queue.length = 1) &&
      ((machine singleQueue).step s .close).any fun s₁ =>
        ((machine singleQueue).check Uncancelled s₁ [.worker, .insertDone true, .workerDone, .clientClosed true]).any
          fun s' : Output (Fin 2) Unit => decide (s'.closeCall = .returned ∧ s'.failureReported = false))
    opened [.worker, .write 0 (), .putTask 0, .resumeWrite 0, .resumeWrite 0, .worker, .write 1 (), .putTask 1,
      .resumeWrite 1, .resumeWrite 1, .insertDone true] (by decide)
  simp only [Bool.and_eq_true, decide_eq_true_eq] at hp
  obtain ⟨⟨hn, hlen, hqueue⟩, hclose⟩ := hp
  obtain ⟨s₁, hs₁, hp₁⟩ := (Option.any_eq_true _ _).1 hclose
  obtain ⟨s', hs', hp'⟩ := Machine.exists_path_of_check _ _ hp₁
  obtain ⟨hret, hrep⟩ := of_decide_eq_true hp'
  have hdrain := ordered_drain hs
  exact ⟨_, s, s₁, s', hs, hs₁, hs', hdrain.1, hlen, hqueue, hdrain.2.2.2.2.2.2.2 s₁ s' _ hn hs₁ hs' hret hrep⟩

end Output

end BinanceCollector.Mongo
