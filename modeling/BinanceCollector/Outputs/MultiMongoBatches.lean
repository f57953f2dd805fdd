import BinanceCollector.Outputs.MultiMongoClose

/-!
# The batches of a route

The batches that `_run_worker` passes to `_persist_batch`, read off a run as a log (`Output.batches`): each with the
document that did not fit, and whether it was closed before its deadline and before the close request.

- `fillBatch_shaped`: the inner loop closes a batch for one of its reasons only.
- `Batched`: the log, what the worker holds and the queue are the accepted documents, in order.
- `batch_shape`: every batch of every run is within the limits, and the document that did not fit begins the next one.
-/

namespace BinanceCollector.MultiMongo

open Steps

variable {κ ε : Type*}

/-- A list passed to `_persist_batch`. -/
structure Batch (κ ε : Type*) where
  docs : List (BufferedDocument κ ε)
  /-- the next document, where it did not fit -/
  carry : Option (BufferedDocument κ ε)
  /-- neither the deadline nor the close request ended it -/
  early : Bool
  deriving DecidableEq

/-- What the limits say about a batch and why it may have been closed. -/
structure Batch.Shaped (cfg : Settings) (b : Batch κ ε) : Prop where
  nonempty : b.docs ≠ []
  documents : b.docs.length ≤ cfg.batchMaxDocuments
  bytes : byteCount b.docs ≤ cfg.batchMaxBytes ∨ ∃ d, b.docs = [d] ∧ cfg.batchMaxBytes < d.bsonSize
  carried : ∀ d ∈ b.carry, b.docs.length < cfg.batchMaxDocuments ∧ cfg.batchMaxBytes < byteCount b.docs + d.bsonSize
  early : b.early = true → b.docs.length < cfg.batchMaxDocuments →
    b.carry.isSome ∨ byteCount b.docs = cfg.batchMaxBytes

/-! ## The inner loop -/

/-- A batch that is being filled. -/
structure Filling (cfg : Settings) (batch : List (BufferedDocument κ ε)) (batchBytes : ℕ) : Prop where
  nonempty : batch ≠ []
  documents : batch.length ≤ cfg.batchMaxDocuments
  counted : batchBytes = byteCount batch
  bytes : byteCount batch ≤ cfg.batchMaxBytes ∨ ∃ d, batch = [d] ∧ cfg.batchMaxBytes < d.bsonSize

section

variable {cfg : Settings} {batch : List (BufferedDocument κ ε)} {n : ℕ}

theorem filling_first (cfg : Settings) (first : BufferedDocument κ ε) : Filling cfg [first] first.bsonSize where
  nonempty := List.cons_ne_nil _ _
  documents := cfg.batchMaxDocuments_pos
  counted := by simp [byteCount]
  bytes := by
    rcases Nat.lt_or_ge cfg.batchMaxBytes first.bsonSize with h | h
    · exact .inr ⟨first, rfl, h⟩
    · exact .inl (by simpa [byteCount] using h)

/-- A candidate that fits. -/
theorem Filling.append (h : Filling cfg batch n) {d : BufferedDocument κ ε}
    (hlen : batch.length < cfg.batchMaxDocuments) (hfit : n + d.bsonSize ≤ cfg.batchMaxBytes) :
    Filling cfg (batch ++ [d]) (n + d.bsonSize) := by
  have hbytes : byteCount (batch ++ [d]) = n + d.bsonSize := by
    rw [byteCount_append, h.counted]
    simp [byteCount]
  exact ⟨by simp, by rw [List.length_append]; exact hlen, hbytes.symm, .inl (hbytes ▸ hfit)⟩

/-- The deadline and the close request may end a batch at any time. -/
theorem Filling.shaped (h : Filling cfg batch n) : Batch.Shaped cfg ⟨batch, none, false⟩ :=
  ⟨h.nonempty, h.documents, h.bytes, by simp, by simp⟩

theorem Batch.Shaped.of_early {docs : List (BufferedDocument κ ε)} {carry : Option (BufferedDocument κ ε)}
    (h : Batch.Shaped cfg ⟨docs, carry, true⟩) (early : Bool) : Batch.Shaped cfg ⟨docs, carry, early⟩ :=
  ⟨h.nonempty, h.documents, h.bytes, h.carried, fun _ => h.early rfl⟩

/-- **The inner loop closes a batch because it is full, or because the next document does not fit.** -/
theorem fillBatch_shaped : ∀ (queue batch : List (BufferedDocument κ ε)) (n : ℕ), Filling cfg batch n →
    match fillBatch cfg batch n queue with
    | .starved batch' n' => Filling cfg batch' n' ∧ batch <+: batch'
    | .closed batch' carry _ => Batch.Shaped cfg ⟨batch', carry, true⟩ ∧ batch <+: batch'
  | [], batch, n, h => by
    rw [fillBatch]
    by_cases hmax : batch.length < cfg.batchMaxDocuments
    · rw [if_pos hmax]
      exact ⟨h, List.prefix_rfl⟩
    · rw [if_neg hmax]
      exact ⟨⟨h.nonempty, h.documents, h.bytes, by simp, fun _ hlt => absurd hlt hmax⟩, List.prefix_rfl⟩
  | candidate :: queue, batch, n, h => by
    rw [fillBatch]
    by_cases hmax : batch.length < cfg.batchMaxDocuments
    · rw [if_pos hmax]
      by_cases hover : cfg.batchMaxBytes < n + candidate.bsonSize
      · -- the candidate does not fit
        rw [if_pos hover]
        refine ⟨⟨h.nonempty, h.documents, h.bytes, ?_, fun _ _ => .inl rfl⟩, List.prefix_rfl⟩
        rintro d hd
        cases hd
        exact ⟨hmax, h.counted ▸ hover⟩
      · have hfilling := h.append hmax (Nat.le_of_not_lt hover)
        rw [if_neg hover]
        by_cases hfull : cfg.batchMaxBytes ≤ n + candidate.bsonSize
        · -- it fills the batch exactly
          rw [if_pos hfull]
          have hexact : byteCount (batch ++ [candidate]) = cfg.batchMaxBytes := by
            rw [← hfilling.counted]
            omega
          exact ⟨⟨hfilling.nonempty, hfilling.documents, hfilling.bytes, by simp, fun _ _ => .inr hexact⟩,
            List.prefix_append _ _⟩
        · rw [if_neg hfull]
          have ih := fillBatch_shaped queue _ _ hfilling
          have hprefix : batch <+: batch ++ [candidate] := List.prefix_append _ _
          generalize fillBatch cfg (batch ++ [candidate]) (n + candidate.bsonSize) queue = filled at ih
          cases filled with
          | starved batch' n' => exact ⟨ih.1, hprefix.trans ih.2⟩
          | closed batch' carry rest => exact ⟨ih.1, hprefix.trans ih.2⟩
    · rw [if_neg hmax]
      exact ⟨⟨h.nonempty, h.documents, h.bytes, by simp, fun _ hlt => absurd hlt hmax⟩, List.prefix_rfl⟩

end

/-! ## The worker's code -/

section

variable {cfg : Settings} {closeRequested expired slotFree : Bool}

/-- The batch that a worker has just passed on. -/
def Worker.batch (early : Bool) : Worker κ ε → Option (Batch κ ε)
  | .awaitSlot docs carry => some ⟨docs, carry, early⟩
  | _ => none

/-- The batch in the worker's variables is as the limits say. -/
def Worker.Shaped (cfg : Settings) (early : Bool) : Worker κ ε → Prop
  | .awaitNext batch batchBytes _ => Filling cfg batch batchBytes
  | .awaitSlot docs carry => Batch.Shaped cfg ⟨docs, carry, early⟩
  | _ => True

theorem collectBatch_shaped {l : Lane κ ε} {batch : List (BufferedDocument κ ε)} {n : ℕ} (h : Filling cfg batch n)
    (candidates : List (BufferedDocument κ ε)) :
    (l.collectBatch cfg true closeRequested expired batch n candidates).lane.worker.Shaped cfg
      (!(closeRequested || expired)) := by
  have hfill := fillBatch_shaped candidates batch n h
  unfold Lane.collectBatch
  cases hf : fillBatch cfg batch n candidates with
  | starved batch' n' =>
    rw [hf] at hfill
    dsimp only
    split
    · rename_i hends
      rw [hends]
      exact hfill.1.shaped
    · exact hfill.1
  | closed batch' carry queue =>
    rw [hf] at hfill
    exact hfill.1.of_early _

theorem startBatch_shaped (l : Lane κ ε) (first : BufferedDocument κ ε) :
    (l.startBatch cfg true closeRequested expired first).lane.worker.Shaped cfg (!(closeRequested || expired)) :=
  collectBatch_shaped (filling_first cfg first) l.queue

theorem runWorker_shaped (l : Lane κ ε) (carry : Option (BufferedDocument κ ε)) :
    (l.runWorker cfg true closeRequested expired carry).lane.worker.Shaped cfg (!(closeRequested || expired)) := by
  unfold Lane.runWorker
  split
  · exact startBatch_shaped _ _
  · exact startBatch_shaped _ _
  · split <;> trivial

theorem resume_shaped {l : Lane κ ε} {p : Progress κ ε} (hl : l.worker.Shaped cfg false)
    (h : l.resume cfg true closeRequested expired slotFree = some p) :
    p.lane.worker.Shaped cfg (!(closeRequested || expired)) := by
  unfold Lane.resume at h
  split at h
  · cases h
    exact runWorker_shaped _ _
  · cases h
    trivial
  · split at h
    · split at h
      · cases h
        trivial
      · cases h
        trivial
    · cases h
  · cases h
    exact startBatch_shaped _ _
  · cases h
    trivial
  · rename_i hw
    rw [hw] at hl
    cases h
    exact collectBatch_shaped hl _
  · rename_i hw
    rw [hw] at hl
    split at h
    · rename_i hexpired
      cases h
      rw [hexpired, Bool.or_true]
      exact Filling.shaped hl
    · cases h
  · split at h
    · cases h
      trivial
    · cases h
  · cases h

end

/-! ## The batches of a lane -/

/-- The document that did not fit into the last batch. -/
def lastCarry (log : List (Batch κ ε)) : Option (BufferedDocument κ ε) := log.getLast?.bind (·.carry)

/-- The second batch begins with the document that did not fit into the first one. -/
def Batch.Follows (b b' : Batch κ ε) : Prop := ∀ d ∈ b.carry, b'.docs.head? = some d

/-- What the lane holds and its worker has not passed on. -/
def Lane.remaining (l : Lane κ ε) : List (BufferedDocument κ ε) :=
  match l.worker with
  | .awaitSlot _ carry => carry.toList ++ l.queue
  | w => w.unpassed ++ l.queue

/-- The batch that has been passed on and not yet inserted. -/
def Worker.entering : Worker κ ε → List (List (BufferedDocument κ ε))
  | .awaitSlot docs _ => [docs]
  | _ => []

/-- A lane whose worker is running, and the batches it has passed on. -/
structure Running (cfg : Settings) (l : Lane κ ε) (log : List (Batch κ ε)) : Prop where
  accepted : l.accepted = log.flatMap (·.docs) ++ l.remaining
  carried : ∀ d ∈ lastCarry log, l.remaining.head? = some d
  passed : log.map (·.docs) = l.insertCalls ++ l.worker.entering
  shaped : l.worker.Shaped cfg false

/-- A lane and the batches its worker has passed on. -/
structure Batched (cfg : Settings) (l : Lane κ ε) (log : List (Batch κ ε)) : Prop where
  shaped : ∀ b ∈ log, b.Shaped cfg
  chain : log.IsChain Batch.Follows
  order : log.flatMap (·.docs) ++ (lastCarry log).toList <+: l.accepted
  inserted : l.insertCalls <+: log.map (·.docs)
  running : l.worker.done = false → Running cfg l log

section

variable {cfg : Settings} {l l' : Lane κ ε} {log : List (Batch κ ε)}

theorem lastCarry_append (log : List (Batch κ ε)) (b : Batch κ ε) : lastCarry (log ++ [b]) = b.carry := by
  simp [lastCarry]

/-- While the worker runs, the order follows from what it holds. -/
theorem Running.batched (h : Running cfg l log) (hshaped : ∀ b ∈ log, b.Shaped cfg)
    (hchain : log.IsChain Batch.Follows) :
    Batched cfg l log := by
  refine ⟨hshaped, hchain, ?_, ?_, fun _ => h⟩
  · rw [h.accepted]
    cases hc : lastCarry log with
    | none => simp
    | some d =>
      obtain ⟨rest, hrest⟩ := List.head?_eq_some_iff.1 (h.carried d hc)
      rw [hrest]
      exact ⟨rest, by simp⟩
  · rw [h.passed]
    exact List.prefix_append _ _

/-- A worker that has ended passes nothing on, whatever is accepted. -/
theorem Batched.ends (h : Batched cfg l log) (hd : l'.worker.done = true) (ha : l.accepted <+: l'.accepted)
    (hi : l'.insertCalls = l.insertCalls) : Batched cfg l' log :=
  ⟨h.shaped, h.chain, h.order.trans ha, hi ▸ h.inserted, fun hrun => by rw [hd] at hrun; cases hrun⟩

/-- A batch is passed on. -/
theorem Running.pass (h : Running cfg l log) {docs : List (BufferedDocument κ ε)}
    {carry : Option (BufferedDocument κ ε)} {early : Bool} (hw : l'.worker = .awaitSlot docs carry)
    (hshape : Batch.Shaped cfg ⟨docs, carry, early⟩) (hremaining : docs ++ carry.toList ++ l'.queue = l.remaining)
    (hentering : l.worker.entering = []) (ha : l'.accepted = l.accepted) (hi : l'.insertCalls = l.insertCalls) :
    Running cfg l' (log ++ [⟨docs, carry, early⟩]) ∧ ∀ b ∈ log.getLast?, b.Follows ⟨docs, carry, early⟩ := by
  have hrest : l'.remaining = carry.toList ++ l'.queue := by rw [Lane.remaining, hw]
  constructor
  · refine ⟨?_, ?_, ?_, ?_⟩
    · rw [ha, h.accepted, hrest, ← hremaining]
      simp
    · rw [lastCarry_append, hrest]
      rintro d hd
      rw [Option.mem_def] at hd
      subst hd
      rfl
    · rw [List.map_append, h.passed, hentering, hi, hw]
      simp [Worker.entering]
    · rw [hw]
      exact ⟨hshape.nonempty, hshape.documents, hshape.bytes, hshape.carried, by simp⟩
  · intro b hb d hd
    have hcarry : d ∈ lastCarry log := by
      rw [Option.mem_def] at hb hd
      rw [lastCarry, hb]
      exact hd
    have hhead := h.carried d hcarry
    obtain ⟨first, rest, hdocs⟩ := List.exists_cons_of_ne_nil hshape.nonempty
    dsimp only at hdocs
    subst hdocs
    rw [← hremaining] at hhead
    exact hhead

theorem remaining_of_entering (h : l.worker.entering = []) : l.remaining = l.worker.unpassed ++ l.queue := by
  unfold Lane.remaining
  split
  · rename_i hw
    rw [hw] at h
    cases h
  · rfl

theorem Worker.Shaped.weaken {w : Worker κ ε} {early : Bool} (h : w.Shaped cfg early) : w.Shaped cfg false := by
  cases w with
  | awaitSlot docs carry => exact ⟨h.nonempty, h.documents, h.bytes, h.carried, by simp⟩
  | awaitNext batch n get => exact h
  | _ => trivial

/-- **Worker code keeps the order of the documents, and passes on a batch when it closes one.** -/
theorem Batched.moves (h : Batched cfg l log) (hrun : l.worker.done = false) (hentering : l.worker.entering = [])
    (early : Bool) (hm : Moves l.remaining l l') (hs : l'.worker.Shaped cfg early) :
    Batched cfg l' (log ++ (l'.worker.batch early).toList) := by
  have hr := h.running hrun
  by_cases hw : ∃ docs carry, l'.worker = .awaitSlot docs carry
  · obtain ⟨docs, carry, hw⟩ := hw
    have hdocs := hm.docs
    rw [hw] at hs hdocs
    obtain ⟨hrunning, hfollows⟩ := hr.pass hw hs hdocs hentering hm.accepted hm.insertCalls
    have hbatch : (l'.worker.batch early).toList = [⟨docs, carry, early⟩] := by rw [hw]; rfl
    rw [hbatch]
    refine hrunning.batched ?_ (h.chain.append (List.IsChain.singleton _) ?_)
    · intro b hb
      rcases List.mem_append.1 hb with hb | hb
      · exact h.shaped b hb
      · cases List.mem_singleton.1 hb
        exact hs
    · intro b hb b' hb'
      rw [List.head?_singleton, Option.mem_some_iff] at hb'
      subst hb'
      exact hfollows b hb
  · have hnone : l'.worker.batch early = none ∧ l'.worker.entering = [] := by
      cases hw' : l'.worker with
      | awaitSlot docs carry => exact absurd ⟨docs, carry, hw'⟩ hw
      | _ => exact ⟨rfl, rfl⟩
    rw [hnone.1, Option.toList_none, List.append_nil]
    cases hd : l'.worker.done with
    | true => exact h.ends hd (hm.accepted ▸ List.prefix_rfl) hm.insertCalls
    | false =>
      have hsame : l'.remaining = l.remaining := by rw [remaining_of_entering hnone.2, hm.docs]
      refine Running.batched ⟨?_, ?_, ?_, hs.weaken⟩ h.shaped h.chain
      · rw [hm.accepted, hsame, hr.accepted]
      · rw [hsame]
        exact hr.carried
      · rw [hm.insertCalls, hnone.2, hr.passed, hentering]

/-- The batch at hand is passed to `insert_many`. -/
theorem Batched.inserts (h : Batched cfg l log) {docs : List (BufferedDocument κ ε)}
    {carry : Option (BufferedDocument κ ε)} (hw : l.worker = .awaitSlot docs carry) :
    Batched cfg { l with worker := .inserting docs carry, insertCalls := l.insertCalls ++ [docs] } log := by
  have hr := h.running (by rw [hw]; rfl)
  have hrest : l.remaining = carry.toList ++ l.queue := by rw [Lane.remaining, hw]
  refine Running.batched ⟨?_, ?_, ?_, trivial⟩ h.shaped h.chain
  · rw [hr.accepted, hrest]
    rfl
  · have hcarried := hr.carried
    rw [hrest] at hcarried
    exact hcarried
  · rw [hr.passed, hw]
    simp [Worker.entering]

theorem remaining_accept (l : Lane κ ε) (d : BufferedDocument κ ε) : (l.accept d).remaining = l.remaining ++ [d] := by
  simp only [Lane.remaining, Lane.accept]
  split <;> simp

theorem Batched.accept (h : Batched cfg l log) (d : BufferedDocument κ ε) : Batched cfg (l.accept d) log := by
  have hprefix : l.accepted <+: (l.accept d).accepted := List.prefix_append _ _
  cases hd : l.worker.done with
  | true => exact h.ends hd hprefix rfl
  | false =>
    have hr := h.running hd
    refine Running.batched ⟨?_, ?_, hr.passed, hr.shaped⟩ h.shaped h.chain
    · rw [remaining_accept, ← List.append_assoc, ← hr.accepted]
      rfl
    · intro c hc
      obtain ⟨rest, hrest⟩ := List.head?_eq_some_iff.1 (hr.carried c hc)
      rw [remaining_accept, hrest]
      rfl

end

/-! ## The batches of a run -/

namespace Output

variable {cfg : Settings} {rd : Reading ε} {s s' : Output κ ε} {r : StorageRoute}

/-- The batch that the step from `s` to `s'` passes to `_persist_batch`, where it runs the worker of `r`. -/
def passes (s s' : Output κ ε) (r : StorageRoute) : Input κ ε → Option (Batch κ ε)
  | .worker q expired =>
    if q = r then (s'.lanes r).worker.batch (!(s.closeRequested || expired)) else none
  | .insertDone q _ expired =>
    if q = r then (s'.lanes r).worker.batch (!(s.closeRequested || expired)) else none
  | _ => none

/-- The batches that the worker of `r` passes to `_persist_batch` on these inputs. -/
def batches [DecidableEq κ] (cfg : Settings) (rd : Reading ε) (r : StorageRoute) :
    Output κ ε → List (Input κ ε) → List (Batch κ ε)
  | _, [] => []
  | s, i :: is =>
    match step cfg rd s i with
    | some s' => (s.passes s' r i).toList ++ batches cfg rd r s' is
    | none => []

/-- What a step does to a lane, with the batch that it passes on. -/
inductive LaneMove (cfg : Settings) (s : Output κ ε) (r : StorageRoute) : Lane κ ε → Option (Batch κ ε) → Prop
  | same : LaneMove cfg s r (s.lanes r) none
  | accepts (d : BufferedDocument κ ε) : LaneMove cfg s r ((s.lanes r).accept d) none
  | gets {l : Lane κ ε} : (s.lanes r).getTask = some l → LaneMove cfg s r l none
  | resumes {expired slotFree : Bool} {p : Progress κ ε} :
      (s.lanes r).resume cfg s.connected s.closeRequested expired slotFree = some p →
      LaneMove cfg s r p.lane (p.lane.worker.batch (!(s.closeRequested || expired)))
  | confirms {expired : Bool} {batch : List (BufferedDocument κ ε)} {carry : Option (BufferedDocument κ ε)}
      {p : Progress κ ε} : (s.lanes r).worker = .inserting batch carry →
      p = Lane.runWorker cfg s.connected s.closeRequested expired
        { (s.lanes r).settle batch with inflight := [] } carry →
      LaneMove cfg s r p.lane (p.lane.worker.batch (!(s.closeRequested || expired)))
  | ends {l : Lane κ ε} : (s.lanes r).worker.done = false → l.worker.done = true →
      l.accepted = (s.lanes r).accepted → l.insertCalls = (s.lanes r).insertCalls → LaneMove cfg s r l none

/-- What a step leaves alone that is not one of `close()`; a worker fails for a reason of its own. -/
structure Beside (s s' : Output κ ε) : Prop where
  connected : s'.connected = s.connected
  closeCall : s'.closeCall = s.closeCall
  ready : ∀ p ∈ s'.workerErrors, p ∈ s.workerErrors ∨ p.2 ≠ .notReady

theorem Beside.refl (s : Output κ ε) : s.Beside s := ⟨rfl, rfl, fun _ hp => .inl hp⟩

theorem Beside.trans {t : Output κ ε} (h : s.Beside s') (h' : s'.Beside t) : s.Beside t := by
  refine ⟨h'.connected.trans h.connected, h'.closeCall.trans h.closeCall, fun p hp => ?_⟩
  rcases h'.ready p hp with hp | hp
  · exact h.ready p hp
  · exact .inr hp

theorem LaneMove.of_ne {t : Output κ ε} {q : StorageRoute} {l : Lane κ ε} (ht : t.lanes = Function.update s.lanes q l)
    (h : r ≠ q) : LaneMove cfg s r (t.lanes r) none := by
  rw [ht, Function.update_of_ne h]
  exact .same

section

variable [DecidableEq κ]

theorem giveBack_beside (s : Output κ ε) (d : BufferedDocument κ ε) (e : WriteError) :
    (s.giveBack d e).lanes = s.lanes ∧ s.Beside (s.giveBack d e) := by
  unfold giveBack
  split
  split
  · exact ⟨rfl, rfl, rfl, fun _ hp => .inl hp⟩
  · exact ⟨rfl, rfl, rfl, fun _ hp => .inl hp⟩

/-- A `write()` puts its document into the queue of its route, or changes no lane. -/
theorem tryWrite_move (q : StorageRoute) (d : BufferedDocument κ ε) (report : Callback) :
    LaneMove cfg s r ((s.tryWrite cfg q d report).lanes r) none ∧ s.Beside (s.tryWrite cfg q d report) := by
  have hput : ∀ b, LaneMove cfg s r ((s.put q d b).lanes r) none := by
    intro b
    by_cases hr : r = q
    · subst hr
      have hlane : (s.put r d b).lanes r = (s.lanes r).accept d := Function.update_self ..
      rw [hlane]
      exact .accepts d
    · have hlane : (s.put q d b).lanes r = s.lanes r := Function.update_of_ne hr ..
      rw [hlane]
      exact .same
  have hback : ∀ (t : Output κ ε) e, LaneMove cfg s r (t.lanes r) none → s.Beside t →
      LaneMove cfg s r ((t.giveBack d e).lanes r) none ∧ s.Beside (t.giveBack d e) := by
    intro t e hm hb
    obtain ⟨hl, hbeside⟩ := giveBack_beside t d e
    rw [hl]
    exact ⟨hm, hb.trans hbeside⟩
  unfold tryWrite
  split
  · rename_i b _
    unfold enqueue
    dsimp only
    split
    · exact hback _ _ .same ⟨rfl, rfl, fun _ hp => .inl hp⟩
    · cases report with
      | returns => exact ⟨hput b, rfl, rfl, fun _ hp => .inl hp⟩
      | raises => exact hback _ _ (hput b) ⟨rfl, rfl, fun _ hp => .inl hp⟩
  · exact ⟨.same, rfl, rfl, fun _ hp => .inl hp⟩
  · exact ⟨.same, rfl, rfl, fun _ hp => .inl hp⟩

end

/-- What a worker's code leaves of the output around its lane. -/
theorem proceed_beside {t : Output κ ε} (ht : s.Beside t) (q : StorageRoute) (p : Progress κ ε)
    (hp : ∀ l e, p = .fails l e → e ≠ .notReady) : (t.proceed q p).lanes = Function.update t.lanes q p.lane ∧
      s.Beside (t.proceed q p) := by
  cases p with
  | goes l => exact ⟨rfl, ht.connected, ht.closeCall, ht.ready⟩
  | fails l e =>
    refine ⟨rfl, ht.connected, ht.closeCall, fun x hx => ?_⟩
    rcases List.mem_append.1 hx with hx | hx
    · exact ht.ready x hx
    · cases List.mem_singleton.1 hx
      exact .inr (hp l e rfl)

/-- `_confirm_batch` changes the lane of `r` as `settle` says. -/
theorem confirmBatch_beside (s : Output κ ε) (q : StorageRoute) (ds : List (BufferedDocument κ ε)) :
    (∀ t, s.confirmBatch q ds = .ok t → t.lanes = Function.update s.lanes q ((s.lanes q).settle ds) ∧
      t.closeRequested = s.closeRequested ∧ s.Beside t) ∧
    ∀ t e, s.confirmBatch q ds = .error (t, e) → t.lanes = Function.update s.lanes q ((s.lanes q).settle ds) ∧
      s.Beside t ∧ e ≠ .notReady := by
  unfold confirmBatch
  dsimp only
  split
  · refine ⟨by simp, fun t e h => ?_⟩
    cases h
    exact ⟨rfl, ⟨rfl, rfl, fun _ hp => .inl hp⟩, by decide⟩
  · split
    · refine ⟨fun t h => ?_, by simp⟩
      cases h
      exact ⟨rfl, rfl, rfl, rfl, fun _ hp => .inl hp⟩
    · refine ⟨by simp, fun t e h => ?_⟩
      cases h
      exact ⟨rfl, ⟨rfl, rfl, fun _ hp => .inl hp⟩, by decide⟩

/-- A worker that ends by an exception out of `_persist_batch`. -/
theorem insertFails_move {t : Output κ ε} {q : StorageRoute} {l : Lane κ ε} (ht : t.lanes = Function.update s.lanes q l)
    (ha : l.accepted = (s.lanes q).accepted) (hi : l.insertCalls = (s.lanes q).insertCalls) (hb : s.Beside t)
    (hd : (s.lanes q).worker.done = false) (passed : List (BufferedDocument κ ε))
    (carry : Option (BufferedDocument κ ε)) {e : WorkerError} (he : e ≠ .notReady) (outcome : InsertOutcome)
    (expired : Bool) :
    LaneMove cfg s r ((t.insertFails q passed carry e).lanes r)
      (s.passes (t.insertFails q passed carry e) r (.insertDone q outcome expired)) ∧
      s.Beside (t.insertFails q passed carry e) := by
  have hlanes : (t.insertFails q passed carry e).lanes =
      Function.update s.lanes q { l with worker := .failed passed carry.toList } := by
    simp [insertFails, workerFails, notifyAll, setLane, ht]
  refine ⟨?_, (proceed_beside hb q (.fails { t.lanes q with worker := .failed passed carry.toList } e) ?_).2⟩
  · by_cases hr : q = r
    · subst hr
      simp only [passes, if_true, hlanes, Function.update_self]
      exact .ends hd rfl ha hi
    · simp only [passes, if_neg hr]
      exact .of_ne hlanes (Ne.symm hr)
  · rintro l' e' h
    cases h
    exact he

/-- With the collections at hand, worker code suspends or returns. -/
theorem goes_of_ends {closeRequested : Bool} {p : Progress κ ε} (h : p.Ends true closeRequested) (l : Lane κ ε)
    (e : WorkerError) : p ≠ .fails l e := by
  rintro rfl
  cases h with
  | raises hc _ => cases hc

theorem resume_goes {closeRequested expired slotFree : Bool} {l : Lane κ ε} {p : Progress κ ε}
    (h : l.resume cfg true closeRequested expired slotFree = some p) (l' : Lane κ ε) (e : WorkerError) :
    p ≠ .fails l' e := by
  rcases resume_ends h with ⟨-, rfl⟩ | ⟨-, hends⟩
  · simp
  · exact goes_of_ends hends l' e

theorem insertDone_move (hc : s.connected = true) {q : StorageRoute} {batch : List (BufferedDocument κ ε)}
    {carry : Option (BufferedDocument κ ε)} (hw : (s.lanes q).worker = .inserting batch carry) (outcome : InsertOutcome)
    (expired : Bool) :
    LaneMove cfg s r ((s.insertDone cfg q batch carry outcome expired).lanes r)
      (s.passes (s.insertDone cfg q batch carry outcome expired) r (.insertDone q outcome expired)) ∧
      s.Beside (s.insertDone cfg q batch carry outcome expired) := by
  have hd : (s.lanes q).worker.done = false := by rw [hw]; rfl
  have hself : s.lanes = Function.update s.lanes q (s.lanes q) := (Function.update_eq_self ..).symm
  cases outcome with
  | success =>
    rw [insertDone]
    cases hconfirm : s.confirmBatch q batch with
    | ok t =>
      obtain ⟨hlanes, hclose, hbeside⟩ := (confirmBatch_beside s q batch).1 t hconfirm
      have hlane : t.lanes q = (s.lanes q).settle batch := by rw [hlanes, Function.update_self]
      have hends := runWorker_ends cfg s.connected s.closeRequested expired
        { (s.lanes q).settle batch with inflight := [] } carry
      dsimp only
      rw [hlane, hclose, hbeside.connected]
      generalize hp : Lane.runWorker cfg s.connected s.closeRequested expired
        { (s.lanes q).settle batch with inflight := [] } carry = p at hends
      rw [hc] at hends
      obtain ⟨hproceed, hb⟩ := proceed_beside hbeside q p fun l e h => absurd h (goes_of_ends hends l e)
      rw [hlanes, Function.update_idem] at hproceed
      refine ⟨?_, hb⟩
      by_cases hr : q = r
      · subst hr
        simp only [passes, if_true, hproceed, Function.update_self]
        exact .confirms hw hp.symm
      · simp only [passes, if_neg hr]
        exact .of_ne hproceed (Ne.symm hr)
    | error p =>
      obtain ⟨hlanes, hbeside, he⟩ := (confirmBatch_beside s q batch).2 p.1 p.2 hconfirm
      exact insertFails_move hlanes rfl rfl hbeside hd _ _ he _ _
  | bulkWriteError nInserted =>
    simp only [insertDone]
    generalize (max 0 (min (batch.length : ℤ) nInserted)).toNat = n
    by_cases h0 : n = 0
    · rw [if_pos h0]
      exact insertFails_move (t := s.setLane q { s.lanes q with inflight := batch.drop n }) (e := .bulkWrite)
        rfl rfl rfl ⟨rfl, rfl, fun _ hp => .inl hp⟩ hd _ _ (by decide) _ _
    · rw [if_neg h0]
      cases hconfirm : s.confirmBatch q (batch.take n) with
      | ok t =>
        obtain ⟨hlanes, hclose, hbeside⟩ := (confirmBatch_beside s q (batch.take n)).1 t hconfirm
        refine insertFails_move (t := t.setLane q { t.lanes q with inflight := batch.drop n })
          (l := { t.lanes q with inflight := batch.drop n }) (e := .bulkWrite) ?_ ?_ ?_
          ⟨hbeside.connected, hbeside.closeCall, hbeside.ready⟩ hd _ _ (by decide) _ _
        · rw [setLane, hlanes, Function.update_idem]
        · rw [hlanes, Function.update_self]
          rfl
        · rw [hlanes, Function.update_self]
          rfl
      | error p =>
        obtain ⟨hlanes, hbeside, he⟩ := (confirmBatch_beside s q (batch.take n)).2 p.1 p.2 hconfirm
        exact insertFails_move hlanes rfl rfl hbeside hd _ _ he _ _
  | otherError => exact insertFails_move hself rfl rfl (.refl s) hd _ _ (by decide) _ _
  | timeout => exact insertFails_move hself rfl rfl (.refl s) hd _ _ (by decide) _ _

/-! ### Steps and runs -/

/-- Where the collections are gone, or the client is being closed, every worker is done; so none is left without its
collection. -/
structure Present (s : Output κ ε) : Prop where
  gone : (s.connected = false ∨ ∃ timedOut, s.closeCall = .closingClient timedOut) → ∀ r, (s.lanes r).worker.done = true
  ready : ∀ p ∈ s.workerErrors, p.2 ≠ .notReady

theorem Present.connected (hs : s.Present) (hd : (s.lanes r).worker.done = false) : s.connected = true := by
  cases hc : s.connected with
  | true => rfl
  | false =>
    have hdone := hs.gone (.inl hc) r
    rw [hd] at hdone
    cases hdone

/-- A worker that is done stays so. -/
theorem LaneMove.done {l : Lane κ ε} {entry : Option (Batch κ ε)} (h : LaneMove cfg s r l entry)
    (hd : (s.lanes r).worker.done = true) : l.worker.done = true := by
  cases h with
  | same => exact hd
  | accepts d => exact hd
  | gets hl =>
    unfold Lane.getTask at hl
    split at hl
    · rename_i hw _
      rw [hw] at hd
      cases hd
    · rename_i hw _
      rw [hw] at hd
      cases hd
    · cases hl
  | resumes hp =>
    rw [resume_done hp] at hd
    cases hd
  | confirms hw _ =>
    rw [hw] at hd
    cases hd
  | ends hrun _ _ _ =>
    rw [hrun] at hd
    cases hd

theorem Beside.present (h : s.Beside s') (hs : s.Present)
    (hdone : ∀ r, (s.lanes r).worker.done = true → (s'.lanes r).worker.done = true) : s'.Present := by
  refine ⟨fun hgone r => hdone r (hs.gone ?_ r), fun p hp => ?_⟩
  · rw [h.connected, h.closeCall] at hgone
    exact hgone
  · rcases h.ready p hp with hp | hp
    · exact hs.ready p hp
    · exact hp

/-- The code after `insert_many` moves counters that the batches do not depend on. -/
theorem batched_settle {l : Lane κ ε} {log : List (Batch κ ε)} (h : Batched cfg l log)
    (ds : List (BufferedDocument κ ε)) :
    Batched cfg { l.settle ds with inflight := [] } log :=
  ⟨h.shaped, h.chain, h.order, h.inserted, fun hd =>
    have hr := h.running hd
    ⟨hr.accepted, hr.carried, hr.passed, hr.shaped⟩⟩

/-- **A step keeps the batches of a lane in order, and adds the one it passes on.** -/
theorem LaneMove.batched {l : Lane κ ε} {log : List (Batch κ ε)} {entry : Option (Batch κ ε)} (hs : s.Present)
    (hb : Batched cfg (s.lanes r) log) (h : LaneMove cfg s r l entry) : Batched cfg l (log ++ entry.toList) := by
  cases h with
  | same => simpa using hb
  | accepts d => simpa using hb.accept d
  | gets hl =>
    have hm := getTask_moves hl
    unfold Lane.getTask at hl
    split at hl
    · rename_i hw _
      cases hl
      rw [← remaining_of_entering (by rw [hw]; rfl)] at hm
      exact hb.moves (by rw [hw]; rfl) (by rw [hw]; rfl) false hm trivial
    · rename_i hw _
      cases hl
      have hshaped := (hb.running (by rw [hw]; rfl)).shaped
      rw [hw] at hshaped
      rw [← remaining_of_entering (by rw [hw]; rfl)] at hm
      exact hb.moves (by rw [hw]; rfl) (by rw [hw]; rfl) false hm hshaped
    · cases hl
  | @resumes expired slotFree p hp =>
    have hd := resume_done hp
    have hc := hs.connected hd
    by_cases hw : ∃ docs carry, (s.lanes r).worker = .awaitSlot docs carry
    · -- the batch at hand goes to `insert_many`
      obtain ⟨docs, carry, hw⟩ := hw
      simp only [Lane.resume, hw, Option.ite_none_right_eq_some, Option.some.injEq] at hp
      obtain ⟨-, rfl⟩ := hp
      simpa [Progress.lane, Worker.batch] using hb.inserts hw
    · have hentering : (s.lanes r).worker.entering = [] := by
        cases hw' : (s.lanes r).worker with
        | awaitSlot docs carry => exact absurd ⟨docs, carry, hw'⟩ hw
        | _ => rfl
      rcases resume_moves hp with ⟨-, hm⟩ | ⟨docs, carry, hw', -⟩
      · rw [← remaining_of_entering hentering] at hm
        exact hb.moves hd hentering _ hm (resume_shaped (hb.running hd).shaped (hc ▸ hp))
      · exact absurd ⟨docs, carry, hw'⟩ hw
  | @confirms expired batch carry p hw hp =>
    subst hp
    have hd : (s.lanes r).worker.done = false := by rw [hw]; rfl
    have hentering : (s.lanes r).worker.entering = [] := by rw [hw]; rfl
    have hm := runWorker_moves cfg s.connected s.closeRequested expired
      { (s.lanes r).settle batch with inflight := [] } carry
    have hremaining : carry.toList ++ (s.lanes r).queue = (s.lanes r).remaining := by rw [Lane.remaining, hw]; rfl
    refine (batched_settle hb batch).moves hd hentering _ (hremaining ▸ hm) ?_
    rw [hs.connected hd]
    exact runWorker_shaped _ _
  | ends _ hd ha hi =>
    rw [Option.toList_none, List.append_nil]
    exact hb.ends hd (ha ▸ List.prefix_rfl) hi

variable [DecidableEq κ]

/-- **What a step does to a lane, and what it leaves of the rest.** -/
theorem step_move (hs : s.Present) {i : Input κ ε} (h : (machine cfg rd).step s i = some s') :
    (∀ r, LaneMove cfg s r (s'.lanes r) (s.passes s' r i)) ∧ s'.Present := by
  have hbeside : (∀ r, LaneMove cfg s r (s'.lanes r) (s.passes s' r i)) ∧ s.Beside s' →
      (∀ r, LaneMove cfg s r (s'.lanes r) (s.passes s' r i)) ∧ s'.Present :=
    fun ⟨hm, hb⟩ => ⟨hm, hb.present hs fun r => (hm r).done⟩
  cases effect_of_step h with
  | @write k event report hk =>
    apply hbeside
    unfold write
    split
    · exact ⟨fun _ => .same, rfl, rfl, fun _ hp => .inl hp⟩
    · split
      · exact ⟨fun _ => .same, rfl, rfl, fun _ hp => .inl hp⟩
      · split
        · exact ⟨fun _ => .same, rfl, rfl, fun _ hp => .inl hp⟩
        · split
          · exact ⟨fun _ => .same, rfl, rfl, fun _ hp => .inl hp⟩
          · exact ⟨fun _ => (tryWrite_move _ _ _).1, (tryWrite_move (r := .control) _ _ _).2⟩
  | resumeWrite _ => exact hbeside ⟨fun _ => (tryWrite_move _ _ _).1, (tryWrite_move (r := .control) _ _ _).2⟩
  | cancelWrite _ => exact hbeside ⟨fun _ => .same, rfl, rfl, fun _ hp => .inl hp⟩
  | @getTask q l hl =>
    refine hbeside ⟨fun r => ?_, rfl, rfl, fun _ hp => .inl hp⟩
    by_cases hr : r = q
    · subst hr
      have hlane : (s.setLane r l).lanes r = l := Function.update_self ..
      rw [hlane]
      exact .gets hl
    · exact .of_ne rfl hr
  | @worker q expired p hp =>
    have hc := hs.connected (resume_done hp)
    obtain ⟨hlanes, hb⟩ := proceed_beside (.refl s) q p fun l e h => absurd h (resume_goes (hc ▸ hp) l e)
    refine hbeside ⟨fun r => ?_, hb⟩
    by_cases hr : q = r
    · subst hr
      simp only [passes, if_true, hlanes, Function.update_self]
      exact .resumes hp
    · simp only [passes, if_neg hr]
      exact .of_ne hlanes (Ne.symm hr)
  | @insertDone q batch carry outcome expired hw =>
    have hc := hs.connected (r := q) (by rw [hw]; rfl)
    exact hbeside ⟨fun r => (insertDone_move hc hw outcome expired).1,
      (insertDone_move (r := q) hc hw outcome expired).2⟩
  | @cancelWorker q _ hd =>
    refine hbeside ⟨fun r => ?_, rfl, rfl, fun _ hp => .inl hp⟩
    by_cases hr : r = q
    · subst hr
      exact .ends hd (by simp [setLane, Worker.done]) (by simp [setLane]) (by simp [setLane])
    · exact .of_ne rfl hr
  | close _ _ =>
    refine ⟨fun _ => .same, fun hgone => ?_, hs.ready⟩
    rcases hgone with hc | ⟨timedOut, hclosing⟩
    · exact hs.gone (.inl hc)
    · cases hclosing
  | workersDone _ hall => exact ⟨fun _ => .same, fun _ => all_done hall, hs.ready⟩
  | shutdownTimeout _ =>
    refine ⟨fun _ => .same, fun hgone => ?_, hs.ready⟩
    rcases hgone with hc | ⟨timedOut, hclosing⟩
    · exact hs.gone (.inl hc)
    · cases hclosing
  | clientClosed hclosing => exact ⟨fun _ => .same, fun _ => hs.gone (.inr ⟨_, hclosing⟩), hs.ready⟩
  | cancelClose _ =>
    refine ⟨fun _ => .same, fun hgone => ?_, hs.ready⟩
    rcases hgone with hc | ⟨timedOut, hclosing⟩
    · exact hs.gone (.inl hc)
    · cases hclosing
  | reportFailure _ => exact hbeside ⟨fun _ => .same, rfl, rfl, fun _ hp => .inl hp⟩

/-- The batches of a run, after those in the log. -/
theorem path_batched {is : List (Input κ ε)} (h : (machine cfg rd).Path (fun _ _ => True) s is s') (hs : s.Present)
    {log : List (Batch κ ε)} (hb : Batched cfg (s.lanes r) log) :
    Batched cfg (s'.lanes r) (log ++ batches cfg rd r s is) ∧ s'.Present := by
  induction h generalizing log with
  | nil s => exact ⟨by simpa [batches] using hb, hs⟩
  | @cons s s₁ s' i is _ hstep _ ih =>
    obtain ⟨hm, hs₁⟩ := step_move hs hstep
    have hnext := ih hs₁ ((hm r).batched hs hb)
    have hlog : batches cfg rd r s (i :: is) = (s.passes s₁ r i).toList ++ batches cfg rd r s₁ is := by
      rw [batches, show step cfg rd s i = some s₁ from hstep]
    rw [hlog, ← List.append_assoc]
    exact hnext

omit [DecidableEq κ] in
theorem opened_batched (cfg : Settings) (r : StorageRoute) : Batched cfg ((opened : Output κ ε).lanes r) [] :=
  Running.batched ⟨rfl, by simp [lastCarry], rfl, trivial⟩ (List.forall_mem_nil _) List.IsChain.nil

omit [DecidableEq κ] in
theorem opened_present : (opened : Output κ ε).Present := by
  refine ⟨fun hgone => ?_, List.forall_mem_nil _⟩
  rcases hgone with hc | ⟨timedOut, hclosing⟩
  · cases hc
  · cases hclosing

end Output

/-! ## Main result -/

/-- What the batches of a route have to be. -/
structure WellBatched (cfg : Settings) (log : List (Batch κ ε)) (l : Lane κ ε) : Prop where
  /-- none is empty, none exceeds a limit unless by one document, and the limits are why it was closed -/
  shaped : ∀ b ∈ log, b.Shaped cfg
  /-- the document that did not fit is the first one of the next batch -/
  follows : log.IsChain Batch.Follows
  /-- the batches and the document that did not fit are the accepted documents, in order -/
  order : log.flatMap (·.docs) ++ (lastCarry log).toList <+: l.accepted
  /-- what is passed to `insert_many` is the batches, in order -/
  inserted : l.insertCalls <+: log.map (·.docs)

/-- **Every batch of every run is within the limits and is closed for one of its reasons, and the document that did not
fit begins the next one**; no worker fails for want of its collection, so these are all the calls of
`_persist_batch`. -/
theorem batch_shape [DecidableEq κ] {cfg : Settings} {rd : Reading ε} {is : List (Output.Input κ ε)} {s : Output κ ε}
    (h : (Output.machine cfg rd).Path (fun _ _ => True) .opened is s) (r : StorageRoute) :
    WellBatched cfg (Output.batches cfg rd r .opened is) (s.lanes r) ∧ ∀ p ∈ s.workerErrors, p.2 ≠ .notReady := by
  obtain ⟨hb, hs⟩ := Output.path_batched h Output.opened_present (Output.opened_batched cfg r)
  rw [List.nil_append] at hb
  exact ⟨⟨hb.shaped, hb.chain, hb.order, hb.inserted⟩, hs.ready⟩

/-- Room for two documents of `Output.routeEvents` in a batch. -/
def pairBatches : Settings := (Settings.ofArguments 3 100 3 25 1).get (by decide)

/-- Three documents arrive, two are inserted, and the deadline passes for the third one. -/
def pairAndCarry : List (Output.Input ℕ StorageRoute) :=
  [.write 0 .aggTrade .returns, .write 1 .aggTrade .returns, .write 2 .aggTrade .returns, .worker .aggTrade false,
    .worker .aggTrade false, .insertDone .aggTrade .success false, .worker .aggTrade true]

/-- The third document does not fit and makes up the second batch. -/
theorem batch_shape_carried :
    Output.batches pairBatches Output.routeEvents .aggTrade .opened pairAndCarry =
      [⟨[⟨0, .aggTrade, 10⟩, ⟨1, .aggTrade, 10⟩], some ⟨2, .aggTrade, 10⟩, true⟩, ⟨[⟨2, .aggTrade, 10⟩], none, false⟩] ∧
    ∃ s : Output ℕ StorageRoute,
      (Output.machine pairBatches Output.routeEvents).Path (fun _ _ => True) .opened pairAndCarry s ∧
      WellBatched pairBatches (Output.batches pairBatches Output.routeEvents .aggTrade .opened pairAndCarry)
        (s.lanes .aggTrade) := by
  obtain ⟨s, hs, -⟩ := Machine.exists_path_of_check (M := Output.machine pairBatches Output.routeEvents)
    (P := fun _ _ => True) (p := fun _ => true) .opened pairAndCarry (by decide)
  exact ⟨by decide, s, hs, (batch_shape hs .aggTrade).1⟩

end BinanceCollector.MultiMongo
