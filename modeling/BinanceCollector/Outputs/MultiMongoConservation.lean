import Mathlib.Algebra.BigOperators.Group.List.Basic
import BinanceCollector.Lib.Ledger
import BinanceCollector.Outputs.MultiMongo

/-!
# Conservation in `MongoMultiCollectionOutput`

What a lane holds (`Lane.held`) is what its worker has and what its queue has, in order. `Lane.Inv` relates it to the
histories and to the counters of the lane, `Output.Inv` adds the buffer budget.

- Worker code moves documents and nothing else (`Moves`): `fillBatch_docs`, `collectBatch_moves`, `runWorker_moves`,
  `resume_moves`.
- `InsertEnds`, `insertDone_ends`: how the code after `insert_many` ends.
- A step of the event loop, with callbacks that return, keeps `Output.Inv` and is an entry of the ledger or leaves the
  ledger alone (`step_sound`); so every run refines the ledger (`path_refines`) and only adds to the histories
  (`histories_grow`).
-/

namespace BinanceCollector.MultiMongo

open Steps

variable {κ ε : Type*}

/-! ## What a lane holds -/

section Lanes

variable {cfg : Settings} {connected closeRequested expired slotFree : Bool}

/-- The documents of the lane that are accepted and not confirmed: those of the worker, then the queue. -/
def Lane.held (l : Lane κ ε) : List (BufferedDocument κ ε) := l.worker.passed ++ l.worker.unpassed ++ l.queue

/-- Where a piece of worker code leaves the lane. -/
def Progress.lane : Progress κ ε → Lane κ ε
  | .goes l => l
  | .fails l _ => l

/-- From `l`, code that holds the documents `docs` and has passed none of them on leads to `l'`. -/
structure Moves (docs : List (BufferedDocument κ ε)) (l l' : Lane κ ε) : Prop where
  accepted : l'.accepted = l.accepted
  insertCalls : l'.insertCalls = l.insertCalls
  confirmed : l'.confirmed = l.confirmed
  pendingDocuments : l'.pendingDocuments = l.pendingDocuments
  pendingBytes : l'.pendingBytes = l.pendingBytes
  unfinishedTasks : l'.unfinishedTasks = l.unfinishedTasks
  passed : l'.worker.passed = []
  docs : l'.worker.unpassed ++ l'.queue = docs

theorem Moves.held {docs : List (BufferedDocument κ ε)} {l l' : Lane κ ε} (h : Moves docs l l') : l'.held = docs := by
  rw [Lane.held, h.passed, List.nil_append, h.docs]

/-- A batch is filled from the documents at hand, in order, and nothing is lost. -/
theorem fillBatch_docs (cfg : Settings) : ∀ (queue batch : List (BufferedDocument κ ε)) (n : ℕ),
    match fillBatch cfg batch n queue with
    | .starved batch' _ => batch' = batch ++ queue
    | .closed batch' carry queue' => batch' ++ carry.toList ++ queue' = batch ++ queue
  | [], batch, n => by
    rw [fillBatch]
    by_cases hmax : batch.length < cfg.batchMaxDocuments <;> simp [hmax]
  | candidate :: queue, batch, n => by
    have ih := fillBatch_docs cfg queue (batch ++ [candidate]) (n + candidate.bsonSize)
    rw [fillBatch]
    by_cases hmax : batch.length < cfg.batchMaxDocuments
    · by_cases hfit : cfg.batchMaxBytes < n + candidate.bsonSize
      · simp [hmax, hfit]
      · by_cases hfull : cfg.batchMaxBytes ≤ n + candidate.bsonSize
        · simp [hmax, hfit, hfull]
        · simpa [hmax, hfit, hfull] using ih
    · simp [hmax]

/-- The moves do not depend on the worker before. -/
theorem Moves.worker {docs : List (BufferedDocument κ ε)} {l l' : Lane κ ε} (h : Moves docs l l') (w : Worker κ ε) :
    Moves docs { l with worker := w } l' :=
  ⟨h.accepted, h.insertCalls, h.confirmed, h.pendingDocuments, h.pendingBytes, h.unfinishedTasks, h.passed, h.docs⟩

theorem persistBatch_moves (l : Lane κ ε) (batch : List (BufferedDocument κ ε))
    (carry : Option (BufferedDocument κ ε)) :
    Moves (batch ++ carry.toList ++ l.queue) l (l.persistBatch connected batch carry).lane := by
  unfold Lane.persistBatch
  split <;> exact ⟨rfl, rfl, rfl, rfl, rfl, rfl, rfl, rfl⟩

theorem Moves.queue {docs queue : List (BufferedDocument κ ε)} {l l' : Lane κ ε}
    (h : Moves docs { l with queue := queue } l') : Moves docs l l' :=
  ⟨h.accepted, h.insertCalls, h.confirmed, h.pendingDocuments, h.pendingBytes, h.unfinishedTasks, h.passed, h.docs⟩

theorem collectBatch_moves (l : Lane κ ε) (batch candidates : List (BufferedDocument κ ε)) (n : ℕ) :
    Moves (batch ++ candidates) l
      (l.collectBatch cfg connected closeRequested expired batch n candidates).lane := by
  have h := fillBatch_docs cfg candidates batch n
  unfold Lane.collectBatch
  cases hf : fillBatch cfg batch n candidates with
  | starved batch' m =>
    rw [hf] at h
    subst h
    dsimp only
    split
    · simpa using (persistBatch_moves { l with queue := [] } (batch ++ candidates) none).queue
    · exact ⟨rfl, rfl, rfl, rfl, rfl, rfl, rfl, by simp [Progress.lane, Worker.unpassed, GetTask.docs]⟩
  | closed batch' carry queue =>
    rw [hf] at h
    rw [← h]
    exact (persistBatch_moves { l with queue := queue } batch' carry).queue

theorem startBatch_moves (l : Lane κ ε) (first : BufferedDocument κ ε) :
    Moves (first :: l.queue) l (l.startBatch cfg connected closeRequested expired first).lane :=
  collectBatch_moves l [first] l.queue first.bsonSize

theorem runWorker_moves (cfg : Settings) (connected closeRequested expired : Bool) (l : Lane κ ε)
    (carry : Option (BufferedDocument κ ε)) :
    Moves (carry.toList ++ l.queue) l (l.runWorker cfg connected closeRequested expired carry).lane := by
  unfold Lane.runWorker
  cases carry with
  | some first => exact startBatch_moves l first
  | none =>
    cases hq : l.queue with
    | cons first queue =>
      exact (startBatch_moves { l with queue := queue } first).queue
    | nil =>
      dsimp only
      split <;> exact ⟨rfl, rfl, rfl, rfl, rfl, rfl, rfl, rfl⟩

theorem getTask_moves {l l' : Lane κ ε} (h : l.getTask = some l') :
    Moves (l.worker.unpassed ++ l.queue) l l' := by
  unfold Lane.getTask at h
  split at h
  · rename_i hw hq
    cases h
    exact ⟨rfl, rfl, rfl, rfl, rfl, rfl, rfl, by simp [Worker.unpassed, GetTask.docs, hw, hq]⟩
  · rename_i hw hq
    cases h
    exact ⟨rfl, rfl, rfl, rfl, rfl, rfl, rfl, by simp [Worker.unpassed, GetTask.docs, hw, hq]⟩
  · cases h

/-- A resumed worker moves its documents, or passes its batch to `insert_many`. -/
theorem resume_moves {l : Lane κ ε} {p : Progress κ ε}
    (h : l.resume cfg connected closeRequested expired slotFree = some p) :
    (l.worker.passed = [] ∧ Moves (l.worker.unpassed ++ l.queue) l p.lane) ∨
    ∃ batch carry, l.worker = .awaitSlot batch carry ∧
      p = .goes { l with worker := .inserting batch carry, insertCalls := l.insertCalls ++ [batch] } := by
  unfold Lane.resume at h
  split at h
  · rename_i hw
    cases h
    exact .inl ⟨by rw [hw]; rfl,
      by simpa [hw, Worker.unpassed] using runWorker_moves cfg connected closeRequested expired l none⟩
  · rename_i d hw
    cases h
    exact .inl ⟨by rw [hw]; rfl, rfl, rfl, rfl, rfl, rfl, rfl, rfl, by
      simp [Progress.lane, Worker.unpassed, GetTask.docs, hw]⟩
  · rename_i hw
    split at h
    · split at h
      · rename_i hq
        cases h
        exact .inl ⟨by rw [hw]; rfl, rfl, rfl, rfl, rfl, rfl, rfl, rfl, by
          simp [Progress.lane, Worker.unpassed, GetTask.docs, hw, hq]⟩
      · rename_i hq
        cases h
        exact .inl ⟨by rw [hw]; rfl, rfl, rfl, rfl, rfl, rfl, rfl, rfl, by
          simp [Progress.lane, Worker.unpassed, GetTask.docs, hw]⟩
    · cases h
  · rename_i first hw
    cases h
    exact .inl ⟨by rw [hw]; rfl, by simpa [hw, Worker.unpassed] using startBatch_moves l first⟩
  · rename_i hw
    cases h
    exact .inl ⟨by rw [hw]; rfl, rfl, rfl, rfl, rfl, rfl, rfl, rfl, by
      simp [Progress.lane, Worker.unpassed, hw]⟩
  · rename_i batch n d hw
    cases h
    exact .inl ⟨by rw [hw]; rfl,
      by simpa [hw, Worker.unpassed, GetTask.docs] using collectBatch_moves l batch (d :: l.queue) n⟩
  · rename_i batch n hw
    split at h
    · cases h
      exact .inl ⟨by rw [hw]; rfl, by
        simpa [hw, Worker.unpassed, GetTask.docs] using persistBatch_moves l batch none⟩
    · cases h
  · rename_i batch carry hw
    split at h
    · cases h
      exact .inr ⟨batch, carry, hw, rfl⟩
    · cases h
  · cases h

/-- The worker has decided to return: it takes no further document. -/
def Worker.left : Worker κ ε → Bool
  | .settleFirst none => true
  | .returned => true
  | _ => false

/-- How worker code ends: it suspends, it leaves once the close is requested and its queue is empty, or it raises
because the collections are gone. -/
inductive Progress.Ends (connected closeRequested : Bool) : Progress κ ε → Prop
  | suspends {l : Lane κ ε} : l.worker.done = false → l.worker.left = false → Ends connected closeRequested (.goes l)
  | leaves {l : Lane κ ε} :
      l.worker.left = true → l.queue = [] → closeRequested = true → Ends connected closeRequested (.goes l)
  | raises {l : Lane κ ε} {unpassed : List (BufferedDocument κ ε)} :
      connected = false → l.worker = .failed [] unpassed → Ends connected closeRequested (.fails l .notReady)

theorem persistBatch_ends (l : Lane κ ε) (batch : List (BufferedDocument κ ε))
    (carry : Option (BufferedDocument κ ε)) : (l.persistBatch connected batch carry).Ends connected closeRequested := by
  unfold Lane.persistBatch
  cases connected
  · exact .raises rfl rfl
  · exact .suspends rfl rfl

theorem collectBatch_ends (l : Lane κ ε) (batch candidates : List (BufferedDocument κ ε)) (n : ℕ) :
    (l.collectBatch cfg connected closeRequested expired batch n candidates).Ends connected closeRequested := by
  unfold Lane.collectBatch
  split
  · split
    · exact persistBatch_ends _ _ _
    · exact .suspends rfl rfl
  · exact persistBatch_ends _ _ _

theorem runWorker_ends (cfg : Settings) (connected closeRequested expired : Bool) (l : Lane κ ε)
    (carry : Option (BufferedDocument κ ε)) :
    (l.runWorker cfg connected closeRequested expired carry).Ends connected closeRequested := by
  unfold Lane.runWorker
  split
  · exact collectBatch_ends _ _ _ _
  · exact collectBatch_ends _ _ _ _
  · rename_i hq
    split
    · exact .leaves rfl hq ‹_›
    · exact .suspends rfl rfl

/-- A resumed worker that has left returns; any other one ends as worker code does. -/
theorem resume_ends {l : Lane κ ε} {p : Progress κ ε}
    (h : l.resume cfg connected closeRequested expired slotFree = some p) :
    (l.worker.left = true ∧ p = .goes { l with worker := .returned }) ∨
      l.worker.left = false ∧ p.Ends connected closeRequested := by
  unfold Lane.resume at h
  split at h
  · rename_i hw; cases h; exact .inr ⟨by rw [hw]; rfl, runWorker_ends _ _ _ _ _ _⟩
  · rename_i hw; cases h; exact .inr ⟨by rw [hw]; rfl, .suspends rfl rfl⟩
  · rename_i hw
    split at h
    · rename_i hc
      split at h
      · cases h; exact .inr ⟨by rw [hw]; rfl, .suspends rfl rfl⟩
      · rename_i hq; cases h; exact .inr ⟨by rw [hw]; rfl, .leaves rfl hq hc⟩
    · cases h
  · rename_i hw; cases h; exact .inr ⟨by rw [hw]; rfl, collectBatch_ends _ _ _ _⟩
  · rename_i hw; cases h; exact .inl ⟨by rw [hw]; rfl, rfl⟩
  · rename_i hw; cases h; exact .inr ⟨by rw [hw]; rfl, collectBatch_ends _ _ _ _⟩
  · rename_i hw
    split at h
    · cases h; exact .inr ⟨by rw [hw]; rfl, persistBatch_ends _ _ _⟩
    · cases h
  · rename_i hw
    split at h
    · cases h; exact .inr ⟨by rw [hw]; rfl, .suspends rfl rfl⟩
    · cases h
  · cases h

theorem resume_done {l : Lane κ ε} {p : Progress κ ε}
    (h : l.resume cfg connected closeRequested expired slotFree = some p) : l.worker.done = false := by
  unfold Lane.resume at h
  cases hw : l.worker <;> simp_all [Worker.done]

theorem Progress.Ends.notReady {p : Progress κ ε} (h : p.Ends connected closeRequested) {l : Lane κ ε}
    {e : WorkerError} (hp : p = .fails l e) : e = .notReady := by
  cases h <;> cases hp
  rfl

theorem resume_notReady {l l' : Lane κ ε} {e : WorkerError}
    (h : l.resume cfg connected closeRequested expired slotFree = some (.fails l' e)) : e = .notReady := by
  rcases resume_ends h with ⟨-, h⟩ | ⟨-, h⟩
  · cases h
  · exact h.notReady rfl

/-! ## The lane invariant -/

theorem byteCount_append (ds es : List (BufferedDocument κ ε)) :
    byteCount (ds ++ es) = byteCount ds + byteCount es := by
  simp [byteCount]

/-- Histories, contents and counters of a lane agree. -/
structure Lane.Inv (l : Lane κ ε) : Prop where
  accepted : l.accepted = l.confirmed ++ l.held
  inserted : l.insertCalls.flatten = l.confirmed ++ l.worker.passed
  pendingDocuments : l.pendingDocuments = l.held.length
  pendingBytes : l.pendingBytes = byteCount l.held
  unfinishedTasks : l.unfinishedTasks = l.held.length

/-- Code that moves the documents of a lane, none of which is in flight, keeps the lane invariant. -/
theorem Lane.Inv.moves {l l' : Lane κ ε} (hl : l.Inv) (hp : l.worker.passed = [])
    (h : Moves (l.worker.unpassed ++ l.queue) l l') : l'.Inv ∧ l'.held = l.held := by
  have hh : l'.held = l.held := by rw [h.held, Lane.held, hp, List.nil_append]
  refine ⟨⟨?_, ?_, ?_, ?_, ?_⟩, hh⟩
  · rw [h.accepted, h.confirmed, hh, hl.accepted]
  · rw [h.insertCalls, h.confirmed, h.passed, hl.inserted, hp]
  · rw [h.pendingDocuments, hh, hl.pendingDocuments]
  · rw [h.pendingBytes, hh, hl.pendingBytes]
  · rw [h.unfinishedTasks, hh, hl.unfinishedTasks]

/-- A worker replaced by one that holds the same documents, with the same ones in flight. -/
theorem Lane.Inv.worker {l : Lane κ ε} (hl : l.Inv) (w : Worker κ ε) (hp : w.passed = l.worker.passed)
    (hu : w.unpassed = l.worker.unpassed) (inflight : List (BufferedDocument κ ε)) :
    Lane.Inv { l with worker := w, inflight := inflight } := by
  have hh : Lane.held { l with worker := w, inflight := inflight } = l.held := by simp [Lane.held, hp, hu]
  exact ⟨by rw [hh]; exact hl.accepted, by rw [hp]; exact hl.inserted, by rw [hh]; exact hl.pendingDocuments,
    by rw [hh]; exact hl.pendingBytes, by rw [hh]; exact hl.unfinishedTasks⟩

theorem Lane.Inv.pass {l : Lane κ ε} (hl : l.Inv) {batch : List (BufferedDocument κ ε)}
    {carry : Option (BufferedDocument κ ε)} (hw : l.worker = .awaitSlot batch carry) :
    Lane.Inv { l with worker := .inserting batch carry, insertCalls := l.insertCalls ++ [batch] } ∧
      Lane.held { l with worker := .inserting batch carry, insertCalls := l.insertCalls ++ [batch] } = l.held := by
  have hh : Lane.held { l with worker := .inserting batch carry, insertCalls := l.insertCalls ++ [batch] } =
      l.held := by simp [Lane.held, hw, Worker.passed, Worker.unpassed]
  refine ⟨⟨by rw [hh]; exact hl.accepted, ?_, by rw [hh]; exact hl.pendingDocuments,
    by rw [hh]; exact hl.pendingBytes, by rw [hh]; exact hl.unfinishedTasks⟩, hh⟩
  have hi := hl.inserted
  rw [hw] at hi
  simp only [Worker.passed, List.append_nil] at hi
  simp [Worker.passed, hi]

theorem Lane.Inv.accept {l : Lane κ ε} (hl : l.Inv) (d : BufferedDocument κ ε) :
    (l.accept d).Inv ∧ (l.accept d).held = l.held ++ [d] := by
  have hh : (l.accept d).held = l.held ++ [d] := by simp [Lane.held, Lane.accept]
  refine ⟨⟨?_, hl.inserted, ?_, ?_, ?_⟩, hh⟩
  · rw [hh, ← List.append_assoc]
    exact congrArg (· ++ [d]) hl.accepted
  · rw [hh, Lane.accept, hl.pendingDocuments]
    simp
  · rw [hh, byteCount_append, Lane.accept, hl.pendingBytes]
    simp [byteCount]
  · rw [hh, Lane.accept, hl.unfinishedTasks]
    simp

/-- Confirming the first documents of the batch in flight, the rest staying with the worker `w`. -/
theorem Lane.Inv.settle {l : Lane κ ε} (hl : l.Inv) {ds : List (BufferedDocument κ ε)}
    (rest : List (BufferedDocument κ ε)) {w : Worker κ ε} (hp : l.worker.passed = ds ++ rest) (hwp : w.passed = rest)
    (hwu : w.unpassed = l.worker.unpassed) (inflight : List (BufferedDocument κ ε)) :
    Lane.Inv { l.settle ds with worker := w, inflight := inflight } ∧
      l.held = ds ++ Lane.held { l.settle ds with worker := w, inflight := inflight } := by
  have hh : l.held = ds ++ Lane.held { l.settle ds with worker := w, inflight := inflight } := by
    simp [Lane.held, Lane.settle, hp, hwp, hwu]
  have hlen := congrArg List.length hh
  have hbytes := congrArg byteCount hh
  rw [List.length_append] at hlen
  rw [byteCount_append] at hbytes
  refine ⟨⟨?_, ?_, ?_, ?_, ?_⟩, hh⟩
  · have := hl.accepted
    rw [hh, ← List.append_assoc] at this
    exact this
  · have := hl.inserted
    rw [hp, ← List.append_assoc] at this
    rw [hwp]
    exact this
  · show l.pendingDocuments - ds.length = _
    rw [hl.pendingDocuments]
    omega
  · show l.pendingBytes - byteCount ds = _
    rw [hl.pendingBytes]
    omega
  · show l.unfinishedTasks - ds.length = _
    rw [hl.unfinishedTasks]
    omega

end Lanes

/-! ## The output and the ledger -/

namespace Output

/-- The ledger entries of the output: confirmed documents, and those the lane holds. -/
def book (s : Output κ ε) : Ledger.Book StorageRoute (BufferedDocument κ ε) where
  confirmed r := (s.lanes r).confirmed
  pending r := (s.lanes r).held

/-- The capacities of the buffer. -/
def capacity (cfg : Settings) : Ledger.Capacity := ⟨cfg.bufferMaxDocuments, cfg.bufferMaxBytes⟩

/-- What the output is for: a ledger of documents within the capacities of the buffer. -/
def ledger (cfg : Settings) : Machine (Ledger.Book StorageRoute (BufferedDocument κ ε))
    (Ledger.Entry StorageRoute (BufferedDocument κ ε)) :=
  Ledger.machine (capacity cfg) (·.bsonSize)

/-- Every lane agrees with its counters, and the budget with all lanes. -/
structure Inv (s : Output κ ε) : Prop where
  lanes : ∀ r, (s.lanes r).Inv
  documents : s.budget.documents = s.book.count
  bytes : s.budget.bytes = s.book.load (·.bsonSize)
  failed : s.budget.failed = true ↔ s.workerErrors ≠ []
  errors : ∀ p ∈ s.workerErrors, p.2 ≠ .taskDone ∧ p.2 ≠ .budgetNegative

theorem opened_book : (opened : Output κ ε).book = .empty := rfl

theorem opened_inv : (opened : Output κ ε).Inv where
  lanes _ := ⟨rfl, rfl, rfl, rfl, rfl⟩
  documents := by simp [opened, book, Ledger.Book.count, Lane.held, Worker.passed, Worker.unpassed, BufferBudget.empty]
  bytes := by simp [opened, book, Ledger.Book.load, Lane.held, Worker.passed, Worker.unpassed, BufferBudget.empty]
  failed := by simp [opened, BufferBudget.empty]
  errors := by simp [opened]

variable {s s' : Output κ ε}

/-- A step that leaves the ledger and the counters of the budget alone. -/
theorem Inv.quiet (hs : s.Inv) (hl : ∀ r, (s'.lanes r).Inv) (hb : s'.book = s.book)
    (hd : s'.budget.documents = s.budget.documents) (hy : s'.budget.bytes = s.budget.bytes)
    (hf : s'.budget.failed = true ↔ s'.workerErrors ≠ [])
    (he : ∀ p ∈ s'.workerErrors, p.2 ≠ .taskDone ∧ p.2 ≠ .budgetNegative) : s'.Inv :=
  ⟨hl, by rw [hd, hb, hs.documents], by rw [hy, hb, hs.bytes], hf, he⟩

theorem book_setLane (s : Output κ ε) (r : StorageRoute) (l : Lane κ ε) :
    (s.setLane r l).book =
      ⟨Function.update s.book.confirmed r l.confirmed, Function.update s.book.pending r l.held⟩ := by
  ext1 <;> funext q <;> by_cases hq : q = r
  · subst hq; simp [book, setLane]
  · simp [book, setLane, hq]
  · subst hq; simp [book, setLane]
  · simp [book, setLane, hq]

theorem book_setLane_same {r : StorageRoute} {l : Lane κ ε} (hc : l.confirmed = (s.lanes r).confirmed)
    (hh : l.held = (s.lanes r).held) : (s.setLane r l).book = s.book := by
  rw [book_setLane, hc, hh]
  exact congrArg₂ _ (Function.update_eq_self r s.book.confirmed) (Function.update_eq_self r s.book.pending)

theorem setLane_inv (hl : ∀ r, (s.lanes r).Inv) {r : StorageRoute} {l : Lane κ ε} (h : l.Inv) (q : StorageRoute) :
    ((s.setLane r l).lanes q).Inv := by
  simp only [setLane, Function.update_apply]
  split
  · exact h
  · exact hl q

/-- A lane replaced by one with the same ledger. -/
theorem Inv.setLane (hs : s.Inv) {r : StorageRoute} {l : Lane κ ε} (h : l.Inv)
    (hc : l.confirmed = (s.lanes r).confirmed) (hh : l.held = (s.lanes r).held) :
    (s.setLane r l).Inv ∧ (s.setLane r l).book = s.book :=
  have hb := book_setLane_same hc hh
  ⟨hs.quiet (setLane_inv hs.lanes h) hb rfl rfl hs.failed hs.errors, hb⟩

/-- A failing worker is recorded, and nothing else changes. -/
theorem Inv.workerFails (hs : s.Inv) (r : StorageRoute) {e : WorkerError}
    (he : e ≠ .taskDone ∧ e ≠ .budgetNegative) :
    (s.workerFails r e).Inv ∧ (s.workerFails r e).book = s.book := by
  refine ⟨hs.quiet hs.lanes rfl rfl rfl ?_ ?_, rfl⟩
  · simp [Output.workerFails, BufferBudget.markFailed, notifyAll]
  · intro p hp
    rcases List.mem_append.1 hp with h | h
    · exact hs.errors p h
    · cases List.mem_singleton.1 h
      exact he

/-- Worker code with the errors it may raise by itself. -/
theorem Inv.proceed (hs : s.Inv) {r : StorageRoute} {p : Progress κ ε} (h : p.lane.Inv)
    (hc : p.lane.confirmed = (s.lanes r).confirmed) (hh : p.lane.held = (s.lanes r).held)
    (he : ∀ l e, p = .fails l e → e = .notReady) : (s.proceed r p).Inv ∧ (s.proceed r p).book = s.book := by
  obtain ⟨hi, hb⟩ := hs.setLane h hc hh
  cases p with
  | goes l => exact ⟨hi, hb⟩
  | fails l e =>
    cases he l e rfl
    obtain ⟨hi', hb'⟩ := hi.workerFails r (e := .notReady) ⟨by decide, by decide⟩
    exact ⟨hi', hb'.trans hb⟩

/-- A resumed worker leaves the ledger alone. -/
theorem Inv.resume (hs : s.Inv) {cfg : Settings} {r : StorageRoute} {connected closeRequested expired slotFree : Bool}
    {p : Progress κ ε} (h : (s.lanes r).resume cfg connected closeRequested expired slotFree = some p) :
    (s.proceed r p).Inv ∧ (s.proceed r p).book = s.book := by
  rcases resume_moves h with ⟨hp, hm⟩ | ⟨batch, carry, hw, rfl⟩
  · obtain ⟨hl, hh⟩ := (hs.lanes r).moves hp hm
    exact hs.proceed hl hm.confirmed hh fun l e hp => resume_notReady (hp ▸ h)
  · obtain ⟨hl, hh⟩ := (hs.lanes r).pass hw
    exact hs.setLane hl rfl hh

/-! ### Accepting -/

theorem Inv.setCall [DecidableEq κ] (hs : s.Inv) (k : κ) (c : WriteCall κ ε) :
    (s.setCall k c).Inv ∧ (s.setCall k c).book = s.book :=
  ⟨hs.quiet hs.lanes rfl rfl rfl hs.failed hs.errors, rfl⟩

/-- What one test of the predicate in `acquire` may do. -/
theorem acquire_cases {cfg : Settings} {b : BufferBudget} {size : ℕ} :
    (b.failed = true ∧ b.acquire cfg size = .failed) ∨
    (b.failed = false ∧ b.Admits cfg size ∧
      b.acquire cfg size = .granted { b with documents := b.documents + 1, bytes := b.bytes + size }) ∨
    (b.failed = false ∧ ¬b.Admits cfg size ∧ b.acquire cfg size = .waits) := by
  unfold BufferBudget.acquire
  by_cases hf : b.failed = true
  · exact .inl ⟨hf, by simp [hf]⟩
  · rw [Bool.not_eq_true] at hf
    by_cases ha : b.Admits cfg size
    · exact .inr (.inl ⟨hf, ha, by simp [hf, ha]⟩)
    · exact .inr (.inr ⟨hf, ha, by simp [hf, ha]⟩)

/-- What a grant takes, a release of the same document gives back. -/
theorem release_granted {b : BufferBudget} (hd : 0 ≤ b.documents) (hy : 0 ≤ b.bytes) (size : ℕ) :
    BufferBudget.release { b with documents := b.documents + 1, bytes := b.bytes + size } 1 size = (b, true) := by
  simp only [BufferBudget.release, Nat.cast_one, add_sub_cancel_right, hd, hy, and_self, decide_true]

/-- The output once `write()` has put its document, under the budget `b`. -/
def put (s : Output κ ε) (r : StorageRoute) (d : BufferedDocument κ ε) (b : BufferBudget) : Output κ ε :=
  ((s.setBudget b).setLane r ((s.lanes r).accept d)).reportBuffer r

theorem enqueue_returns [DecidableEq κ] (he : s.workerErrors = []) (r : StorageRoute) (d : BufferedDocument κ ε)
    (b : BufferBudget) : s.enqueue r d b .returns = (s.put r d b).setCall d.call .returned := by
  simp [enqueue, he, put, setBudget]

/-- Where the callback raises, the budget is given back and the document stays. -/
theorem enqueue_giveBack [DecidableEq κ] (he : s.workerErrors = []) (r : StorageRoute) (d : BufferedDocument κ ε)
    (b : BufferBudget) : s.enqueue r d b .raises = (s.put r d b).giveBack d .callback := by
  simp [enqueue, he, put, setBudget]

theorem enqueue_raises [DecidableEq κ] (he : s.workerErrors = []) (r : StorageRoute) (d : BufferedDocument κ ε)
    {b b' : BufferBudget} (hb : b.release 1 d.bsonSize = (b', true)) :
    s.enqueue r d b .raises = ((s.put r d b).setBudget b').notifyAll.setCall d.call (.raised .callback) := by
  have hbudget : (s.put r d b).budget = b := rfl
  rw [enqueue_giveBack he, giveBack, hbudget, hb]
  rfl

/-- The output after `write()` has put the document into the queue of its route. -/
def accepted [DecidableEq κ] (s : Output κ ε) (r : StorageRoute) (d : BufferedDocument κ ε) : Output κ ε :=
  (((s.setBudget { s.budget with documents := s.budget.documents + 1, bytes := s.budget.bytes + d.bsonSize }).setLane r
    ((s.lanes r).accept d)).reportBuffer r).setCall d.call .returned

/-- `write()` accepts its document when there is room and no worker has failed; else it fails or waits. -/
theorem tryWrite_cases [DecidableEq κ] {cfg : Settings} (hs : s.budget.failed = true ↔ s.workerErrors ≠ [])
    (r : StorageRoute) (d : BufferedDocument κ ε) :
    (s.budget.failed = false ∧ s.budget.Admits cfg d.bsonSize ∧ s.tryWrite cfg r d .returns = s.accepted r d) ∨
    (s.budget.failed = true ∧ s.tryWrite cfg r d .returns = s.setCall d.call (.raised .budgetFailed)) ∨
    (s.budget.failed = false ∧ ¬s.budget.Admits cfg d.bsonSize ∧
      s.tryWrite cfg r d .returns = s.setCall d.call (.parked d false)) := by
  unfold tryWrite
  rcases acquire_cases (b := s.budget) with ⟨hf, h⟩ | ⟨hf, ha, h⟩ | ⟨hf, ha, h⟩
  · exact .inr (.inl ⟨hf, by rw [h]⟩)
  · refine .inl ⟨hf, ha, ?_⟩
    have he : s.workerErrors = [] := by
      by_contra hne
      rw [hs.2 hne] at hf
      cases hf
    rw [h]
    simp [enqueue, setBudget, he, accepted, setLane, reportBuffer]
  · exact .inr (.inr ⟨hf, ha, by rw [h]⟩)

theorem book_accepted [DecidableEq κ] (hs : s.Inv) (r : StorageRoute) (d : BufferedDocument κ ε) :
    (s.accepted r d).book = s.book.accept r d := by
  have hl := ((hs.lanes r).accept d).2
  show (s.setLane r ((s.lanes r).accept d)).book = _
  rw [book_setLane, hl]
  exact congrArg₂ _ (Function.update_eq_self r s.book.confirmed) rfl

theorem accepted_inv [DecidableEq κ] (hs : s.Inv) (r : StorageRoute) (d : BufferedDocument κ ε) :
    (s.accepted r d).Inv where
  lanes := setLane_inv hs.lanes ((hs.lanes r).accept d).1
  documents := by
    rw [book_accepted hs, Ledger.count_accept, Nat.cast_add, ← hs.documents]
    rfl
  bytes := by
    rw [book_accepted hs, Ledger.load_accept, Nat.cast_add, ← hs.bytes]
    rfl
  failed := hs.failed
  errors := hs.errors

/-- `write()` at the predicate of `acquire` is an entry of the ledger or leaves it alone. -/
theorem tryWrite_sound [DecidableEq κ] {cfg : Settings} (hs : s.Inv) (r : StorageRoute) (d : BufferedDocument κ ε) :
    (s.tryWrite cfg r d .returns).Inv ∧
      ∃ es, (ledger cfg).Path (fun _ _ => True) s.book es (s.tryWrite cfg r d .returns).book := by
  rcases tryWrite_cases hs.failed r d with ⟨-, ha, h⟩ | ⟨-, h⟩ | ⟨-, -, h⟩
  · rw [h]
    refine ⟨accepted_inv hs r d, [.accept r d], .cons trivial ?_ (.nil _)⟩
    have h₁ : s.book.count < cfg.bufferMaxDocuments := by have := ha.1; rw [hs.documents] at this; omega
    have h₂ : s.book.load (·.bsonSize) + d.bsonSize ≤ cfg.bufferMaxBytes := by
      have := ha.2; rw [hs.bytes] at this; omega
    simp [ledger, Ledger.machine, capacity, h₁, h₂, book_accepted hs]
  · rw [h, (hs.setCall _ _).2]
    exact ⟨(hs.setCall _ _).1, [], .nil _⟩
  · rw [h, (hs.setCall _ _).2]
    exact ⟨(hs.setCall _ _).1, [], .nil _⟩

/-! ### Confirming -/

/-- The output after `_confirm_batch` has returned. -/
def settled (s : Output κ ε) (r : StorageRoute) (ds : List (BufferedDocument κ ε)) : Output κ ε :=
  ({ ((s.setLane r ((s.lanes r).settle ds)).setBudget (s.budget.release ds.length (byteCount ds)).1).notifyAll with
    reports := s.reports ++ [Report.batchPersisted r ds.length] }).reportBuffer r

/-- `_confirm_batch` on the first documents in flight never raises: the counters cover them. -/
theorem confirmBatch_eq (hs : s.Inv) {r : StorageRoute} (ds rest : List (BufferedDocument κ ε))
    (hp : (s.lanes r).worker.passed = ds ++ rest) : s.confirmBatch r ds = .ok (s.settled r ds) := by
  have hheld : (s.lanes r).held = ds ++ (rest ++ (s.lanes r).worker.unpassed ++ (s.lanes r).queue) := by
    simp [Lane.held, hp]
  have htasks : ¬(s.lanes r).unfinishedTasks < ds.length := by
    rw [(hs.lanes r).unfinishedTasks, hheld, List.length_append]
    omega
  have htake : (s.book.pending r).take ds.length = ds := by
    show (s.lanes r).held.take _ = _
    rw [hheld, List.take_left]
  have hdocs : 0 ≤ s.budget.documents - ds.length := by
    have h := Ledger.count_confirm s.book r ds.length
    have hlen : (s.book.pending r).length = (s.lanes r).held.length := rfl
    rw [hlen, hheld, List.length_append] at h
    rw [hs.documents]
    omega
  have hbytes : 0 ≤ s.budget.bytes - byteCount ds := by
    have h := Ledger.load_confirm (·.bsonSize) s.book r ds.length
    rw [htake] at h
    rw [hs.bytes, byteCount]
    omega
  have hok : (s.budget.release ds.length (byteCount ds)).2 = true := by
    simp only [BufferBudget.release, decide_eq_true_eq]
    exact ⟨hdocs, hbytes⟩
  simp only [confirmBatch, htasks, if_false, hok, if_true]
  rfl

/-- The lane of `r` after `_confirm_batch`, continued as `l`. -/
theorem settled_setLane (hs : s.Inv) {r : StorageRoute} {ds : List (BufferedDocument κ ε)} {l : Lane κ ε}
    (hl : l.Inv) (hc : l.confirmed = (s.lanes r).confirmed ++ ds) (hh : (s.lanes r).held = ds ++ l.held) :
    ((s.settled r ds).setLane r l).Inv ∧ ((s.settled r ds).setLane r l).book = s.book.confirm r ds.length := by
  have hpend : s.book.pending r = ds ++ l.held := hh
  have hb : ((s.settled r ds).setLane r l).book = s.book.confirm r ds.length := by
    rw [book_setLane]
    have hbook : (s.settled r ds).book = (s.setLane r ((s.lanes r).settle ds)).book := rfl
    rw [hbook, book_setLane]
    simp only [Ledger.Book.confirm, Function.update_idem, hpend, List.take_left, List.drop_left, hc]
    rfl
  have hcount := Ledger.count_confirm s.book r ds.length
  have hload := Ledger.load_confirm (·.bsonSize) s.book r ds.length
  rw [hpend] at hcount hload
  rw [List.length_append] at hcount
  rw [List.take_left] at hload
  have hlanes : ∀ q, (((s.settled r ds).setLane r l).lanes q).Inv := fun q => by
    show ((Function.update (Function.update s.lanes r ((s.lanes r).settle ds)) r l) q).Inv
    rw [Function.update_idem]
    exact setLane_inv hs.lanes hl q
  refine ⟨⟨hlanes, ?_, ?_, hs.failed, hs.errors⟩, hb⟩
  · rw [hb]
    show s.budget.documents - ds.length = _
    rw [hs.documents]
    omega
  · rw [hb]
    show s.budget.bytes - byteCount ds = _
    rw [hs.bytes, byteCount]
    omega

variable [DecidableEq κ] {cfg : Settings}

omit [DecidableEq κ] in
/-- Confirming `ds` is an entry of the ledger. -/
theorem ledger_confirm (cfg : Settings) {r : StorageRoute} {ds : List (BufferedDocument κ ε)} {l : Lane κ ε}
    (hh : (s.lanes r).held = ds ++ l.held) :
    (ledger cfg).Path (fun _ _ => True) s.book [.confirm r ds.length] (s.book.confirm r ds.length) := by
  have hle : ds.length ≤ (s.book.pending r).length := by
    show _ ≤ (s.lanes r).held.length
    rw [hh, List.length_append]
    omega
  exact .cons trivial (by simp [ledger, Ledger.machine, hle]) (.nil _)

omit [DecidableEq κ] in
/-- The worker raises with its batch unconfirmed. -/
theorem insertFails_sound (hs : s.Inv) {r : StorageRoute} {batch : List (BufferedDocument κ ε)}
    {carry : Option (BufferedDocument κ ε)} (hw : (s.lanes r).worker = .inserting batch carry)
    (inflight : List (BufferedDocument κ ε)) {e : WorkerError} (he : e ≠ .taskDone ∧ e ≠ .budgetNegative) :
    ((s.setLane r { s.lanes r with inflight := inflight }).insertFails r batch carry e).Inv ∧
      ((s.setLane r { s.lanes r with inflight := inflight }).insertFails r batch carry e).book = s.book := by
  have hl := (hs.lanes r).worker (.failed batch carry.toList) (by rw [hw]; rfl) (by rw [hw]; rfl) inflight
  have hset := hs.setLane hl rfl (by simp [Lane.held, hw, Worker.passed, Worker.unpassed])
  have hf := hset.1.workerFails r he
  have heq : (s.setLane r { s.lanes r with inflight := inflight }).insertFails r batch carry e =
      (s.setLane r { s.lanes r with worker := .failed batch carry.toList, inflight := inflight }).workerFails r e := by
    simp [insertFails, Output.setLane]
  rw [heq]
  exact ⟨hf.1, hf.2.trans hset.2⟩

/-- How the code after `insert_many` ends: the worker goes on with its batch confirmed, or it raises out of
`_persist_batch`, having confirmed nothing or the first `n` documents. -/
inductive InsertEnds (cfg : Settings) (s : Output κ ε) (r : StorageRoute) (batch : List (BufferedDocument κ ε))
    (carry : Option (BufferedDocument κ ε)) (expired : Bool) : InsertOutcome → Output κ ε → Prop
  | goesOn : InsertEnds cfg s r batch carry expired .success ((s.settled r batch).proceed r
      (Lane.runWorker cfg s.connected s.closeRequested expired { (s.lanes r).settle batch with inflight := [] } carry))
  | raises {outcome : InsertOutcome} (hfails : outcome ≠ .success) (inflight : List (BufferedDocument κ ε))
      {e : WorkerError} (he : e ≠ .taskDone ∧ e ≠ .budgetNegative) :
      InsertEnds cfg s r batch carry expired outcome
        ((s.setLane r { s.lanes r with inflight := inflight }).insertFails r batch carry e)
  | confirms {outcome : InsertOutcome} (hfails : outcome ≠ .success) (n : ℕ) :
      InsertEnds cfg s r batch carry expired outcome
        (((s.settled r (batch.take n)).setLane r
          { (s.settled r (batch.take n)).lanes r with inflight := batch.drop n }).insertFails r (batch.drop n) carry
          .bulkWrite)

omit [DecidableEq κ] in
theorem insertDone_ends (cfg : Settings) (hs : s.Inv) {r : StorageRoute} {batch : List (BufferedDocument κ ε)}
    {carry : Option (BufferedDocument κ ε)} (hw : (s.lanes r).worker = .inserting batch carry)
    (outcome : InsertOutcome) (expired : Bool) :
    InsertEnds cfg s r batch carry expired outcome (s.insertDone cfg r batch carry outcome expired) := by
  have hp : (s.lanes r).worker.passed = batch := by rw [hw]; rfl
  have hself : s.setLane r { s.lanes r with inflight := (s.lanes r).inflight } = s := by simp [Output.setLane]
  cases outcome with
  | success =>
    have hc := confirmBatch_eq hs batch [] (by rw [hp, List.append_nil])
    have hlane : (s.settled r batch).lanes r = (s.lanes r).settle batch := Function.update_self ..
    simp only [insertDone, hc, hlane]
    exact .goesOn
  | bulkWriteError nInserted =>
    simp only [insertDone]
    generalize (max 0 (min (batch.length : ℤ) nInserted)).toNat = n
    by_cases h0 : n = 0
    · subst h0
      simp only [if_true, List.drop_zero]
      exact .raises (by simp) batch ⟨by decide, by decide⟩
    · have hc := confirmBatch_eq hs _ (batch.drop n) (by rw [hp, List.take_append_drop])
      simp only [h0, if_false, hc]
      exact .confirms (by simp) n
  | otherError =>
    have h : InsertEnds cfg s r batch carry expired .otherError
        ((s.setLane r { s.lanes r with inflight := (s.lanes r).inflight }).insertFails r batch carry .insert) :=
      .raises (by simp) _ ⟨by decide, by decide⟩
    rwa [hself] at h
  | timeout =>
    have h : InsertEnds cfg s r batch carry expired .timeout
        ((s.setLane r { s.lanes r with inflight := (s.lanes r).inflight }).insertFails r batch carry .timeout) :=
      .raises (by simp) _ ⟨by decide, by decide⟩
    rwa [hself] at h

omit [DecidableEq κ] in
/-- The end of `insert_many` and the code after it: an entry of the ledger, or none. -/
theorem insertDone_sound (hs : s.Inv) {r : StorageRoute} {batch : List (BufferedDocument κ ε)}
    {carry : Option (BufferedDocument κ ε)} (hw : (s.lanes r).worker = .inserting batch carry)
    (outcome : InsertOutcome) (expired : Bool) :
    (s.insertDone cfg r batch carry outcome expired).Inv ∧
      ∃ es, (ledger cfg).Path (fun _ _ => True) s.book es (s.insertDone cfg r batch carry outcome expired).book := by
  have hp : (s.lanes r).worker.passed = batch := by rw [hw]; rfl
  have hu : (s.lanes r).worker.unpassed = carry.toList := by rw [hw]; rfl
  have hends := insertDone_ends cfg hs hw outcome expired
  generalize s.insertDone cfg r batch carry outcome expired = s' at hends ⊢
  cases hends with
  | goesOn =>
    obtain ⟨hl, hh⟩ := (hs.lanes r).settle [] (w := .settleFirst carry)
      (by rw [hp, List.append_nil]) rfl (by rw [hu]; rfl) []
    have hm := (runWorker_moves cfg s.connected s.closeRequested expired
      { (s.lanes r).settle batch with inflight := [] } carry).worker (.settleFirst carry)
    obtain ⟨hl', hh'⟩ := hl.moves rfl hm
    rw [← hh'] at hh
    have hset := settled_setLane hs hl' hm.confirmed hh
    have hends := runWorker_ends cfg s.connected s.closeRequested expired
      { (s.lanes r).settle batch with inflight := [] } carry
    have hpath := ledger_confirm cfg hh
    generalize Lane.runWorker cfg s.connected s.closeRequested expired
      { (s.lanes r).settle batch with inflight := [] } carry = p at hset hends
    cases p with
    | goes l =>
      have hb : ((s.settled r batch).proceed r (.goes l)).book = s.book.confirm r batch.length := hset.2
      exact ⟨hset.1, _, by rw [hb]; exact hpath⟩
    | fails l e =>
      cases hends.notReady rfl
      have hf := hset.1.workerFails r (e := .notReady) ⟨by decide, by decide⟩
      have hb : ((s.settled r batch).proceed r (.fails l .notReady)).book = s.book.confirm r batch.length :=
        hf.2.trans hset.2
      exact ⟨hf.1, _, by rw [hb]; exact hpath⟩
  | raises _ inflight he =>
    obtain ⟨hi, hb⟩ := insertFails_sound hs hw inflight he
    exact ⟨hi, [], by rw [hb]; exact .nil _⟩
  | confirms _ k =>
    obtain ⟨hl, hh⟩ := (hs.lanes r).settle (batch.drop k)
      (w := .failed (batch.drop k) carry.toList) (by rw [hp, List.take_append_drop]) rfl (by rw [hu]; rfl)
      (batch.drop k)
    have hset := settled_setLane hs hl rfl hh
    have hf := hset.1.workerFails r (e := .bulkWrite) ⟨by decide, by decide⟩
    have heq : ((s.settled r (batch.take k)).setLane r
          { (s.settled r (batch.take k)).lanes r with inflight := batch.drop k }).insertFails r (batch.drop k) carry
          .bulkWrite =
        ((s.settled r (batch.take k)).setLane r
          { (s.lanes r).settle (batch.take k) with
            worker := .failed (batch.drop k) carry.toList, inflight := batch.drop k }).workerFails r .bulkWrite := by
      have hlane : (s.settled r (batch.take k)).lanes r = (s.lanes r).settle (batch.take k) := by
        show Function.update s.lanes r ((s.lanes r).settle (batch.take k)) r = _
        rw [Function.update_self]
      simp [insertFails, Output.setLane, hlane]
    rw [heq]
    have hb := hf.2.trans hset.2
    exact ⟨hf.1, _, by rw [hb]; exact ledger_confirm cfg hh⟩

/-! ### Steps and runs -/

variable {rd : Reading ε}

/-- `write()` up to its first suspension point is an entry of the ledger or leaves it alone. -/
theorem write_sound (hs : s.Inv) (k : κ) (event : ε) :
    (s.write cfg rd k event .returns).Inv ∧
      ∃ es, (ledger cfg).Path (fun _ _ => True) s.book es (s.write cfg rd k event .returns).book := by
  have hquiet : ∀ c, (s.setCall k c).Inv ∧ ∃ es, (ledger cfg).Path (fun _ _ => True) s.book es (s.setCall k c).book :=
    fun c => ⟨(hs.setCall k c).1, [], by rw [(hs.setCall k c).2]; exact .nil _⟩
  unfold write
  split
  · exact hquiet _
  · split
    · exact hquiet _
    · split
      · exact hquiet _
      · split
        · exact hquiet _
        · exact tryWrite_sound hs _ _

/-- The callbacks called by this step return. -/
def Input.CallbacksReturn : Input κ ε → Prop
  | .write _ _ report => report = .returns
  | .resumeWrite _ report => report = .returns
  | _ => True

/-- **A step keeps the invariant, and is an entry of the ledger or leaves it alone.** -/
theorem step_sound (hs : s.Inv) {i : Input κ ε} (hi : i.CallbacksReturn) (h : (machine cfg rd).step s i = some s') :
    s'.Inv ∧ ∃ es, (ledger cfg).Path (fun _ _ => True) s.book es s'.book := by
  have hnil : ∀ {s' : Output κ ε}, s'.Inv ∧ s'.book = s.book →
      s'.Inv ∧ ∃ es, (ledger cfg).Path (fun _ _ => True) s.book es s'.book :=
    fun h => ⟨h.1, [], by rw [h.2]; exact .nil _⟩
  cases effect_of_step h with
  | write _ => cases hi; exact write_sound hs _ _
  | resumeWrite _ => cases hi; exact tryWrite_sound hs _ _
  | cancelWrite _ => exact hnil (hs.setCall _ _)
  | @getTask r l hl =>
    have hm := getTask_moves hl
    have hp : (s.lanes r).worker.passed = [] := by
      unfold Lane.getTask at hl
      split at hl
      · rename_i hw _; rw [hw]; rfl
      · rename_i hw _; rw [hw]; rfl
      · cases hl
    obtain ⟨hl', hh⟩ := (hs.lanes r).moves hp hm
    exact hnil (hs.setLane hl' hm.confirmed hh)
  | worker hp => exact hnil (hs.resume hp)
  | insertDone hw => exact insertDone_sound hs hw _ _
  | @cancelWorker r _ _ =>
    have hl := (hs.lanes r).worker (.cancelled (s.lanes r).worker.passed (s.lanes r).worker.unpassed) rfl rfl
      (s.lanes r).inflight
    exact hnil (hs.setLane hl rfl rfl)
  | close _ _ => exact hnil ⟨hs.quiet hs.lanes rfl rfl rfl hs.failed hs.errors, rfl⟩
  | workersDone _ _ => exact hnil ⟨hs.quiet hs.lanes rfl rfl rfl hs.failed hs.errors, rfl⟩
  | shutdownTimeout _ => exact hnil ⟨hs.quiet hs.lanes rfl rfl rfl hs.failed hs.errors, rfl⟩
  | clientClosed _ => exact hnil ⟨hs.quiet hs.lanes rfl rfl rfl hs.failed hs.errors, rfl⟩
  | cancelClose _ => exact hnil ⟨hs.quiet hs.lanes rfl rfl rfl hs.failed hs.errors, rfl⟩
  | reportFailure _ => exact hnil ⟨hs.quiet hs.lanes rfl rfl rfl hs.failed hs.errors, rfl⟩

/-- Every step of the run calls callbacks that return. -/
abbrev Quiet (_ : Output κ ε) (i : Input κ ε) : Prop := i.CallbacksReturn

/-- **Every run of the output refines the ledger.** -/
theorem path_refines {is : List (Input κ ε)} (h : (machine cfg rd).Path Quiet s is s') (hs : s.Inv) :
    ∃ es, (ledger cfg).Path (fun _ _ => True) s.book es s'.book := by
  have hstep : ∀ (s : Output κ ε) i s' b, Quiet s i → s.Inv ∧ b = s.book → (machine cfg rd).step s i = some s' →
      ∃ es b', (ledger cfg).Path (fun _ _ => True) b es b' ∧ s'.Inv ∧ b' = s'.book := by
    rintro s i s' b hi ⟨hI, rfl⟩ hstep
    obtain ⟨hI', es, hpath⟩ := step_sound hI hi hstep
    exact ⟨es, s'.book, hpath, hI', rfl⟩
  obtain ⟨es, b, hpath, -, rfl⟩ := h.simulate hstep ⟨hs, rfl⟩
  exact ⟨es, hpath⟩

/-- **Histories only grow**: no run takes back what a route has accepted or confirmed. -/
theorem histories_grow {is : List (Input κ ε)} (h : (machine cfg rd).Path Quiet s is s') (hs : s.Inv) :
    s.book.Grows s'.book := by
  obtain ⟨es, hes⟩ := path_refines h hs
  exact Ledger.path_grows hes

end Output

end BinanceCollector.MultiMongo
