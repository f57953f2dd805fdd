import BinanceCollector.Monitoring.MultiStats
import BinanceCollector.Outputs.MultiMongoCalls
import BinanceCollector.Pipeline

/-!
# The statistics agree with the store

The callbacks of the output run inside its steps (`step_reports`). `Flow` joins the output, the statistics and the calls
of `MultiStreamEventDispatcher.handle` in one machine: a call counts its message, writes it, possibly waiting for
room, and counts it as forwarded in the step in which `write()` returns.

- `Flow.step_inv`, `Flow.path_inv`: what one step and a whole run keep.
- **`statistics_agree`**: in every state of every run the numbers add up.
-/

namespace BinanceCollector

open Text Json Steps MultiMongo

/-! ## The reports of the output -/

/-- What is known of a route: confirmed documents, and documents and bytes that are not confirmed. -/
structure Figures where
  confirmed : ℕ
  pending : ℤ
  pendingBytes : ℤ

/-- The output's own figures. -/
def MultiMongo.Lane.figures {κ ε : Type*} (l : Lane κ ε) : Figures :=
  ⟨l.confirmed.length, l.pendingDocuments, l.pendingBytes⟩

/-- The figures of the statistics. -/
def CollectionStats.figures (c : CollectionStats) : Figures := ⟨c.persisted, c.pending, c.pendingBytes⟩

namespace MultiStreamStatsCollector

/-- The statistics after the callbacks of the output. -/
def recordReports (stats : MultiStreamStatsCollector) (reports : List Report) : MultiStreamStatsCollector :=
  reports.foldl recordReport stats

/-- The callbacks count no event. -/
theorem recordReport_frame (stats : MultiStreamStatsCollector) (report : Report) :
    (stats.recordReport report).received = stats.received ∧
      (stats.recordReport report).toForwarded = stats.toForwarded := by
  cases report <;> exact ⟨rfl, rfl⟩

theorem recordReports_frame (reports : List Report) : ∀ stats : MultiStreamStatsCollector,
    (stats.recordReports reports).received = stats.received ∧
      (stats.recordReports reports).toForwarded = stats.toForwarded := by
  induction reports with
  | nil => exact fun stats => ⟨rfl, rfl⟩
  | cons report reports ih =>
    intro stats
    obtain ⟨hr, hf⟩ := ih (stats.recordReport report)
    exact ⟨hr.trans (stats.recordReport_frame report).1, hf.trans (stats.recordReport_frame report).2⟩

end MultiStreamStatsCollector

namespace MultiMongo.Output

variable {κ ε : Type*} {cfg : Settings} {rd : Reading ε} {s s' s'' : Output κ ε}

/-- The statistics have the figures of the output. -/
def Shows (s : Output κ ε) (stats : MultiStreamStatsCollector) : Prop :=
  ∀ r, (stats.collections r).figures = (s.lanes r).figures

/-- What the output has reported on the way from `s` to `s'` keeps the statistics in agreement. -/
def Reports (s s' : Output κ ε) : Prop := ∃ news, s'.reports = s.reports ++ news ∧
  ∀ stats, s.Shows stats → s'.Shows (stats.recordReports news)

theorem Reports.trans (h : Reports s s') (h' : Reports s' s'') : Reports s s'' := by
  obtain ⟨news, hn, hs⟩ := h
  obtain ⟨news', hn', hs'⟩ := h'
  refine ⟨news ++ news', by rw [hn', hn, List.append_assoc], fun stats hstats => ?_⟩
  rw [MultiStreamStatsCollector.recordReports, List.foldl_append]
  exact hs' _ (hs _ hstats)

/-- A step that changes no figure reports nothing. -/
theorem Reports.quiet (hr : s'.reports = s.reports) (hf : ∀ r, (s'.lanes r).figures = (s.lanes r).figures) :
    Reports s s' :=
  ⟨[], by rw [hr, List.append_nil], fun stats hs r => (hs r).trans (hf r).symm⟩

theorem reports_setLane {r : StorageRoute} {l : Lane κ ε} (h : l.figures = (s.lanes r).figures) :
    Reports s (s.setLane r l) := by
  refine .quiet rfl fun q => ?_
  by_cases hq : q = r
  · subst hq; simpa [setLane] using h
  · simp [setLane, hq]

theorem reports_workerFails (r : StorageRoute) (e : WorkerError) : Reports s (s.workerFails r e) :=
  .quiet rfl fun _ => rfl

theorem reports_proceed {r : StorageRoute} {p : Progress κ ε} (h : p.lane.figures = (s.lanes r).figures) :
    Reports s (s.proceed r p) := by
  cases p with
  | goes l => exact reports_setLane h
  | fails l e => exact (reports_setLane h).trans (reports_workerFails r e)

/-- Worker code changes no figure. -/
theorem moves_figures {docs : List (BufferedDocument κ ε)} {l l' : Lane κ ε} (h : Moves docs l l') :
    l'.figures = l.figures := by
  simp only [Lane.figures, h.confirmed, h.pendingDocuments, h.pendingBytes]

/-- The callbacks speak of one route, and give it the figures of its new lane. -/
theorem reports_lane {r : StorageRoute} {l : Lane κ ε} {news : List Report}
    (hl : ∀ q, s'.lanes q = (s.setLane r l).lanes q) (hr : s'.reports = s.reports ++ news)
    (hroute : ∀ stats, s.Shows stats → ((stats.recordReports news).collections r).figures = l.figures)
    (hothers : ∀ stats : MultiStreamStatsCollector, ∀ q, q ≠ r →
      (stats.recordReports news).collections q = stats.collections q) : Reports s s' := by
  refine ⟨news, hr, fun stats hs q => ?_⟩
  rw [hl q]
  by_cases hq : q = r
  · subst hq
    simpa [setLane] using hroute stats hs
  · simpa [setLane, hq, hothers stats q hq] using hs q

variable [DecidableEq κ]

theorem reports_accepted (r : StorageRoute) (d : BufferedDocument κ ε) : Reports s (s.accepted r d) := by
  have hreports : (s.accepted r d).reports = s.reports ++
      [.bufferChanged r ((s.lanes r).accept d).pendingDocuments ((s.lanes r).accept d).pendingBytes
        (s.budget.documents + 1) (s.budget.bytes + d.bsonSize)] := by
    simp [accepted, setCall, reportBuffer, setLane, setBudget]
  refine reports_lane (fun _ => rfl) hreports (fun stats hs => ?_) fun stats q hq => ?_
  · have hr := congrArg Figures.confirmed (hs r)
    simp only [MultiStreamStatsCollector.recordReports, List.foldl_cons, List.foldl_nil,
      MultiStreamStatsCollector.recordReport, MultiStreamStatsCollector.recordBufferChanged,
      MultiStreamStatsCollector.setCollection, Function.update_self]
    exact congrArg (Figures.mk · _ _) hr
  · exact Function.update_of_ne hq _ _

omit [DecidableEq κ] in
/-- Confirmed documents are reported before the new figures are. -/
theorem reports_settled (r : StorageRoute) (ds : List (BufferedDocument κ ε)) : Reports s (s.settled r ds) := by
  have hreports : (s.settled r ds).reports = s.reports ++ [.batchPersisted r ds.length,
      .bufferChanged r ((s.lanes r).settle ds).pendingDocuments ((s.lanes r).settle ds).pendingBytes
        (s.settled r ds).budget.documents (s.settled r ds).budget.bytes] := by
    simp [settled, reportBuffer, notifyAll, setBudget, setLane]
  refine reports_lane (fun _ => rfl) hreports (fun stats hs => ?_) fun stats q hq => ?_
  · have hr : (stats.collections r).persisted = (s.lanes r).confirmed.length := congrArg Figures.confirmed (hs r)
    simp only [MultiStreamStatsCollector.recordReports, List.foldl_cons, List.foldl_nil,
      MultiStreamStatsCollector.recordReport, MultiStreamStatsCollector.recordBufferChanged,
      MultiStreamStatsCollector.recordBatchPersisted, MultiStreamStatsCollector.setCollection, Function.update_self]
    simp [CollectionStats.figures, Lane.figures, Lane.settle, hr]
  · simp [MultiStreamStatsCollector.recordReports, MultiStreamStatsCollector.recordReport,
      MultiStreamStatsCollector.recordBufferChanged, MultiStreamStatsCollector.recordBatchPersisted,
      MultiStreamStatsCollector.setCollection, hq]

omit [DecidableEq κ] in
theorem reports_insertFails (r : StorageRoute) (passed inflight : List (BufferedDocument κ ε))
    (carry : Option (BufferedDocument κ ε)) (e : WorkerError) :
    Reports s ((s.setLane r { s.lanes r with inflight := inflight }).insertFails r passed carry e) := by
  have hset := reports_setLane (s := s) (r := r) (l := { s.lanes r with inflight := inflight }) rfl
  rw [insertFails]
  refine (hset.trans ?_).trans (reports_workerFails r e)
  exact reports_setLane rfl

omit [DecidableEq κ] in
theorem reports_insertDone (hs : s.Inv) {r : StorageRoute} {batch : List (BufferedDocument κ ε)}
    {carry : Option (BufferedDocument κ ε)} (hw : (s.lanes r).worker = .inserting batch carry)
    (outcome : InsertOutcome) (expired : Bool) : Reports s (s.insertDone cfg r batch carry outcome expired) := by
  have hends := insertDone_ends cfg hs hw outcome expired
  generalize s.insertDone cfg r batch carry outcome expired = s' at hends ⊢
  cases hends with
  | goesOn =>
    have hlane : (s.settled r batch).lanes r = (s.lanes r).settle batch := Function.update_self ..
    refine (reports_settled r batch).trans (reports_proceed ?_)
    rw [moves_figures (runWorker_moves cfg s.connected s.closeRequested expired _ carry), hlane]
    rfl
  | raises => exact reports_insertFails _ _ _ _ _
  | confirms => exact (reports_settled r _).trans (reports_insertFails _ _ _ _ _)

theorem reports_tryWrite (hs : s.Inv) (r : StorageRoute) (d : BufferedDocument κ ε) :
    Reports s (s.tryWrite cfg r d .returns) := by
  rcases tryWrite_cases hs.failed r d with ⟨-, -, he⟩ | ⟨-, he⟩ | ⟨-, -, he⟩
  · rw [he]
    exact reports_accepted r d
  · rw [he]
    exact .quiet rfl fun _ => rfl
  · rw [he]
    exact .quiet rfl fun _ => rfl

/-- **A step reports the figures it changes.** -/
theorem step_reports (hs : s.Inv) {i : Input κ ε} (hi : i.CallbacksReturn) (h : (machine cfg rd).step s i = some s') :
    Reports s s' := by
  cases effect_of_step h with
  | @write k event report hk =>
    cases hi
    unfold write
    split
    · exact .quiet rfl fun _ => rfl
    · split
      · exact .quiet rfl fun _ => rfl
      · split
        · exact .quiet rfl fun _ => rfl
        · split
          · exact .quiet rfl fun _ => rfl
          · exact reports_tryWrite hs _ _
  | resumeWrite hk =>
    cases hi
    exact reports_tryWrite hs _ _
  | getTask hl => exact reports_setLane (moves_figures (getTask_moves hl))
  | worker hp =>
    refine reports_proceed ?_
    rcases resume_moves hp with ⟨-, hm⟩ | ⟨batch, carry, -, rfl⟩
    · exact moves_figures hm
    · rfl
  | insertDone hw => exact reports_insertDone hs hw _ _
  | cancelWorker => exact reports_setLane rfl
  | cancelWrite | close | workersDone | shutdownTimeout | clientClosed | cancelClose | reportFailure =>
    exact .quiet rfl fun _ => rfl

end MultiMongo.Output

/-! ## Dispatching -/

/-- The name of the exception class. -/
def MultiMongo.WriteError.typeName : WriteError → Str
  | .state => str "MultiMongoStateError"
  | .workerFailed | .budgetFailed => str "MultiMongoBatchWriteError"
  | .serialization => str "MultiMongoOutputError"
  | .capacity => str "BufferCapacityError"
  | .budgetNegative => str "RuntimeError"
  | .callback => str "Exception"
  | .cancelled => str "CancelledError"

/-- The `write()` call has returned. -/
def MultiMongo.WriteCall.isReturned {κ ε : Type*} : WriteCall κ ε → Bool
  | .returned => true
  | _ => false

/-- A call of `MultiStreamEventDispatcher.handle`. -/
inductive HandleCall where
  | idle
  /-- waiting in `output.write(event)` -/
  | writing (event : Event)
  | ended (outcome : HandleOutcome)
  deriving DecidableEq

/-- The message of the call has been normalised. -/
def HandleCall.normalised : HandleCall → Bool
  | .ended (.decodeFailure _) => false
  | _ => true

/-- The output, the statistics and the calls of `handle`; `begun` keeps the calls in the order of their begin. -/
structure Flow (κ : Type*) where
  output : Output κ Event
  stats : MultiStreamStatsCollector
  handles : κ → HandleCall
  begun : List κ

/-- The routes add up to the total. -/
def Forwarded.Total (stats : Forwarded) : Prop := ∑ r, stats.accepted r = stats.forwardedMessages

theorem Forwarded.Total.recordForwarded {stats : Forwarded} (h : stats.Total) (event : Event) :
    (stats.recordForwarded event).Total := by
  have hsum := Ledger.sum_update stats.accepted (eventRoute event) (stats.accepted (eventRoute event) + 1)
  rw [Total] at h ⊢
  simp only [Forwarded.recordForwarded]
  omega

namespace Flow

variable {κ : Type*}

/-- Before the first message. -/
def opened (symbols : List Str) (startedAt : ℚ) : Flow κ :=
  ⟨.opened, { symbols := symbols, startedAt := startedAt }, fun _ => .idle, []⟩

/-- What the event loop does next. -/
inductive Input (κ : Type*) where
  /-- a call `handle(message)`, up to its first suspension point -/
  | handle (k : κ) (message : ReceivedMessage) (now : ℚ)
  /-- the call goes on: its `write()` tests the budget again -/
  | resume (k : κ)
  | cancel (k : κ)
  /-- anything of the output but its `write()` calls -/
  | output (i : MultiMongo.Output.Input κ Event)
  /-- a status callback of the collector -/
  | status (group category value : Str) (now : ℚ)

/-- The input is no step of a `write()` call. -/
def background : MultiMongo.Output.Input κ Event → Bool
  | .write .. | .resumeWrite .. | .cancelWrite _ => false
  | _ => true

/-- What the output reads of an event. -/
def reading (bsonSize : Event → Option ℕ) : MultiMongo.Reading Event := ⟨bsonSize, eventRoute⟩

/-- The output has made a step, in which its callbacks have run. -/
def observe (s : Flow κ) (output : Output κ Event) : Flow κ :=
  { s with output := output, stats := s.stats.recordReports (output.reports.drop s.output.reports.length) }

variable [DecidableEq κ]

def setHandle (s : Flow κ) (k : κ) (call : HandleCall) : Flow κ :=
  { s with handles := Function.update s.handles k call }

/-- `handle` once `output.write` has ended. -/
def finish (s : Flow κ) (k : κ) (event : Event) (outcome : WriteOutcome) : Flow κ :=
  { s.setHandle k (.ended (MultiStreamEventDispatcher.forward s.stats event outcome).2) with
    stats := (MultiStreamEventDispatcher.forward s.stats event outcome).1 }

/-- `handle` goes on as far as its `write()` has. -/
def settle (s : Flow κ) (k : κ) (event : Event) : Flow κ :=
  match s.output.calls k with
  | .returned => s.finish k event .returns
  | .raised .cancelled => s.finish k event .cancelled
  | .raised e => s.finish k event (.raises e.typeName)
  | .idle | .parked .. => s

/-- A call of `handle` begins. -/
def start (s : Flow κ) (k : κ) (stats : MultiStreamStatsCollector) (call : HandleCall) : Flow κ :=
  { s.setHandle k call with stats := stats, begun := s.begun ++ [k] }

/-- **One step of the event loop.** -/
def step (lim : Limits) (index : StreamIndex) (cfg : Settings) (bsonSize : Event → Option ℕ) (s : Flow κ) :
    Input κ → Option (Flow κ)
  | .handle k message now =>
    match s.handles k with
    | .idle =>
      match MultiStreamEventDispatcher.receive lim index s.stats now message with
      | (stats, .error outcome) => some (s.start k stats (.ended outcome))
      | (stats, .ok event) =>
        (s.output.step cfg (reading bsonSize) (.write k event .returns)).map fun output =>
          ((s.start k stats (.writing event)).observe output).settle k event
    | _ => none
  | .resume k =>
    match s.handles k with
    | .writing event =>
      (s.output.step cfg (reading bsonSize) (.resumeWrite k .returns)).map fun output =>
        (s.observe output).settle k event
    | _ => none
  | .cancel k =>
    match s.handles k with
    | .writing event =>
      (s.output.step cfg (reading bsonSize) (.cancelWrite k)).map fun output => (s.observe output).settle k event
    | _ => none
  | .output i => if background i then (s.output.step cfg (reading bsonSize) i).map s.observe else none
  | .status group category value now =>
    some { s with stats := s.stats.recordConnectionStatus now group category value }

/-- The dispatcher, its statistics and its output. -/
def machine (lim : Limits) (index : StreamIndex) (cfg : Settings) (bsonSize : Event → Option ℕ) :
    Machine (Flow κ) (Input κ) :=
  ⟨step lim index cfg bsonSize⟩

/-! ## What a run keeps -/

/-- One more element of the list is counted. -/
theorem countP_add_one {f g : κ → Bool} {k : κ} : ∀ {l : List κ}, l.Nodup → k ∈ l → f k = false → g k = true →
    (∀ x, x ≠ k → g x = f x) → l.countP g = l.countP f + 1
  | [], _, hk, _, _, _ => absurd hk List.not_mem_nil
  | x :: l, hn, hk, hf, hg, h => by
    obtain ⟨hx, hn⟩ := List.nodup_cons.1 hn
    by_cases hxk : x = k
    · subst hxk
      have hsame : l.countP g = l.countP f := List.countP_congr fun y hy => by
        rw [h y fun heq => hx (heq ▸ hy)]
      rw [List.countP_cons_of_pos hg, List.countP_cons_of_neg (by simp [hf]), hsame]
    · have ih := countP_add_one hn ((List.mem_cons.1 hk).resolve_left (Ne.symm hxk)) hf hg h
      rw [List.countP_cons, List.countP_cons, ih, h x hxk]
      omega

/-- The numbers agree; the output is sound. -/
structure Core (bsonSize : Event → Option ℕ) (s : Flow κ) : Prop where
  output : s.output.Inv
  tracked : Output.Tracked (reading bsonSize) s.output
  shows : s.output.Shows s.stats
  accepted : ∀ r, s.stats.accepted r = (s.output.lanes r).accepted.length
  fresh : ∀ k, s.handles k = .idle → s.output.calls k = .idle
  begun : ∀ k, k ∈ s.begun ↔ s.handles k ≠ .idle
  nodup : s.begun.Nodup
  total : s.stats.toForwarded.Total
  forwarded : s.stats.forwardedMessages = s.begun.countP fun k => (s.output.calls k).isReturned
  received : s.stats.received = s.begun.countP fun k => (s.handles k).normalised

/-- The numbers agree, and a call that waits in `write()` waits with its event. -/
structure Inv (bsonSize : Event → Option ℕ) (s : Flow κ) : Prop extends Core bsonSize s where
  writing : ∀ k event, s.handles k = .writing event → Output.Written k event s.output ∧ s.output.calls k ≠ .returned

variable {lim : Limits} {index : StreamIndex} {cfg : Settings} {bsonSize : Event → Option ℕ} {s s' : Flow κ}
  {o : Output κ Event}

omit [DecidableEq κ] in
/-- What the statistics show after a step of the output. -/
theorem observe_shows (hs : s.output.Shows s.stats) (h : Output.Reports s.output o) :
    (s.observe o).output.Shows (s.observe o).stats := by
  obtain ⟨news, hn, hshows⟩ := h
  have hdrop : o.reports.drop s.output.reports.length = news := by rw [hn, List.drop_left]
  simpa only [observe, hdrop] using hshows s.stats hs

omit [DecidableEq κ] in
theorem observe_frame (s : Flow κ) (o : Output κ Event) :
    (s.observe o).stats.received = s.stats.received ∧ (s.observe o).stats.toForwarded = s.stats.toForwarded :=
  s.stats.recordReports_frame _

omit [DecidableEq κ] in
theorem isReturned_iff {ε : Type*} {c : WriteCall κ ε} : c.isReturned = true ↔ c = .returned := by
  cases c <;> simp [WriteCall.isReturned]

/-- A step of the output that accepts nothing. -/
theorem Core.quiet (hs : s.Core bsonSize) {i : Output.Input κ Event} (hi : i.CallbacksReturn)
    (hstep : (Output.machine cfg (reading bsonSize)).step s.output i = some o)
    (hown : ∀ k event report, i = .write k event report → s.handles k ≠ .idle)
    (hl : ∀ r, (o.lanes r).accepted = (s.output.lanes r).accepted)
    (hc : ∀ k, Output.CallMoves (reading bsonSize) k (s.output.calls k) (o.calls k)) :
    (s.observe o).Core bsonSize := by
  have hparked : ∀ k d n, s.output.calls k = .parked d n → d.call = k := fun k d n hk => (hs.tracked.parked k d n hk).1
  obtain ⟨hreceived, hforwarded⟩ := s.observe_frame o
  refine ⟨(Output.step_sound hs.output hi hstep).1, Output.step_tracked hs.output hs.tracked hi hstep,
    observe_shows hs.shows (Output.step_reports hs.output hi hstep), fun r => ?_, fun k hk => ?_, hs.begun, hs.nodup,
    hforwarded ▸ hs.total, ?_, ?_⟩
  · rw [hforwarded, hs.accepted, ← hl r]
    rfl
  · exact Output.step_idle hs.output hparked hi hstep (hs.fresh k hk) fun event report heq => hown k event report heq hk
  · rw [hforwarded, hs.forwarded]
    refine List.countP_congr fun k _ => ?_
    rw [isReturned_iff, isReturned_iff]
    exact (hc k).returned_iff.symm
  · rw [hreceived, hs.received]
    rfl

/-- Whether a call has begun and been normalised does not change when a waiting call ends. -/
theorem setHandle_ended {k : κ} {event : Event} {outcome : HandleOutcome} (hk : s.handles k = .writing event)
    (ho : (HandleCall.ended outcome).normalised = true) (q : κ) :
    ((s.setHandle k (.ended outcome)).handles q = .idle ↔ s.handles q = .idle) ∧
      ((s.setHandle k (.ended outcome)).handles q).normalised = (s.handles q).normalised := by
  by_cases hq : q = k
  · subst hq
    simp only [setHandle, Function.update_self, hk]
    exact ⟨by simp, ho⟩
  · simp [setHandle, hq]

/-- A call whose `write()` has failed ends. -/
theorem Core.failed (hs : s.Core bsonSize) {k : κ} {event : Event} (hk : s.handles k = .writing event)
    {outcome : WriteOutcome} (ho : outcome ≠ .returns) : (s.finish k event outcome).Core bsonSize := by
  obtain ⟨hnormalised, hframe⟩ :
      (HandleCall.ended (MultiStreamEventDispatcher.forward s.stats event outcome).2).normalised = true ∧
      MultiStreamStatsCollector.Counts 0 s.stats (MultiStreamEventDispatcher.forward s.stats event outcome).1 := by
    cases outcome with
    | returns => exact absurd rfl ho
    | raises typeName => exact ⟨rfl, rfl, rfl, rfl⟩
    | cancelled => exact ⟨rfl, rfl, rfl, rfl⟩
  have hsame := setHandle_ended hk hnormalised
  refine ⟨hs.output, hs.tracked, fun r => ?_, fun r => ?_, fun q hq => hs.fresh q ((hsame q).1.1 hq), fun q => ?_,
    hs.nodup, ?_, ?_, ?_⟩
  · exact (congrArg CollectionStats.figures (congrFun hframe.collections r)).trans (hs.shows r)
  · exact (congrFun (congrArg Forwarded.accepted hframe.forwarded) r).trans (hs.accepted r)
  · exact (hs.begun q).trans (not_congr (hsame q).1.symm)
  · exact (congrArg Forwarded.Total hframe.forwarded).mpr hs.total
  · exact (congrArg Forwarded.forwardedMessages hframe.forwarded).trans hs.forwarded
  · exact hframe.received.trans
      (hs.received.trans (List.countP_congr fun q _ => iff_of_eq (congrArg (· = true) (hsame q).2.symm)))

/-- A step in which the `write()` of a call returns: the document is accepted, reported and counted as forwarded. -/
theorem Core.returned (hs : s.Core bsonSize) {i : Output.Input κ Event} (hi : i.CallbacksReturn)
    (hstep : (Output.machine cfg (reading bsonSize)).step s.output i = some o) {r : StorageRoute}
    {d : BufferedDocument κ Event} (ha : Output.Accepts (reading bsonSize) s.output o r d)
    (hk : s.handles d.call = .writing d.event) (hc : s.output.calls d.call ≠ .returned) :
    ((s.observe o).finish d.call d.event .returns).Core bsonSize := by
  have hsame := setHandle_ended (s := s.observe o) hk (show (HandleCall.ended .returns).normalised = true from rfl)
  obtain ⟨hreceived, hforwarded⟩ := s.observe_frame o
  have hroute : eventRoute d.event = r := ha.route
  refine ⟨(Output.step_sound hs.output hi hstep).1, Output.step_tracked hs.output hs.tracked hi hstep,
    observe_shows hs.shows (Output.step_reports hs.output hi hstep), fun q => ?_, fun q hq => ?_, fun q => ?_,
    hs.nodup, Forwarded.Total.recordForwarded (hforwarded ▸ hs.total) d.event, ?_, ?_⟩
  · show ((s.observe o).stats.toForwarded.recordForwarded d.event).accepted q = _
    rw [hforwarded, Forwarded.recordForwarded, hroute]
    dsimp only
    by_cases hq : q = r
    · subst hq
      rw [Function.update_self, hs.accepted]
      show _ = (o.lanes q).accepted.length
      rw [ha.lane, List.length_append]
      rfl
    · rw [Function.update_of_ne hq, hs.accepted]
      exact (congrArg List.length (ha.others q hq)).symm
  · have hidle := (hsame q).1.1 hq
    have hne : q ≠ d.call := by
      rintro rfl
      rw [show s.handles d.call = .idle from hidle] at hk
      cases hk
    exact (ha.call q hne).trans (hs.fresh q hidle)
  · exact (hs.begun q).trans (not_congr (hsame q).1.symm)
  · show (s.observe o).stats.toForwarded.forwardedMessages + 1 = _
    rw [hforwarded, hs.forwarded]
    refine (countP_add_one hs.nodup ((hs.begun d.call).2 ?_) ?_ ?_ fun q hq => ?_).symm
    · rw [hk]; exact HandleCall.noConfusion
    · exact Bool.eq_false_iff.2 fun h => hc (isReturned_iff.1 h)
    · exact isReturned_iff.2 ha.returned
    · exact congrArg _ (ha.call q hq)
  · exact hreceived.trans
      (hs.received.trans (List.countP_congr fun q _ => iff_of_eq (congrArg (· = true) (hsame q).2.symm)))

/-- The call `k` goes on where its `write()` has accepted its document or has accepted nothing. -/
theorem Core.advance (hs : s.Core bsonSize) {k : κ} {event : Event} (hk : s.handles k = .writing event)
    (hc : s.output.calls k ≠ .returned)
    (hw : ∀ q e, q ≠ k → s.handles q = .writing e → Output.Written q e s.output ∧ s.output.calls q ≠ .returned)
    {i : Output.Input κ Event} (hi : i.CallbacksReturn) (hown : ∀ q e report, i = .write q e report → q = k)
    (hstep : (Output.machine cfg (reading bsonSize)).step s.output i = some o) (hwk : Output.Written k event o)
    (hcall : (∃ r d, Output.Accepts (reading bsonSize) s.output o r d ∧ d.call = k) ∨
      (∀ r, (o.lanes r).accepted = (s.output.lanes r).accepted) ∧
        ∀ q, Output.CallMoves (reading bsonSize) q (s.output.calls q) (o.calls q)) :
    ((s.observe o).settle k event).Inv bsonSize := by
  have hwritten : ∀ q e, q ≠ k → s.handles q = .writing e → Output.Written q e o := fun q e hq he =>
    (hw q e hq he).1.step hs.output hs.tracked hi hstep
  have hfinish : ∀ q e outcome, ((s.observe o).finish k event outcome).handles q = .writing e →
      q ≠ k ∧ s.handles q = .writing e := by
    intro q e outcome he
    by_cases hq : q = k
    · subst hq
      simp [finish, setHandle] at he
    · refine ⟨hq, ?_⟩
      simpa [finish, setHandle, hq, observe] using he
  rcases hcall with ⟨r, d, ha, rfl⟩ | ⟨hl, hm⟩
  · -- the document is accepted
    obtain rfl : d.event = event := hwk.2.2 r d (by rw [ha.lane]; simp) rfl
    rw [settle, show (s.observe o).output.calls d.call = .returned from ha.returned]
    refine ⟨hs.returned hi hstep ha hk hc, fun q e he => ?_⟩
    obtain ⟨hq, he⟩ := hfinish q e _ he
    exact ⟨hwritten q e hq he, fun h => (hw q e hq he).2 ((ha.call q hq).symm.trans h)⟩
  · have hcore := hs.quiet hi hstep (fun q e report heq => by rw [hown q e report heq, hk]; simp) hl hm
    have hreturned : ∀ q, s.output.calls q ≠ .returned → o.calls q ≠ .returned := fun q =>
      mt (hm q).returned_iff.1
    have hothers : ∀ outcome q e, ((s.observe o).finish k event outcome).handles q = .writing e →
        Output.Written q e o ∧ o.calls q ≠ .returned := fun outcome q e he =>
      ⟨hwritten q e (hfinish q e outcome he).1 (hfinish q e outcome he).2,
        hreturned q (hw q e (hfinish q e outcome he).1 (hfinish q e outcome he).2).2⟩
    have hstay : (s.observe o).Inv bsonSize := ⟨hcore, fun q e he => by
      by_cases hq : q = k
      · subst hq
        cases hk.symm.trans he
        exact ⟨hwk, hreturned q hc⟩
      · exact ⟨hwritten q e hq he, hreturned q (hw q e hq he).2⟩⟩
    rw [settle]
    split
    · rename_i h
      exact absurd h (hreturned k hc)
    · exact ⟨hcore.failed hk WriteOutcome.noConfusion, hothers _⟩
    · exact ⟨hcore.failed hk WriteOutcome.noConfusion, hothers _⟩
    · exact hstay
    · exact hstay

/-- A call begins: its message has been counted exactly if it has been normalised. -/
theorem Core.start (hs : s.Core bsonSize) {k : κ} (hk : s.handles k = .idle) {stats : MultiStreamStatsCollector}
    {call : HandleCall} (hcall : call ≠ .idle)
    (hcount : MultiStreamStatsCollector.Counts (if call.normalised then 1 else 0) s.stats stats) :
    (s.start k stats call).Core bsonSize := by
  have hnew : k ∉ s.begun := fun hmem => (hs.begun k).1 hmem hk
  have hother : ∀ q ∈ s.begun, (s.start k stats call).handles q = s.handles q := fun q hq =>
    Function.update_of_ne (show q ≠ k from fun heq => hnew (heq ▸ hq)) _ _
  have hself : (s.start k stats call).handles k = call := Function.update_self ..
  refine ⟨hs.output, hs.tracked, fun r => ?_, fun r => ?_, fun q hq => ?_, fun q => ?_, ?_,
    (congrArg Forwarded.Total hcount.forwarded).mpr hs.total, ?_, ?_⟩
  · exact (congrArg CollectionStats.figures (congrFun hcount.collections r)).trans (hs.shows r)
  · exact (congrFun (congrArg Forwarded.accepted hcount.forwarded) r).trans (hs.accepted r)
  · by_cases hqk : q = k
    · subst hqk
      exact absurd (hself.symm.trans hq) hcall
    · exact hs.fresh q ((Function.update_of_ne hqk _ _).symm.trans hq)
  · show q ∈ s.begun ++ [k] ↔ _
    by_cases hqk : q = k
    · subst hqk
      simp [hself, hcall]
    · rw [show (s.start k stats call).handles q = s.handles q from Function.update_of_ne hqk _ _, ← hs.begun q]
      simp [hqk]
  · exact List.nodup_append.2 ⟨hs.nodup, List.nodup_singleton k, fun x hx y hy hxy => by
      cases List.mem_singleton.1 hy
      exact hnew (hxy ▸ hx)⟩
  · show stats.forwardedMessages = (s.begun ++ [k]).countP fun q => (s.output.calls q).isReturned
    rw [congrArg Forwarded.forwardedMessages hcount.forwarded, hs.forwarded, List.countP_append]
    simp [hs.fresh k hk, WriteCall.isReturned]
  · show stats.received = (s.begun ++ [k]).countP fun q => ((s.start k stats call).handles q).normalised
    rw [hcount.received, hs.received, List.countP_append, List.countP_singleton, hself]
    congr 1
    exact List.countP_congr fun q hq => by rw [hother q hq]

/-- What `handle` has counted when it comes to `output.write`, or ends before. -/
theorem receive_counts {stats : MultiStreamStatsCollector} {now : ℚ} {message : ReceivedMessage}
    {result : Except HandleOutcome Event} {stats' : MultiStreamStatsCollector}
    (h : MultiStreamEventDispatcher.receive lim index stats now message = (stats', result)) :
    MultiStreamStatsCollector.Counts
      (if (match result with
        | .ok event => HandleCall.writing event
        | .error outcome => .ended outcome).normalised then 1 else 0) stats stats' := by
  unfold MultiStreamEventDispatcher.receive at h
  split at h
  · cases h
    exact ⟨rfl, rfl, rfl⟩
  · split at h
    · rename_i hr
      cases h
      exact MultiStreamStatsCollector.recordReceived_counts (.inr hr)
    · rename_i hr
      cases h
      exact MultiStreamStatsCollector.recordReceived_counts (.inl hr)

omit [DecidableEq κ] in
theorem recordConnectionStatus_counts (stats : MultiStreamStatsCollector) (now : ℚ) (group category value : Str) :
    MultiStreamStatsCollector.Counts 0 stats (stats.recordConnectionStatus now group category value) := by
  unfold MultiStreamStatsCollector.recordConnectionStatus
  split
  · exact ⟨rfl, rfl, rfl⟩
  dsimp only
  split
  · exact ⟨rfl, rfl, rfl⟩
  split
  · exact ⟨rfl, rfl, rfl⟩
  split
  · exact ⟨rfl, rfl, rfl⟩
  split <;> exact ⟨rfl, rfl, rfl⟩

/-- **A step keeps the numbers in agreement.** -/
theorem step_inv (hs : s.Inv bsonSize) {i : Input κ} (h : (machine lim index cfg bsonSize).step s i = some s') :
    s'.Inv bsonSize := by
  have hparked : ∀ k d n, s.output.calls k = .parked d n → d.call = k := fun k d n hk => (hs.tracked.parked k d n hk).1
  change step lim index cfg bsonSize s i = some s' at h
  cases i with
  | handle k message now =>
    rw [step] at h
    split at h
    case h_2 => cases h
    rename_i hk
    split at h
    · rename_i stats outcome hr
      cases h
      refine ⟨hs.toCore.start hk HandleCall.noConfusion (receive_counts hr), fun q event hq => ?_⟩
      have hqk : q ≠ k := by
        rintro rfl
        simp [start, setHandle] at hq
      exact hs.writing q event (by simpa [start, setHandle, hqk] using hq)
    · rename_i stats event hr
      obtain ⟨o, ho, rfl⟩ := Option.map_eq_some_iff.1 h
      replace ho : (Output.machine cfg (reading bsonSize)).step s.output (.write k event .returns) = some o := ho
      have hcore : (s.start k stats (.writing event)).Core bsonSize :=
        hs.toCore.start hk HandleCall.noConfusion (receive_counts hr)
      have hwrite : s.output.calls k = .idle := hs.fresh k hk
      refine hcore.advance (i := .write k event .returns) (by simp [start, setHandle])
        (by simp [start, setHandle, hwrite]) (fun q e hq he => ?_) rfl (fun q e report heq => ?_) ho ?_ ?_
      · exact hs.writing q e (by simpa [start, setHandle, hq] using he)
      · cases heq; rfl
      · cases Output.effect_of_step ho with
        | write hidle => exact Output.write_written hs.output hs.tracked hidle
      · cases Output.step_calls hs.output hparked (i := .write k event .returns) rfl ho with
        | written _ _ ha => exact .inl ⟨_, _, ha, rfl⟩
        | quiet hl hc => exact .inr ⟨hl, hc⟩
  | resume k =>
    rw [step] at h
    split at h
    case h_2 => cases h
    rename_i event hk
    obtain ⟨o, ho, rfl⟩ := Option.map_eq_some_iff.1 h
    replace ho : (Output.machine cfg (reading bsonSize)).step s.output (.resumeWrite k .returns) = some o := ho
    obtain ⟨hw, hc⟩ := hs.writing k event hk
    have hi : (Output.Input.resumeWrite k .returns : Output.Input κ Event).CallbacksReturn := rfl
    refine hs.toCore.advance hk hc (fun q e _ => hs.writing q e) hi (fun q e report heq => by cases heq) ho
      (hw.step hs.output hs.tracked hi ho) ?_
    cases Output.step_calls hs.output hparked hi ho with
    | @resumed r _ d _ hd ha => exact .inl ⟨r, d, ha, hparked k d true hd⟩
    | quiet hl hc => exact .inr ⟨hl, hc⟩
  | cancel k =>
    rw [step] at h
    split at h
    case h_2 => cases h
    rename_i event hk
    obtain ⟨o, ho, rfl⟩ := Option.map_eq_some_iff.1 h
    replace ho : (Output.machine cfg (reading bsonSize)).step s.output (.cancelWrite k) = some o := ho
    obtain ⟨hw, hc⟩ := hs.writing k event hk
    have hi : (Output.Input.cancelWrite k : Output.Input κ Event).CallbacksReturn := trivial
    refine hs.toCore.advance hk hc (fun q e _ => hs.writing q e) hi (fun q e report heq => by cases heq) ho
      (hw.step hs.output hs.tracked hi ho) ?_
    cases Output.step_calls hs.output hparked hi ho with
    | quiet hl hc => exact .inr ⟨hl, hc⟩
  | output i =>
    rw [step] at h
    split at h
    case isFalse => cases h
    rename_i hb
    obtain ⟨o, ho, rfl⟩ := Option.map_eq_some_iff.1 h
    have hi : i.CallbacksReturn := by
      cases i <;> first | exact trivial | cases hb
    cases Output.step_calls hs.output hparked hi ho with
    | written => cases hb
    | resumed => cases hb
    | quiet hl hc =>
      refine ⟨hs.toCore.quiet hi ho (fun q e report heq => by subst heq; cases hb) hl hc, fun q e he => ?_⟩
      obtain ⟨hw, hn⟩ := hs.writing q e he
      exact ⟨hw.step hs.output hs.tracked hi ho, mt (hc q).returned_iff.1 hn⟩
  | status group category value now =>
    cases h
    have hcount := recordConnectionStatus_counts s.stats now group category value
    refine ⟨⟨hs.output, hs.tracked, fun r => ?_, fun r => ?_, hs.fresh, hs.begun, hs.nodup,
      (congrArg Forwarded.Total hcount.forwarded).mpr hs.total, ?_, ?_⟩, hs.writing⟩
    · exact (congrArg CollectionStats.figures (congrFun hcount.collections r)).trans (hs.shows r)
    · exact (congrFun (congrArg Forwarded.accepted hcount.forwarded) r).trans (hs.accepted r)
    · exact (congrArg Forwarded.forwardedMessages hcount.forwarded).trans hs.forwarded
    · exact hcount.received.trans hs.received

omit [DecidableEq κ] in
theorem opened_inv (symbols : List Str) (startedAt : ℚ) : (opened symbols startedAt : Flow κ).Inv bsonSize where
  output := Output.opened_inv
  tracked := Output.opened_tracked
  shows _ := rfl
  accepted _ := rfl
  fresh _ _ := rfl
  begun k := by simp [opened]
  nodup := List.nodup_nil
  total := Finset.sum_const_zero
  forwarded := rfl
  received := rfl
  writing _ _ h := nomatch h

theorem path_inv {P : Flow κ → Input κ → Prop} {is : List (Input κ)}
    (h : (machine lim index cfg bsonSize).Path P s is s') (hs : s.Inv bsonSize) : s'.Inv bsonSize :=
  h.invariant (I := Inv bsonSize) (fun _ _ _ _ hI hstep => step_inv hI hstep) hs

/-- **The statistics agree with the store** in every state of every run: on each route what was accepted is persisted or
pending, and what is pending is what the output holds unconfirmed; the routes add up to the messages forwarded, which
are the `write()` calls that have returned; and every message normalised has been counted once. -/
theorem statistics_agree {symbols : List Str} {startedAt : ℚ} {is : List (Input κ)}
    (h : (machine lim index cfg bsonSize).Path (fun _ _ => True) (opened symbols startedAt) is s) :
    (∀ r, (s.stats.accepted r : ℤ) = (s.stats.collections r).persisted + (s.stats.collections r).pending ∧
      (s.stats.collections r).pending = (s.output.lanes r).pendingDocuments ∧
      (s.stats.collections r).pendingBytes = (s.output.lanes r).pendingBytes ∧
      (s.output.lanes r).pendingDocuments = (s.output.lanes r).held.length ∧
      (s.output.lanes r).pendingBytes = byteCount (s.output.lanes r).held) ∧
    ∑ r, s.stats.accepted r = s.stats.forwardedMessages ∧
    s.stats.forwardedMessages = s.begun.countP (fun k => (s.output.calls k).isReturned) ∧
    s.stats.controlOrUnclassified + (streamOrder.map s.stats.cumulativeByStream).sum =
      s.begun.countP (fun k => (s.handles k).normalised) ∧
    s.begun.Nodup ∧ ∀ k, k ∈ s.begun ↔ s.handles k ≠ .idle := by
  have hs := path_inv h (opened_inv symbols startedAt)
  refine ⟨fun r => ?_, hs.total, hs.forwarded, hs.received, hs.nodup, hs.begun⟩
  obtain ⟨hconfirmed, hpending, hbytes⟩ := Figures.mk.inj (hs.shows r)
  have hlane := hs.output.lanes r
  refine ⟨?_, hpending, hbytes, hlane.pendingDocuments, hlane.pendingBytes⟩
  rw [hpending, hconfirmed, hlane.pendingDocuments, hs.accepted, hlane.accepted, List.length_append, Nat.cast_add]

/-- An acknowledgement is handled, written and confirmed; another one is handled and waits for room. -/
theorem statistics_agree_acknowledgements : ∃ is, ∃ s : Flow ℕ,
    (machine ⟨1000, 4300⟩ [] Output.singleBuffer fun _ => some 10).Path (fun _ _ => True) (opened [str "BTCUSDT"] 0)
      is s ∧ s.stats.forwardedMessages = 2 ∧ (s.stats.collections .control).persisted = 1 ∧
      (s.stats.accepted .control : ℤ) = (s.stats.collections .control).persisted +
        (s.stats.collections .control).pending ∧
      ∑ r, s.stats.accepted r = s.stats.forwardedMessages := by
  have hrun : ∃ s : Flow ℕ, (machine ⟨1000, 4300⟩ [] Output.singleBuffer fun _ => some 10).Path (fun _ _ => True)
      (opened [str "BTCUSDT"] 0) _ s ∧
        decide (s.stats.forwardedMessages = 2 ∧ (s.stats.collections .control).persisted = 1) = true :=
    Machine.exists_path_of_check (p := fun s : Flow ℕ =>
      decide (s.stats.forwardedMessages = 2 ∧ (s.stats.collections .control).persisted = 1)) _
      [.handle 0 ⟨.text (str "\x7b\"id\":1\x7d"), str "spot_market", str "c1", 1, 0⟩ 0,
        .handle 1 ⟨.text (str "\x7b\"id\":2\x7d"), str "spot_market", str "c1", 2, 0⟩ 0,
        .output (.worker .control false), .output (.worker .control false),
        .output (.insertDone .control .success false), .resume 1] (by decide +kernel)
  obtain ⟨s, hs, hp⟩ := hrun
  obtain ⟨hf, hpers⟩ := of_decide_eq_true hp
  have h := statistics_agree hs
  exact ⟨_, s, hs, hf, hpers, (h.1 .control).1, h.2.1⟩

end Flow

end BinanceCollector
