import BinanceCollector.Monitoring.Agreement
import BinanceCollector.Outputs.MultiMongoClose

/-!
# The storage states on the screen

`_set_state` of `MongoMultiCollectionOutput` and `record_storage_state` of the statistics. The output tells a state of
one route, or of all of them under the name `"MongoDB"`, and the statistics keep the last one. `Screen` joins the
output and the statistics that its three callbacks change.

- `step_tells`: the last state that a step tells of a route is the one its worker is in.
- **`storage_states_truthful`**: what the screen shows of the output in every state of every run.
-/

namespace BinanceCollector.MultiMongo

open Text Steps

/-! ## States and reports -/

/-- The values given to `_set_state`. -/
inductive StorageState where
  | checking | connected | connectionFailed | saving | error | closing | closed
  deriving DecidableEq, Repr

def StorageState.text : StorageState → Str
  | .checking => str "연결 확인 중"
  | .connected => str "연결됨"
  | .connectionFailed => str "연결 실패"
  | .saving => str "적재 중"
  | .error => str "오류"
  | .closing => str "종료 중"
  | .closed => str "종료됨"

/-- The texts tell the states apart. -/
theorem StorageState.text_injective {a b : StorageState} (h : a.text = b.text) : a = b := by
  cases a <;> cases b <;> first | rfl | exact absurd (str_injective h) (by decide)

/-- Whose state `_set_state` tells. -/
inductive StateTarget where
  /-- `"MongoDB"` -/
  | mongoDB
  | route (r : StorageRoute)
  deriving DecidableEq, Repr

/-- The calls of `_set_state` in `open()`. -/
def openStates (ok : Bool) : List (StateTarget × StorageState) :=
  [(.mongoDB, .checking), (.mongoDB, if ok then .connected else .connectionFailed)]

variable {κ ε : Type*}

/-- The calls of `_set_state` in worker code that ends so: `_persist_batch` was entered, or the worker has raised. -/
def Progress.states (r : StorageRoute) : Progress κ ε → List (StateTarget × StorageState)
  | .goes l =>
    match l.worker with
    | .awaitSlot .. => [(.route r, .saving)]
    | _ => []
  | .fails .. => [(.route r, .error)]

namespace Output

/-- The calls of `_set_state` once `insert_many` has ended. -/
def insertStates (cfg : Settings) (s : Output κ ε) (r : StorageRoute) (batch : List (BufferedDocument κ ε))
    (carry : Option (BufferedDocument κ ε)) (expired : Bool) : InsertOutcome → List (StateTarget × StorageState)
  | .success =>
    match s.confirmBatch r batch with
    | .ok s =>
      (.route r, .connected) ::
        (Lane.runWorker cfg s.connected s.closeRequested expired { s.lanes r with inflight := [] } carry).states r
    | .error _ => [(.route r, .error)]
  | _ => [(.route r, .error)]

/-- The calls of `_set_state` at the end of `close()`. -/
def closeStates (s : Output κ ε) (timedOut clientOk : Bool) : List (StateTarget × StorageState) :=
  if s.workerErrors ≠ [] ∧ ¬s.failureReported then [(.mongoDB, .error)]
  else if timedOut then [(.mongoDB, .error)]
  else if clientOk then [(.mongoDB, .closed)]
  else [(.mongoDB, .error)]

/-- The calls of `_set_state` in a step of the event loop. -/
def states (cfg : Settings) (s : Output κ ε) : Input κ ε → List (StateTarget × StorageState)
  | .worker r expired =>
    match (s.lanes r).resume cfg s.connected s.closeRequested expired (s.slotFree cfg) with
    | some p => p.states r
    | none => []
  | .insertDone r outcome expired =>
    match (s.lanes r).worker with
    | .inserting batch carry => s.insertStates cfg r batch carry expired outcome
    | _ => []
  | .close => [(.mongoDB, .closing)]
  | .clientClosed ok =>
    match s.closeCall with
    | .closingClient timedOut => s.closeStates timedOut ok
    | _ => []
  | _ => []

end Output

end BinanceCollector.MultiMongo

namespace BinanceCollector.MultiStreamStatsCollector

open Text MultiMongo

/-- `record_storage_state`. -/
def recordStorageState (stats : MultiStreamStatsCollector) (target : StateTarget) (state : Str) :
    MultiStreamStatsCollector :=
  match target with
  | .mongoDB => { stats with collections := fun r => { stats.collections r with state := state } }
  | .route r => stats.setCollection r { stats.collections r with state := state }

def recordStates (stats : MultiStreamStatsCollector) (news : List (StateTarget × StorageState)) :
    MultiStreamStatsCollector :=
  news.foldl (fun stats report => stats.recordStorageState report.1 report.2.text) stats

/-- The state shown for a route. -/
def storageState (stats : MultiStreamStatsCollector) (r : StorageRoute) : Str := (stats.collections r).state

/-- The state shown for a route after these calls. -/
def shownAfter (r : StorageRoute) (before : Str) (news : List (StateTarget × StorageState)) : Str :=
  news.foldl (fun text report => if report.1 = .mongoDB ∨ report.1 = .route r then report.2.text else text) before

theorem storageState_recordStorageState (stats : MultiStreamStatsCollector) (target : StateTarget) (state : Str)
    (r : StorageRoute) : (stats.recordStorageState target state).storageState r =
      if target = .mongoDB ∨ target = .route r then state else stats.storageState r := by
  cases target with
  | mongoDB => simp [recordStorageState, storageState]
  | route q =>
    by_cases hq : q = r
    · subst hq
      simp [recordStorageState, storageState, setCollection]
    · have hr : r ≠ q := Ne.symm hq
      simp [recordStorageState, storageState, setCollection, hq, hr]

theorem storageState_recordStates (r : StorageRoute) (news : List (StateTarget × StorageState)) :
    ∀ stats : MultiStreamStatsCollector,
      (stats.recordStates news).storageState r = shownAfter r (stats.storageState r) news := by
  induction news with
  | nil => exact fun stats => rfl
  | cons report news ih =>
    intro stats
    rw [recordStates, List.foldl_cons]
    refine (ih _).trans ?_
    rw [storageState_recordStorageState]
    rfl

/-- The other two callbacks leave the states alone. -/
theorem storageState_recordReports (r : StorageRoute) (reports : List Report) :
    ∀ stats : MultiStreamStatsCollector, (stats.recordReports reports).storageState r = stats.storageState r := by
  induction reports with
  | nil => exact fun stats => rfl
  | cons report reports ih =>
    intro stats
    refine (ih (stats.recordReport report)).trans ?_
    cases report with
    | batchPersisted q count =>
      by_cases hq : r = q
      · subst hq
        simp [recordReport, recordBatchPersisted, storageState, setCollection]
      · simp [recordReport, recordBatchPersisted, storageState, setCollection, hq]
    | bufferChanged q pending pendingBytes total totalBytes =>
      by_cases hq : r = q
      · subst hq
        simp [recordReport, recordBufferChanged, storageState, setCollection]
      · simp [recordReport, recordBufferChanged, storageState, setCollection, hq]

end BinanceCollector.MultiStreamStatsCollector

namespace BinanceCollector.MultiMongo

open Text Steps MultiStreamStatsCollector

variable {κ ε : Type*} {cfg : Settings} {rd : Reading ε}

/-! ## The state of a worker -/

/-- The state that a worker is in. -/
def Worker.state : Worker κ ε → StorageState
  | .awaitSlot .. => .saving
  | .inserting .. => .saving
  | .failed .. => .error
  | _ => .connected

/-- The last of these calls about `r` tells the state of `w'`, or there is none and the state is still that of `w`. -/
def Tells (r : StorageRoute) (news : List (StateTarget × StorageState)) (w w' : Worker κ ε) : Prop :=
  (news = [] ∧ w'.state = w.state) ∨ ∀ before, shownAfter r before news = w'.state.text

theorem tells_error (r : StorageRoute) (w : Worker κ ε) (passed unpassed : List (BufferedDocument κ ε)) :
    Tells r [(.route r, .error)] w (.failed passed unpassed) := .inr fun _ => if_pos (.inr rfl)

variable {connected closeRequested expired slotFree : Bool} {w : Worker κ ε} {r : StorageRoute}

theorem persistBatch_tells (l : Lane κ ε) (batch : List (BufferedDocument κ ε))
    (carry : Option (BufferedDocument κ ε)) :
    Tells r ((l.persistBatch connected batch carry).states r) w (l.persistBatch connected batch carry).lane.worker := by
  unfold Lane.persistBatch
  cases connected with
  | false => exact tells_error r w _ _
  | true => exact .inr fun _ => if_pos (.inr rfl)

/-- Worker code ends where the worker waits, or in `_persist_batch`. -/
theorem collectBatch_tells (hw : w.state = .connected) (l : Lane κ ε) (batch : List (BufferedDocument κ ε)) (n : ℕ)
    (candidates : List (BufferedDocument κ ε)) :
    Tells r ((l.collectBatch cfg connected closeRequested expired batch n candidates).states r) w
      (l.collectBatch cfg connected closeRequested expired batch n candidates).lane.worker := by
  unfold Lane.collectBatch
  split
  · split
    · exact persistBatch_tells _ _ _
    · exact .inl ⟨rfl, hw.symm⟩
  · exact persistBatch_tells _ _ _

theorem runWorker_tells (hw : w.state = .connected) (l : Lane κ ε) (carry : Option (BufferedDocument κ ε)) :
    Tells r ((l.runWorker cfg connected closeRequested expired carry).states r) w
      (l.runWorker cfg connected closeRequested expired carry).lane.worker := by
  unfold Lane.runWorker
  split
  · exact collectBatch_tells hw _ _ _ _
  · exact collectBatch_tells hw _ _ _ _
  · split
    · exact .inl ⟨rfl, hw.symm⟩
    · exact .inl ⟨rfl, hw.symm⟩

theorem resume_tells {l : Lane κ ε} {p : Progress κ ε}
    (h : l.resume cfg connected closeRequested expired slotFree = some p) :
    Tells r (p.states r) l.worker p.lane.worker := by
  unfold Lane.resume at h
  split at h
  · rename_i hw
    cases h
    exact runWorker_tells (by rw [hw]; rfl) _ _
  · rename_i hw
    cases h
    exact .inl ⟨rfl, by rw [hw]; rfl⟩
  · rename_i hw
    split at h
    · split at h
      · cases h
        exact .inl ⟨rfl, by rw [hw]; rfl⟩
      · cases h
        exact .inl ⟨rfl, by rw [hw]; rfl⟩
    · cases h
  · rename_i hw
    cases h
    exact collectBatch_tells (by rw [hw]; rfl) _ _ _ _
  · rename_i hw
    cases h
    exact .inl ⟨rfl, by rw [hw]; rfl⟩
  · rename_i hw
    cases h
    exact collectBatch_tells (by rw [hw]; rfl) _ _ _ _
  · rename_i hw
    split at h
    · cases h
      exact persistBatch_tells _ _ _
    · cases h
  · rename_i hw
    split at h
    · cases h
      exact .inl ⟨rfl, by rw [hw]; rfl⟩
    · cases h
  · cases h

/-- A batch is stored, and the worker goes on from there. -/
theorem stored_tells {news : List (StateTarget × StorageState)} {w' : Worker κ ε}
    (h : Tells r news (Worker.created : Worker κ ε) w') : Tells r ((.route r, .connected) :: news) w w' := by
  refine .inr fun before => ?_
  have hfirst : shownAfter r before ((.route r, .connected) :: news) = shownAfter r StorageState.connected.text news :=
    congrArg (shownAfter r · news) (if_pos (.inr rfl))
  rw [hfirst]
  rcases h with ⟨rfl, hstate⟩ | h
  · rw [hstate]
    rfl
  · exact h _

namespace Output

variable {s s' : Output κ ε}

/-- Calls about the route `q` only. -/
def About (q : StorageRoute) (news : List (StateTarget × StorageState)) : Prop := ∀ report ∈ news, report.1 = .route q

theorem About.shownAfter {q : StorageRoute} {news : List (StateTarget × StorageState)} (h : About q news) (hr : r ≠ q) :
    ∀ before : Str, shownAfter r before news = before := by
  induction news with
  | nil => exact fun _ => rfl
  | cons report news ih =>
    intro before
    have hroute : report.1 = .route q := h report List.mem_cons_self
    have hnot : ¬(report.1 = .mongoDB ∨ report.1 = .route r) := by
      rw [hroute]
      rintro (hm | hm) <;> cases hm
      exact hr rfl
    exact (ih (fun report hm => h report (List.mem_cons_of_mem _ hm)) _).trans (if_neg hnot)

theorem progress_about (r : StorageRoute) (p : Progress κ ε) : About r (p.states r) := by
  intro report hm
  cases p with
  | goes l =>
    simp only [Progress.states] at hm
    split at hm
    · cases List.mem_singleton.1 hm
      rfl
    · cases hm
  | fails l e =>
    cases List.mem_singleton.1 hm
    rfl

theorem insertStates_about (cfg : Settings) (s : Output κ ε) (r : StorageRoute) (batch : List (BufferedDocument κ ε))
    (carry : Option (BufferedDocument κ ε)) (expired : Bool) (outcome : InsertOutcome) :
    About r (s.insertStates cfg r batch carry expired outcome) := by
  have herror : About r [(.route r, .error)] := fun report hm => by rw [List.mem_singleton.1 hm]
  unfold insertStates
  split
  · split
    · intro report hm
      rcases List.mem_cons.1 hm with rfl | hm
      · rfl
      · exact progress_about r _ report hm
    · exact herror
  · exact herror

/-- What the calls of a step tell of `r`: nothing, while its worker stays in its state or is cancelled, or the state its
worker is in after the step. -/
def Reflects (s s' : Output κ ε) (news : List (StateTarget × StorageState)) (r : StorageRoute) : Prop :=
  (∀ before, shownAfter r before news = before) ∧
      ((s'.lanes r).worker.state = (s.lanes r).worker.state ∨
        (s.lanes r).worker.done = false ∧ ∃ passed unpassed, (s'.lanes r).worker = .cancelled passed unpassed) ∨
    ∀ before, shownAfter r before news = (s'.lanes r).worker.state.text

theorem reflects_same (r : StorageRoute) (hw : (s'.lanes r).worker.state = (s.lanes r).worker.state) :
    Reflects s s' [] r := .inl ⟨fun _ => rfl, .inl hw⟩

/-- Worker code of `q` changes no other worker. -/
theorem reflects_tells {q : StorageRoute} {news : List (StateTarget × StorageState)}
    (hothers : ∀ r, r ≠ q → (s'.lanes r).worker = (s.lanes r).worker) (habout : About q news)
    (htells : Tells q news (s.lanes q).worker (s'.lanes q).worker) (r : StorageRoute) : Reflects s s' news r := by
  by_cases hr : r = q
  · subst hr
    rcases htells with ⟨rfl, hstate⟩ | htells
    · exact reflects_same r hstate
    · exact .inr htells
  · exact .inl ⟨habout.shownAfter hr, .inl (congrArg Worker.state (hothers r hr))⟩

theorem proceed_reflects {t : Output κ ε} {q : StorageRoute} {p : Progress κ ε}
    {news : List (StateTarget × StorageState)}
    (ht : ∀ r, r ≠ q → (t.lanes r).worker = (s.lanes r).worker) (habout : About q news)
    (htells : Tells q news (s.lanes q).worker p.lane.worker) (r : StorageRoute) :
    Reflects s (t.proceed q p) news r := by
  have hlanes : (t.proceed q p).lanes = Function.update t.lanes q p.lane := by cases p <;> rfl
  refine reflects_tells (fun r hr => ?_) habout ?_ r
  · rw [hlanes, Function.update_of_ne hr]
    exact ht r hr
  · rw [hlanes, Function.update_self]
    exact htells

/-- A worker that raises out of `_persist_batch` tells an error. -/
theorem insertFails_reflects {t : Output κ ε} {q : StorageRoute}
    (ht : ∀ r, r ≠ q → (t.lanes r).worker = (s.lanes r).worker) (passed : List (BufferedDocument κ ε))
    (carry : Option (BufferedDocument κ ε)) (e : WorkerError) (r : StorageRoute) :
    Reflects s (t.insertFails q passed carry e) [(.route q, .error)] r :=
  proceed_reflects (p := .fails { t.lanes q with worker := .failed passed carry.toList } e) ht
    (fun report hm => by rw [List.mem_singleton.1 hm]) (tells_error _ _ _ _) r

/-- The code after `insert_many` tells that the batch is stored, and what comes next, or an error. -/
theorem insertDone_reflects (hs : s.Inv) {q : StorageRoute} {batch : List (BufferedDocument κ ε)}
    {carry : Option (BufferedDocument κ ε)} (hw : (s.lanes q).worker = .inserting batch carry)
    (outcome : InsertOutcome) (expired : Bool) (r : StorageRoute) :
    Reflects s (s.insertDone cfg q batch carry outcome expired)
      (s.insertStates cfg q batch carry expired outcome) r := by
  have hends := insertDone_ends cfg hs hw outcome expired
  have habout := insertStates_about cfg s q batch carry expired outcome
  have hsettled : ∀ ds r, r ≠ q → ((s.settled q ds).lanes r).worker = (s.lanes r).worker := fun ds r hr =>
    congrArg Lane.worker (settled_lanes s q ds r hr)
  have herror : outcome ≠ .success →
      s.insertStates cfg q batch carry expired outcome = [(.route q, .error)] := by
    intro hfails
    cases outcome with
    | success => exact absurd rfl hfails
    | bulkWriteError _ | otherError | timeout => rfl
  generalize s.insertDone cfg q batch carry outcome expired = s' at hends ⊢
  cases hends with
  | goesOn =>
    have hconfirm : s.confirmBatch q batch = .ok (s.settled q batch) :=
      confirmBatch_eq hs batch [] (by rw [hw]; exact (List.append_nil _).symm)
    have hlane : (s.settled q batch).lanes q = (s.lanes q).settle batch := Function.update_self ..
    have hnews : s.insertStates cfg q batch carry expired .success = (.route q, .connected) ::
        (Lane.runWorker cfg s.connected s.closeRequested expired { (s.lanes q).settle batch with inflight := [] }
          carry).states q := by
      simp only [insertStates, hconfirm, hlane]
      rfl
    rw [hnews] at habout ⊢
    exact proceed_reflects (hsettled batch) habout (stored_tells (runWorker_tells rfl _ _)) r
  | raises hfails inflight _ =>
    rw [herror hfails]
    exact insertFails_reflects (fun r hr => by simp [setLane, hr]) _ _ _ r
  | confirms hfails n =>
    rw [herror hfails]
    refine insertFails_reflects (fun r hr => ?_) _ _ _ r
    have hlane : ∀ (t : Output κ ε) (l : Lane κ ε), ((t.setLane q l).lanes r).worker = (t.lanes r).worker :=
      fun t l => congrArg Lane.worker (Function.update_of_ne hr ..)
    exact (hlane _ _).trans (hsettled _ r hr)

variable [DecidableEq κ]

theorem tryWrite_worker (hs : s.Inv) (q : StorageRoute) (d : BufferedDocument κ ε) (r : StorageRoute) :
    ((s.tryWrite cfg q d .returns).lanes r).worker = (s.lanes r).worker := by
  rcases tryWrite_cases hs.failed q d with ⟨-, -, h⟩ | ⟨-, h⟩ | ⟨-, -, h⟩
  · rw [h]
    by_cases hr : r = q
    · subst hr
      simp [accepted, setCall, reportBuffer, setLane, setBudget, Lane.accept]
    · simp [accepted, setCall, reportBuffer, setLane, setBudget, hr]
  · rw [h]
    rfl
  · rw [h]
    rfl

/-- **What a step of a writer or a worker tells.** -/
theorem step_tells (hs : s.Inv) {i : Input κ ε} (hi : i.CallbacksReturn) (hc : i.control = false)
    (h : (machine cfg rd).step s i = some s') (r : StorageRoute) : Reflects s s' (s.states cfg i) r := by
  cases effect_of_step h with
  | @write k event report _ =>
    cases hi
    refine reflects_same r (congrArg Worker.state ?_)
    unfold write
    split
    · rfl
    · split
      · rfl
      · split
        · rfl
        · split
          · rfl
          · exact tryWrite_worker hs _ _ r
  | resumeWrite _ =>
    cases hi
    exact reflects_same r (congrArg Worker.state (tryWrite_worker hs _ _ r))
  | cancelWrite _ => exact reflects_same r rfl
  | @getTask q l hl =>
    have habout : About q ([] : List (StateTarget × StorageState)) := fun _ hm => nomatch hm
    refine reflects_tells (fun r hr => by simp [setLane, hr]) habout (.inl ⟨rfl, ?_⟩) r
    have hlane : (s.setLane q l).lanes q = l := Function.update_self ..
    rw [hlane]
    unfold Lane.getTask at hl
    split at hl
    · rename_i hw _
      cases hl
      rw [hw]
      rfl
    · rename_i hw _
      cases hl
      rw [hw]
      rfl
    · cases hl
  | @worker q expired p hp =>
    have hnews : s.states cfg (.worker q expired) = p.states q := by simp only [states, hp]
    rw [hnews]
    exact proceed_reflects (fun _ _ => rfl) (progress_about q p) (resume_tells hp) r
  | @insertDone q batch carry outcome expired hw =>
    have hnews : s.states cfg (.insertDone q outcome expired) = s.insertStates cfg q batch carry expired outcome := by
      simp only [states, hw]
    rw [hnews]
    exact insertDone_reflects hs hw outcome expired r
  | @cancelWorker q _ hd =>
    by_cases hr : r = q
    · subst hr
      refine .inl ⟨fun _ => rfl, .inr ⟨hd, (s.lanes r).worker.passed, (s.lanes r).worker.unpassed, ?_⟩⟩
      simp [setLane]
    · exact reflects_same r (by simp [setLane, hr])
  | close _ _ | workersDone _ _ | shutdownTimeout _ | clientClosed _ | cancelClose _ | reportFailure _ => cases hc

end Output

/-! ## The screen -/

/-- The output and the statistics that its callbacks change. -/
structure Screen (κ ε : Type*) where
  output : Output κ ε
  stats : MultiStreamStatsCollector

/-- What is shown of a route while `close()` runs: its last word, or the state of the worker. A worker that `close()`
has cancelled leaves its state behind. -/
def Lingers (w : Worker κ ε) (text : Str) : Prop :=
  text = StorageState.closing.text ∨ text = w.state.text ∨
    (∃ passed unpassed, w = .cancelled passed unpassed) ∧ text = StorageState.saving.text

/-- What is shown of a route, by how far `close()` has got. -/
def Shown (call : CloseCall) (w : Worker κ ε) (text : Str) : Prop :=
  match call with
  | .idle => text = w.state.text
  | .gathering | .reaping | .closingClient _ | .raised .cancelled => Lingers w text
  | .returned => text = StorageState.closed.text
  | .raised _ => text = StorageState.error.text

theorem Shown.lingers {call : CloseCall} {w : Worker κ ε} {text : Str} (h : Shown call w text)
    (hc : call = .gathering ∨ call = .reaping ∨ ∃ timedOut, call = .closingClient timedOut) : Lingers w text := by
  rcases hc with rfl | rfl | ⟨timedOut, rfl⟩ <;> exact h

/-- A worker that is not done does not fail, and waits or saves. -/
theorem state_of_running {w : Worker κ ε} (h : w.done = false) : w.state = .connected ∨ w.state = .saving := by
  cases w with
  | awaitSlot _ _ | inserting _ _ => exact .inr rfl
  | failed _ _ => cases h
  | _ => exact .inl rfl

theorem Lingers.cancel {w : Worker κ ε} {text : Str} (h : text = w.state.text) (hw : w.done = false)
    (passed unpassed : List (BufferedDocument κ ε)) : Lingers (Worker.cancelled passed unpassed) text := by
  rcases state_of_running hw with hs | hs
  · exact .inr (.inl (by rw [h, hs]; rfl))
  · exact .inr (.inr ⟨⟨passed, unpassed, rfl⟩, by rw [h, hs]⟩)

/-- Steps of writers and workers while `close()` runs. -/
theorem Lingers.reflects {s s' : Output κ ε} {news : List (StateTarget × StorageState)} {r : StorageRoute} {text : Str}
    (h : Lingers (s.lanes r).worker text) (hf : Output.Reflects s s' news r)
    (hdone : (s.lanes r).worker.done = true → (s'.lanes r).worker = (s.lanes r).worker) :
    Lingers (s'.lanes r).worker (shownAfter r text news) := by
  rcases hf with ⟨hsame, hw⟩ | htold
  · rw [hsame]
    rcases h with h | h | ⟨⟨passed, unpassed, hc⟩, h⟩
    · exact .inl h
    · rcases hw with hw | ⟨hrun, passed, unpassed, hw⟩
      · exact .inr (.inl (h.trans (congrArg StorageState.text hw.symm)))
      · rw [hw]
        exact .cancel h hrun passed unpassed
    · rw [hdone (by rw [hc]; rfl)]
      exact .inr (.inr ⟨⟨passed, unpassed, hc⟩, h⟩)
  · exact .inr (.inl (htold text))

namespace Screen

/-- When `open()` has returned. -/
def opened (stats : MultiStreamStatsCollector) : Screen κ ε := ⟨.opened, stats.recordStates (openStates true)⟩

/-- The state shown for a route. -/
def state (d : Screen κ ε) (r : StorageRoute) : Str := d.stats.storageState r

variable [DecidableEq κ]

/-- A step of the event loop, with the callbacks wired as in `build_multi_stream_runtime`. -/
def step (cfg : Settings) (rd : Reading ε) (d : Screen κ ε) (i : Output.Input κ ε) : Option (Screen κ ε) :=
  (Output.step cfg rd d.output i).map fun output =>
    ⟨output, (d.stats.recordReports (output.reports.drop d.output.reports.length)).recordStates
      (d.output.states cfg i)⟩

def machine (cfg : Settings) (rd : Reading ε) : Machine (Screen κ ε) (Output.Input κ ε) := ⟨step cfg rd⟩

/-- What a run keeps. -/
structure Truthful (rd : Reading ε) (d : Screen κ ε) : Prop where
  sound : Output.Sound rd d.output
  gone : d.output.closeCall = .returned ∨ (∃ e, e ≠ .cancelled ∧ d.output.closeCall = .raised e) →
    d.output.connected = false
  shown : ∀ r, Shown d.output.closeCall (d.output.lanes r).worker (d.state r)

variable {d d' : Screen κ ε}

/-- The states after the callbacks of a step. -/
theorem step_state {i : Output.Input κ ε} (h : (machine cfg rd).step d i = some d') (r : StorageRoute) :
    d'.state r = shownAfter r (d.state r) (d.output.states cfg i) := by
  obtain ⟨output, -, rfl⟩ := Option.map_eq_some_iff.1 h
  rw [state, storageState_recordStates, storageState_recordReports]
  rfl

theorem step_output {i : Output.Input κ ε} (h : (machine cfg rd).step d i = some d') :
    (Output.machine cfg rd).step d.output i = some d'.output := by
  obtain ⟨output, ho, rfl⟩ := Option.map_eq_some_iff.1 h
  exact ho

omit [DecidableEq κ] in
/-- Once `close()` has ended of itself, all workers are done. -/
theorem Truthful.done (hd : d.Truthful rd)
    (hend : d.output.closeCall = .returned ∨ ∃ e, e ≠ .cancelled ∧ d.output.closeCall = .raised e) (r : StorageRoute) :
    (d.output.lanes r).worker.done = true := hd.sound.closing.gone (hd.gone hend) r

omit [DecidableEq κ] in
/-- A worker that is done tells nothing more. -/
theorem states_of_done (cfg : Settings) {s : Output κ ε} (hdone : ∀ r, (s.lanes r).worker.done = true)
    {i : Output.Input κ ε} (hc : i.control = false) : s.states cfg i = [] := by
  cases i with
  | worker r expired =>
    rw [Output.states]
    split
    · rename_i p hp
      have hrun := resume_done hp
      rw [hdone r] at hrun
      cases hrun
    · rfl
  | insertDone r outcome expired =>
    rw [Output.states]
    split
    · rename_i batch carry hw
      have hrun := hdone r
      rw [hw] at hrun
      cases hrun
    · rfl
  | close | clientClosed _ => cases hc
  | _ => rfl

/-- Steps of writers and workers. -/
theorem Truthful.quiet (hd : d.Truthful rd) {i : Output.Input κ ε} (hi : i.CallbacksReturn) (hc : i.control = false)
    (h : (machine cfg rd).step d i = some d') : d'.Truthful rd := by
  have hstep := step_output h
  have hctl := Output.step_control hd.sound.inv hi hc hstep
  have hsound := hd.sound.step hi hstep
  refine ⟨hsound, fun hend => ?_, fun r => ?_⟩
  · rw [hctl.connected]
    exact hd.gone (hctl.closeCall ▸ hend)
  have hstate := step_state h r
  have hreflects := Output.step_tells hd.sound.inv hi hc hstep r
  have hshown := hd.shown r
  have hcancelled : ∀ passed unpassed, (d'.output.lanes r).worker = .cancelled passed unpassed →
      d.output.closeCall ≠ .idle := by
    intro passed unpassed hw hidle
    rcases hsound.closing.timedOut (hsound.closing.cancelled r _ _ hw) with hclose | hclose | ⟨e, hclose⟩ <;>
      rw [hctl.closeCall, hidle] at hclose <;> cases hclose
  have hquiet : (d.output.closeCall = .returned ∨ ∃ e, e ≠ .cancelled ∧ d.output.closeCall = .raised e) →
      d'.state r = d.state r := fun hend => by
    rw [hstate, states_of_done cfg (hd.done hend) hc]
    rfl
  have hlingers : Lingers (d.output.lanes r).worker (d.state r) → Lingers (d'.output.lanes r).worker (d'.state r) :=
    fun hbefore => hstate ▸ hbefore.reflects hreflects (Output.step_lane hd.sound.inv hi hstep r).of_done
  rw [hctl.closeCall]
  cases hcall : d.output.closeCall with
  | idle =>
    rw [hcall] at hshown
    rw [Shown, hstate]
    rcases hreflects with ⟨hsame, hw | ⟨-, passed, unpassed, hw⟩⟩ | htold
    · rw [hsame, hw]
      exact hshown
    · exact absurd hcall (hcancelled passed unpassed hw)
    · exact htold _
  | gathering | reaping | closingClient _ =>
    rw [hcall] at hshown
    exact hlingers hshown
  | returned =>
    rw [hcall] at hshown
    exact (hquiet (.inl hcall)).trans hshown
  | raised e =>
    rw [hcall] at hshown
    cases e with
    | cancelled => exact hlingers hshown
    | workerFailed | shutdown | client => exact (hquiet (.inr ⟨_, by decide, hcall⟩)).trans hshown

omit [DecidableEq κ] in
/-- All routes show how `close()` has ended. -/
theorem finishClose_shown (s : Output κ ε) (timedOut ok : Bool) (r : StorageRoute) (w : Worker κ ε) (before : Str) :
    Shown (s.finishClose timedOut ok).closeCall w (shownAfter r before (s.closeStates timedOut ok)) := by
  have htold : ∀ told : StorageState, shownAfter r before [(.mongoDB, told)] = told.text :=
    fun told => by simp [shownAfter]
  simp only [Output.finishClose, Output.closeStates]
  split
  · exact htold .error
  · split
    · exact htold .error
    · split
      · exact htold .closed
      · exact htold .error

/-- **A step keeps the screen truthful.** -/
theorem Truthful.step (hd : d.Truthful rd) {i : Output.Input κ ε} (hi : i.CallbacksReturn)
    (h : (machine cfg rd).step d i = some d') : d'.Truthful rd := by
  have hstep := step_output h
  have hsound := hd.sound.step hi hstep
  have hstate := step_state h
  obtain ⟨s', stats'⟩ := d'
  dsimp only at hstep hsound
  cases Output.effect_of_step hstep with
  | write | resumeWrite | cancelWrite | getTask | worker | insertDone | cancelWorker => exact hd.quiet hi rfl h
  | close hidle _ =>
    refine ⟨hsound, fun hend => ?_, fun r => .inl ?_⟩
    · rcases hend with hend | ⟨e, -, hend⟩ <;> cases hend
    · rw [hstate]
      simp [Output.states, shownAfter]
  | @workersDone timedOut hcall _ =>
    refine ⟨hsound, fun hend => ?_, fun r => ?_⟩
    · rcases hend with hend | ⟨e, -, hend⟩ <;> cases hend
    · rw [hstate]
      refine (hd.shown r).lingers ?_
      rw [hcall]
      cases timedOut with
      | true => exact .inr (.inl rfl)
      | false => exact .inl rfl
  | shutdownTimeout hcall =>
    refine ⟨hsound, fun hend => ?_, fun r => ?_⟩
    · rcases hend with hend | ⟨e, -, hend⟩ <;> cases hend
    · rw [hstate]
      exact (hd.shown r).lingers (.inl hcall)
  | @clientClosed timedOut ok hcall =>
    refine ⟨hsound, fun _ => rfl, fun r => ?_⟩
    have hnews : d.output.states cfg (.clientClosed ok) = d.output.closeStates timedOut ok := by
      simp only [Output.states, hcall]
    rw [hstate, hnews]
    exact finishClose_shown ..
  | cancelClose hcall =>
    refine ⟨hsound, fun hend => ?_, fun r => ?_⟩
    · rcases hend with hend | ⟨e, he, hend⟩ <;> cases hend
      exact absurd rfl he
    · rw [hstate]
      refine (hd.shown r).lingers ?_
      rcases hcall with ⟨hcall, -⟩ | ⟨hcall, -⟩ | ⟨hcall, -⟩
      · exact .inl hcall
      · exact .inr (.inl hcall)
      · exact .inr (.inr hcall)
  | reportFailure _ =>
    refine ⟨hsound, hd.gone, fun r => ?_⟩
    rw [hstate]
    exact hd.shown r

omit [DecidableEq κ] in
theorem opened_truthful (rd : Reading ε) (stats : MultiStreamStatsCollector) :
    (opened stats : Screen κ ε).Truthful rd := by
  refine ⟨Output.opened_sound, fun hend => ?_, fun r => ?_⟩
  · rcases hend with hend | ⟨e, -, hend⟩ <;> cases hend
  · rw [state, opened, storageState_recordStates]
    simp [openStates, shownAfter, Shown, Output.opened, Worker.state]

theorem path_truthful {is : List (Output.Input κ ε)}
    (h : (machine cfg rd).Path (fun d i => Output.Quiet d.output i) d is d') (hd : d.Truthful rd) : d'.Truthful rd :=
  h.invariant (I := Truthful rd) (fun _ _ _ hi hI hstep => hI.step hi hstep) hd

omit [DecidableEq κ] in
/-- A route is shown as closed only by the end of `close()`. -/
theorem Truthful.closed_iff (hd : d.Truthful rd) (r : StorageRoute) :
    d.state r = StorageState.closed.text ↔ d.output.closeCall = .returned := by
  have hshown := hd.shown r
  have hworker : (d.output.lanes r).worker.state ≠ .closed := by
    cases (d.output.lanes r).worker <;> simp [Worker.state]
  have hlingers : Lingers (d.output.lanes r).worker (d.state r) → d.state r ≠ StorageState.closed.text := by
    rintro (h | h | ⟨-, h⟩) hclosed
    · exact absurd (StorageState.text_injective (h.symm.trans hclosed)) (by decide)
    · exact hworker (StorageState.text_injective (h.symm.trans hclosed))
    · exact absurd (StorageState.text_injective (h.symm.trans hclosed)) (by decide)
  cases hcall : d.output.closeCall with
  | idle =>
    rw [hcall] at hshown
    exact ⟨fun hclosed => absurd (StorageState.text_injective (hshown.symm.trans hclosed)) hworker, nofun⟩
  | gathering | reaping | closingClient _ =>
    rw [hcall] at hshown
    exact ⟨fun hclosed => absurd hclosed (hlingers hshown), nofun⟩
  | returned =>
    rw [hcall] at hshown
    exact ⟨fun _ => rfl, fun _ => hshown⟩
  | raised e =>
    rw [hcall] at hshown
    refine ⟨fun hclosed => ?_, nofun⟩
    cases e with
    | cancelled => exact absurd hclosed (hlingers hshown)
    | workerFailed | shutdown | client =>
      exact absurd (StorageState.text_injective (hshown.symm.trans hclosed)) (by decide)

/-- **What the screen shows of the store**, in every state of every run: before `close()` the state each worker is in;
while `close()` runs, that or what `close()` told; and all routes closed if and only if `close()` has returned. Then a
failure has been reported, or every accepted document is confirmed but those that came to a queue after its worker had
left. -/
theorem storage_states_truthful {stats : MultiStreamStatsCollector} {is : List (Output.Input κ ε)}
    (h : (machine cfg rd).Path (fun d i => Output.Quiet d.output i) (opened stats) is d) :
    (∀ r, Shown d.output.closeCall (d.output.lanes r).worker (d.state r)) ∧
    (∀ r, d.state r = StorageState.closed.text ↔ d.output.closeCall = .returned) ∧
    (d.output.closeCall = .returned → d.output.failureReported = true ∨
      ∀ r, (d.output.lanes r).accepted = (d.output.lanes r).confirmed ++ (d.output.lanes r).queue) := by
  have hd := path_truthful h (opened_truthful rd stats)
  refine ⟨hd.shown, hd.closed_iff, fun hreturned => ?_⟩
  by_cases he : d.output.workerErrors = []
  · refine .inr fun r => ?_
    have hworker := hd.sound.all_returned hreturned he r
    rw [(hd.sound.inv.lanes r).accepted, Lane.held, hworker]
    rfl
  · exact .inl (hd.sound.closing.returned hreturned he)

/-- The statistics before `open()`. -/
def blankStats : MultiStreamStatsCollector := { symbols := [], startedAt := 0 }

/-- A worker fails with a document, its failure is reported, and the output is closed. -/
def closedAfterFailure : List (Output.Input ℕ StorageRoute) :=
  [.write 0 .aggTrade .returns, .worker .aggTrade true, .worker .aggTrade false,
    .insertDone .aggTrade .otherError false, .reportFailure, .close, .worker .orderBookDepth false,
    .worker .bookTicker false, .worker .kline false, .worker .markPrice false, .worker .control false, .workersDone,
    .clientClosed true]

/-- The document is not confirmed and its route is shown as closed. -/
theorem storage_states_truthful_reported : ∃ d : Screen ℕ StorageRoute,
    (machine Output.singleBuffer Output.routeEvents).Path (fun d i => Output.Quiet d.output i) (opened blankStats)
      closedAfterFailure d ∧
    d.state .aggTrade = StorageState.closed.text ∧ (d.output.lanes .aggTrade).confirmed = [] ∧
      (d.output.lanes .aggTrade).accepted.length = 1 ∧ d.output.closeCall = .returned := by
  obtain ⟨d, hd, hp⟩ := Machine.exists_path_of_check (M := machine Output.singleBuffer Output.routeEvents)
    (P := fun d i => Output.Quiet d.output i) (p := fun d : Screen ℕ StorageRoute =>
      decide (d.output.closeCall = .returned ∧ (d.output.lanes .aggTrade).confirmed = [] ∧
        (d.output.lanes .aggTrade).accepted.length = 1)) (opened blankStats) closedAfterFailure (by decide +kernel)
  obtain ⟨hreturned, hconfirmed, haccepted⟩ := of_decide_eq_true hp
  exact ⟨d, hd, ((storage_states_truthful hd).2.1 .aggTrade).2 hreturned, hconfirmed, haccepted, hreturned⟩

end Screen

end BinanceCollector.MultiMongo
