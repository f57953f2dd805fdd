import BinanceCollector.Lib.Dict
import BinanceCollector.Lib.Grouping
import BinanceCollector.Models.Event

/-!
# Continuity of depth updates

`monitoring/depth.py`: within one connection, the observer compares the range of update ids of a depth event with the
largest id seen before.

- `gapsOf`, `resetsOf`, `baselineOf`: gaps, resets and baseline as they are defined over the whole history of a symbol.
- `step_observed`, `depth_continuity`: what the observer keeps is this, whatever the interleaving of the symbols.
-/

namespace BinanceCollector

open Text Json

/-- `DepthGap`. -/
structure DepthGap where
  symbol : Str
  connectionId : Str
  previousFinalUpdateId : ℤ
  nextFirstUpdateId : ℤ
  deriving DecidableEq

/-- `_DepthState`. -/
structure DepthState where
  connectionId : Str
  maximumFinalUpdateId : ℤ
  deriving DecidableEq

/-- What `observe` reads of a depth event. -/
structure DepthUpdate where
  symbol : Str
  connectionId : Str
  firstUpdateId : ℤ
  finalUpdateId : ℤ
  deriving DecidableEq

/-- The tests at the head of `observe`. -/
def depthUpdate (event : Event) : Option DepthUpdate := do
  let metadata ← event.lookup (str "meta") >>= asDict
  let data ← event.lookup (str "data") >>= asDict
  if metadata.lookup (str "stream_type") ≠ some (.str (str "depth")) then none
  else
    let symbol ← data.lookup (str "symbol") >>= asStr
    let connectionId ← metadata.lookup (str "connection_id") >>= asStr
    let firstUpdateId ← data.lookup (str "first_update_id") >>= asInt
    let finalUpdateId ← data.lookup (str "final_update_id") >>= asInt
    return ⟨symbol, connectionId, firstUpdateId, finalUpdateId⟩

/-- `DepthContinuityObserver`. -/
structure DepthContinuityObserver where
  states : List (Str × DepthState) := []
  gapCount : ℕ := 0
  connectionResets : ℕ := 0
  lastGap : Option DepthGap := none
  deriving DecidableEq

namespace DepthContinuityObserver

/-- `observe`, after its tests. -/
def observeUpdate (o : DepthContinuityObserver) (u : DepthUpdate) : DepthContinuityObserver :=
  match o.states.lookup u.symbol with
  | none => { o with states := Dict.set u.symbol ⟨u.connectionId, u.finalUpdateId⟩ o.states }
  | some state =>
    if state.connectionId ≠ u.connectionId then
      { o with
        connectionResets := o.connectionResets + 1
        states := Dict.set u.symbol ⟨u.connectionId, u.finalUpdateId⟩ o.states }
    else
      let maximum := max state.maximumFinalUpdateId u.finalUpdateId
      let o := { o with states := Dict.set u.symbol { state with maximumFinalUpdateId := maximum } o.states }
      if state.maximumFinalUpdateId + 1 < u.firstUpdateId then
        { o with
          gapCount := o.gapCount + 1
          lastGap := some ⟨u.symbol, u.connectionId, state.maximumFinalUpdateId, u.firstUpdateId⟩ }
      else o

/-- `DepthContinuityObserver.observe`. -/
def observe (o : DepthContinuityObserver) (event : Event) : DepthContinuityObserver :=
  match depthUpdate event with
  | none => o
  | some u => o.observeUpdate u

end DepthContinuityObserver

/-! ## Gaps and resets of a history -/

open Grouping

/-- The largest final id. -/
def maximumFinal (run : List DepthUpdate) : Option ℤ := (run.map (·.finalUpdateId)).max?

/-- The update at this place of a run begins behind the largest final id before it. -/
def gapAt (run : List DepthUpdate) (i : ℕ) : Bool :=
  (maximumFinal (run.take i)).any fun m => run[i]?.any fun u => decide (1 + m < u.firstUpdateId)

/-- The gaps of a run. -/
def gapsOfRun (run : List DepthUpdate) : ℕ := (List.range run.length).countP (gapAt run)

/-- The updates of a symbol, cut where the connection changes. -/
def connectionRuns (us : List DepthUpdate) : List (List DepthUpdate) := runs DepthUpdate.connectionId us

/-- The gaps of a symbol. -/
def gapsOf (us : List DepthUpdate) : ℕ := ((connectionRuns us).map gapsOfRun).sum

/-- The resets of a symbol. -/
def resetsOf (us : List DepthUpdate) : ℕ := (connectionRuns us).length - 1

/-- The connection and the largest final id of the last run. -/
def baselineOf (us : List DepthUpdate) : Option DepthState := do
  let run ← (connectionRuns us).getLast?
  let u ← run.head?
  let m ← maximumFinal run
  return ⟨u.connectionId, m⟩

theorem maximumFinal_snoc (run : List DepthUpdate) (u : DepthUpdate) :
    maximumFinal (run ++ [u]) = some ((maximumFinal run).elim u.finalUpdateId (max · u.finalUpdateId)) := by
  cases run with
  | nil => rfl
  | cons v run =>
    rw [maximumFinal, maximumFinal, List.cons_append, List.map_cons, List.map_cons, List.map_append, List.max?_cons',
      List.max?_cons', List.foldl_append]
    rfl

theorem gapsOfRun_snoc (run : List DepthUpdate) (u : DepthUpdate) :
    gapsOfRun (run ++ [u]) = gapsOfRun run +
      if (maximumFinal run).any (fun m => decide (1 + m < u.firstUpdateId)) then 1 else 0 := by
  have hbefore : (List.range run.length).countP (gapAt (run ++ [u])) = gapsOfRun run := by
    refine List.countP_congr fun i hi => ?_
    have hlt := List.mem_range.1 hi
    rw [gapAt, gapAt, List.take_append_of_le_length (Nat.le_of_lt hlt), List.getElem?_append_left hlt]
  have hlast : gapAt (run ++ [u]) run.length = (maximumFinal run).any fun m => decide (1 + m < u.firstUpdateId) := by
    rw [gapAt, List.take_left' rfl]
    simp
  rw [gapsOfRun, List.length_append, List.length_singleton, List.range_succ, List.countP_append, hbefore,
    List.countP_singleton, hlast]

section

variable {us : List DepthUpdate} {u : DepthUpdate}

/-- The runs of a history that is not empty end with a run whose connection and largest final id are the baseline. -/
theorem exists_last_run (h : us ≠ []) : ∃ pre run v m, connectionRuns us = pre ++ [run] ∧ v ∈ run ∧
    maximumFinal run = some m ∧ baselineOf us = some ⟨v.connectionId, m⟩ := by
  obtain ⟨pre, run, hruns⟩ : ∃ pre run, connectionRuns us = pre ++ [run] :=
    ⟨_, _, (List.dropLast_append_getLast (runs_ne_nil h)).symm⟩
  have hmem : run ∈ connectionRuns us := hruns ▸ by simp
  cases run with
  | nil => exact absurd hmem (List.nil_notMem_splitBy _ us)
  | cons v run =>
    refine ⟨pre, v :: run, v, _, hruns, List.mem_cons_self, rfl, ?_⟩
    rw [baselineOf, hruns, List.getLast?_concat]
    rfl

theorem baselineOf_eq_none : baselineOf us = none ↔ us = [] := by
  constructor
  · intro h
    by_contra hne
    obtain ⟨pre, run, v, m, -, -, -, hsome⟩ := exists_last_run hne
    rw [h] at hsome
    cases hsome
  · rintro rfl
    rfl

/-- The first update of a symbol. -/
theorem snoc_first (u : DepthUpdate) : gapsOf [u] = 0 ∧ resetsOf [u] = 0 ∧
    baselineOf [u] = some ⟨u.connectionId, u.finalUpdateId⟩ := ⟨rfl, rfl, rfl⟩

/-- An update of the connection that the baseline is of. -/
theorem snoc_same {state : DepthState} (h : baselineOf us = some state) (hc : state.connectionId = u.connectionId) :
    gapsOf (us ++ [u]) = gapsOf us + (if state.maximumFinalUpdateId + 1 < u.firstUpdateId then 1 else 0) ∧
      resetsOf (us ++ [u]) = resetsOf us ∧
      baselineOf (us ++ [u]) =
        some { state with maximumFinalUpdateId := max state.maximumFinalUpdateId u.finalUpdateId } := by
  have hne : us ≠ [] := fun hnil => by rw [hnil] at h; cases h
  obtain ⟨pre, run, v, m, hruns, hv, hm, hb⟩ := exists_last_run hne
  obtain rfl := Option.some.inj (hb.symm.trans h)
  have hnext : connectionRuns (us ++ [u]) = pre ++ [run ++ [u]] := runs_snoc_same hruns hv hc
  refine ⟨?_, ?_, ?_⟩
  · rw [gapsOf, gapsOf, hnext, hruns]
    simp only [List.map_append, List.map_cons, List.map_nil, List.sum_append, List.sum_cons, List.sum_nil,
      gapsOfRun_snoc, hm, Option.any_some, decide_eq_true_eq, Int.add_comm 1 m]
    omega
  · simp [resetsOf, hnext, hruns]
  · cases run with
    | nil => cases hv
    | cons w run =>
      have hw : w.connectionId = v.connectionId :=
        tag_of_mem_runs (hruns ▸ List.mem_append_right _ (List.mem_singleton_self _)) List.mem_cons_self hv
      rw [baselineOf, hnext, List.getLast?_concat, ← hw]
      simp only [bind, pure, Option.bind_some, List.cons_append, List.head?_cons]
      rw [← List.cons_append, maximumFinal_snoc, hm]
      rfl

/-- An update of another connection. -/
theorem snoc_reset {state : DepthState} (h : baselineOf us = some state) (hc : state.connectionId ≠ u.connectionId) :
    gapsOf (us ++ [u]) = gapsOf us ∧ resetsOf (us ++ [u]) = resetsOf us + 1 ∧
      baselineOf (us ++ [u]) = some ⟨u.connectionId, u.finalUpdateId⟩ := by
  have hne : us ≠ [] := fun hnil => by rw [hnil] at h; cases h
  obtain ⟨pre, run, v, m, hruns, hv, hm, hb⟩ := exists_last_run hne
  obtain rfl := Option.some.inj (hb.symm.trans h)
  have hnext : connectionRuns (us ++ [u]) = pre ++ [run] ++ [[u]] := runs_snoc_new hruns hv hc
  refine ⟨?_, ?_, ?_⟩
  · rw [gapsOf, gapsOf, hnext, hruns]
    simp [gapsOfRun, gapAt, maximumFinal]
  · simp [resetsOf, hnext, hruns]
  · simp [baselineOf, hnext, maximumFinal]

end

/-! ## What the observer keeps -/

/-- The gaps of all symbols. -/
def totalGaps (us : List DepthUpdate) : ℕ := total DepthUpdate.symbol gapsOf us

/-- The resets of all symbols. -/
def totalResets (us : List DepthUpdate) : ℕ := total DepthUpdate.symbol resetsOf us

/-- What the observer has counted is what the history of the updates says. -/
structure Observed (us : List DepthUpdate) (o : DepthContinuityObserver) : Prop where
  gaps : o.gapCount = totalGaps us
  resets : o.connectionResets = totalResets us
  baseline : ∀ symbol, o.states.lookup symbol = baselineOf (ofKey DepthUpdate.symbol symbol us)

/-- The baseline of one symbol is set. -/
theorem baseline_set {us : List DepthUpdate} {states : List (Str × DepthState)} {u : DepthUpdate} {state : DepthState}
    (h : ∀ symbol, states.lookup symbol = baselineOf (ofKey DepthUpdate.symbol symbol us))
    (hu : baselineOf (ofKey DepthUpdate.symbol u.symbol us ++ [u]) = some state) (symbol : Str) :
    (Dict.set u.symbol state states).lookup symbol = baselineOf (ofKey DepthUpdate.symbol symbol (us ++ [u])) := by
  rw [Dict.lookup_set]
  split
  · rename_i heq
    rw [heq, ofKey_snoc_self, hu]
  · rename_i hne
    rw [ofKey_snoc_ne (Ne.symm hne), h symbol]

/-- **An update is observed as its symbol's history says.** -/
theorem step_observed {us : List DepthUpdate} {o : DepthContinuityObserver} (h : Observed us o) (u : DepthUpdate) :
    Observed (us ++ [u]) (o.observeUpdate u) := by
  have hgaps : totalGaps (us ++ [u]) + gapsOf (ofKey DepthUpdate.symbol u.symbol us) =
      totalGaps us + gapsOf (ofKey DepthUpdate.symbol u.symbol us ++ [u]) := total_snoc rfl us u
  have hresets : totalResets (us ++ [u]) + resetsOf (ofKey DepthUpdate.symbol u.symbol us) =
      totalResets us + resetsOf (ofKey DepthUpdate.symbol u.symbol us ++ [u]) := total_snoc rfl us u
  have hbase := h.baseline u.symbol
  have hg := h.gaps
  have hr := h.resets
  unfold DepthContinuityObserver.observeUpdate
  split
  · rename_i hnone
    rw [hnone] at hbase
    have hnil := baselineOf_eq_none.1 hbase.symm
    obtain ⟨hg₁, hr₁, hb₁⟩ := snoc_first u
    rw [hnil, List.nil_append, hg₁, show gapsOf [] = 0 from rfl] at hgaps
    rw [hnil, List.nil_append, hr₁, show resetsOf [] = 0 from rfl] at hresets
    exact ⟨hg.trans hgaps.symm, hr.trans hresets.symm, baseline_set h.baseline (by rw [hnil]; exact hb₁)⟩
  · rename_i state hsome
    rw [hsome] at hbase
    split
    · rename_i hne
      obtain ⟨hg₁, hr₁, hb₁⟩ := snoc_reset hbase.symm hne
      refine ⟨?_, ?_, baseline_set h.baseline hb₁⟩
      · dsimp only
        omega
      · dsimp only
        omega
    · rename_i heq
      obtain ⟨hg₁, hr₁, hb₁⟩ := snoc_same hbase.symm (not_not.1 heq)
      dsimp only
      split
      · rename_i hgap
        rw [if_pos hgap] at hg₁
        refine ⟨?_, ?_, baseline_set h.baseline hb₁⟩
        · dsimp only
          omega
        · dsimp only
          omega
      · rename_i hgap
        rw [if_neg hgap] at hg₁
        refine ⟨?_, ?_, baseline_set h.baseline hb₁⟩
        · dsimp only
          omega
        · dsimp only
          omega

/-- The observer after these events. -/
def observeAll (events : List Event) : DepthContinuityObserver := events.foldl DepthContinuityObserver.observe {}

/-- The well-formed depth events, in order. -/
def depthUpdates (events : List Event) : List DepthUpdate := events.filterMap depthUpdate

theorem foldl_observed (events : List Event) {us : List DepthUpdate} {o : DepthContinuityObserver} (h : Observed us o) :
    Observed (us ++ depthUpdates events) (events.foldl DepthContinuityObserver.observe o) := by
  induction events generalizing us o with
  | nil => simpa [depthUpdates] using h
  | cons event events ih =>
    rw [List.foldl_cons, depthUpdates, List.filterMap_cons, DepthContinuityObserver.observe]
    cases hu : depthUpdate event with
    | none => exact ih h
    | some u =>
      have hnext := ih (step_observed h u)
      rwa [List.append_assoc] at hnext

theorem observeAll_observed (events : List Event) : Observed (depthUpdates events) (observeAll events) := by
  have h : Observed ([] ++ depthUpdates events) (observeAll events) := foldl_observed events ⟨rfl, rfl, fun _ => rfl⟩
  rwa [List.nil_append] at h

/-- **The observer agrees with the definition of gaps, resets and baselines**, and the interleaving of the symbols does
not matter to it. -/
theorem depth_continuity (events : List Event) : Observed (depthUpdates events) (observeAll events) ∧
    ∀ reordered : List Event,
      (∀ symbol, ofKey DepthUpdate.symbol symbol (depthUpdates reordered) =
        ofKey DepthUpdate.symbol symbol (depthUpdates events)) →
        (observeAll reordered).gapCount = (observeAll events).gapCount ∧
          (observeAll reordered).connectionResets = (observeAll events).connectionResets := by
  refine ⟨observeAll_observed events, fun reordered h => ?_⟩
  have hs := observeAll_observed events
  have hr := observeAll_observed reordered
  rw [hr.gaps, hr.resets, hs.gaps, hs.resets]
  exact ⟨total_congr rfl h, total_congr rfl h⟩

/-- A depth event. -/
def depthEvent (u : DepthUpdate) : Event :=
  [(str "meta", .object [(str "stream_type", .str (str "depth")), (str "connection_id", .str u.connectionId)]),
    (str "data", .object [(str "symbol", .str u.symbol), (str "first_update_id", .int u.firstUpdateId),
      (str "final_update_id", .int u.finalUpdateId)])]

theorem depthUpdates_depthEvent (us : List DepthUpdate) : depthUpdates (us.map depthEvent) = us := by
  rw [depthUpdates, List.filterMap_map, show depthUpdate ∘ depthEvent = some from rfl, List.filterMap_some]

/-- Two updates of one symbol with a gap between them, and an update of another symbol before or after the first. -/
def interleaved (first : Bool) : List DepthUpdate :=
  let btc := ⟨str "BTCUSDT", str "a", 1, 5⟩
  let eth := ⟨str "ETHUSDT", str "a", 1, 9⟩
  (if first then [eth, btc] else [btc, eth]) ++ [⟨str "BTCUSDT", str "a", 7, 8⟩]

theorem depth_continuity_interleaved :
    (observeAll ((interleaved true).map depthEvent)).gapCount =
      (observeAll ((interleaved false).map depthEvent)).gapCount ∧
      (observeAll ((interleaved false).map depthEvent)).gapCount = 1 := by
  refine ⟨((depth_continuity ((interleaved false).map depthEvent)).2 ((interleaved true).map depthEvent)
    fun symbol => ?_).1,
    by decide⟩
  rw [depthUpdates_depthEvent, depthUpdates_depthEvent]
  by_cases hb : str "BTCUSDT" = symbol
  · subst hb
    rfl
  · simp [ofKey, interleaved, hb, List.filter_cons]

end BinanceCollector
