import Mathlib.Algebra.Order.Floor.Ring
import BinanceCollector.Monitoring.MultiStats

/-!
# Rates of the last completed second

Recording an event and taking a snapshot both forget buckets. What is forgotten is never displayed: at any time the
buckets that may still be asked for hold what the whole history says.

- `Retains`: the buckets from `current - 1` on agree with a log of counted keys, and there are no others.
- `record_retains`, `prune_retains`: both kinds of calls keep this.
- `windowed_rates`: a snapshot displays the counts of the whole history, and two buckets are enough for it.
-/

namespace BinanceCollector

open Text Json

/-! ## Buckets and the whole history -/

section

variable {κ : Type} [DecidableEq κ]

/-- The buckets hold what the log says about the seconds from `current - 1` on. -/
structure Retains (log : List (ℤ × κ)) (current : ℤ) (buckets : Buckets κ) : Prop where
  nodup : (Dict.keys buckets).Nodup
  recent : ∀ index ∈ Dict.keys buckets, current - 1 ≤ index ∧ index ≤ current
  counts : ∀ index key, current - 1 ≤ index → bucketCount buckets index key = log.count (index, key)

variable {log : List (ℤ × κ)} {current n : ℤ} {buckets : Buckets κ}

theorem bucketCount_prune {index : ℤ} (hi : n - 1 ≤ index) (key : κ) :
    bucketCount (pruneBuckets buckets n) index key = bucketCount buckets index key := by
  rw [bucketCount, bucketCount, pruneBuckets, Dict.lookup_filter (fun index => decide (n - 1 ≤ index)),
    if_pos (decide_eq_true hi)]

omit [DecidableEq κ] in
theorem keys_prune (buckets : Buckets κ) (n : ℤ) :
    Dict.keys (pruneBuckets buckets n) = (Dict.keys buckets).filter fun index => n - 1 ≤ index := by
  rw [Dict.keys, Dict.keys, List.filter_map]
  rfl

/-- One more event of a key in a second. -/
theorem bucketCount_countInBucket (buckets : Buckets κ) (i index : ℤ) (k key : κ) :
    bucketCount (countInBucket buckets i k) index key =
      bucketCount buckets index key + if i = index ∧ k = key then 1 else 0 := by
  simp only [bucketCount, countInBucket, Dict.lookup_set]
  by_cases hi : index = i
  · subst hi
    by_cases hk : key = k
    · subst hk
      simp
    · simp [hk, Ne.symm hk]
  · simp [hi, Ne.symm hi]

/-- **Forgetting is not seen later.** -/
theorem prune_retains (h : Retains log current buckets) (hn : current ≤ n) :
    Retains log n (pruneBuckets buckets n) where
  nodup := by
    rw [keys_prune]
    exact h.nodup.filter _
  recent index hi := by
    rw [keys_prune, List.mem_filter, decide_eq_true_eq] at hi
    exact ⟨hi.2, (h.recent index hi.1).2.trans hn⟩
  counts index key hi := by
    rw [bucketCount_prune hi]
    exact h.counts index key (by omega)

/-- **An event is counted in the second it is recorded in.** -/
theorem record_retains (h : Retains log current buckets) (hn : current ≤ n) (key : κ) :
    Retains (log ++ [(n, key)]) n (pruneBuckets (countInBucket buckets n key) n) where
  nodup := by
    rw [keys_prune]
    exact (Dict.nodup_keys_set h.nodup _ _).filter _
  recent index hi := by
    rw [keys_prune, List.mem_filter, decide_eq_true_eq] at hi
    refine ⟨hi.2, ?_⟩
    have hmem := hi.1
    rw [countInBucket, Dict.keys_set] at hmem
    split at hmem
    · exact (h.recent index hmem).2.trans hn
    · rcases List.mem_append.1 hmem with hmem | hmem
      · exact (h.recent index hmem).2.trans hn
      · exact (List.mem_singleton.1 hmem).le
  counts index k hi := by
    rw [bucketCount_prune hi, bucketCount_countInBucket, h.counts index k (by omega), List.count_append,
      List.count_singleton]
    simp [Prod.ext_iff]

/-- There are two buckets at most. -/
theorem Retains.length_le (h : Retains log current buckets) : buckets.length ≤ 2 := by
  have hsub : Dict.keys buckets ⊆ [current - 1, current] := fun index hi => by
    have hrecent := h.recent index hi
    have hcases : index = current - 1 ∨ index = current := by omega
    simpa using hcases
  simpa using (h.nodup.subperm hsub).length_le

end

/-! ## Calls -/

/-- A call of `record_received` or `snapshot`, with its readings of the clock. -/
inductive StatsCall where
  | recordReceived (now : ℚ) (event : Event)
  /-- only `MultiStreamStatsCollector` reads the clock twice -/
  | snapshot (now later : ℚ)

def StatsCall.readings : StatsCall → List ℚ
  | .recordReceived now _ => [now]
  | .snapshot now later => [now, later]

/-- Whether an event is recorded. -/
def StatsCall.records : StatsCall → Bool
  | .recordReceived _ _ => true
  | .snapshot _ _ => false

/-- The clock does not go back. -/
def ClockRuns (startedAt : ℚ) (calls : List StatsCall) : Prop :=
  (startedAt :: calls.flatMap StatsCall.readings).Pairwise (· ≤ ·)

/-- What counts in a call. -/
def StatsCall.counted {κ : Type} (qualify : Event → Option κ) (startedAt : ℚ) : StatsCall → Option (ℚ × κ)
  | .recordReceived now event => (qualify event).map fun key => (elapsed startedAt now, key)
  | .snapshot _ _ => none

/-- The qualifying events with the times at which they have been recorded. -/
def recorded {κ : Type} (qualify : Event → Option κ) (startedAt : ℚ) (calls : List StatsCall) : List (ℚ × κ) :=
  calls.filterMap (StatsCall.counted qualify startedAt)

/-- How many events of a key have been recorded in the last whole second before `t`. -/
def rateAt {κ : Type} [DecidableEq κ] (history : List (ℚ × κ)) (t : ℚ) (key : κ) : ℕ :=
  history.countP fun e => decide (e.2 = key ∧ ((⌊t⌋ - 1 : ℤ) : ℚ) ≤ e.1 ∧ e.1 < ((⌊t⌋ : ℤ) : ℚ))

section

variable {κ : Type} [DecidableEq κ] {qualify : Event → Option κ} {startedAt now later : ℚ} {calls : List StatsCall}
  {buckets : Buckets κ} {event : Event}

/-- The history by whole seconds. -/
def indexed (history : List (ℚ × κ)) : List (ℤ × κ) := history.map fun e => (⌊e.1⌋, e.2)

theorem rateAt_eq_count (history : List (ℚ × κ)) (t : ℚ) (key : κ) :
    rateAt history t key = (indexed history).count (⌊t⌋ - 1, key) := by
  rw [rateAt, indexed, List.count, List.countP_map]
  refine List.countP_congr fun e _ => ?_
  have hfloor : ⌊e.1⌋ = ⌊t⌋ - 1 ↔ ((⌊t⌋ - 1 : ℤ) : ℚ) ≤ e.1 ∧ e.1 < ((⌊t⌋ : ℤ) : ℚ) := by
    rw [Int.floor_eq_iff]
    push_cast
    rw [sub_add_cancel]
  simp only [Function.comp_apply, beq_iff_eq, Prod.mk.injEq, decide_eq_true_eq, hfloor]
  exact and_comm

theorem bucketIndex_eq (startedAt now : ℚ) : bucketIndex startedAt now = ⌊elapsed startedAt now⌋ := rfl

theorem bucketIndex_mono {now₁ now₂ : ℚ} (h : now₁ ≤ now₂) :
    bucketIndex startedAt now₁ ≤ bucketIndex startedAt now₂ := by
  rw [bucketIndex_eq, bucketIndex_eq]
  exact Int.floor_mono (max_le_max_left 0 (sub_le_sub_right h startedAt))

theorem bucketIndex_nonneg (startedAt now : ℚ) : 0 ≤ bucketIndex startedAt now := by
  rw [bucketIndex_eq, Int.floor_nonneg]
  exact le_max_left 0 _

/-- No reading of the clock is later. -/
def NotLater (startedAt : ℚ) (calls : List StatsCall) (now : ℚ) : Prop :=
  ∀ reading ∈ startedAt :: calls.flatMap StatsCall.readings, reading ≤ now

/-- The buckets hold what the calls say about every second that can still be asked for. -/
def Windowed (qualify : Event → Option κ) (startedAt : ℚ) (calls : List StatsCall) (buckets : Buckets κ) : Prop :=
  ∃ current, Retains (indexed (recorded qualify startedAt calls)) current buckets ∧
    ∀ now, NotLater startedAt calls now → current ≤ bucketIndex startedAt now

theorem NotLater.of_append {call : StatsCall} (h : NotLater startedAt (calls ++ [call]) now) :
    NotLater startedAt calls now ∧ ∀ reading ∈ call.readings, reading ≤ now := by
  constructor
  · intro reading hr
    refine h reading ?_
    rcases List.mem_cons.1 hr with rfl | hr
    · exact List.mem_cons_self
    · exact List.mem_cons_of_mem _ (by rw [List.flatMap_append]; exact List.mem_append_left _ hr)
  · intro reading hr
    exact h reading (List.mem_cons_of_mem _ (by simp [hr]))

theorem ClockRuns.of_append {call : StatsCall} (h : ClockRuns startedAt (calls ++ [call])) :
    ClockRuns startedAt calls ∧ ∀ reading ∈ call.readings, NotLater startedAt calls reading := by
  rw [ClockRuns, List.flatMap_append, ← List.cons_append, List.pairwise_append] at h
  refine ⟨h.1, fun reading hr earlier he => h.2.2 earlier he reading (by simpa using hr)⟩

/-- What holds at the start and is carried on by every call holds after all calls. -/
theorem ClockRuns.foldl {σ : Type*} {perform : σ → StatsCall → σ} {initial : σ} {T : List StatsCall → σ → Prop}
    (hnil : T [] initial)
    (hcall : ∀ calls call stats, T calls stats → (∀ reading ∈ call.readings, NotLater startedAt calls reading) →
      T (calls ++ [call]) (perform stats call))
    (hclock : ClockRuns startedAt calls) : T calls (calls.foldl perform initial) := by
  induction calls using List.reverseRecOn with
  | nil => exact hnil
  | append_singleton calls call ih =>
    obtain ⟨hclock, hnow⟩ := hclock.of_append
    rw [List.foldl_append]
    exact hcall calls call _ (ih hclock) hnow

theorem windowed_nil (qualify : Event → Option κ) (startedAt : ℚ) : Windowed qualify startedAt [] [] :=
  ⟨0, ⟨List.nodup_nil, fun _ h => absurd h List.not_mem_nil, fun _ _ _ => rfl⟩,
    fun now _ => bucketIndex_nonneg startedAt now⟩

theorem Windowed.record (h : Windowed qualify startedAt calls buckets) (hnow : NotLater startedAt calls now) {key : κ}
    (hq : qualify event = some key) : Windowed qualify startedAt (calls ++ [.recordReceived now event])
      (pruneBuckets (countInBucket buckets (bucketIndex startedAt now) key) (bucketIndex startedAt now)) := by
  obtain ⟨current, hr, hcurrent⟩ := h
  refine ⟨bucketIndex startedAt now, ?_, fun later hlater =>
    bucketIndex_mono (hlater.of_append.2 now (by simp [StatsCall.readings]))⟩
  have hlog : indexed (recorded qualify startedAt (calls ++ [.recordReceived now event])) =
      indexed (recorded qualify startedAt calls) ++ [(bucketIndex startedAt now, key)] := by
    simp [recorded, indexed, StatsCall.counted, hq]
    rfl
  rw [hlog]
  exact record_retains hr (hcurrent now hnow) key

theorem Windowed.skip (now : ℚ) (h : Windowed qualify startedAt calls buckets) (hq : qualify event = none) :
    Windowed qualify startedAt (calls ++ [.recordReceived now event]) buckets := by
  obtain ⟨current, hr, hcurrent⟩ := h
  refine ⟨current, ?_, fun later hlater => hcurrent later hlater.of_append.1⟩
  rwa [recorded, List.filterMap_append, List.filterMap_cons, StatsCall.counted, hq, List.filterMap_nil, Option.map_none,
    List.append_nil]

theorem Windowed.snapshot (later : ℚ) (h : Windowed qualify startedAt calls buckets)
    (hnow : NotLater startedAt calls now) :
    Windowed qualify startedAt (calls ++ [.snapshot now later]) (pruneBuckets buckets (bucketIndex startedAt now)) := by
  obtain ⟨current, hr, hcurrent⟩ := h
  refine ⟨bucketIndex startedAt now, ?_, fun time htime =>
    bucketIndex_mono (htime.of_append.2 now (by simp [StatsCall.readings]))⟩
  rw [recorded, List.filterMap_append, List.filterMap_cons, StatsCall.counted, List.filterMap_nil, List.append_nil]
  exact prune_retains hr (hcurrent now hnow)

/-- **What is displayed is what the whole history says.** -/
theorem Windowed.rate (h : Windowed qualify startedAt calls buckets) (hnow : NotLater startedAt calls now) (key : κ) :
    bucketCount buckets (bucketIndex startedAt now - 1) key =
      rateAt (recorded qualify startedAt calls) (elapsed startedAt now) key := by
  obtain ⟨current, hr, hcurrent⟩ := h
  rw [rateAt_eq_count]
  exact hr.counts _ key (by have := hcurrent now hnow; omega)

theorem Windowed.length_le (h : Windowed qualify startedAt calls buckets) : buckets.length ≤ 2 := by
  obtain ⟨current, hr, -⟩ := h
  exact hr.length_le

end

/-! ## The collectors -/

/-- How often `record_received` has been called. -/
def recordCalls (calls : List StatsCall) : ℕ := calls.countP StatsCall.records

theorem recordCalls_recordReceived (calls : List StatsCall) (now : ℚ) (event : Event) :
    recordCalls (calls ++ [.recordReceived now event]) = recordCalls calls + 1 := by
  rw [recordCalls, List.countP_append]
  rfl

theorem recordCalls_snapshot (calls : List StatsCall) (now later : ℚ) :
    recordCalls (calls ++ [.snapshot now later]) = recordCalls calls := by
  rw [recordCalls, List.countP_append]
  rfl

namespace StatsCollector

/-- A call. -/
def perform (stats : StatsCollector) : StatsCall → StatsCollector
  | .recordReceived now event => stats.recordReceived now event
  | .snapshot now _ => (stats.snapshot now).1

/-- Calls in order. -/
def run (stats : StatsCollector) (calls : List StatsCall) : StatsCollector := calls.foldl perform stats

/-- What a collector has become after these calls. -/
structure Tracked (initial : StatsCollector) (calls : List StatsCall) (stats : StatsCollector) : Prop where
  symbols : stats.symbols = initial.symbols
  startedAt : stats.startedAt = initial.startedAt
  received : stats.received = recordCalls calls
  windowed : Windowed initial.selectedTrade initial.startedAt calls stats.buckets

theorem selectedTrade_congr {stats initial : StatsCollector} (h : stats.symbols = initial.symbols) :
    stats.selectedTrade = initial.selectedTrade := by
  funext event
  rw [selectedTrade, selectedTrade, h]

variable {initial stats : StatsCollector} {calls : List StatsCall}

theorem Tracked.perform (h : Tracked initial calls stats) {call : StatsCall}
    (hnow : ∀ reading ∈ call.readings, NotLater initial.startedAt calls reading) :
    Tracked initial (calls ++ [call]) (stats.perform call) := by
  cases call with
  | recordReceived now event =>
    have hreceived : (stats.recordReceived now event).received =
        recordCalls (calls ++ [.recordReceived now event]) := by
      rw [recordReceived_received, h.received, recordCalls_recordReceived]
    have hnow := hnow now (by simp [StatsCall.readings])
    change Tracked initial _ (stats.recordReceived now event)
    unfold recordReceived at hreceived ⊢
    cases hq : stats.selectedTrade event with
    | none =>
      rw [hq] at hreceived
      exact ⟨h.symbols, h.startedAt, hreceived, h.windowed.skip now (selectedTrade_congr h.symbols ▸ hq)⟩
    | some symbol =>
      rw [hq] at hreceived
      refine ⟨h.symbols, h.startedAt, hreceived, ?_⟩
      have hrecord := h.windowed.record hnow (selectedTrade_congr h.symbols ▸ hq)
      rwa [← h.startedAt] at hrecord ⊢
  | snapshot now later =>
    refine ⟨h.symbols, h.startedAt, ?_, ?_⟩
    · rw [recordCalls_snapshot]
      exact h.received
    · have hsnapshot := h.windowed.snapshot later (hnow now (by simp [StatsCall.readings]))
      rwa [← h.startedAt] at hsnapshot ⊢

theorem run_tracked (hempty : initial.buckets = []) (hzero : initial.received = 0)
    (hclock : ClockRuns initial.startedAt calls) : Tracked initial calls (initial.run calls) := by
  have hinitial : Tracked initial [] initial := ⟨rfl, rfl, hzero, by rw [hempty]; exact windowed_nil _ _⟩
  exact hclock.foldl hinitial fun _ _ _ h hnow => h.perform hnow

/-- A qualifying event is an aggregate trade of a selected symbol. -/
theorem selectedTrade_eq_some {event : Event} {symbol : Str} : stats.selectedTrade event = some symbol ↔
    event.lookup (str "event_type") = some (.str (str "aggTrade")) ∧
      event.lookup (str "symbol") = some (.str symbol) ∧ symbol ∈ stats.symbols := by
  constructor
  · intro h
    obtain ⟨found, hfound, h⟩ := Option.bind_eq_some_iff.1 h
    split at h
    · rename_i hselected
      cases h
      exact ⟨hselected.1, asStr_eq_some.1 hfound, hselected.2⟩
    · cases h
  · rintro ⟨htype, hsymbol, hmem⟩
    simp [selectedTrade, htype, hsymbol, hmem, asStr]

/-- What a snapshot displays after these calls, and what is kept then. -/
structure RatesShown (initial : StatsCollector) (calls : List StatsCall) (now : ℚ) (after : StatsCollector)
    (shown : StatsSnapshot) : Prop where
  qualifies : ∀ event symbol, initial.selectedTrade event = some symbol ↔
    event.lookup (str "event_type") = some (.str (str "aggTrade")) ∧
      event.lookup (str "symbol") = some (.str symbol) ∧ symbol ∈ initial.symbols
  rates : shown.perSymbolRate = initial.symbols.map fun symbol =>
    (symbol, rateAt (recorded initial.selectedTrade initial.startedAt calls) (elapsed initial.startedAt now) symbol)
  total : shown.totalRate = (shown.perSymbolRate.map (·.2)).sum
  counted : shown.cumulativeTrades + shown.controlOrUnclassified = recordCalls calls
  kept : (initial.run calls).buckets.length ≤ 2 ∧ after.buckets.length ≤ 2

theorem snapshot_ratesShown {now later : ℚ} (hempty : initial.buckets = []) (hzero : initial.received = 0)
    (hclock : ClockRuns initial.startedAt (calls ++ [.snapshot now later])) :
    RatesShown initial calls now ((initial.run calls).snapshot now).1 ((initial.run calls).snapshot now).2 := by
  obtain ⟨hcalls, hnow⟩ := hclock.of_append
  have hrun := run_tracked hempty hzero hcalls
  have hafter := hrun.perform hnow
  refine ⟨fun _ _ => selectedTrade_eq_some, ?_, rfl, hrun.received, hrun.windowed.length_le,
    hafter.windowed.length_le⟩
  simp only [snapshot, hrun.symbols, hrun.startedAt]
  refine List.map_congr_left fun symbol _ => ?_
  rw [hrun.windowed.rate (hnow now (by simp [StatsCall.readings]))]

end StatsCollector

namespace MultiStreamStatsCollector

/-- A call. Where `record_received` raises, what it has done stays. -/
def perform (stats : MultiStreamStatsCollector) : StatsCall → MultiStreamStatsCollector
  | .recordReceived now event =>
    match stats.recordReceived now event with
    | .ok stats | .error stats => stats
  | .snapshot now later => (stats.snapshot now later).1

/-- Calls in order. -/
def run (stats : MultiStreamStatsCollector) (calls : List StatsCall) : MultiStreamStatsCollector :=
  calls.foldl perform stats

/-- The symbol and the stream type that an event counts for. -/
def marketKey (symbols : List Str) (event : Event) : Option (Str × StreamType) :=
  (marketFields symbols event).map fun fields => (fields.symbol, fields.streamType)

/-- What a collector has become after these calls. -/
structure Tracked (initial : MultiStreamStatsCollector) (calls : List StatsCall) (stats : MultiStreamStatsCollector) :
    Prop where
  symbols : stats.symbols = initial.symbols
  startedAt : stats.startedAt = initial.startedAt
  received : stats.received = recordCalls calls
  windowed : Windowed (marketKey initial.symbols) initial.startedAt calls stats.buckets

/-- The symbols, the start and the buckets are the same. -/
structure SameWindow (stats stats' : MultiStreamStatsCollector) : Prop where
  symbols : stats'.symbols = stats.symbols
  startedAt : stats'.startedAt = stats.startedAt
  buckets : stats'.buckets = stats.buckets

theorem SameWindow.trans {a b c : MultiStreamStatsCollector} (hab : SameWindow a b) (hbc : SameWindow b c) :
    SameWindow a c :=
  ⟨hbc.symbols.trans hab.symbols, hbc.startedAt.trans hab.startedAt, hbc.buckets.trans hab.buckets⟩

theorem countConnection_sameWindow {stats stats' : MultiStreamStatsCollector} {fields : MarketFields}
    (h : stats.countConnection fields = .ok stats' ∨ stats.countConnection fields = .error stats') :
    SameWindow stats stats' := by
  unfold countConnection at h
  dsimp only at h
  split at h
  · split at h
    · obtain h | h := h <;> cases h
      exact ⟨rfl, rfl, rfl⟩
    · split at h
      · obtain h | h := h <;> cases h
        exact ⟨rfl, rfl, rfl⟩
      · split at h <;> obtain h | h := h <;> cases h <;> exact ⟨rfl, rfl, rfl⟩
  · obtain h | h := h <;> cases h
    exact ⟨rfl, rfl, rfl⟩

theorem countLatency_sameWindow (stats : MultiStreamStatsCollector) (fields : MarketFields) (event : Event) :
    SameWindow stats (stats.countLatency fields event) := by
  unfold countLatency
  split <;> exact ⟨rfl, rfl, rfl⟩

/-- What follows the count of an event does not touch the buckets. -/
theorem recordReceived_sameWindow {stats stats' : MultiStreamStatsCollector} {now : ℚ} {event : Event}
    {fields : MarketFields} (hf : marketFields stats.symbols event = some fields)
    (h : stats.recordReceived now event = .ok stats' ∨ stats.recordReceived now event = .error stats') :
    SameWindow (stats.countStream now fields) stats' := by
  unfold recordReceived at h
  rw [hf] at h
  dsimp only at h
  cases hc : (stats.countStream now fields).countConnection fields with
  | ok counted =>
    rw [hc] at h
    obtain h | h := h <;> cases h
    exact (countConnection_sameWindow (.inl hc)).trans (countLatency_sameWindow counted fields event)
  | error counted =>
    rw [hc] at h
    obtain h | h := h <;> cases h
    exact countConnection_sameWindow (.inr hc)

variable {initial stats : MultiStreamStatsCollector} {calls : List StatsCall}

theorem perform_recordReceived (stats : MultiStreamStatsCollector) (now : ℚ) (event : Event) :
    stats.recordReceived now event = .ok (stats.perform (.recordReceived now event)) ∨
      stats.recordReceived now event = .error (stats.perform (.recordReceived now event)) := by
  rw [perform]
  cases stats.recordReceived now event with
  | ok stats' => exact .inl rfl
  | error stats' => exact .inr rfl

theorem Tracked.perform (h : Tracked initial calls stats) {call : StatsCall}
    (hnow : ∀ reading ∈ call.readings, NotLater initial.startedAt calls reading) :
    Tracked initial (calls ++ [call]) (stats.perform call) := by
  cases call with
  | recordReceived now event =>
    have hnow := hnow now (by simp [StatsCall.readings])
    have hperform := perform_recordReceived stats now event
    have hreceived : (stats.perform (.recordReceived now event)).received =
        recordCalls (calls ++ [.recordReceived now event]) := by
      rw [(recordReceived_counts hperform).received, h.received, recordCalls_recordReceived]
    cases hf : marketFields stats.symbols event with
    | none =>
      have hkey : marketKey initial.symbols event = none := by rw [marketKey, ← h.symbols, hf]; rfl
      have hskip := h.windowed.skip now hkey
      have heq : stats.recordReceived now event =
          .ok { stats with controlOrUnclassified := stats.controlOrUnclassified + 1 } := by
        rw [recordReceived, hf]
      rw [MultiStreamStatsCollector.perform, heq] at hreceived ⊢
      exact ⟨h.symbols, h.startedAt, hreceived, hskip⟩
    | some fields =>
      have hkey : marketKey initial.symbols event = some (fields.symbol, fields.streamType) := by
        rw [marketKey, ← h.symbols, hf]
        rfl
      have hsame := recordReceived_sameWindow hf hperform
      have hrecord := h.windowed.record hnow hkey
      refine ⟨hsame.symbols.trans h.symbols, hsame.startedAt.trans h.startedAt, hreceived, ?_⟩
      rw [hsame.buckets]
      rwa [← h.startedAt] at hrecord ⊢
  | snapshot now later =>
    refine ⟨h.symbols, h.startedAt, ?_, ?_⟩
    · rw [recordCalls_snapshot]
      exact h.received
    · have hsnapshot := h.windowed.snapshot later (hnow now (by simp [StatsCall.readings]))
      rwa [← h.startedAt] at hsnapshot ⊢

theorem run_tracked (hempty : initial.buckets = []) (hzero : initial.received = 0)
    (hclock : ClockRuns initial.startedAt calls) : Tracked initial calls (initial.run calls) := by
  have hinitial : Tracked initial [] initial := ⟨rfl, rfl, hzero, by rw [hempty]; exact windowed_nil _ _⟩
  exact hclock.foldl hinitial fun _ _ _ h hnow => h.perform hnow

/-- A qualifying event has the metadata of a stream type and the data of a selected symbol. -/
theorem marketKey_eq_some {symbols : List Str} {event : Event} {symbol : Str} {streamType : StreamType} :
    marketKey symbols event = some (symbol, streamType) ↔ ∃ metadata data,
      HasMarketFields symbols event ⟨streamType, symbol, metadata, data⟩ := by
  rw [marketKey, Option.map_eq_some_iff]
  constructor
  · rintro ⟨⟨streamType, symbol, metadata, data⟩, hfields, heq⟩
    cases heq
    exact ⟨metadata, data, marketFields_eq_some.1 hfields⟩
  · rintro ⟨metadata, data, hfields⟩
    exact ⟨_, marketFields_eq_some.2 hfields, rfl⟩

/-- What a snapshot displays after these calls, and what is kept then. -/
structure RatesShown (initial : MultiStreamStatsCollector) (calls : List StatsCall) (now : ℚ)
    (after : MultiStreamStatsCollector) (shown : MultiStreamStatsSnapshot) : Prop where
  qualifies : ∀ event symbol streamType, marketKey initial.symbols event = some (symbol, streamType) ↔
    ∃ metadata data, HasMarketFields initial.symbols event ⟨streamType, symbol, metadata, data⟩
  rates : shown.perSymbolStreamRate = initial.symbols.map fun symbol => (symbol, streamOrder.map fun stream =>
    (stream, rateAt (recorded (marketKey initial.symbols) initial.startedAt calls) (elapsed initial.startedAt now)
      (symbol, stream)))
  total : shown.totalRate = (shown.perSymbolStreamRate.map fun row => (row.2.map (·.2)).sum).sum
  counted : (shown.cumulativeByStream.map (·.2)).sum + shown.controlOrUnclassified = recordCalls calls
  kept : (initial.run calls).buckets.length ≤ 2 ∧ after.buckets.length ≤ 2

theorem snapshot_ratesShown {now later : ℚ} (hempty : initial.buckets = []) (hzero : initial.received = 0)
    (hclock : ClockRuns initial.startedAt (calls ++ [.snapshot now later])) :
    RatesShown initial calls now ((initial.run calls).snapshot now later).1
      ((initial.run calls).snapshot now later).2 := by
  obtain ⟨hcalls, hnow⟩ := hclock.of_append
  have hrun := run_tracked hempty hzero hcalls
  have hafter := hrun.perform hnow
  refine ⟨fun _ _ _ => marketKey_eq_some, ?_, rfl, ?_, hrun.windowed.length_le, hafter.windowed.length_le⟩
  · simp only [snapshot, hrun.symbols, hrun.startedAt]
    refine List.map_congr_left fun symbol _ => ?_
    rw [Prod.mk.injEq]
    refine ⟨rfl, List.map_congr_left fun stream _ => ?_⟩
    rw [hrun.windowed.rate (hnow now (by simp [StatsCall.readings]))]
  · rw [← hrun.received, received, Nat.add_comm]
    simp [snapshot, Function.comp_def]

end MultiStreamStatsCollector

/-- **A snapshot displays the rates of the whole history**, and two buckets are enough for it. -/
theorem windowed_rates (strip upper : Str → Str) (values : List Str) (startedAt : ℚ) (calls : List StatsCall)
    (now later : ℚ) (hclock : ClockRuns startedAt (calls ++ [.snapshot now later])) :
    (∀ initial, StatsCollector.create strip upper values startedAt = .ok initial →
      StatsCollector.RatesShown initial calls now ((initial.run calls).snapshot now).1
        ((initial.run calls).snapshot now).2) ∧
    (∀ initial, MultiStreamStatsCollector.create strip upper values startedAt = .ok initial →
      MultiStreamStatsCollector.RatesShown initial calls now ((initial.run calls).snapshot now later).1
        ((initial.run calls).snapshot now later).2) := by
  constructor
  · intro initial h
    rw [StatsCollector.create] at h
    cases hsymbols : normalizeSymbols strip upper values with
    | error e => rw [hsymbols] at h; cases h
    | ok symbols =>
      rw [hsymbols] at h
      cases h
      exact StatsCollector.snapshot_ratesShown rfl rfl hclock
  · intro initial h
    rw [MultiStreamStatsCollector.create] at h
    cases hsymbols : normalizeSymbols strip upper values with
    | error e => rw [hsymbols] at h; cases h
    | ok symbols =>
      rw [hsymbols] at h
      cases h
      exact MultiStreamStatsCollector.snapshot_ratesShown rfl rfl hclock

/-- A trade in the first second, a snapshot, and a trade in the second one. -/
def twoTrades : List StatsCall :=
  let trade : Event := [(str "event_type", .str (str "aggTrade")), (str "symbol", .str (str "BTCUSDT"))]
  [.recordReceived (1 / 2) trade, .snapshot 1 1, .recordReceived (3 / 2) trade]

theorem windowed_rates_twoTrades :
    let initial : StatsCollector := { symbols := [str "BTCUSDT"], startedAt := 0 }
    initial.RatesShown twoTrades 2 ((initial.run twoTrades).snapshot 2).1 ((initial.run twoTrades).snapshot 2).2 ∧
      ((initial.run twoTrades).snapshot 2).2.perSymbolRate = [(str "BTCUSDT", 1)] :=
  ⟨(windowed_rates id id [str "BTCUSDT"] 0 twoTrades 2 2
    (by norm_num [ClockRuns, twoTrades, StatsCall.readings])).1 _ rfl, by decide +kernel⟩

end BinanceCollector
