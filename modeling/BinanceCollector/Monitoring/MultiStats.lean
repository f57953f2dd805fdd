import BinanceCollector.Monitoring.Depth
import BinanceCollector.Monitoring.Stats
import BinanceCollector.Outputs.MultiMongo
import BinanceCollector.Routing

/-!
# Statistics of the combined streams

`monitoring/multi_stats.py`. The dictionaries whose keys never change, one entry for each stream type, storage route or
connection group, are functions.

- `recordReceived_received`: an event is counted once, under its stream type or as something else.
- `recordReceived_ok`: counting does not fail for an event of a configured connection group.
-/

namespace BinanceCollector

open Text Json

/-- `STREAM_ORDER`. -/
def streamOrder : List StreamType := [.aggTrade, .depth, .bookTicker, .kline, .markPrice]

/-- The stream type of this value, where it is one. -/
def knownStreamType (value : Str) : Option StreamType := streamOrder.find? fun t => t.value = value

/-- An entry of `_connections`. -/
structure ConnectionStats where
  connection : Str := str "시작 중"
  subscription : Str := str "구독 대기"
  data : Str := str "수신 대기"
  lastDataAt : Option ℚ := none

/-- An entry of `_collections`, besides `accepted`. -/
structure CollectionStats where
  persisted : ℕ := 0
  pending : ℤ := 0
  pendingBytes : ℤ := 0
  state : Str := str "연결 대기"
  lastBatchSize : ℕ := 0

/-- `MultiStreamStatsCollector`. -/
structure MultiStreamStatsCollector extends Forwarded where
  symbols : List Str
  startedAt : ℚ
  buckets : Buckets (Str × StreamType) := []
  cumulativeByStream : StreamType → ℕ := fun _ => 0
  controlOrUnclassified : ℕ := 0
  connections : Str → ConnectionStats := fun _ => {}
  lastConnectionIds : List (Str × Str) := []
  connectionChanges : Str → ℕ := fun _ => 0
  collections : StorageRoute → CollectionStats := fun _ => {}
  latestLatencyMs : List (StreamType × ℤ) := []
  depth : DepthContinuityObserver := {}
  recentError : Option Str := none
  forwardedMessages := 0
  accepted := fun _ => 0

/-- `ConnectionStatsSnapshot`. -/
structure ConnectionStatsSnapshot where
  connection : Str
  subscription : Str
  data : Str
  connectionChanges : ℕ
  lastDataAgeSeconds : Option ℚ

/-- `CollectionStatsSnapshot`. -/
structure CollectionStatsSnapshot where
  accepted : ℕ
  persisted : ℕ
  pending : ℤ
  pendingBytes : ℤ
  state : Str
  lastBatchSize : ℕ

/-- `MultiStreamStatsSnapshot`. -/
structure MultiStreamStatsSnapshot where
  perSymbolStreamRate : List (Str × List (StreamType × ℕ))
  totalRate : ℕ
  cumulativeByStream : List (StreamType × ℕ)
  controlOrUnclassified : ℕ
  forwardedMessages : ℕ
  uptimeSeconds : ℚ
  connections : List (Str × ConnectionStatsSnapshot)
  collections : List (StorageRoute × CollectionStatsSnapshot)
  latestLatencyMs : List (StreamType × ℤ)
  depthGapCount : ℕ
  depthConnectionResets : ℕ
  lastDepthGap : Option DepthGap
  recentError : Option Str

namespace MultiStreamStatsCollector

/-- `MultiStreamStatsCollector.__init__`, at this reading of the clock. -/
def create (strip upper : Str → Str) (values : List Str) (startedAt : ℚ) : Except Str MultiStreamStatsCollector :=
  (normalizeSymbols strip upper values).map fun symbols => { symbols, startedAt }

/-- What `record_received` finds in a market event. -/
structure MarketFields where
  streamType : StreamType
  symbol : Str
  metadata : Event
  data : Event

/-- The tests at the head of `record_received`. -/
def marketFields (symbols : List Str) (event : Event) : Option MarketFields := do
  let metadata ← event.lookup (str "meta") >>= asDict
  let data ← event.lookup (str "data") >>= asDict
  let streamType ← metadata.lookup (str "stream_type") >>= asStr >>= knownStreamType
  let symbol ← data.lookup (str "symbol") >>= asStr
  if symbol ∈ symbols then return ⟨streamType, symbol, metadata, data⟩
  else none

/-- The statistics of a stream type: its bucket and its total. -/
def countStream (stats : MultiStreamStatsCollector) (now : ℚ) (fields : MarketFields) : MultiStreamStatsCollector :=
  let index := bucketIndex stats.startedAt now
  { stats with
    buckets := pruneBuckets (countInBucket stats.buckets index (fields.symbol, fields.streamType)) index
    cumulativeByStream :=
      Function.update stats.cumulativeByStream fields.streamType (stats.cumulativeByStream fields.streamType + 1) }

/-- The statistics of a connection. `_connection_changes[group]` raises `KeyError` where there is no such group. -/
def countConnection (stats : MultiStreamStatsCollector) (fields : MarketFields) :
    Except MultiStreamStatsCollector MultiStreamStatsCollector :=
  match fields.metadata.lookup (str "connection_group") >>= asStr,
    fields.metadata.lookup (str "connection_id") >>= asStr with
  | some group, some connectionId =>
    let remembered := { stats with lastConnectionIds := Dict.set group connectionId stats.lastConnectionIds }
    match stats.lastConnectionIds.lookup group with
    | none => .ok remembered
    | some previous =>
      if previous = connectionId then .ok remembered
      else if (connectionGroupByKey.lookup group).isNone then .error stats
      else .ok { remembered with
        connectionChanges := Function.update stats.connectionChanges group (stats.connectionChanges group + 1) }
  | _, _ => .ok stats

/-- The latency of an event, and the continuity of depth updates. -/
def countLatency (stats : MultiStreamStatsCollector) (fields : MarketFields) (event : Event) :
    MultiStreamStatsCollector :=
  match fields.data.lookup (str "event_time") >>= asInt, fields.metadata.lookup (str "received_at_ms") >>= asInt with
  | some eventTime, some receivedAt =>
    { stats with
      latestLatencyMs := Dict.set fields.streamType (receivedAt - eventTime) stats.latestLatencyMs
      depth := stats.depth.observe event }
  | _, _ => { stats with depth := stats.depth.observe event }

/-- `record_received`, or the statistics it leaves behind where it raises. -/
def recordReceived (stats : MultiStreamStatsCollector) (now : ℚ) (event : Event) :
    Except MultiStreamStatsCollector MultiStreamStatsCollector :=
  match marketFields stats.symbols event with
  | none => .ok { stats with controlOrUnclassified := stats.controlOrUnclassified + 1 }
  | some fields => ((stats.countStream now fields).countConnection fields).map fun stats =>
      stats.countLatency fields event

/-- `record_forwarded`. -/
def recordForwarded (stats : MultiStreamStatsCollector) (event : Event) : MultiStreamStatsCollector :=
  { stats with toForwarded := stats.toForwarded.recordForwarded event }

def setCollection (stats : MultiStreamStatsCollector) (route : StorageRoute) (target : CollectionStats) :
    MultiStreamStatsCollector :=
  { stats with collections := Function.update stats.collections route target }

/-- `record_batch_persisted`. -/
def recordBatchPersisted (stats : MultiStreamStatsCollector) (route : StorageRoute) (count : ℕ) :
    MultiStreamStatsCollector :=
  let target := stats.collections route
  stats.setCollection route { target with persisted := target.persisted + count, lastBatchSize := count }

/-- `record_buffer_changed`. -/
def recordBufferChanged (stats : MultiStreamStatsCollector) (route : StorageRoute) (pending pendingBytes : ℤ) :
    MultiStreamStatsCollector :=
  stats.setCollection route { stats.collections route with pending := pending, pendingBytes := pendingBytes }

/-- A callback of the output, as `build_multi_stream_runtime` wires them. -/
def recordReport (stats : MultiStreamStatsCollector) : MultiMongo.Report → MultiStreamStatsCollector
  | .batchPersisted route count => stats.recordBatchPersisted route count
  | .bufferChanged route pending pendingBytes _ _ => stats.recordBufferChanged route pending pendingBytes

/-- `record_connection_status`. -/
def recordConnectionStatus (stats : MultiStreamStatsCollector) (now : ℚ) (group category value : Str) :
    MultiStreamStatsCollector :=
  if (connectionGroupByKey.lookup group).isNone then stats
  else
    let state := stats.connections group
    let put := fun state => { stats with connections := Function.update stats.connections group state }
    if category = str "connection" then put { state with connection := value }
    else if category = str "subscription" then put { state with subscription := value }
    else if category = str "data" then put { state with data := value, lastDataAt := some now }
    else if category = str "error" then { stats with recentError := some (group ++ str ": " ++ value) }
    else stats

/-- `record_error`. -/
def recordError (stats : MultiStreamStatsCollector) (message : Str) : MultiStreamStatsCollector :=
  { stats with recentError := some message }

/-- The connections as they are displayed. `now` is the second reading of the clock in `snapshot`. -/
def connectionSnapshots (stats : MultiStreamStatsCollector) (now : ℚ) : List (Str × ConnectionStatsSnapshot) :=
  connectionGroups.map fun group =>
    let state := stats.connections group.key
    (group.key, {
      connection := state.connection
      subscription := state.subscription
      data := state.data
      connectionChanges := stats.connectionChanges group.key
      lastDataAgeSeconds := state.lastDataAt.map fun lastDataAt => max 0 (now - lastDataAt) })

/-- The collections as they are displayed. -/
def collectionSnapshots (stats : MultiStreamStatsCollector) : List (StorageRoute × CollectionStatsSnapshot) :=
  storageRoutes.map fun route =>
    let state := stats.collections route
    (route, {
      accepted := stats.accepted route
      persisted := state.persisted
      pending := state.pending
      pendingBytes := state.pendingBytes
      state := state.state
      lastBatchSize := state.lastBatchSize })

/-- `snapshot`, with its two readings of the clock. The collector forgets the buckets that are no longer needed. -/
def snapshot (stats : MultiStreamStatsCollector) (now later : ℚ) :
    MultiStreamStatsCollector × MultiStreamStatsSnapshot :=
  let currentIndex := bucketIndex stats.startedAt now
  let rates := stats.symbols.map fun symbol =>
    (symbol, streamOrder.map fun stream => (stream, bucketCount stats.buckets (currentIndex - 1) (symbol, stream)))
  ({ stats with buckets := pruneBuckets stats.buckets currentIndex },
    { perSymbolStreamRate := rates
      totalRate := (rates.map fun row => (row.2.map (·.2)).sum).sum
      cumulativeByStream := streamOrder.map fun stream => (stream, stats.cumulativeByStream stream)
      controlOrUnclassified := stats.controlOrUnclassified
      forwardedMessages := stats.forwardedMessages
      uptimeSeconds := elapsed stats.startedAt now
      connections := stats.connectionSnapshots later
      collections := stats.collectionSnapshots
      latestLatencyMs := stats.latestLatencyMs
      depthGapCount := stats.depth.gapCount
      depthConnectionResets := stats.depth.connectionResets
      lastDepthGap := stats.depth.lastGap
      recentError := stats.recentError })

/-! ## Counting -/

/-- How many events have been counted. -/
def received (stats : MultiStreamStatsCollector) : ℕ :=
  stats.controlOrUnclassified + (streamOrder.map stats.cumulativeByStream).sum

/-- `stats'` has counted `n` more events than `stats`; what is known of the output is the same. -/
structure Counts (n : ℕ) (stats stats' : MultiStreamStatsCollector) : Prop where
  received : stats'.received = stats.received + n
  forwarded : stats'.toForwarded = stats.toForwarded
  collections : stats'.collections = stats.collections

theorem Counts.trans {m n : ℕ} {a b c : MultiStreamStatsCollector} (hab : Counts m a b) (hbc : Counts n b c) :
    Counts (m + n) a c where
  received := by rw [hbc.received, hab.received, Nat.add_assoc]
  forwarded := hbc.forwarded.trans hab.forwarded
  collections := hbc.collections.trans hab.collections

theorem countStream_counts (stats : MultiStreamStatsCollector) (now : ℚ) (fields : MarketFields) :
    Counts 1 stats (stats.countStream now fields) where
  received := by
    simp only [MultiStreamStatsCollector.received, countStream, streamOrder, List.map_cons, List.map_nil,
      List.sum_cons, List.sum_nil]
    cases fields.streamType <;> simp <;> omega
  forwarded := rfl
  collections := rfl

theorem countConnection_counts {stats stats' : MultiStreamStatsCollector} {fields : MarketFields}
    (h : stats.countConnection fields = .ok stats' ∨ stats.countConnection fields = .error stats') :
    Counts 0 stats stats' := by
  unfold countConnection at h
  dsimp only at h
  split at h
  · split at h
    · obtain h | h := h <;> cases h
      exact ⟨rfl, rfl, rfl⟩
    · split at h
      · obtain h | h := h <;> cases h
        exact ⟨rfl, rfl, rfl⟩
      · split at h <;> obtain h | h := h <;> cases h <;> exact ⟨rfl, rfl, rfl⟩
  · obtain h | h := h <;> cases h
    exact ⟨rfl, rfl, rfl⟩

theorem countLatency_counts (stats : MultiStreamStatsCollector) (fields : MarketFields) (event : Event) :
    Counts 0 stats (stats.countLatency fields event) := by
  unfold countLatency
  split <;> exact ⟨rfl, rfl, rfl⟩

/-- **An event is counted once**, also where `record_received` raises. -/
theorem recordReceived_counts {stats stats' : MultiStreamStatsCollector} {now : ℚ} {event : Event}
    (h : stats.recordReceived now event = .ok stats' ∨ stats.recordReceived now event = .error stats') :
    Counts 1 stats stats' := by
  unfold recordReceived at h
  split at h
  · obtain h | h := h <;> cases h
    exact ⟨by simp only [received]; omega, rfl, rfl⟩
  rename_i fields hf
  have hstream := countStream_counts stats now fields
  cases hc : (stats.countStream now fields).countConnection fields with
  | ok counted =>
    rw [hc] at h
    obtain h | h := h <;> cases h
    exact (hstream.trans (countConnection_counts (.inl hc))).trans (countLatency_counts counted fields event)
  | error counted =>
    rw [hc] at h
    obtain h | h := h <;> cases h
    exact hstream.trans (countConnection_counts (.inr hc))

theorem knownStreamType_eq_some {value : Str} {t : StreamType} : knownStreamType value = some t ↔ value = t.value := by
  constructor
  · intro h
    have hfound := List.find?_some (p := fun t : StreamType => decide (t.value = value)) h
    exact (of_decide_eq_true hfound).symm
  · rintro rfl
    cases t <;> decide

/-- What `record_received` finds in a market event: the two dictionaries, a stream type and a selected symbol. -/
structure HasMarketFields (symbols : List Str) (event : Event) (fields : MarketFields) : Prop where
  metadata : event.lookup (str "meta") = some (.object fields.metadata)
  data : event.lookup (str "data") = some (.object fields.data)
  streamType : fields.metadata.lookup (str "stream_type") = some (.str fields.streamType.value)
  symbol : fields.data.lookup (str "symbol") = some (.str fields.symbol)
  selected : fields.symbol ∈ symbols

theorem marketFields_eq_some {symbols : List Str} {event : Event} {fields : MarketFields} :
    marketFields symbols event = some fields ↔ HasMarketFields symbols event fields := by
  constructor
  · intro h
    obtain ⟨metadata, hm, h⟩ := Option.bind_eq_some_iff.1 h
    obtain ⟨data, hd, h⟩ := Option.bind_eq_some_iff.1 h
    obtain ⟨streamType, ht, h⟩ := Option.bind_eq_some_iff.1 h
    obtain ⟨symbol, hs, h⟩ := Option.bind_eq_some_iff.1 h
    obtain ⟨value, hv, ht⟩ := Option.bind_eq_some_iff.1 ht
    split at h
    · cases h
      obtain rfl := knownStreamType_eq_some.1 ht
      exact ⟨asDict_eq_some.1 hm, asDict_eq_some.1 hd, asStr_eq_some.1 hv, asStr_eq_some.1 hs, ‹_›⟩
    · cases h
  · intro h
    simp [marketFields, h.metadata, h.data, h.streamType, h.symbol, h.selected, asDict, asStr,
      knownStreamType_eq_some.2 rfl]

/-- A market event has the metadata that are read, and its stream type is not `control`. -/
theorem marketFields_metadata {symbols : List Str} {event : Event} {fields : MarketFields}
    (h : marketFields symbols event = some fields) : event.lookup (str "meta") = some (.object fields.metadata) ∧
      fields.metadata.lookup (str "stream_type") ≠ some (.str (str "control")) := by
  have hf := marketFields_eq_some.1 h
  refine ⟨hf.metadata, ?_⟩
  rw [hf.streamType]
  cases fields.streamType <;> decide

theorem countConnection_ok (stats : MultiStreamStatsCollector) {fields : MarketFields}
    (h : ∀ group, fields.metadata.lookup (str "connection_group") = some (.str group) →
      (connectionGroupByKey.lookup group).isSome) :
    ∃ stats', stats.countConnection fields = .ok stats' := by
  unfold countConnection
  dsimp only
  split
  · rename_i group connectionId hg hid
    split
    · exact ⟨_, rfl⟩
    split
    · exact ⟨_, rfl⟩
    rw [if_neg (by simpa using h group (asStr_eq_some.1 hg))]
    exact ⟨_, rfl⟩
  · exact ⟨_, rfl⟩

/-- **Counting does not fail** for an event of a configured connection group. -/
theorem recordReceived_ok (stats : MultiStreamStatsCollector) (now : ℚ) {event : Event}
    (h : ∀ metadata group, event.lookup (str "meta") = some (.object metadata) →
      metadata.lookup (str "stream_type") ≠ some (.str (str "control")) →
      metadata.lookup (str "connection_group") = some (.str group) → (connectionGroupByKey.lookup group).isSome) :
    ∃ stats', stats.recordReceived now event = .ok stats' := by
  unfold recordReceived
  split
  · exact ⟨_, rfl⟩
  rename_i fields hf
  obtain ⟨hm, ht⟩ := marketFields_metadata hf
  obtain ⟨counted, hc⟩ := countConnection_ok (stats.countStream now fields) fun group =>
    h fields.metadata group hm ht
  exact ⟨counted.countLatency fields event, by rw [hc]; rfl⟩

end MultiStreamStatsCollector

end BinanceCollector
