import Mathlib.Data.Rat.Floor
import BinanceCollector.Config
import BinanceCollector.Lib.Dict
import BinanceCollector.Models.Event

/-!
# Statistics of the trades

`monitoring/stats.py`. A clock reading is a rational number of seconds; a method that reads the clock gets the reading
as `now`. The duration of a batch, which is only displayed, is left out.

- `recordReceived_received`: an event is counted once.
-/

namespace BinanceCollector

open Text Json

/-! ## One-second buckets -/

/-- `_buckets`: the events of each second, by key. -/
abbrev Buckets (κ : Type*) := List (ℤ × List (κ × ℕ))

/-- `_elapsed`. -/
def elapsed (startedAt now : ℚ) : ℚ := max 0 (now - startedAt)

/-- `_bucket_index`. -/
def bucketIndex (startedAt now : ℚ) : ℤ := (elapsed startedAt now).floor

/-- `_prune_buckets`. -/
def pruneBuckets {κ : Type*} (buckets : Buckets κ) (currentIndex : ℤ) : Buckets κ :=
  buckets.filter fun p => currentIndex - 1 ≤ p.1

/-- One more event in the bucket of a second: `bucket[key] = bucket.get(key, 0) + 1`. -/
def countInBucket {κ : Type*} [DecidableEq κ] (buckets : Buckets κ) (index : ℤ) (key : κ) : Buckets κ :=
  let bucket := (buckets.lookup index).getD []
  Dict.set index (Dict.set key ((bucket.lookup key).getD 0 + 1) bucket) buckets

/-- `buckets.get(index, {}).get(key, 0)`. -/
def bucketCount {κ : Type*} [DecidableEq κ] (buckets : Buckets κ) (index : ℤ) (key : κ) : ℕ :=
  (((buckets.lookup index).getD []).lookup key).getD 0

/-! ## The collector of statistics -/

/-- `StatsCollector`. -/
structure StatsCollector where
  symbols : List Str
  startedAt : ℚ
  buckets : Buckets Str := []
  cumulativeTrades : ℕ := 0
  controlOrUnclassified : ℕ := 0
  forwardedMessages : ℕ := 0
  persistedMessages : ℕ := 0
  lastBatchSize : ℕ := 0
  connectionState : Str := str "시작 중"
  subscriptionState : Str := str "구독 대기"
  recentError : Option Str := none

/-- `StatsSnapshot`. -/
structure StatsSnapshot where
  perSymbolRate : List (Str × ℕ)
  totalRate : ℕ
  uptimeSeconds : ℚ
  cumulativeTrades : ℕ
  controlOrUnclassified : ℕ
  forwardedMessages : ℕ
  connectionState : Str
  subscriptionState : Str
  recentError : Option Str
  persistedMessages : ℕ
  /-- not less than zero -/
  pendingMessages : ℕ
  lastBatchSize : ℕ

namespace StatsCollector

/-- `StatsCollector.__init__`, at this reading of the clock. -/
def create (strip upper : Str → Str) (values : List Str) (startedAt : ℚ) : Except Str StatsCollector :=
  (normalizeSymbols strip upper values).map fun symbols => { symbols, startedAt }

/-- The symbol of a trade of one of the selected symbols, as `record_received` tests it. -/
def selectedTrade (stats : StatsCollector) (event : Event) : Option Str := do
  let symbol ← event.lookup (str "symbol") >>= asStr
  if event.lookup (str "event_type") = some (.str (str "aggTrade")) ∧ symbol ∈ stats.symbols then return symbol
  else none

/-- `record_received`. -/
def recordReceived (stats : StatsCollector) (now : ℚ) (event : Event) : StatsCollector :=
  match stats.selectedTrade event with
  | none => { stats with controlOrUnclassified := stats.controlOrUnclassified + 1 }
  | some symbol =>
    let index := bucketIndex stats.startedAt now
    { stats with
      buckets := pruneBuckets (countInBucket stats.buckets index symbol) index
      cumulativeTrades := stats.cumulativeTrades + 1 }

/-- `record_forwarded`. -/
def recordForwarded (stats : StatsCollector) : StatsCollector :=
  { stats with forwardedMessages := stats.forwardedMessages + 1 }

/-- `record_persisted`, for the counts a batch has. -/
def recordPersisted (stats : StatsCollector) (count : ℕ) : StatsCollector :=
  { stats with persistedMessages := stats.persistedMessages + count, lastBatchSize := count }

/-- `record_error`. -/
def recordError (stats : StatsCollector) (message : Str) : StatsCollector :=
  { stats with recentError := some message }

/-- `record_collector_status`. -/
def recordCollectorStatus (stats : StatsCollector) (category value : Str) : StatsCollector :=
  if category = str "connection" then { stats with connectionState := value }
  else if category = str "subscription" then { stats with subscriptionState := value }
  else if category = str "error" then stats.recordError value
  else stats

/-- `snapshot`. The collector forgets the buckets that are no longer needed. -/
def snapshot (stats : StatsCollector) (now : ℚ) : StatsCollector × StatsSnapshot :=
  let currentIndex := bucketIndex stats.startedAt now
  let rates := stats.symbols.map fun symbol => (symbol, bucketCount stats.buckets (currentIndex - 1) symbol)
  ({ stats with buckets := pruneBuckets stats.buckets currentIndex },
    { perSymbolRate := rates
      totalRate := (rates.map (·.2)).sum
      uptimeSeconds := elapsed stats.startedAt now
      cumulativeTrades := stats.cumulativeTrades
      controlOrUnclassified := stats.controlOrUnclassified
      forwardedMessages := stats.forwardedMessages
      connectionState := stats.connectionState
      subscriptionState := stats.subscriptionState
      recentError := stats.recentError
      persistedMessages := stats.persistedMessages
      pendingMessages := stats.forwardedMessages - stats.persistedMessages
      lastBatchSize := stats.lastBatchSize })

/-- How many events have been counted. -/
def received (stats : StatsCollector) : ℕ := stats.cumulativeTrades + stats.controlOrUnclassified

/-- **An event is counted once**, as a trade or as something else. -/
theorem recordReceived_received (stats : StatsCollector) (now : ℚ) (event : Event) :
    (stats.recordReceived now event).received = stats.received + 1 := by
  unfold recordReceived received
  split <;> dsimp only <;> omega

@[simp] theorem recordForwarded_received (stats : StatsCollector) : stats.recordForwarded.received = stats.received :=
  rfl

@[simp] theorem recordError_received (stats : StatsCollector) (message : Str) :
    (stats.recordError message).received = stats.received := rfl

end StatsCollector

end BinanceCollector
