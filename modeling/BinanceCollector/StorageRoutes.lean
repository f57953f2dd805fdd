import Mathlib.Data.Fintype.Basic
import BinanceCollector.Lib.Text

/-!
# Storage routes

The logical destination of an event, `storage_routes.py`.
-/

namespace BinanceCollector

open Text

/-- `StorageRoute`. -/
inductive StorageRoute where
  | aggTrade | orderBookDepth | bookTicker | kline | markPrice | control
  deriving DecidableEq, Repr

/-- `StorageRoute.value`. -/
def StorageRoute.value : StorageRoute → Str
  | .aggTrade => str "agg_trade"
  | .orderBookDepth => str "depth"
  | .bookTicker => str "book_ticker"
  | .kline => str "kline"
  | .markPrice => str "mark_price"
  | .control => str "control"

/-- `ROUTE_BY_STREAM_TYPE`. -/
def routeByStreamType : List (Str × StorageRoute) :=
  [(str "aggTrade", .aggTrade), (str "depth", .orderBookDepth), (str "bookTicker", .bookTicker),
    (str "kline", .kline), (str "markPrice", .markPrice)]

/-- `DATA_STORAGE_ROUTES`. -/
def dataStorageRoutes : List StorageRoute := routeByStreamType.map (·.2)

/-- `STORAGE_ROUTES`. -/
def storageRoutes : List StorageRoute := dataStorageRoutes ++ [.control]

/-- `storage_route_for_stream_type`. -/
def storageRouteForStreamType (streamType : Str) : StorageRoute :=
  (routeByStreamType.lookup streamType).getD .control

instance : Fintype StorageRoute where
  elems := ⟨storageRoutes, by decide⟩
  complete r := by cases r <;> decide

end BinanceCollector
