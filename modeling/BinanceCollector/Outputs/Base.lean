import Mathlib.Init

/-!
# What the two MongoDB outputs have in common

The lifecycle of an output and its `close()` call.
-/

namespace BinanceCollector

/-- How `close()` fails. -/
inductive CloseError where
  | workerFailed
  | shutdown
  | client
  | cancelled
  deriving DecidableEq, Repr

/-- The `close()` call. -/
inductive CloseCall where
  | idle
  /-- waiting for the worker tasks, at most `shutdown_timeout` -/
  | gathering
  /-- the time is over: waiting for the cancelled worker tasks -/
  | reaping
  /-- waiting for the client to close -/
  | closingClient (timedOut : Bool)
  | returned
  | raised (e : CloseError)
  deriving DecidableEq, Repr

/-- `_state`. -/
inductive Lifecycle where
  | new | «open» | closing | closed
  deriving DecidableEq, Repr

end BinanceCollector
