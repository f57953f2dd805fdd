import BinanceCollector.Lib.Json

/-!
# Messages and events

`models/event.py`. An event is a dictionary in insertion order.
-/

namespace BinanceCollector

open Text

/-- `Event`. -/
abbrev Event := List (Str × Json.Value)

/-- The value of a dictionary, where `isinstance(value, dict)`. -/
def asDict : Json.Value → Option Event
  | .object d => some d
  | _ => none

theorem asDict_eq_some {v : Option Json.Value} {d : Event} : v >>= asDict = some d ↔ v = some (.object d) := by
  refine ⟨fun h => ?_, fun h => by rw [h]; rfl⟩
  obtain ⟨v, rfl, hv⟩ := Option.bind_eq_some_iff.1 h
  cases v <;> cases hv
  rfl

/-- The value of a text, where `isinstance(value, str)`. -/
def asStr : Json.Value → Option Str
  | .str s => some s
  | _ => none

theorem asStr_eq_some {v : Option Json.Value} {s : Str} : v >>= asStr = some s ↔ v = some (.str s) := by
  refine ⟨fun h => ?_, fun h => by rw [h]; rfl⟩
  obtain ⟨v, rfl, hv⟩ := Option.bind_eq_some_iff.1 h
  cases v <;> cases hv
  rfl

/-- The value of an integer, where `isinstance(value, int)`: a boolean is one too. -/
def asInt : Json.Value → Option ℤ
  | .int n => some n
  | .bool b => some (if b then 1 else 0)
  | _ => none

/-- `WireMessage`: a text or a binary frame. -/
inductive WireMessage where
  | text (s : Str)
  | binary (bytes : List (Fin 256))
  deriving DecidableEq

/-- `NormalizedMessage`. -/
structure NormalizedMessage where
  event : Event
  warning : Option Str
  deriving DecidableEq

/-- `ReceivedMessage`. -/
structure ReceivedMessage where
  payload : WireMessage
  connectionGroup : Str
  connectionId : Str
  receiveSequence : ℕ
  receivedAtMs : ℤ
  deriving DecidableEq

end BinanceCollector
