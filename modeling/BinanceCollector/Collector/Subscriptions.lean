import BinanceCollector.Collector.Parser

/-!
# What the clients read in a message

`parse_subscription_response` of `collector/subscriptions.py`, and the predicates on messages of `client.py` and
`multi_client.py`. Decoding may raise, and so may all of these.
-/

namespace BinanceCollector

open Text Json

/-- `SUBSCRIPTION_REQUEST_ID`. -/
def subscriptionRequestId : ℤ := 1

/-- `SubscriptionResponse`. The detail of an error is the value whose text the source keeps. -/
inductive SubscriptionResponse where
  | success
  | error (detail : Value)

/-- `value == n` for an integer `n`: the booleans are the integers 0 and 1. -/
def equalsInt (n : ℤ) : Value → Bool
  | .int m => m = n
  | .bool b => (if b then 1 else 0) = n
  | _ => false

/-- `bool(value)`. -/
def truthy : Value → Bool
  | .null => false
  | .bool b => b
  | .int n => n ≠ 0
  -- a decoded event has no such number
  | .float _ => true
  | .str s => !s.isEmpty
  | .array items => !items.isEmpty
  | .object members => !members.isEmpty

/-- `payload.get("msg") or payload.get("code") or "unknown"`. -/
def responseDetail (payload : Event) : Value :=
  match payload.lookup (str "msg"), payload.lookup (str "code") with
  | some msg, some code => if truthy msg then msg else if truthy code then code else .str (str "unknown")
  | some msg, none => if truthy msg then msg else .str (str "unknown")
  | none, some code => if truthy code then code else .str (str "unknown")
  | none, none => .str (str "unknown")

/-- `parse_subscription_response`. -/
def parseSubscriptionResponse (lim : Limits) (requestId : ℤ) (message : WireMessage) :
    Except DecodeFailure (Option SubscriptionResponse) :=
  match normalizeMessage lim message with
  | .error failure => .error failure
  | .ok ⟨_, some _⟩ => .ok none
  | .ok ⟨payload, none⟩ =>
    .ok <|
      if !(payload.lookup (str "id")).any (equalsInt requestId) then none
      else
        match payload.lookup (str "result") with
        | some .null => some .success
        | _ =>
          if (payload.lookup (str "code")).isSome || (payload.lookup (str "msg")).isSome then
            some (.error (responseDetail payload))
          else none

/-! ## The legacy client -/

/-- `isinstance(value, str) and value == text`. -/
def equalsStr (text : Str) : Value → Bool
  | .str s => s = text
  | _ => false

/-- `BinanceCollector._is_server_shutdown`. -/
def legacyIsServerShutdown (lim : Limits) : WireMessage → Except DecodeFailure Bool
  | .binary _ => .ok false
  | .text message =>
    match normalizeMessage lim (.text message) with
    | .error failure => .error failure
    | .ok ⟨_, some _⟩ => .ok false
    | .ok ⟨event, none⟩ => .ok ((event.lookup (str "event_type")).any (equalsStr (str "serverShutdown")))

/-! ## The multi-stream client -/

/-- `json.loads` without hooks: of two members with one key the later counts, and other numbers are floats. -/
def plainHooks : Hooks Empty where
  object pairs := .ok (.object (Dict.ofPairs pairs))
  float raw := .ok (.float raw)
  constant raw := .ok (.float raw)

/-- `StreamConnection._decode_object`. -/
def decodeObject (lim : Limits) : WireMessage → Except DecodeFailure (Option Event)
  | .binary _ => .ok none
  | .text payload =>
    match loads plainHooks lim payload with
    | .error .malformed => .ok none
    | .error .tooLong => .error .tooManyDigits
    | .error .tooDeep | .error .exhausted => .error .recursion
    | .ok (.object decoded) => .ok (some decoded)
    | .ok _ => .ok none

/-- `StreamConnection._is_known_stream`, where `names` are `_stream_name_set`. -/
def isKnownStream (lim : Limits) (names : List Str) (payload : WireMessage) : Except DecodeFailure Bool :=
  match decodeObject lim payload with
  | .error failure => .error failure
  | .ok none => .ok false
  | .ok (some decoded) =>
    match decoded.lookup (str "stream"), decoded.lookup (str "data") with
    | some (.str stream), some (.object _) => .ok (decide (stream ∈ names))
    | _, _ => .ok false

/-- `StreamConnection._is_server_shutdown`. -/
def isServerShutdown (lim : Limits) (payload : WireMessage) : Except DecodeFailure Bool :=
  match decodeObject lim payload with
  | .error failure => .error failure
  | .ok none => .ok false
  | .ok (some decoded) =>
    match decoded.lookup (str "data") with
    | some (.object data) => .ok ((data.lookup (str "e")).any (equalsStr (str "serverShutdown")))
    | some _ => .ok false
    | none => .ok ((decoded.lookup (str "e")).any (equalsStr (str "serverShutdown")))

end BinanceCollector
