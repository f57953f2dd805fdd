import BinanceCollector.Collector.Parser
import BinanceCollector.Collector.Streams

/-!
# Events of the combined streams

`collector/multi_parser.py`: a combined message becomes a market event under the names of its stream type, or a control
event that keeps what was received.

- `Normalized`: the five ways `normalize_received_message` ends, one constructor each.
- `normalized_of_ok`, `normalizeReceivedMessage_market`: it ends in one of them, and when in the last.
-/

namespace BinanceCollector

open Text Json

/-- `COMMON_FIELD_NAMES`. -/
def commonFieldNames : List (Str × Str) :=
  [(str "e", str "event_type"), (str "E", str "event_time"), (str "s", str "symbol")]

/-- `FIELD_NAMES_BY_STREAM`. -/
def fieldNamesByStream : StreamType → List (Str × Str)
  | .aggTrade => commonFieldNames ++
    [(str "a", str "trade_id"), (str "p", str "price"), (str "q", str "quantity"), (str "f", str "first_trade_id"),
      (str "l", str "last_trade_id"), (str "T", str "trade_time"), (str "m", str "is_buyer_maker")]
  | .depth => commonFieldNames ++
    [(str "U", str "first_update_id"), (str "u", str "final_update_id"), (str "b", str "bids"), (str "a", str "asks")]
  | .bookTicker => commonFieldNames ++
    [(str "u", str "update_id"), (str "b", str "bid_price"), (str "B", str "bid_quantity"), (str "a", str "ask_price"),
      (str "A", str "ask_quantity")]
  | .kline => commonFieldNames
  | .markPrice => commonFieldNames ++
    [(str "p", str "mark_price"), (str "i", str "index_price"), (str "P", str "estimated_settle_price"),
      (str "r", str "funding_rate"), (str "T", str "next_funding_time")]

/-- `_base_meta`. -/
def baseMeta (message : ReceivedMessage) : List (Str × Value) :=
  [(str "schema_version", .int schemaVersion),
    (str "exchange", .str (str "binance")),
    (str "market", .str (match connectionGroupByKey.lookup message.connectionGroup with
      | some group => group.market.value
      | none => str "unknown")),
    (str "connection_group", .str message.connectionGroup),
    (str "received_at_ms", .int message.receivedAtMs),
    (str "connection_id", .str message.connectionId),
    (str "receive_sequence", .int message.receiveSequence)]

/-- `if value is not None: meta[name] = value`. -/
def setSome (name : Str) (value : Option Str) (metadata : List (Str × Value)) : List (Str × Value) :=
  match value with
  | some text => Dict.set name (.str text) metadata
  | none => metadata

/-- The `meta` of a control event. -/
def controlMeta (message : ReceivedMessage) (warning streamName : Option Str) : List (Str × Value) :=
  setSome (str "warning") warning <| setSome (str "stream_name") streamName <|
    Dict.set (str "stream_type") (.str (str "control")) (baseMeta message)

/-- `_control_event`. -/
def controlEvent (message : ReceivedMessage) (data : Event) (warning streamName : Option Str) : NormalizedMessage :=
  ⟨[(str "meta", .object (controlMeta message warning streamName)), (str "data", .object data)], warning⟩

/-- The `meta` of a market event. -/
def marketMeta (message : ReceivedMessage) (spec : StreamSpec) : List (Str × Value) :=
  Dict.set (str "stream_name") (.str spec.streamName) <|
    Dict.set (str "stream_type") (.str spec.streamType.value) <|
      Dict.set (str "market") (.str spec.market.value) (baseMeta message)

/-- The fields of an envelope besides `stream` and `data`. -/
def transportOf (envelope : Event) : Event := envelope.filter fun entry => entry.1 ∉ [str "stream", str "data"]

/-- `if transport: event["transport"] = transport`. -/
def transportField (transport : Event) : Event :=
  if transport.isEmpty then [] else [(str "transport", .object transport)]

/-- The market event of a message. -/
def marketEvent (message : ReceivedMessage) (spec : StreamSpec) (data transport : Event) : NormalizedMessage :=
  ⟨[(str "meta", .object (marketMeta message spec)), (str "data", .object data)] ++ transportField transport, none⟩

/-- `{"raw_message": message.payload}`. A binary payload has a warning and does not get here. -/
def rawEvent : WireMessage → Event
  | .text message => [(str "raw_message", .str message)]
  | .binary _ => []

/-- `normalize_received_message`. -/
def normalizeReceivedMessage (lim : Limits) (message : ReceivedMessage) (index : StreamIndex) :
    Except DecodeFailure NormalizedMessage :=
  match normalizeMessage lim message.payload with
  | .error failure => .error failure
  | .ok ⟨event, some warning⟩ => .ok (controlEvent message event (some warning) none)
  | .ok ⟨envelope, none⟩ =>
    match envelope.lookup (str "stream"), envelope.lookup (str "data") with
    | some (.str streamName), some (.object payload) =>
      match index.lookup (message.connectionGroup, streamName) with
      | none => .ok (controlEvent message envelope (some (str "unknown_stream")) (some streamName))
      | some spec =>
        match renameFields payload (fieldNamesByStream spec.streamType) with
        | .error _ =>
          .ok (controlEvent message (rawEvent message.payload) (some (str "field_name_collision")) (some streamName))
        | .ok normalizedPayload => .ok (marketEvent message spec normalizedPayload (transportOf envelope))
    | _, _ => .ok (controlEvent message envelope none none)

/-! ## How it ends -/

/-- An envelope that names its stream and has an object as data. -/
structure Enveloped (envelope : Event) (streamName : Str) (payload : Event) : Prop where
  stream : envelope.lookup (str "stream") = some (.str streamName)
  data : envelope.lookup (str "data") = some (.object payload)

/-- The five ways `normalize_received_message` ends. -/
inductive Normalized (lim : Limits) (message : ReceivedMessage) (index : StreamIndex) : NormalizedMessage → Prop
  /-- the payload is not a representable object -/
  | warned {event : Event} {warning : Str}
      (decoded : normalizeMessage lim message.payload = .ok ⟨event, some warning⟩) :
      Normalized lim message index (controlEvent message event (some warning) none)
  /-- an acknowledgement, a notice, a message without an envelope -/
  | bare {envelope : Event} (decoded : normalizeMessage lim message.payload = .ok ⟨envelope, none⟩)
      (notEnveloped : ∀ streamName payload, ¬Enveloped envelope streamName payload) :
      Normalized lim message index (controlEvent message envelope none none)
  | unknownStream {envelope payload : Event} {streamName : Str}
      (decoded : normalizeMessage lim message.payload = .ok ⟨envelope, none⟩)
      (enveloped : Enveloped envelope streamName payload)
      (unknown : index.lookup (message.connectionGroup, streamName) = none) :
      Normalized lim message index (controlEvent message envelope (some (str "unknown_stream")) (some streamName))
  | collision {envelope payload : Event} {streamName name : Str} {spec : StreamSpec}
      (decoded : normalizeMessage lim message.payload = .ok ⟨envelope, none⟩)
      (enveloped : Enveloped envelope streamName payload)
      (known : index.lookup (message.connectionGroup, streamName) = some spec)
      (collides : renameFields payload (fieldNamesByStream spec.streamType) = .error name) :
      Normalized lim message index
        (controlEvent message (rawEvent message.payload) (some (str "field_name_collision")) (some streamName))
  | market {envelope payload data : Event} {streamName : Str} {spec : StreamSpec}
      (decoded : normalizeMessage lim message.payload = .ok ⟨envelope, none⟩)
      (enveloped : Enveloped envelope streamName payload)
      (known : index.lookup (message.connectionGroup, streamName) = some spec)
      (renamed : renameFields payload (fieldNamesByStream spec.streamType) = .ok data) :
      Normalized lim message index (marketEvent message spec data (transportOf envelope))

section

variable {lim : Limits} {message : ReceivedMessage} {index : StreamIndex} {n : NormalizedMessage}

theorem normalized_of_ok (h : normalizeReceivedMessage lim message index = .ok n) : Normalized lim message index n := by
  rw [normalizeReceivedMessage] at h
  split at h
  · cases h
  · cases h
    exact .warned ‹_›
  · split at h
    · split at h
      · cases h
        exact .unknownStream ‹_› ⟨‹_›, ‹_›⟩ ‹_›
      · split at h
        · cases h
          exact .collision ‹_› ⟨‹_›, ‹_›⟩ ‹_› ‹_›
        · cases h
          exact .market ‹_› ⟨‹_›, ‹_›⟩ ‹_› ‹_›
    · cases h
      rename_i decoded _ _ hno
      exact .bare decoded fun streamName payload henv => hno streamName payload henv.stream henv.data

/-- Normalisation raises exactly when decoding does. -/
theorem normalizeReceivedMessage_error {failure : DecodeFailure} :
    normalizeReceivedMessage lim message index = .error failure ↔
      normalizeMessage lim message.payload = .error failure := by
  constructor
  · intro h
    rw [normalizeReceivedMessage] at h
    split at h
    · rename_i hd
      rw [hd, Except.error.inj h]
    · cases h
    · split at h
      · split at h
        · cases h
        · split at h <;> cases h
      · cases h
  · intro h
    rw [normalizeReceivedMessage, h]

theorem normalizeReceivedMessage_market {envelope payload data : Event} {streamName : Str} {spec : StreamSpec}
    (decoded : normalizeMessage lim message.payload = .ok ⟨envelope, none⟩)
    (enveloped : Enveloped envelope streamName payload)
    (known : index.lookup (message.connectionGroup, streamName) = some spec)
    (renamed : renameFields payload (fieldNamesByStream spec.streamType) = .ok data) :
    normalizeReceivedMessage lim message index = .ok (marketEvent message spec data (transportOf envelope)) := by
  simp only [normalizeReceivedMessage, decoded, enveloped.stream, enveloped.data, known, renamed]

end

end BinanceCollector
