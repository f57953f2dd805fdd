import Mathlib.Logic.Function.Basic
import BinanceCollector.Collector.MultiParser

/-!
# Routes of normalised events

The route that `MongoMultiCollectionOutput._route` picks and that `MultiStreamStatsCollector.record_forwarded` counts is
read back from `meta.stream_type`.

- `no_cross_routing`: it is a data route exactly for the market messages of that route.
-/

namespace BinanceCollector

open Text Json

/-- The route of `_route` and `record_forwarded`, computed alike in both. -/
def eventRoute (event : Event) : StorageRoute :=
  match event.lookup (str "meta") with
  | some (.object metadata) =>
    match metadata.lookup (str "stream_type") with
    | some (.str streamType) => storageRouteForStreamType streamType
    | _ => storageRouteForStreamType (str "control")
  | _ => storageRouteForStreamType (str "control")

/-- `MongoMultiCollectionOutput._route`, where the routes with a queue are `routes`; the text of its error. -/
def MultiMongo.route (routes : List StorageRoute) (event : Event) : Except Str StorageRoute :=
  if eventRoute event ∉ routes then .error (str "설정되지 않은 저장 경로입니다: " ++ (eventRoute event).value)
  else .ok (eventRoute event)

/-- The counters of `MultiStreamStatsCollector` that `record_forwarded` advances. -/
structure Forwarded where
  forwardedMessages : ℕ
  /-- `_collections[route]["accepted"]` -/
  accepted : StorageRoute → ℕ

/-- `MultiStreamStatsCollector.record_forwarded`. -/
def Forwarded.recordForwarded (stats : Forwarded) (event : Event) : Forwarded where
  forwardedMessages := stats.forwardedMessages + 1
  accepted := Function.update stats.accepted (eventRoute event) (stats.accepted (eventRoute event) + 1)

/-! ## The stream type of an event -/

theorem eventRoute_eq {event : Event} {metadata : List (Str × Value)} {streamType : Str}
    (hm : event.lookup (str "meta") = some (.object metadata))
    (ht : metadata.lookup (str "stream_type") = some (.str streamType)) :
    eventRoute event = storageRouteForStreamType streamType := by
  simp only [eventRoute, hm, ht]

theorem lookup_setSome {name : Str} {value : Option Str} {metadata : List (Str × Value)} {k : Str} (h : k ≠ name) :
    (setSome name value metadata).lookup k = metadata.lookup k := by
  cases value with
  | none => rfl
  | some text => simp [setSome, h]

theorem controlMeta_streamType (message : ReceivedMessage) (warning streamName : Option Str) :
    (controlMeta message warning streamName).lookup (str "stream_type") = some (.str (str "control")) := by
  rw [controlMeta, lookup_setSome (by decide), lookup_setSome (by decide), Dict.lookup_set, if_pos rfl]

theorem controlEvent_meta (message : ReceivedMessage) (data : Event) (warning streamName : Option Str) :
    (controlEvent message data warning streamName).event.lookup (str "meta") =
      some (.object (controlMeta message warning streamName)) := by
  simp [controlEvent]

/-- **A control event goes to the control route**, whatever it carries. -/
theorem eventRoute_controlEvent (message : ReceivedMessage) (data : Event) (warning streamName : Option Str) :
    eventRoute (controlEvent message data warning streamName).event = .control := by
  rw [eventRoute_eq (controlEvent_meta ..) (controlMeta_streamType ..)]
  rfl

theorem marketMeta_market (message : ReceivedMessage) (spec : StreamSpec) :
    (marketMeta message spec).lookup (str "market") = some (.str spec.market.value) := by
  rw [marketMeta, Dict.lookup_set, if_neg (by decide), Dict.lookup_set, if_neg (by decide), Dict.lookup_set, if_pos rfl]

theorem marketMeta_streamType (message : ReceivedMessage) (spec : StreamSpec) :
    (marketMeta message spec).lookup (str "stream_type") = some (.str spec.streamType.value) := by
  rw [marketMeta, Dict.lookup_set, if_neg (by decide), Dict.lookup_set, if_pos rfl]

theorem marketMeta_streamName (message : ReceivedMessage) (spec : StreamSpec) :
    (marketMeta message spec).lookup (str "stream_name") = some (.str spec.streamName) := by
  rw [marketMeta, Dict.lookup_set, if_pos rfl]

theorem marketMeta_connectionGroup (message : ReceivedMessage) (spec : StreamSpec) :
    (marketMeta message spec).lookup (str "connection_group") = some (.str message.connectionGroup) := by
  rw [marketMeta, Dict.lookup_set, if_neg (by decide), Dict.lookup_set, if_neg (by decide), Dict.lookup_set,
    if_neg (by decide)]
  rfl

theorem marketEvent_meta (message : ReceivedMessage) (spec : StreamSpec) (data transport : Event) :
    (marketEvent message spec data transport).event.lookup (str "meta") = some (.object (marketMeta message spec)) := by
  simp [marketEvent]

theorem marketEvent_data (message : ReceivedMessage) (spec : StreamSpec) (data transport : Event) :
    (marketEvent message spec data transport).event.lookup (str "data") = some (.object data) := by
  have hne : (str "data" == str "meta") = false := by decide
  simp [marketEvent, List.lookup_cons, hne]

/-- **A market event goes to the route of its stream type.** -/
theorem eventRoute_marketEvent (message : ReceivedMessage) (spec : StreamSpec) (data transport : Event) :
    eventRoute (marketEvent message spec data transport).event = storageRouteForStreamType spec.streamType.value :=
  eventRoute_eq (marketEvent_meta message spec data transport) (marketMeta_streamType message spec)

/-- A stream type has a data route. -/
theorem storageRouteForStreamType_ne_control (t : StreamType) : storageRouteForStreamType t.value ≠ .control := by
  cases t <;> decide

/-! ## Market messages -/

/-- A text accepted without warning whose stream is that of a subscription of its group, and whose data the field map of
the stream renames without collision. -/
structure MarketMessage (lim : Limits) (specs : List StreamSpec) (message : ReceivedMessage) (spec : StreamSpec)
    (payload data : Event) : Prop where
  accepted : ∃ text envelope, message.payload = .text text ∧
    normalizeMessage lim message.payload = .ok ⟨envelope, none⟩ ∧ Enveloped envelope spec.streamName payload
  subscribed : spec ∈ specs
  group : spec.connectionGroup = message.connectionGroup
  renamed : renameFields payload (fieldNamesByStream spec.streamType) = .ok data

/-- What the routes and the fields of the event `n` of a message say of the message. -/
structure RoutedRight (lim : Limits) (specs : List StreamSpec) (message : ReceivedMessage) (n : NormalizedMessage) :
    Prop where
  /-- the output has a queue for the route -/
  picked : MultiMongo.route storageRoutes n.event = .ok (eventRoute n.event)
  /-- the statistics count the same route -/
  counted : ∀ stats : Forwarded, stats.recordForwarded n.event =
    ⟨stats.forwardedMessages + 1,
      Function.update stats.accepted (eventRoute n.event) (stats.accepted (eventRoute n.event) + 1)⟩
  dataRoute : ∀ r ∈ dataStorageRoutes, eventRoute n.event = r ↔
    ∃ spec payload data, MarketMessage lim specs message spec payload data ∧ spec.storageRoute = r
  controlRoute : (¬∃ spec payload data, MarketMessage lim specs message spec payload data) →
    eventRoute n.event = .control
  fields : ∀ spec payload data, MarketMessage lim specs message spec payload data →
    n.event.lookup (str "data") = some (.object data) ∧
      data = Dict.rename (fieldName (fieldNamesByStream spec.streamType)) payload ∧
      ∃ metadata, n.event.lookup (str "meta") = some (.object metadata) ∧
        metadata.lookup (str "market") = some (.str spec.market.value) ∧
        metadata.lookup (str "stream_type") = some (.str spec.streamType.value) ∧
        metadata.lookup (str "stream_name") = some (.str spec.streamName)

section

variable {symbols : List Str} {o : StreamOptions} {specs : List StreamSpec} {index : StreamIndex} {lim : Limits}
  {message : ReceivedMessage} {n : NormalizedMessage}

/-- What an index of the subscriptions finds. -/
def Finds (index : StreamIndex) (specs : List StreamSpec) : Prop := ∀ group name spec,
  index.lookup (group, name) = some spec ↔ spec ∈ specs ∧ spec.connectionGroup = group ∧ spec.streamName = name

/-- A market message becomes the market event of its subscription. -/
theorem MarketMessage.event (hf : Finds index specs) {spec : StreamSpec} {payload data : Event}
    (hm : MarketMessage lim specs message spec payload data) (hn : normalizeReceivedMessage lim message index = .ok n) :
    ∃ transport, n = marketEvent message spec data transport := by
  obtain ⟨text, envelope, -, decoded, enveloped⟩ := hm.accepted
  have hmarket := normalizeReceivedMessage_market decoded enveloped
    ((hf _ _ _).2 ⟨hm.subscribed, hm.group, rfl⟩) hm.renamed
  exact ⟨_, Except.ok.inj (hn.symm.trans hmarket)⟩

/-- An event is that of a market message, or a control event. -/
theorem market_or_control (hf : Finds index specs) (hn : normalizeReceivedMessage lim message index = .ok n) :
    (∃ spec payload data, MarketMessage lim specs message spec payload data) ∨ eventRoute n.event = .control := by
  cases normalized_of_ok hn with
  | market decoded enveloped known renamed =>
    obtain ⟨hmem, hgroup, rfl⟩ := (hf _ _ _).1 known
    obtain ⟨text, payload, htext, -, -⟩ := normalizeMessage_accepted decoded
    exact .inl ⟨_, _, _, ⟨text, _, htext, decoded, enveloped⟩, hmem, hgroup, renamed⟩
  | warned | bare | unknownStream | collision => exact .inr (eventRoute_controlEvent ..)

theorem routedRight (hb : buildStreamSpecs symbols o = .ok specs) (hf : Finds index specs)
    (hn : normalizeReceivedMessage lim message index = .ok n) : RoutedRight lim specs message n where
  picked := by
    rw [MultiMongo.route, if_neg (not_not.2 _)]
    cases eventRoute n.event <;> decide
  counted _ := rfl
  dataRoute r hr := by
    constructor
    · rintro rfl
      rcases market_or_control hf hn with ⟨spec, payload, data, hm⟩ | hc
      · obtain ⟨transport, rfl⟩ := hm.event hf hn
        exact ⟨spec, payload, data, hm, by rw [eventRoute_marketEvent, storageRoute_of_mem hb hm.subscribed]⟩
      · rw [hc] at hr
        exact absurd hr (by decide)
    · rintro ⟨spec, payload, data, hm, rfl⟩
      obtain ⟨transport, rfl⟩ := hm.event hf hn
      rw [eventRoute_marketEvent, storageRoute_of_mem hb hm.subscribed]
  controlRoute hno := (market_or_control hf hn).resolve_left hno
  fields spec payload data hm := by
    obtain ⟨transport, rfl⟩ := hm.event hf hn
    exact ⟨marketEvent_data .., (renameFields_eq_ok.1 hm.renamed).1, _, marketEvent_meta .., marketMeta_market ..,
      marketMeta_streamType .., marketMeta_streamName ..⟩

end

/-- **No cross-routing.** For accepted symbols and supported options the index exists, and every received message that
is decoded at all gets an event whose route is a data route exactly if it is a market message of that route. -/
theorem no_cross_routing (strip upper : Str → Str) (values symbols : List Str) (o : StreamOptions)
    (hsym : normalizeSymbols strip upper values = .ok symbols) (ho : validateStreamOptions o = .ok ()) :
    ∃ specs index, buildStreamSpecs symbols o = .ok specs ∧ indexStreamSpecs specs = .ok index ∧
      ∀ (lim : Limits) (message : ReceivedMessage),
        (∀ failure, normalizeReceivedMessage lim message index = .error failure ↔
          normalizeMessage lim message.payload = .error failure) ∧
        ∀ n, normalizeReceivedMessage lim message index = .ok n → RoutedRight lim specs message n := by
  have hb := buildStreamSpecs_supported symbols ho
  obtain ⟨index, hindex, hf⟩ := indexStreamSpecs_build (normalizeSymbols_symbols hsym) hb
  exact ⟨_, index, hb, hindex, fun lim message => ⟨fun _ => normalizeReceivedMessage_error, fun n hn =>
    routedRight hb hf hn⟩⟩

theorem no_cross_routing_btcusdt :
    ∃ specs index, buildStreamSpecs [str "BTCUSDT"] {} = .ok specs ∧ indexStreamSpecs specs = .ok index ∧
      ∀ (lim : Limits) (message : ReceivedMessage),
        (∀ failure, normalizeReceivedMessage lim message index = .error failure ↔
          normalizeMessage lim message.payload = .error failure) ∧
        ∀ n, normalizeReceivedMessage lim message index = .ok n → RoutedRight lim specs message n :=
  no_cross_routing id id [str "BTCUSDT"] [str "BTCUSDT"] {} (by decide) (by decide)

end BinanceCollector
