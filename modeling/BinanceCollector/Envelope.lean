import BinanceCollector.Routing

/-!
# The envelope in v2 events

The v2 contract keeps the envelope of a combined message under its own names; only the top level of `data` is renamed,
by the map of its stream (`Preserved`). `normalize_received_message` decodes with `normalize_message`, which first
renames the envelope itself by `FIELD_NAMES`.

- `keys_rename_notMem`: renaming by `FIELD_NAMES` removes every key of the map.
- `envelope_preserved_iff`: the contract is kept exactly when the envelope has no such key, or its data collides.
-/

namespace BinanceCollector

open Text Json

/-- `event["meta"]["stream_type"]`. -/
def streamTypeOf (event : Event) : Option Value :=
  match event.lookup (str "meta") with
  | some (.object metadata) => metadata.lookup (str "stream_type")
  | _ => none

/-- What the v2 contract makes of an object. -/
inductive Reading where
  /-- data of a known stream, under the names of the stream -/
  | market (spec : StreamSpec) (data : Event)
  /-- data of a known stream that its names cannot be given to -/
  | collision
  /-- anything else -/
  | control

/-- How the v2 contract reads the object `entries` a message carries. -/
def readEnvelope (message : ReceivedMessage) (index : StreamIndex) (entries : Event) : Reading :=
  match entries.lookup (str "stream"), entries.lookup (str "data") with
  | some (.str streamName), some (.object payload) =>
    match index.lookup (message.connectionGroup, streamName) with
    | none => .control
    | some spec =>
      match renameFields payload (fieldNamesByStream spec.streamType) with
      | .error _ => .collision
      | .ok data => .market spec data
  | _, _ => .control

/-- The v2 contract for a message with the text `text` of the object `entries`: market data comes with the other fields
of the envelope in `transport`, colliding data is kept as text, and any other object is kept as it is. -/
def Preserved (message : ReceivedMessage) (index : StreamIndex) (text : Str) (entries event : Event) : Prop :=
  match readEnvelope message index entries with
  | .market spec data =>
    streamTypeOf event = some (.str spec.streamType.value) ∧ event.lookup (str "data") = some (.object data) ∧
      event.lookup (str "transport") = if transportOf entries = [] then none else some (.object (transportOf entries))
  | .collision =>
    streamTypeOf event = some (.str (str "control")) ∧
      event.lookup (str "data") = some (.object [(str "raw_message", .str text)])
  | .control =>
    streamTypeOf event = some (.str (str "control")) ∧ event.lookup (str "data") = some (.object entries)

/-- The object names a known stream, and the names of the stream collide on its data. -/
def DataCollides (message : ReceivedMessage) (index : StreamIndex) (entries : Event) : Prop :=
  readEnvelope message index entries = .collision

/-! ## Renaming by `FIELD_NAMES` -/

theorem fieldName_stream (name : Str) : fieldName fieldNames name = str "stream" ↔ name = str "stream" :=
  fieldName_eq_iff (by decide) (by decide) name

theorem fieldName_data (name : Str) : fieldName fieldNames name = str "data" ↔ name = str "data" :=
  fieldName_eq_iff (by decide) (by decide) name

/-- The contract reads an object as before after its envelope has been renamed. -/
theorem readEnvelope_rename (message : ReceivedMessage) (index : StreamIndex) (entries : Event) :
    readEnvelope message index (Dict.rename (fieldName fieldNames) entries) = readEnvelope message index entries := by
  rw [readEnvelope, readEnvelope, Dict.lookup_rename fieldName_stream, Dict.lookup_rename fieldName_data]

/-- No key of the map is left in what has been renamed. -/
theorem keys_rename_notMem (entries : Event) {name : Str} (h : name ∈ Dict.keys fieldNames) :
    name ∉ Dict.keys (Dict.rename (fieldName fieldNames) entries) := by
  rw [Dict.keys_rename, List.mem_map]
  rintro ⟨old, -, rfl⟩
  exact fieldName_notMem (by decide) old h

theorem mem_keys_transportOf {entries : Event} {name : Str} :
    name ∈ Dict.keys (transportOf entries) ↔
      name ∈ Dict.keys entries ∧ name ≠ str "stream" ∧ name ≠ str "data" := by
  simp only [Dict.keys, transportOf, List.mem_map, List.mem_filter, decide_eq_true_eq, List.mem_cons,
    List.not_mem_nil, or_false, not_or]
  constructor
  · rintro ⟨p, ⟨hp, hs, hd⟩, rfl⟩
    exact ⟨⟨p, hp, rfl⟩, hs, hd⟩
  · rintro ⟨⟨p, hp, rfl⟩, hs, hd⟩
    exact ⟨p, ⟨hp, hs, hd⟩, rfl⟩

/-! ## Fields of the events -/

theorem streamTypeOf_controlEvent (message : ReceivedMessage) (data : Event) (warning streamName : Option Str) :
    streamTypeOf (controlEvent message data warning streamName).event = some (.str (str "control")) := by
  rw [streamTypeOf, controlEvent_meta]
  exact controlMeta_streamType message warning streamName

theorem controlEvent_data (message : ReceivedMessage) (data : Event) (warning streamName : Option Str) :
    (controlEvent message data warning streamName).event.lookup (str "data") = some (.object data) := by
  have hne : (str "data" == str "meta") = false := by decide
  simp [controlEvent, List.lookup_cons, hne]

theorem streamTypeOf_marketEvent (message : ReceivedMessage) (spec : StreamSpec) (data transport : Event) :
    streamTypeOf (marketEvent message spec data transport).event = some (.str spec.streamType.value) := by
  rw [streamTypeOf, marketEvent_meta]
  exact marketMeta_streamType message spec

theorem marketEvent_transport (message : ReceivedMessage) (spec : StreamSpec) (data transport : Event) :
    (marketEvent message spec data transport).event.lookup (str "transport") =
      if transport = [] then none else some (.object transport) := by
  have hm : (str "transport" == str "meta") = false := by decide
  have hd : (str "transport" == str "data") = false := by decide
  cases transport with
  | nil => simp [marketEvent, transportField, List.lookup_cons, hm, hd]
  | cons p transport => simp [marketEvent, transportField, List.lookup_cons, hm, hd]

theorem streamType_ne_control (t : StreamType) : t.value ≠ str "control" := by
  cases t <;> decide

/-! ## When the contract is kept -/

section

variable {lim : Limits} {message : ReceivedMessage} {index : StreamIndex} {text : Str} {entries : Event}

/-- The event of a message whose envelope has been decoded. -/
theorem normalizeReceivedMessage_decoded {envelope : Event} (ht : message.payload = .text text)
    (decoded : normalizeMessage lim message.payload = .ok ⟨envelope, none⟩) :
    ∃ n, normalizeReceivedMessage lim message index = .ok n ∧
      match readEnvelope message index envelope with
      | .market spec data => n = marketEvent message spec data (transportOf envelope)
      | .collision => ∃ warning streamName,
          n = controlEvent message [(str "raw_message", .str text)] warning streamName
      | .control => ∃ warning streamName, n = controlEvent message envelope warning streamName := by
  simp only [normalizeReceivedMessage, decoded]
  split
  · rename_i hs hp
    split
    · rename_i hi
      refine ⟨_, rfl, ?_⟩
      simp only [readEnvelope, hs, hp, hi]
      exact ⟨_, _, rfl⟩
    · rename_i hi
      split
      · rename_i hr
        refine ⟨_, rfl, ?_⟩
        simp only [readEnvelope, hs, hp, hi, hr, ht, rawEvent]
        exact ⟨_, _, rfl⟩
      · rename_i hr
        refine ⟨_, rfl, ?_⟩
        simp only [readEnvelope, hs, hp, hi, hr]
  · rename_i hno
    have hcontrol : readEnvelope message index envelope = .control := by
      rw [readEnvelope]
      split
      · rename_i hs hp
        exact absurd hp (hno _ _ hs)
      · rfl
    refine ⟨_, rfl, ?_⟩
    simp only [hcontrol]
    exact ⟨_, _, rfl⟩

/-- An envelope that is read as it is keeps the contract. -/
theorem preserved_of_decoded (ht : message.payload = .text text)
    (decoded : normalizeMessage lim message.payload = .ok ⟨entries, none⟩) :
    ∃ n, normalizeReceivedMessage lim message index = .ok n ∧ Preserved message index text entries n.event := by
  obtain ⟨n, hn, hevent⟩ := normalizeReceivedMessage_decoded ht decoded
  refine ⟨n, hn, ?_⟩
  rw [Preserved]
  cases hr : readEnvelope message index entries with
  | market spec data =>
    simp only [hr] at hevent ⊢
    subst hevent
    exact ⟨streamTypeOf_marketEvent .., marketEvent_data .., marketEvent_transport ..⟩
  | collision =>
    simp only [hr] at hevent ⊢
    obtain ⟨warning, streamName, rfl⟩ := hevent
    exact ⟨streamTypeOf_controlEvent .., controlEvent_data ..⟩
  | control =>
    simp only [hr] at hevent ⊢
    obtain ⟨warning, streamName, rfl⟩ := hevent
    exact ⟨streamTypeOf_controlEvent .., controlEvent_data ..⟩

/-- The text kept for a whole message keeps the contract for colliding data only. -/
theorem preserved_raw_iff {name : Str} (hname : name ∈ Dict.keys entries) (hkey : name ∈ Dict.keys fieldNames)
    (warning streamName : Option Str) :
    Preserved message index text entries
        (controlEvent message [(str "raw_message", .str text)] warning streamName).event ↔
      DataCollides message index entries := by
  rw [Preserved, DataCollides]
  cases hr : readEnvelope message index entries with
  | market spec data =>
    simp only [streamTypeOf_controlEvent, reduceCtorEq, iff_false]
    rintro ⟨htype, -, -⟩
    exact streamType_ne_control spec.streamType (by simpa using htype.symm)
  | collision => simp [streamTypeOf_controlEvent, controlEvent_data]
  | control =>
    simp only [controlEvent_data, reduceCtorEq, iff_false]
    rintro ⟨-, hdata⟩
    obtain rfl : _ = entries := Value.object.inj (Option.some.inj hdata)
    obtain rfl : name = str "raw_message" := by simpa using hname
    exact absurd hkey (by decide)

/-- A renamed envelope keeps the contract for colliding data only. -/
theorem preserved_renamed_iff {name : Str} (hname : name ∈ Dict.keys entries) (hkey : name ∈ Dict.keys fieldNames)
    (ht : message.payload = .text text)
    (decoded : normalizeMessage lim message.payload = .ok ⟨Dict.rename (fieldName fieldNames) entries, none⟩) :
    ∃ n, normalizeReceivedMessage lim message index = .ok n ∧
      (Preserved message index text entries n.event ↔ DataCollides message index entries) := by
  obtain ⟨n, hn, hevent⟩ := normalizeReceivedMessage_decoded ht decoded
  refine ⟨n, hn, ?_⟩
  rw [readEnvelope_rename] at hevent
  have hgone := keys_rename_notMem entries hkey
  rw [Preserved, DataCollides]
  cases hr : readEnvelope message index entries with
  | market spec data =>
    simp only [hr] at hevent
    subst hevent
    simp only [reduceCtorEq, iff_false]
    rintro ⟨-, -, htransport⟩
    have hmem : name ∈ Dict.keys (transportOf entries) :=
      mem_keys_transportOf.2 ⟨hname, fun h => absurd hkey (h ▸ by decide), fun h => absurd hkey (h ▸ by decide)⟩
    have hne : transportOf entries ≠ [] := fun h => by rw [h] at hmem; cases hmem
    rw [marketEvent_transport, if_neg hne] at htransport
    split at htransport
    · cases htransport
    · rw [← Value.object.inj (Option.some.inj htransport)] at hmem
      exact hgone (mem_keys_transportOf.1 hmem).1
  | collision =>
    simp only [hr] at hevent
    obtain ⟨warning, streamName, rfl⟩ := hevent
    simp [streamTypeOf_controlEvent, controlEvent_data]
  | control =>
    simp only [hr] at hevent
    obtain ⟨warning, streamName, rfl⟩ := hevent
    simp only [controlEvent_data, reduceCtorEq, iff_false]
    rintro ⟨-, hdata⟩
    rw [Value.object.inj (Option.some.inj hdata)] at hgone
    exact hgone hname

/-- An object with a key of `FIELD_NAMES` keeps the contract for colliding data only. -/
theorem preserved_iff_dataCollides (message : ReceivedMessage) (index : StreamIndex) {name : Str}
    (hname : name ∈ Dict.keys entries) (hkey : name ∈ Dict.keys fieldNames) (ht : message.payload = .text text)
    (hd : loads strictHooks lim text = .ok (.object entries)) :
    ∃ n, normalizeReceivedMessage lim message index = .ok n ∧
      (Preserved message index text entries n.event ↔ DataCollides message index entries) := by
  have decoded := normalizeMessage_object hd
  rw [← ht] at decoded
  cases hr : renameFields entries fieldNames with
  | error old =>
    rw [hr] at decoded
    refine ⟨controlEvent message [(str "raw_message", .str text)] (some (str "field_name_collision")) none, ?_,
      preserved_raw_iff hname hkey _ _⟩
    simp only [normalizeReceivedMessage, decoded, rawTextMessage]
  | ok envelope =>
    obtain ⟨rfl, -⟩ := renameFields_eq_ok.1 hr
    rw [hr] at decoded
    exact preserved_renamed_iff hname hkey ht decoded

/-- **When the envelope is preserved.** A message with the text of an object gets an event that keeps the v2 contract
exactly if no field of the object has a name of `FIELD_NAMES`, or its data collides and is kept as text anyway. -/
theorem envelope_preserved_iff (message : ReceivedMessage) (index : StreamIndex) (ht : message.payload = .text text)
    (hd : loads strictHooks lim text = .ok (.object entries)) :
    ∃ n, normalizeReceivedMessage lim message index = .ok n ∧
      (Preserved message index text entries n.event ↔
        (∀ name ∈ Dict.keys entries, name ∉ Dict.keys fieldNames) ∨ DataCollides message index entries) := by
  by_cases hdistinct : ∀ name ∈ Dict.keys entries, name ∉ Dict.keys fieldNames
  · have hsame : ∀ name ∈ Dict.keys entries, fieldName fieldNames name = name := fun name h =>
      fieldName_eq_self (hdistinct name h)
    have hr : renameFields entries fieldNames = .ok entries := renameFields_eq_ok.2
      ⟨(Dict.rename_eq_self hsame).symm, by rw [List.map_congr_left hsame, List.map_id']; exact decode_object hd⟩
    have decoded := normalizeMessage_object hd
    rw [← ht, hr] at decoded
    obtain ⟨n, hn, hp⟩ := preserved_of_decoded ht decoded
    exact ⟨n, hn, iff_of_true hp (.inl hdistinct)⟩
  · push Not at hdistinct
    obtain ⟨name, hname, hkey⟩ := hdistinct
    obtain ⟨n, hn, hiff⟩ := preserved_iff_dataCollides message index hname hkey ht hd
    exact ⟨n, hn, hiff.trans ⟨.inr, fun h => h.resolve_left fun hno => hno name hname hkey⟩⟩

end

/-! ## An acknowledgement and a server notice -/

/-- The keys of a decoded object. -/
def objectKeys {ε : Type} : Except ε Value → Option (List Str)
  | .ok (.object entries) => some (Dict.keys entries)
  | _ => none

theorem object_of_objectKeys {ε : Type} {r : Except ε Value} {names : List Str} (h : objectKeys r = some names) :
    ∃ entries, r = .ok (.object entries) ∧ Dict.keys entries = names := by
  cases r with
  | error e => cases h
  | ok v =>
    cases v with
    | object entries => exact ⟨entries, rfl, Option.some.inj h⟩
    | _ => cases h

/-- A message of the Spot market group. -/
def receivedText (text : Str) : ReceivedMessage := ⟨.text text, str "spot_market", str "run-spot_market-1", 1, 0⟩

/-- A subscription of the group. -/
def btcTrades : StreamSpec := streamSpec {} spotMarketGroup (str "BTCUSDT") .aggTrade

/-- A message of its stream with this number beside the data. -/
def tradeBeside (number : String) : Str :=
  str "\x7b\"stream\":\"btcusdt@aggTrade\",\"data\":\x7b\"p\":\"1\"\x7d,\"x\":" ++ str number ++ str "\x7d"

/-- An acknowledgement, and a trade with one more field in the envelope. -/
theorem envelope_preserved_ack :
    (∃ entries n,
      loads strictHooks ⟨1000, 4300⟩ (str "\x7b\"result\":null,\"id\":1\x7d") = .ok (.object entries) ∧
      normalizeReceivedMessage ⟨1000, 4300⟩ (receivedText (str "\x7b\"result\":null,\"id\":1\x7d")) [] = .ok n ∧
      Preserved (receivedText (str "\x7b\"result\":null,\"id\":1\x7d")) []
        (str "\x7b\"result\":null,\"id\":1\x7d") entries n.event) ∧
    ∃ entries n, loads strictHooks ⟨1000, 4300⟩ (tradeBeside "5") = .ok (.object entries) ∧
      normalizeReceivedMessage ⟨1000, 4300⟩ (receivedText (tradeBeside "5")) [(btcTrades.key, btcTrades)] = .ok n ∧
      Preserved (receivedText (tradeBeside "5")) [(btcTrades.key, btcTrades)] (tradeBeside "5") entries n.event ∧
      n.event.lookup (str "transport") = some (.object [(str "x", .int 5)]) := by
  constructor
  · have hkeys : objectKeys (loads strictHooks ⟨1000, 4300⟩ (str "\x7b\"result\":null,\"id\":1\x7d")) =
        some [str "result", str "id"] := by decide +kernel
    obtain ⟨entries, hd, hk⟩ := object_of_objectKeys hkeys
    obtain ⟨n, hn, hiff⟩ := envelope_preserved_iff
      (receivedText (str "\x7b\"result\":null,\"id\":1\x7d")) [] rfl hd
    exact ⟨entries, n, hd, hn, hiff.2 (.inl (by rw [hk]; decide))⟩
  · have hd : loads strictHooks ⟨1000, 4300⟩ (tradeBeside "5") = .ok (.object
        [(str "stream", .str (str "btcusdt@aggTrade")), (str "data", .object [(str "p", .str (str "1"))]),
          (str "x", .int 5)]) := by decide +kernel
    obtain ⟨n, hn, hiff⟩ := envelope_preserved_iff (receivedText (tradeBeside "5")) [(btcTrades.key, btcTrades)] rfl hd
    have hpreserved := hiff.2 (.inl (by decide))
    exact ⟨_, n, hd, hn, hpreserved, hpreserved.2.2⟩

/-- The notice of a shutdown comes with an event type and an event time it does not have. -/
theorem serverShutdown_renamed : ∃ entries n,
    loads strictHooks ⟨1000, 4300⟩ (str "\x7b\"e\":\"serverShutdown\",\"E\":1\x7d") = .ok (.object entries) ∧
    normalizeReceivedMessage ⟨1000, 4300⟩ (receivedText (str "\x7b\"e\":\"serverShutdown\",\"E\":1\x7d")) [] =
      .ok n ∧
    ¬Preserved (receivedText (str "\x7b\"e\":\"serverShutdown\",\"E\":1\x7d")) []
      (str "\x7b\"e\":\"serverShutdown\",\"E\":1\x7d") entries n.event := by
  have hkeys : objectKeys (loads strictHooks ⟨1000, 4300⟩ (str "\x7b\"e\":\"serverShutdown\",\"E\":1\x7d")) =
      some [str "e", str "E"] := by decide +kernel
  obtain ⟨entries, hd, hk⟩ := object_of_objectKeys hkeys
  obtain ⟨n, hn, hiff⟩ := preserved_iff_dataCollides
    (receivedText (str "\x7b\"e\":\"serverShutdown\",\"E\":1\x7d")) []
    (show str "e" ∈ Dict.keys entries by rw [hk]; decide) (by decide) rfl hd
  refine ⟨entries, n, hd, hn, fun hp => ?_⟩
  have hcollides := hiff.1 hp
  rw [DataCollides, readEnvelope] at hcollides
  split at hcollides <;> simp_all

end BinanceCollector
