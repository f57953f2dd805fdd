import BinanceCollector.Collector.Acceptance
import BinanceCollector.Envelope
import BinanceCollector.Lib.Bson
import BinanceCollector.Outputs.MultiMongo

/-!
# What can be stored

`MongoMultiCollectionOutput.write` encodes each event as BSON, whose domain (`IsBson`) is smaller than that of the
events `normalize_received_message` makes.

- `isBson_controlEvent`, `isBson_marketEvent`: what an event has to have.
- **`storable_iff`**: the event of a message is storable exactly if the values of the message are.
-/

namespace BinanceCollector

open Text Json

/-! ## Names -/

/-- A map between names that can be keys keeps what can be a key. -/
theorem isBsonKey_fieldName {names : List (Str × Str)}
    (h : ∀ p ∈ names, isBsonKey p.1 = true ∧ isBsonKey p.2 = true) (name : Str) :
    isBsonKey (fieldName names name) = isBsonKey name := by
  rcases fieldName_cases names name with hmem | ⟨hsame, -⟩
  · obtain ⟨hold, hnew⟩ := h _ hmem
    exact hnew.trans hold.symm
  · rw [hsame]

theorem isBsonKey_fieldNames : ∀ p ∈ fieldNames, isBsonKey p.1 = true ∧ isBsonKey p.2 = true := by decide

theorem isBsonKey_fieldNamesByStream (t : StreamType) :
    ∀ p ∈ fieldNamesByStream t, isBsonKey p.1 = true ∧ isBsonKey p.2 = true := by
  cases t <;> decide

/-- Renaming the fields of an object does not change whether it is storable. -/
theorem isBson_renameFields {names : List (Str × Str)} {payload d : Event}
    (h : ∀ p ∈ names, isBsonKey p.1 = true ∧ isBsonKey p.2 = true) (hr : renameFields payload names = .ok d) :
    IsBson (.object d) ↔ IsBson (.object payload) := by
  obtain ⟨rfl, -⟩ := renameFields_eq_ok.1 hr
  exact isBson_rename (isBsonKey_fieldName h) payload

/-! ## Raw messages -/

theorem base64Digit_utf8 (n : ℕ) : isSurrogate (base64Digit n) = false := by
  rw [base64Digit, List.getD_eq_getElem?_getD]
  cases h : (str "ABCDEFGHIJKLMNOPQRSTUVWXYZabcdefghijklmnopqrstuvwxyz0123456789+/")[n]? with
  | none => rfl
  | some c =>
    have hall : isUtf8 (str "ABCDEFGHIJKLMNOPQRSTUVWXYZabcdefghijklmnopqrstuvwxyz0123456789+/") = true := by
      decide +kernel
    simpa using List.all_eq_true.1 hall c (List.mem_of_getElem? h)

theorem b64encode_utf8 (bytes : List (Fin 256)) : isUtf8 (b64encode bytes) = true := by
  have hpad : isSurrogate (code '=') = false := by decide
  fun_induction b64encode bytes with
  | case1 => rfl
  | case2 a => simp [isUtf8, base64Digit_utf8, hpad]
  | case3 a b => simp [isUtf8, base64Digit_utf8, hpad]
  | case4 a b c rest ih => simpa [isUtf8, base64Digit_utf8] using ih

theorem isBson_rawTextMessage {message warning : Str} :
    IsBson (.object (rawTextMessage message warning).event) ↔ isUtf8 message = true := by
  simp only [rawTextMessage, isBson_cons, isBson_str, isBson_nil, and_true]
  exact and_iff_right (by decide)

theorem isBson_rawBinaryMessage (bytes : List (Fin 256)) : IsBson (.object (rawBinaryMessage bytes).event) := by
  simp only [rawBinaryMessage, isBson_cons, isBson_str, isBson_nil, and_true, b64encode_utf8]
  decide

/-! ## Metadata -/

/-- What an event says of its message is storable. -/
structure MetaBson (message : ReceivedMessage) : Prop where
  connectionGroup : isUtf8 message.connectionGroup = true
  connectionId : isUtf8 message.connectionId = true
  receivedAtMs : isInt64 message.receivedAtMs = true
  receiveSequence : isInt64 message.receiveSequence = true

/-- The fields of `_base_meta`, with this market. -/
def metaOf (market : Str) (message : ReceivedMessage) : Event :=
  [(str "schema_version", .int schemaVersion), (str "exchange", .str (str "binance")), (str "market", .str market),
    (str "connection_group", .str message.connectionGroup), (str "received_at_ms", .int message.receivedAtMs),
    (str "connection_id", .str message.connectionId), (str "receive_sequence", .int message.receiveSequence)]

theorem isBson_metaOf {market : Str} {message : ReceivedMessage} (hmarket : isUtf8 market = true) :
    IsBson (.object (metaOf market message)) ↔ MetaBson message := by
  simp only [metaOf, isBson_cons, isBson_str, isBson_int, isBson_nil]
  constructor
  · rintro ⟨-, -, -, -, -, -, -, hg, -, ht, -, hi, -, hs, -⟩
    exact ⟨hg, hi, ht, hs⟩
  · rintro ⟨hg, hi, ht, hs⟩
    exact ⟨by decide, by decide, by decide, by decide, by decide, hmarket, by decide, hg, by decide, ht, by decide, hi,
      by decide, hs, trivial⟩

theorem isUtf8_market (market : Market) : isUtf8 market.value = true := by
  cases market <;> decide

theorem isBson_baseMeta {message : ReceivedMessage} : IsBson (.object (baseMeta message)) ↔ MetaBson message := by
  refine isBson_metaOf ?_
  split
  · exact isUtf8_market _
  · decide

theorem isBson_marketMeta {message : ReceivedMessage} {spec : StreamSpec} :
    IsBson (.object (marketMeta message spec)) ↔ MetaBson message ∧ isUtf8 spec.streamName = true := by
  have heq : marketMeta message spec = metaOf spec.market.value message ++
      [(str "stream_type", .str spec.streamType.value), (str "stream_name", .str spec.streamName)] := rfl
  have hkeys : isBsonKey (str "stream_type") = true ∧ isBsonKey (str "stream_name") = true := by decide
  have htype : isUtf8 spec.streamType.value = true := by
    cases spec.streamType <;> decide
  simp only [heq, isBson_append, isBson_metaOf (isUtf8_market _), isBson_cons, isBson_str, isBson_nil, hkeys, htype,
    true_and, and_true]

/-- The text, where there is one, has a UTF-8 encoding. -/
def optionUtf8 (value : Option Str) : Prop := ∀ s, value = some s → isUtf8 s = true

theorem controlMeta_eq (message : ReceivedMessage) (warning streamName : Option Str) :
    controlMeta message warning streamName = baseMeta message ++ [(str "stream_type", .str (str "control"))] ++
      (streamName.toList.map fun name => (str "stream_name", .str name)) ++
      warning.toList.map fun text => (str "warning", .str text) := by
  cases streamName <;> cases warning <;> rfl

theorem isBson_option {name : Str} (hname : isBsonKey name = true) (value : Option Str) :
    IsBson (.object (value.toList.map fun text => (name, .str text))) ↔ optionUtf8 value := by
  cases value with
  | none => simp [optionUtf8]
  | some text => simp [optionUtf8, isBson_cons, hname]

/-- **A control event is storable** when its data and what it says of its message are. -/
theorem isBson_controlEvent {message : ReceivedMessage} {data : Event} {warning streamName : Option Str} :
    IsBson (.object (controlEvent message data warning streamName).event) ↔
      MetaBson message ∧ optionUtf8 streamName ∧ optionUtf8 warning ∧ IsBson (.object data) := by
  have hkeys : isBsonKey (str "meta") = true ∧ isBsonKey (str "data") = true := by decide
  have htype : IsBson (.object [(str "stream_type", .str (str "control"))]) := by decide
  simp only [controlEvent, isBson_cons, isBson_nil, hkeys, controlMeta_eq, isBson_append, isBson_baseMeta, htype,
    isBson_option (show isBsonKey (str "stream_name") = true by decide),
    isBson_option (show isBsonKey (str "warning") = true by decide), true_and, and_true, and_assoc]

/-- **A market event is storable** when its data, the rest of its envelope and what it says of its message are. -/
theorem isBson_marketEvent {message : ReceivedMessage} {spec : StreamSpec} {data transport : Event} :
    IsBson (.object (marketEvent message spec data transport).event) ↔
      (MetaBson message ∧ isUtf8 spec.streamName = true) ∧ IsBson (.object data) ∧ IsBson (.object transport) := by
  have hkeys : isBsonKey (str "meta") = true ∧ isBsonKey (str "data") = true ∧ isBsonKey (str "transport") = true := by
    decide
  have htransport : IsBson (.object (transportField transport)) ↔ IsBson (.object transport) := by
    cases transport with
    | nil => exact iff_of_true rfl rfl
    | cons p ps => simp [transportField, isBson_cons, hkeys]
  simp only [marketEvent, isBson_append, isBson_cons, isBson_nil, hkeys, isBson_marketMeta, htransport, true_and,
    and_true, and_assoc]

/-! ## Payloads -/

/-- The values of an object that a message carries are storable; where its data collides, only the text of the message
and the name of its stream are stored. -/
def EnvelopeBson (message : ReceivedMessage) (index : StreamIndex) (text : Str) (entries : Event) : Prop :=
  match readEnvelope message index entries with
  | .collision => isUtf8 text = true ∧ ∀ name, entries.lookup (str "stream") = some (.str name) → isUtf8 name = true
  | .market _ _ | .control => IsBson (.object entries)

/-- The payload of a message is storable: as base64; as the object it spells; as text, where it spells none that can be
represented. -/
def PayloadBson (message : ReceivedMessage) (index : StreamIndex) : Prop :=
  match message.payload with
  | .binary _ => True
  | .text text =>
    (∃ root, (Spells text (.object root) ∧ Standard root) ∧ EnvelopeBson message index text (entriesOf root)) ∨
      (¬∃ root, Spells text (.object root) ∧ Standard root) ∧ isUtf8 text = true

/-- The fields of an envelope are its stream, its data and the rest. -/
theorem isBson_enveloped {envelope payload : Event} {streamName : Str} (hn : (Dict.keys envelope).Nodup)
    (h : Enveloped envelope streamName payload) : IsBson (.object envelope) ↔
      isUtf8 streamName = true ∧ IsBson (.object payload) ∧ IsBson (.object (transportOf envelope)) := by
  have hs := (Dict.lookup_eq_some_iff hn).1 h.stream
  have hd := (Dict.lookup_eq_some_iff hn).1 h.data
  have hkeys : isBsonKey (str "stream") = true ∧ isBsonKey (str "data") = true := by decide
  have htransport : IsBson (.object (transportOf envelope)) ↔ _ := isBson_object
  rw [isBson_object, htransport]
  constructor
  · intro hall
    exact ⟨(hall _ hs).2, (hall _ hd).2, fun p hp => hall p (List.mem_filter.1 hp).1⟩
  · rintro ⟨hstream, hdata, hrest⟩ ⟨name, v⟩ hp
    by_cases hname : name = str "stream"
    · subst hname
      have hv := (Dict.lookup_eq_some_iff hn).2 hp
      rw [h.stream] at hv
      cases hv
      exact ⟨hkeys.1, hstream⟩
    by_cases hname' : name = str "data"
    · subst hname'
      have hv := (Dict.lookup_eq_some_iff hn).2 hp
      rw [h.data] at hv
      cases hv
      exact ⟨hkeys.2, hdata⟩
    · exact hrest _ (List.mem_filter.2 ⟨hp, by simp [hname, hname']⟩)

/-- An object without an envelope is kept as it is. -/
theorem readEnvelope_bare {message : ReceivedMessage} {index : StreamIndex} {entries : Event}
    (h : ∀ streamName payload, ¬Enveloped entries streamName payload) :
    readEnvelope message index entries = .control := by
  rw [readEnvelope]
  split
  · rename_i hs hd
    exact absurd ⟨hs, hd⟩ (h _ _)
  · rfl

section

variable {specs : List StreamSpec} {index : StreamIndex} {lim : Limits} {message : ReceivedMessage}
  {n : NormalizedMessage}

/-- A specification is found under its own name. -/
theorem streamName_of_index (hi : indexStreamSpecs specs = .ok index) {group name : Str} {spec : StreamSpec}
    (h : index.lookup (group, name) = some spec) : spec.streamName = name := by
  obtain ⟨rfl, -⟩ := Dict.collect_eq_ok.1 hi
  have hmem := Dict.mem_of_lookup h
  simp only [Dict.rename, List.map_map, List.mem_map, Function.comp_apply, id_eq, Prod.mk.injEq] at hmem
  obtain ⟨spec', -, hkey, rfl⟩ := hmem
  exact (Prod.mk.inj hkey).2

/-- The event of a message without a warning. -/
theorem isBson_accepted (hi : indexStreamSpecs specs = .ok index) {text : Str} (ht : message.payload = .text text)
    {entries envelope : Event} (hr : renameFields entries fieldNames = .ok envelope)
    (decoded : normalizeMessage lim message.payload = .ok ⟨envelope, none⟩)
    (hn : normalizeReceivedMessage lim message index = .ok n) :
    IsBson (.object n.event) ↔ MetaBson message ∧ EnvelopeBson message index text entries := by
  obtain ⟨henvelope, hnodup⟩ := renameFields_eq_ok.1 hr
  have hbson := isBson_renameFields isBsonKey_fieldNames hr
  have hkeys : (Dict.keys envelope).Nodup := by rwa [henvelope, Dict.keys_rename]
  have hstream : envelope.lookup (str "stream") = entries.lookup (str "stream") := by
    rw [henvelope, Dict.lookup_rename fieldName_stream]
  have hread : readEnvelope message index entries = readEnvelope message index envelope := by
    rw [henvelope, readEnvelope_rename]
  have hsame : ∀ {envelope'}, normalizeMessage lim message.payload = .ok ⟨envelope', none⟩ → envelope' = envelope :=
    fun h => by rw [decoded] at h; cases h; rfl
  rw [EnvelopeBson, hread]
  cases normalized_of_ok hn with
  | warned h =>
    rw [decoded] at h
    cases h
  | bare h notEnveloped =>
    obtain rfl := hsame h
    rw [readEnvelope_bare notEnveloped, isBson_controlEvent, ← hbson]
    simp [optionUtf8]
  | @unknownStream _ _ streamName h enveloped unknown =>
    obtain rfl := hsame h
    have hwarning : isUtf8 (str "unknown_stream") = true := by decide
    simp only [readEnvelope, enveloped.stream, enveloped.data, unknown]
    rw [isBson_controlEvent, ← hbson]
    simp only [optionUtf8, Option.some.injEq, forall_eq', hwarning, true_and]
    exact and_congr_right fun _ => and_iff_right_of_imp fun he => ((isBson_enveloped hkeys enveloped).1 he).1
  | @collision _ _ streamName _ _ h enveloped known collides =>
    obtain rfl := hsame h
    have hwarning : isUtf8 (str "field_name_collision") = true := by decide
    have hraw : isBsonKey (str "raw_message") = true := by decide
    simp only [readEnvelope, enveloped.stream, enveloped.data, known, collides]
    rw [isBson_controlEvent, ht, rawEvent, isBson_cons, ← hstream, enveloped.stream]
    simp only [optionUtf8, Option.some.injEq, Value.str.injEq, forall_eq', hwarning, hraw, isBson_str, isBson_nil,
      true_and, and_true]
    exact and_congr_right fun _ => and_comm
  | @market _ _ _ streamName spec h enveloped known renamed =>
    obtain rfl := hsame h
    simp only [readEnvelope, enveloped.stream, enveloped.data, known, renamed]
    rw [isBson_marketEvent, streamName_of_index hi known, and_assoc,
      isBson_renameFields (isBsonKey_fieldNamesByStream _) renamed, ← hbson, isBson_enveloped hkeys enveloped]

/-- A text that is not accepted comes with a warning that is storable. -/
theorem normalizeMessage_warned {text warning : Str} {event : Event}
    (h : normalizeMessage lim (.text text) = .ok ⟨event, some warning⟩) :
    event = [(str "raw_message", .str text)] ∧ isUtf8 warning = true := by
  refine ⟨normalizeMessage_raw h (Option.some_ne_none warning), ?_⟩
  simp only [normalizeMessage] at h
  split at h
  · cases h; decide
  · cases h; decide
  · cases h; decide
  · cases h
  · cases h
  · cases h
  · split at h
    · cases h; decide
    · cases h
  · cases h; decide

theorem normalizeMessage_of_received (hn : normalizeReceivedMessage lim message index = .ok n) :
    ∃ n, normalizeMessage lim message.payload = .ok n := by
  cases h : normalizeMessage lim message.payload with
  | ok n => exact ⟨n, rfl⟩
  | error failure =>
    rw [normalizeReceivedMessage_error.2 h] at hn
    cases hn

/-- **The event of a message is storable exactly if the values of the message are.** -/
theorem isBson_event (hi : indexStreamSpecs specs = .ok index)
    (hn : normalizeReceivedMessage lim message index = .ok n) :
    IsBson (.object n.event) ↔ MetaBson message ∧ PayloadBson message index := by
  obtain ⟨⟨event, warning⟩, decoded⟩ := normalizeMessage_of_received hn
  rw [PayloadBson]
  cases ht : message.payload with
  | binary bytes =>
    rw [ht] at decoded
    obtain rfl : n = controlEvent message (rawBinaryMessage bytes).event (some (str "binary_message")) none := by
      rw [normalizeReceivedMessage, ht] at hn
      exact (Except.ok.inj hn).symm
    have hwarning : isUtf8 (str "binary_message") = true := by decide
    rw [isBson_controlEvent]
    simp [optionUtf8, hwarning, isBson_rawBinaryMessage]
  | text text =>
    have hreturns : ¬(WireMessage.text text).Exceeds lim := ht ▸ normalizeMessage_total.1 ⟨_, decoded⟩
    cases warning with
    | none =>
      -- the text spells an object that can be represented
      obtain ⟨root, hs, hroot, -⟩ := standard_of_accepted (ht ▸ decoded)
      rw [isBson_accepted hi ht (renameFields_standard hroot)
        (ht ▸ (accepted_of_spells hreturns hs.spells hroot).2) hn]
      refine and_congr_right fun _ => ⟨fun h => .inl ⟨root, ⟨hs.spells, hroot⟩, h⟩, ?_⟩
      rintro (⟨root', ⟨hs', hroot'⟩, h⟩ | ⟨hno, -⟩)
      · have hsame := (accepted_of_spells hreturns hs.spells hroot).1.symm.trans
          (accepted_of_spells hreturns hs' hroot').1
        rwa [Value.object.inj (Except.ok.inj hsame)]
      · exact absurd ⟨root, hs.spells, hroot⟩ hno
    | some warning =>
      obtain ⟨rfl, hwarning⟩ := normalizeMessage_warned (ht ▸ decoded)
      obtain rfl : n = controlEvent message [(str "raw_message", .str text)] (some warning) none := by
        rw [normalizeReceivedMessage, decoded] at hn
        exact (Except.ok.inj hn).symm
      have hno : ¬∃ root, Spells text (.object root) ∧ Standard root := by
        rintro ⟨root, hs, hroot⟩
        have haccepted := (accepted_of_spells hreturns hs hroot).2
        rw [← ht, decoded] at haccepted
        exact absurd (congrArg NormalizedMessage.warning (Except.ok.inj haccepted)) (Option.some_ne_none warning)
      have hraw : IsBson (.object [(str "raw_message", .str text)]) ↔ isUtf8 text = true :=
        @isBson_rawTextMessage text warning
      rw [isBson_controlEvent, hraw]
      simp only [optionUtf8, reduceCtorEq, false_implies, implies_true, Option.some.injEq, forall_eq', hwarning,
        true_and, hno, not_false_eq_true]
      refine and_congr_right fun _ => ⟨.inr, ?_⟩
      rintro (⟨root, hroot, -⟩ | h)
      · exact absurd ⟨root, hroot⟩ hno
      · exact h

/-! ## Writing -/

theorem giveBack_call {κ ε : Type*} [DecidableEq κ] (s : MultiMongo.Output κ ε) (d : MultiMongo.BufferedDocument κ ε)
    (e : MultiMongo.WriteError) : (s.giveBack d e).calls d.call = .raised e ∨
      (s.giveBack d e).calls d.call = .raised .budgetNegative := by
  rw [MultiMongo.Output.giveBack]
  dsimp only
  split
  · exact .inl (Function.update_self ..)
  · exact .inr (Function.update_self ..)

/-- An event that has a size is not refused for its values. -/
theorem tryWrite_call {κ ε : Type*} [DecidableEq κ] {cfg : MultiMongo.Settings} (s : MultiMongo.Output κ ε)
    (r : StorageRoute) (d : MultiMongo.BufferedDocument κ ε) (report : MultiMongo.Output.Callback) :
    (s.tryWrite cfg r d report).calls d.call ≠ .raised .serialization := by
  have hback : ∀ (t : MultiMongo.Output κ ε) e, e ≠ .serialization →
      (t.giveBack d e).calls d.call ≠ .raised .serialization := by
    intro t e he h
    rcases giveBack_call t d e with hc | hc
    · exact he (by simpa using hc.symm.trans h)
    · cases hc.symm.trans h
  have hset : ∀ (t : MultiMongo.Output κ ε) c, c ≠ .raised .serialization →
      (t.setCall d.call c).calls d.call ≠ .raised .serialization := by
    intro t c hc h
    rw [show (t.setCall d.call c).calls d.call = c from Function.update_self ..] at h
    exact hc h
  rw [MultiMongo.Output.tryWrite]
  split
  · rw [MultiMongo.Output.enqueue]
    dsimp only
    split
    · exact hback _ _ (by decide)
    · split
      · exact hset _ _ (by simp)
      · exact hback _ _ (by decide)
  · exact hset _ _ (by simp)
  · exact hset _ _ (by simp)

/-- `write` raises the serialisation error only where the event has no size. -/
theorem write_serialization {κ ε : Type*} [DecidableEq κ] {cfg : MultiMongo.Settings} {rd : MultiMongo.Reading ε}
    {s : MultiMongo.Output κ ε} {k : κ} {event : ε} {report : MultiMongo.Output.Callback}
    (h : (s.write cfg rd k event report).calls k = .raised .serialization) : rd.bsonSize event = none := by
  have hset : ∀ e, (s.setCall k (.raised e)).calls k = .raised e := fun e => Function.update_self ..
  rw [MultiMongo.Output.write] at h
  split at h
  · rw [hset] at h
    split at h <;> cases h
  split at h
  · rw [hset] at h
    cases h
  split at h
  · assumption
  split at h
  · rw [hset] at h
    cases h
  · exact absurd h (tryWrite_call s _ ⟨k, event, _⟩ report)

/-- A message with the text of an object that is not storable is kept as text. -/
def KeptAsText (message : ReceivedMessage) (event : Event) : Prop :=
  ∀ text root, message.payload = .text text → Spells text (.object root) → Standard root →
    ¬IsBson (.object (entriesOf root)) → event.lookup (str "data") = some (.object [(str "raw_message", .str text)])

/-- **When an event is storable.** The event of a message is in the domain of BSON, is never refused by `write` for its
values, and keeps a message with other values as text, exactly if the values of the message are in that domain. -/
theorem storable_iff (hi : indexStreamSpecs specs = .ok index) {rd : MultiMongo.Reading Event}
    (hbson : ∀ event, rd.bsonSize event = none ↔ ¬IsBson (.object event))
    (hn : normalizeReceivedMessage lim message index = .ok n) :
    (IsBson (.object n.event) ∧
      (∀ (κ : Type) [DecidableEq κ] cfg (s : MultiMongo.Output κ Event) k report,
        (s.write cfg rd k n.event report).calls k ≠ .raised .serialization) ∧
      KeptAsText message n.event) ↔ MetaBson message ∧ PayloadBson message index := by
  constructor
  · rintro ⟨hevent, -, -⟩
    exact (isBson_event hi hn).1 hevent
  · intro h
    have hevent := (isBson_event hi hn).2 h
    refine ⟨hevent, fun κ _ cfg s k report hraised => (hbson _).1 (write_serialization hraised) hevent, ?_⟩
    intro text root ht hs hroot hbad
    have hpayload := h.2
    rw [PayloadBson, ht] at hpayload
    rcases hpayload with ⟨root', ⟨hs', hroot'⟩, henv⟩ | ⟨hno, -⟩
    · have hreturns : ¬(WireMessage.text text).Exceeds lim :=
        ht ▸ normalizeMessage_total.1 (normalizeMessage_of_received hn)
      obtain ⟨hl, -⟩ := accepted_of_spells hreturns hs hroot
      obtain ⟨hl', decoded⟩ := accepted_of_spells hreturns hs' hroot'
      rw [Value.object.inj (Except.ok.inj (hl.symm.trans hl'))] at hbad
      obtain ⟨n', hn', hevent'⟩ : ∃ n', normalizeReceivedMessage lim message index = .ok n' ∧ _ :=
        normalizeReceivedMessage_decoded ht (ht ▸ decoded)
      obtain rfl := Except.ok.inj (hn.symm.trans hn')
      rw [EnvelopeBson] at henv
      rw [(renameFields_eq_ok.1 (renameFields_standard hroot')).1, readEnvelope_rename] at hevent'
      cases hr : readEnvelope message index (entriesOf root') with
      | collision =>
        simp only [hr] at hevent'
        obtain ⟨warning, streamName, rfl⟩ := hevent'
        exact controlEvent_data ..
      | market spec data =>
        rw [hr] at henv
        exact absurd henv hbad
      | control =>
        rw [hr] at henv
        exact absurd henv hbad
    · exact absurd ⟨root, hs, hroot⟩ hno

end

/-! ## A number too large for the store -/

/-- What `write` reads of an event. -/
def bsonReading : MultiMongo.Reading Event where
  bsonSize event := if IsBson (.object event) then some (Value.object event).bsonLength else none
  route := eventRoute

/-- A text message on the first connection of a group. -/
def spotMessage (text : String) : ReceivedMessage := ⟨.text (str text), str "spot_market", str "c1", 1, 1788783123460⟩

/-- An acknowledgement is storable. -/
theorem storable_acknowledgement :
    let message := spotMessage "\x7b\"result\":null,\"id\":1\x7d"
    let event := (controlEvent message [(str "result", .null), (str "id", .int 1)] none none).event
    IsBson (.object event) ∧
      (∀ (κ : Type) [DecidableEq κ] cfg (s : MultiMongo.Output κ Event) k report,
        (s.write cfg bsonReading k event report).calls k ≠ .raised .serialization) ∧
      KeptAsText message event := by
  intro message event
  have hi : indexStreamSpecs [] = .ok [] := rfl
  have hn : normalizeReceivedMessage ⟨1000, 4300⟩ message [] =
      .ok (controlEvent message [(str "result", .null), (str "id", .int 1)] none none) := by decide +kernel
  have hbson : ∀ event, bsonReading.bsonSize event = none ↔ ¬IsBson (.object event) := fun event => by
    simp [bsonReading]
  have hevent : IsBson (.object event) := by decide +kernel
  exact (storable_iff hi hbson hn).2 ((isBson_event hi hn).1 hevent)

/-- An integer of 65 bits is decoded, kept and refused by `write`. -/
theorem large_integer_not_storable : ∃ n,
    normalizeReceivedMessage ⟨1000, 4300⟩ (spotMessage "\x7b\"id\":9223372036854775808\x7d") [] = .ok n ∧
      ¬IsBson (.object n.event) ∧ ∀ cfg,
        ((MultiMongo.Output.opened : MultiMongo.Output ℕ Event).write cfg bsonReading 0 n.event .returns).calls 0 =
          .raised .serialization := by
  have hbad : ¬IsBson (.object (controlEvent (spotMessage "\x7b\"id\":9223372036854775808\x7d")
      [(str "id", .int 9223372036854775808)] none none).event) := by decide +kernel
  refine ⟨_, show _ = Except.ok (controlEvent _ [(str "id", .int 9223372036854775808)] none none) by decide +kernel,
    hbad, fun cfg => ?_⟩
  simp [MultiMongo.Output.write, MultiMongo.Output.opened, bsonReading, hbad, MultiMongo.Output.setCall]

end BinanceCollector
