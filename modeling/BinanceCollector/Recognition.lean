import BinanceCollector.Collector.Permissive
import BinanceCollector.Collector.Recovery
import BinanceCollector.Envelope

/-!
# What the clients recognise

Three answers the clients read off a message, each against what the message is: the response to a subscription request,
the data of a known stream, and the notice of a server shutdown. The first compares with `!=`, where a boolean equals an
integer; the other two decode a second time, without the hooks of `normalize_message`.

- `recognised_iff`: `parse_subscription_response`.
- `known_stream_iff`: `_is_known_stream` and the stored event.
- `shutdown_agrees_iff`: the two `_is_server_shutdown`.
-/

namespace BinanceCollector

open Text Json

variable {lim : Limits} {m : WireMessage} {payload : Event}

/-! ## Responses -/

/-- A `code` or a `msg` is there. -/
def HasDetail (payload : Event) : Prop :=
  (payload.lookup (str "code")).isSome ∨ (payload.lookup (str "msg")).isSome

/-- The message confirms the request. -/
def Confirms (lim : Limits) (requestId : ℤ) (m : WireMessage) : Prop :=
  ∃ payload, AcceptedAs lim m payload ∧ payload.lookup (str "id") = some (.int requestId) ∧
    payload.lookup (str "result") = some .null

/-- The message rejects the request. -/
def Rejects (lim : Limits) (requestId : ℤ) (m : WireMessage) : Prop :=
  ¬Confirms lim requestId m ∧
    ∃ payload, AcceptedAs lim m payload ∧ payload.lookup (str "id") = some (.int requestId) ∧ HasDetail payload

/-- The answer for the message is the right one. -/
structure Recognised (lim : Limits) (requestId : ℤ) (m : WireMessage) : Prop where
  success : parseSubscriptionResponse lim requestId m = .ok (some .success) ↔ Confirms lim requestId m
  error : (∃ detail, parseSubscriptionResponse lim requestId m = .ok (some (.error detail))) ↔ Rejects lim requestId m
  none : parseSubscriptionResponse lim requestId m = .ok none ↔ ¬Confirms lim requestId m ∧ ¬Rejects lim requestId m

/-- A boolean that Python takes for the integer, in the place of the `id` of a response. -/
def BooleanId (requestId : ℤ) (payload : Event) : Prop :=
  ∃ b : Bool, payload.lookup (str "id") = some (.bool b) ∧ (if b then 1 else 0) = requestId

theorem equalsInt_eq_true {n : ℤ} {v : Value} :
    equalsInt n v = true ↔ v = .int n ∨ ∃ b : Bool, v = .bool b ∧ (if b then 1 else 0) = n := by
  cases v <;> simp [equalsInt]

/-- Python takes the `id` for the integer. -/
def Matches (requestId : ℤ) (payload : Event) : Prop :=
  payload.lookup (str "id") = some (.int requestId) ∨ BooleanId requestId payload

theorem any_equalsInt {requestId : ℤ} : (payload.lookup (str "id")).any (equalsInt requestId) = true ↔
    Matches requestId payload := by
  rw [Matches, BooleanId, Option.any_eq_true]
  constructor
  · rintro ⟨v, hv, heq⟩
    rcases equalsInt_eq_true.1 heq with rfl | ⟨b, rfl, hb⟩
    · exact .inl hv
    · exact .inr ⟨b, hv, hb⟩
  · rintro (hv | ⟨b, hv, hb⟩)
    · exact ⟨_, hv, equalsInt_eq_true.2 (.inl rfl)⟩
    · exact ⟨_, hv, equalsInt_eq_true.2 (.inr ⟨b, rfl, hb⟩)⟩

/-- The fields of a response keep their names. -/
theorem lookup_response (payload : Event) : ∀ key ∈ [str "id", str "result", str "code", str "msg"],
    (Dict.rename (fieldName fieldNames) payload).lookup key = payload.lookup key := by
  have hold : ∀ key ∈ [str "id", str "result", str "code", str "msg"], key ∉ Dict.keys fieldNames := by decide
  have hnew : ∀ key ∈ [str "id", str "result", str "code", str "msg"], key ∉ fieldNames.map (·.2) := by decide
  exact fun key hkey => Dict.lookup_rename (fieldName_eq_iff (hold key hkey) (hnew key hkey))

/-- What is answered for an accepted object. -/
structure Answers (lim : Limits) (requestId : ℤ) (m : WireMessage) (payload : Event) : Prop where
  success : parseSubscriptionResponse lim requestId m = .ok (some .success) ↔
    Matches requestId payload ∧ payload.lookup (str "result") = some .null
  error : (∃ detail, parseSubscriptionResponse lim requestId m = .ok (some (.error detail))) ↔
    Matches requestId payload ∧ payload.lookup (str "result") ≠ some .null ∧ HasDetail payload
  none : parseSubscriptionResponse lim requestId m = .ok none ↔
    ¬(Matches requestId payload ∧ (payload.lookup (str "result") = some .null ∨ HasDetail payload))

theorem AcceptedAs.answers (h : AcceptedAs lim m payload) (requestId : ℤ) : Answers lim requestId m payload := by
  classical
  have hlookup := lookup_response payload
  have hparse : parseSubscriptionResponse lim requestId m = .ok (
      if ¬Matches requestId payload then none
      else if payload.lookup (str "result") = some .null then some .success
      else if HasDetail payload then some (.error (responseDetail (Dict.rename (fieldName fieldNames) payload)))
      else none) := by
    have hdetail : ((payload.lookup (str "code")).isSome || (payload.lookup (str "msg")).isSome) = true ↔
        HasDetail payload := by rw [Bool.or_eq_true, HasDetail]
    simp only [parseSubscriptionResponse, h.renamed]
    rw [hlookup _ (by simp), hlookup _ (by simp), hlookup _ (by simp), hlookup _ (by simp)]
    simp only [Bool.not_eq_true', ← Bool.not_eq_true, any_equalsInt, hdetail]
    by_cases hnull : payload.lookup (str "result") = some .null
    · simp only [hnull, if_true]
    · simp only [hnull, if_false]
  by_cases hid : Matches requestId payload
  · by_cases hnull : payload.lookup (str "result") = some .null
    · constructor <;> simp [hparse, hid, hnull]
    · by_cases hdetail : HasDetail payload
      · constructor <;> simp [hparse, hid, hnull, hdetail]
      · constructor <;> simp [hparse, hid, hnull, hdetail]
  · constructor <;> simp [hparse, hid]

/-- The integer and a boolean are not there at once. -/
theorem not_booleanId {requestId : ℤ} (h : payload.lookup (str "id") = some (.int requestId)) :
    ¬BooleanId requestId payload := by
  rintro ⟨b, hb, -⟩
  rw [h] at hb
  cases hb

/-- **When the answer is right.** The answer for a message is the right one exactly if the message meets no limit of the
decoder and is no response with a boolean that equals the integer as its `id`. -/
theorem recognised_iff (lim : Limits) (requestId : ℤ) (m : WireMessage) : Recognised lim requestId m ↔
    ¬m.Exceeds lim ∧ ¬∃ payload, AcceptedAs lim m payload ∧ BooleanId requestId payload ∧
      (payload.lookup (str "result") = some .null ∨ HasDetail payload) := by
  by_cases haccepted : ∃ payload, AcceptedAs lim m payload
  · obtain ⟨payload, h⟩ := haccepted
    have hreturns : ¬m.Exceeds lim := normalizeMessage_total.1 ⟨_, h.renamed⟩
    have hsome : ∀ P : Event → Prop, (∃ payload, AcceptedAs lim m payload ∧ P payload) ↔ P payload := fun P =>
      ⟨fun ⟨_, h', hp⟩ => h'.unique h ▸ hp, fun hp => ⟨payload, h, hp⟩⟩
    have ha := h.answers requestId
    have hconfirms : Confirms lim requestId m ↔ _ := hsome _
    have hrejects : Rejects lim requestId m ↔ _ := and_congr (not_congr hconfirms) (hsome _)
    have hexclusive : payload.lookup (str "id") = some (.int requestId) → ¬BooleanId requestId payload := not_booleanId
    rw [hsome]
    constructor
    · rintro ⟨hs, he, hn⟩
      rw [ha.success, hconfirms] at hs
      rw [ha.error, hrejects] at he
      refine ⟨hreturns, ?_⟩
      rintro ⟨hb, hanswer⟩
      have hmatches : Matches requestId payload := .inr hb
      by_cases hnull : payload.lookup (str "result") = some .null
      · exact hexclusive (hs.1 ⟨hmatches, hnull⟩).1 hb
      · exact hexclusive (he.1 ⟨hmatches, hnull, hanswer.resolve_left hnull⟩).2.1 hb
    · rintro ⟨-, hno⟩
      have hid : payload.lookup (str "result") = some .null ∨ HasDetail payload → Matches requestId payload →
          payload.lookup (str "id") = some (.int requestId) := fun hanswer hm =>
        hm.resolve_right fun hb => hno ⟨hb, hanswer⟩
      constructor
      · rw [ha.success, hconfirms]
        exact ⟨fun h => ⟨hid (.inl h.2) h.1, h.2⟩, fun h => ⟨.inl h.1, h.2⟩⟩
      · rw [ha.error, hrejects]
        exact ⟨fun h => ⟨fun hc => h.2.1 hc.2, hid (.inr h.2.2) h.1, h.2.2⟩,
          fun h => ⟨.inl h.2.1, fun hnull => h.1 ⟨h.2.1, hnull⟩, h.2.2⟩⟩
      · rw [ha.none, hrejects, hconfirms]
        constructor
        · intro hnot
          exact ⟨fun h => hnot ⟨.inl h.1, .inl h.2⟩, fun h => hnot ⟨.inl h.2.1, .inr h.2.2⟩⟩
        · rintro ⟨hnotConfirms, hnotRejects⟩ ⟨hm, hanswer⟩
          have hi := hid hanswer hm
          have hnull : payload.lookup (str "result") ≠ some .null := fun hnull => hnotConfirms ⟨hi, hnull⟩
          exact hnotRejects ⟨hnotConfirms, hi, hanswer.resolve_left hnull⟩
  · have hnever : ¬Confirms lim requestId m ∧ ¬Rejects lim requestId m :=
      ⟨fun ⟨payload, h, _⟩ => haccepted ⟨payload, h⟩, fun ⟨_, payload, h, _⟩ => haccepted ⟨payload, h⟩⟩
    have hno : ¬∃ payload, AcceptedAs lim m payload ∧ BooleanId requestId payload ∧
        (payload.lookup (str "result") = some .null ∨ HasDetail payload) :=
      fun ⟨payload, h, _⟩ => haccepted ⟨payload, h⟩
    rw [← normalizeMessage_total, and_iff_left hno]
    cases hn : normalizeMessage lim m with
    | error failure =>
      have hparse : parseSubscriptionResponse lim requestId m = .error failure := by rw [parseSubscriptionResponse, hn]
      refine iff_of_false (fun hr => ?_) (by rintro ⟨n, hn⟩; cases hn)
      have hnone := hr.none.2 hnever
      rw [hparse] at hnone
      cases hnone
    | ok n =>
      obtain ⟨event, warning⟩ := n
      cases warning with
      | none => exact absurd ((acceptedAs_of_accepted hn).imp fun _ h => h.1) haccepted
      | some warning =>
        have hparse : parseSubscriptionResponse lim requestId m = .ok none := by rw [parseSubscriptionResponse, hn]
        refine iff_of_true ⟨?_, ?_, ?_⟩ ⟨_, rfl⟩
        · rw [hparse]
          exact iff_of_false (by simp) hnever.1
        · rw [hparse]
          exact iff_of_false (by simp) hnever.2
        · exact iff_of_true hparse hnever

/-- A `true` in the place of the number. -/
theorem confirmed_by_true : ¬Recognised ⟨1000, 4300⟩ subscriptionRequestId
    (.text (str "\x7b\"result\":null,\"id\":true\x7d")) := by
  intro hr
  have hl : loads strictHooks ⟨1000, 4300⟩ (str "\x7b\"result\":null,\"id\":true\x7d") =
      .ok (.object [(str "result", .null), (str "id", .bool true)]) := by decide +kernel
  have hn : normalizeMessage ⟨1000, 4300⟩ (.text (str "\x7b\"result\":null,\"id\":true\x7d")) =
      .ok ⟨[(str "result", .null), (str "id", .bool true)], none⟩ := by decide +kernel
  have h : AcceptedAs _ _ _ := ⟨⟨_, rfl, hl⟩, _, hn⟩
  obtain ⟨payload, h', hid, -⟩ :=
    hr.success.1 ((h.answers subscriptionRequestId).success.2 ⟨.inr ⟨true, rfl, rfl⟩, rfl⟩)
  rw [h'.unique h] at hid
  cases hid

/-! ## Stream messages -/

section

variable {root : List (Str × Tree)}

theorem lookup_standardised (root : List (Str × Tree)) {key : Str}
    (hkey : ∀ name, fieldName fieldNames name = key ↔ name = key) :
    (standardised root).lookup key = (root.lookup key).map valueOf := by
  have heq : standardised root = Dict.rename (fieldName fieldNames) (entriesOf root) := by
    rw [standardised, entriesOf_eq_map, Dict.rename, List.map_map]
    rfl
  rw [heq, Dict.lookup_rename hkey, entriesOf_eq_map, Dict.lookup_map_snd]

theorem valueOf_eq_str {t : Tree} {s : Str} : valueOf t = .str s ↔ t = .string s := by
  cases t <;> simp [valueOf]

theorem valueOf_eq_object {t : Tree} {d : List (Str × Value)} :
    valueOf t = .object d ↔ ∃ members, t = .object members ∧ d = entriesOf members := by
  cases t <;> simp [valueOf, eq_comm]

/-- In an object that can be represented the last member is the only one. -/
theorem Standard.lastMember (h : Standard root) (key : Str) : lastMember root key = root.lookup key :=
  Dict.lookup_reverse (lossless_object.1 h.lossless).1 key

/-- The object is a message of this stream, as `json.loads` reads it. -/
structure OfStream (root : List (Str × Tree)) (spec : StreamSpec) (data : List (Str × Tree)) : Prop where
  stream : BinanceCollector.lastMember root (str "stream") = some (.string spec.streamName)
  data : BinanceCollector.lastMember root (str "data") = some (.object data)

/-- A message of this stream that can be represented: the object, and its data under the names of the stream. -/
structure StandardOfStream (root : List (Str × Tree)) (spec : StreamSpec) (data : List (Str × Tree)) : Prop where
  standard : Standard root
  distinct : ∀ p ∈ fieldNamesByStream spec.streamType, p.1 ∈ Dict.keys data → p.2 ∉ Dict.keys data

/-- `meta.stream_type` is not that of a control event. -/
def IsMarket (event : Event) : Prop := ∃ t, streamTypeOf event = some t ∧ t ≠ .str (str "control")

theorem not_isMarket_controlEvent (message : ReceivedMessage) (data : Event) (warning streamName : Option Str) :
    ¬IsMarket (controlEvent message data warning streamName).event := by
  rintro ⟨t, ht, hne⟩
  rw [streamTypeOf_controlEvent] at ht
  exact hne (Option.some.inj ht).symm

theorem isMarket_marketEvent (message : ReceivedMessage) (spec : StreamSpec) (data transport : Event) :
    IsMarket (marketEvent message spec data transport).event :=
  ⟨_, streamTypeOf_marketEvent .., fun h => streamType_ne_control spec.streamType (Value.str.inj h)⟩

variable {specs : List StreamSpec} {index : StreamIndex} {message : ReceivedMessage}

/-- **What is stored as a market event.** -/
theorem normalize_market_iff (hspecs : ∀ spec ∈ specs, spec.connectionGroup = message.connectionGroup)
    (hindex : indexStreamSpecs specs = .ok index) :
    (∃ n, normalizeReceivedMessage lim message index = .ok n ∧ IsMarket n.event) ↔
      ¬message.payload.Exceeds lim ∧ ∃ text root spec data, message.payload = .text text ∧
        Spells text (.object root) ∧ spec ∈ specs ∧ OfStream root spec data ∧ StandardOfStream root spec data := by
  have hfinds := indexStreamSpecs_finds hindex
  constructor
  · rintro ⟨n, hn, hmarket⟩
    cases normalized_of_ok hn with
    | warned | bare | unknownStream | collision => exact absurd hmarket (not_isMarket_controlEvent _ _ _ _)
    | market decoded enveloped known renamed =>
      rename_i envelope payload data streamName spec
      have hno := normalizeMessage_total.1 ⟨_, decoded⟩
      obtain ⟨text, -, htext, -, -⟩ := normalizeMessage_accepted decoded
      rw [htext] at decoded
      obtain ⟨root, hs, hstandard, rfl⟩ := standard_of_accepted decoded
      obtain ⟨hmem, -, rfl⟩ := (hfinds _ _ _).1 known
      have hstream := enveloped.stream
      have hdata := enveloped.data
      rw [lookup_standardised root fieldName_stream] at hstream
      rw [lookup_standardised root fieldName_data] at hdata
      obtain ⟨t, ht, htv⟩ := Option.map_eq_some_iff.1 hstream
      obtain rfl := valueOf_eq_str.1 htv
      obtain ⟨u, hu, huv⟩ := Option.map_eq_some_iff.1 hdata
      obtain ⟨members, rfl, rfl⟩ := valueOf_eq_object.1 huv
      have hlossless := (lossless_object.1 hstandard.lossless).2 _ (Dict.mem_of_lookup hu)
      have hnodup := (renameFields_eq_ok.1 renamed).2
      rw [keys_entriesOf] at hnodup
      refine ⟨hno, text, root, spec, members, htext, hs.spells, hmem, ⟨?_, ?_⟩, hstandard, ?_⟩
      · rw [hstandard.lastMember, ht]
      · rw [hstandard.lastMember, hu]
      · exact ((fieldMap_fieldNamesByStream spec.streamType).nodup_iff (lossless_object.1 hlossless).1).1 hnodup
  · rintro ⟨hno, text, root, spec, data, htext, hs, hmem, hstream, hstandard⟩
    have hlookup := hstream.stream
    have hdata := hstream.data
    rw [hstandard.standard.lastMember] at hlookup hdata
    have hlossless := (lossless_object.1 hstandard.standard.lossless).2 _ (Dict.mem_of_lookup hdata)
    have decoded : normalizeMessage lim message.payload = .ok ⟨standardised root, none⟩ :=
      htext ▸ (accepted_of_spells (htext ▸ hno) hs hstandard.standard).2
    have enveloped : Enveloped (standardised root) spec.streamName (entriesOf data) := by
      constructor
      · rw [lookup_standardised root fieldName_stream, hlookup]
        rfl
      · rw [lookup_standardised root fieldName_data, hdata]
        rfl
    have known : index.lookup (message.connectionGroup, spec.streamName) = some spec :=
      (hfinds _ _ _).2 ⟨hmem, hspecs spec hmem, rfl⟩
    have hnodup := ((fieldMap_fieldNamesByStream spec.streamType).nodup_iff (lossless_object.1 hlossless).1).2
      hstandard.distinct
    rw [← keys_entriesOf] at hnodup
    exact ⟨_, normalizeReceivedMessage_market decoded enveloped known (renameFields_eq_ok.2 ⟨rfl, hnodup⟩),
      isMarket_marketEvent ..⟩

/-- The text of a message of a stream is not read in two ways. -/
theorem OfStream.standard {text : Str} {root' : List (Str × Tree)} {spec spec' : StreamSpec}
    {data data' : List (Str × Tree)} (hindex : indexStreamSpecs specs = .ok index)
    (hgroup : spec.connectionGroup = spec'.connectionGroup) (hs : Spells text (.object root))
    (hs' : Spells text (.object root')) (hspec : spec ∈ specs) (hspec' : spec' ∈ specs)
    (hstream : OfStream root spec data) (hstream' : OfStream root' spec' data')
    (h : StandardOfStream root' spec' data') : StandardOfStream root spec data := by
  have hstandard := h.standard.of_spells hs' hs
  have hvalues : ∀ key, (lastMember root key).map valueOf = (lastMember root' key).map valueOf := by
    intro key
    rw [hstandard.lastMember, h.standard.lastMember, ← Dict.lookup_map_snd, ← Dict.lookup_map_snd, ← entriesOf_eq_map,
      ← entriesOf_eq_map, entriesOf_unique hs hs']
  have hname := hvalues (str "stream")
  have hentries := hvalues (str "data")
  simp only [hstream.stream, hstream'.stream, Option.map_some, Option.some.injEq, valueOf, Value.str.injEq] at hname
  simp only [hstream.data, hstream'.data, Option.map_some, Option.some.injEq, valueOf, Value.object.injEq] at hentries
  have hfound := (indexStreamSpecs_finds hindex _ _ spec).2 ⟨hspec, hgroup, hname⟩
  rw [(indexStreamSpecs_finds hindex _ _ spec').2 ⟨hspec', rfl, rfl⟩] at hfound
  obtain rfl := Option.some.inj hfound
  refine ⟨hstandard, ?_⟩
  rw [← keys_entriesOf, hentries, keys_entriesOf]
  exact h.distinct

theorem isKnownStream_specs_iff : isKnownStream lim (specs.map StreamSpec.streamName) m = .ok true ↔
    ¬m.ExceedsPlain lim ∧ ∃ text root spec data, m = .text text ∧ Spells text (.object root) ∧ spec ∈ specs ∧
      OfStream root spec data := by
  rw [isKnownStream_iff]
  refine and_congr_right fun _ => ?_
  constructor
  · rintro ⟨text, root, stream, data, hm, hs, hstream, hmem, hdata⟩
    obtain ⟨spec, hspec, rfl⟩ := List.mem_map.1 hmem
    exact ⟨text, root, spec, data, hm, hs, hspec, hstream, hdata⟩
  · rintro ⟨text, root, spec, data, hm, hs, hspec, hstream⟩
    exact ⟨text, root, _, data, hm, hs, hstream.stream, List.mem_map_of_mem hspec, hstream.data⟩

/-- **When a known stream is a market event.** For the subscriptions of a group, a message of the group is taken for
data of a known stream exactly if it is stored as a market event, for exactly the messages where, if `json.loads` reads
them as an object of a stream of the group, the decoder without hooks meets no limit if and only if the one with hooks
meets none and the object can be represented. -/
theorem known_stream_iff (lim plain : Limits) {group : Str} (hspecs : ∀ spec ∈ specs, spec.connectionGroup = group)
    (hindex : indexStreamSpecs specs = .ok index) (hmessage : message.connectionGroup = group) :
    (isKnownStream plain (specs.map StreamSpec.streamName) message.payload = .ok true ↔
      ∃ n, normalizeReceivedMessage lim message index = .ok n ∧ IsMarket n.event) ↔
    ∀ text root spec data, message.payload = .text text → Spells text (.object root) → spec ∈ specs →
      OfStream root spec data →
      (¬message.payload.ExceedsPlain plain ↔ ¬message.payload.Exceeds lim ∧ StandardOfStream root spec data) := by
  subst hmessage
  rw [isKnownStream_specs_iff, normalize_market_iff hspecs hindex]
  constructor
  · intro h text root spec data htext hs hspec hstream
    constructor
    · intro hplain
      obtain ⟨hno, text', root', spec', data', htext', hs', hspec', hstream', hstandard'⟩ :=
        h.1 ⟨hplain, text, root, spec, data, htext, hs, hspec, hstream⟩
      obtain rfl := WireMessage.text.inj (htext.symm.trans htext')
      exact ⟨hno, hstream.standard hindex ((hspecs spec hspec).trans (hspecs spec' hspec').symm) hs hs' hspec hspec'
        hstream' hstandard'⟩
    · rintro ⟨hno, hstandard⟩
      exact (h.2 ⟨hno, text, root, spec, data, htext, hs, hspec, hstream, hstandard⟩).1
  · intro h
    constructor
    · rintro ⟨hplain, text, root, spec, data, htext, hs, hspec, hstream⟩
      obtain ⟨hno, hstandard⟩ := (h text root spec data htext hs hspec hstream).1 hplain
      exact ⟨hno, text, root, spec, data, htext, hs, hspec, hstream, hstandard⟩
    · rintro ⟨hno, text, root, spec, data, htext, hs, hspec, hstream, hstandard⟩
      exact ⟨(h text root spec data htext hs hspec hstream).2 ⟨hno, hstandard⟩, text, root, spec, data, htext, hs,
        hspec, hstream⟩

theorem known_stream_integer :
    isKnownStream ⟨1001, 4300⟩ ([btcTrades].map StreamSpec.streamName) (.text (tradeBeside "5")) = .ok true ∧
      ∀ root data, Spells (tradeBeside "5") (.object root) → OfStream root btcTrades data →
        StandardOfStream root btcTrades data := by
  have hknown : isKnownStream ⟨1001, 4300⟩ ([btcTrades].map StreamSpec.streamName) (.text (tradeBeside "5")) =
      .ok true := by
    decide +kernel
  have decoded : normalizeMessage ⟨1000, 4300⟩ (.text (tradeBeside "5")) = .ok
      ⟨[(str "stream", .str (str "btcusdt@aggTrade")), (str "data", .object [(str "p", .str (str "1"))]),
        (str "x", .int 5)], none⟩ := by decide +kernel
  have hmarket : normalizeReceivedMessage ⟨1000, 4300⟩ (receivedText (tradeBeside "5")) [(btcTrades.key, btcTrades)] =
      .ok _ := normalizeReceivedMessage_market decoded ⟨rfl, rfl⟩ rfl rfl
  refine ⟨hknown, fun root data hs hstream => ?_⟩
  have hstored : ∃ n, normalizeReceivedMessage ⟨1000, 4300⟩ (receivedText (tradeBeside "5"))
      [(btcTrades.key, btcTrades)] = .ok n ∧ IsMarket n.event := ⟨_, hmarket, isMarket_marketEvent ..⟩
  have hspecs : ∀ spec ∈ [btcTrades], spec.connectionGroup = str "spot_market" := List.forall_mem_singleton.2 rfl
  have hindex : indexStreamSpecs [btcTrades] = .ok [(btcTrades.key, btcTrades)] := rfl
  have hgroup : (receivedText (tradeBeside "5")).connectionGroup = str "spot_market" := rfl
  have hplain := (isKnownStream_iff.1 hknown).1
  exact ((known_stream_iff ⟨1000, 4300⟩ ⟨1001, 4300⟩ hspecs hindex hgroup).1 (iff_of_true hknown hstored) _ root
    btcTrades data rfl hs List.mem_cons_self hstream |>.1 hplain).2

/-- A decimal number beside the data. -/
theorem known_stream_decimal : ∃ index, indexStreamSpecs [btcTrades] = .ok index ∧
    ¬(isKnownStream ⟨1000, 4300⟩ ([btcTrades].map StreamSpec.streamName) (.text (tradeBeside "0.5")) = .ok true ↔
      ∃ n, normalizeReceivedMessage ⟨1000, 4300⟩ (receivedText (tradeBeside "0.5")) index = .ok n ∧
        IsMarket n.event) := by
  refine ⟨_, rfl, fun h => ?_⟩
  have decoded : normalizeMessage ⟨1000, 4300⟩ (.text (tradeBeside "0.5")) =
      .ok ⟨[(str "raw_message", .str (tradeBeside "0.5"))], some (str "unsupported_number")⟩ := by decide +kernel
  obtain ⟨n, hn, hmarket⟩ := h.1 (by decide +kernel)
  rw [normalizeReceivedMessage, show (receivedText (tradeBeside "0.5")).payload = .text (tradeBeside "0.5") from rfl,
    decoded] at hn
  rw [← Except.ok.inj hn] at hmarket
  exact not_isMarket_controlEvent _ _ _ _ hmarket

end

/-! ## Server notices -/

/-- The message is stored as a decoded object whose own field `e` is the notice. -/
def StoredNotice (lim : Limits) (m : WireMessage) : Prop :=
  ∃ payload, AcceptedAs lim m payload ∧ payload.lookup (str "e") = some (.str (str "serverShutdown"))

/-- Both clients answer alike, and `True` for a stored notice only. -/
structure ShutdownAgrees (lim plain : Limits) (m : WireMessage) : Prop where
  same : ∃ answer, isServerShutdown plain m = .ok answer ∧ legacyIsServerShutdown lim m = .ok answer
  stored : isServerShutdown plain m = .ok true ∨ legacyIsServerShutdown lim m = .ok true → StoredNotice lim m

theorem legacyIsServerShutdown_total : (∃ answer, legacyIsServerShutdown lim m = .ok answer) ↔ ¬m.Exceeds lim := by
  rw [← normalizeMessage_total]
  cases m with
  | binary bytes => exact ⟨fun _ => ⟨_, rfl⟩, fun _ => ⟨_, rfl⟩⟩
  | text text =>
    rw [legacyIsServerShutdown]
    cases hn : normalizeMessage lim (.text text) with
    | error failure => exact ⟨fun ⟨_, h⟩ => (by cases h), fun ⟨_, h⟩ => (by cases h)⟩
    | ok n =>
      obtain ⟨event, warning⟩ := n
      cases warning <;> exact ⟨fun _ => ⟨_, rfl⟩, fun _ => ⟨_, rfl⟩⟩

/-- What is found under a new name was there under the old name, or under the new one already. -/
theorem lookup_newName {root : List (Str × Tree)} (h : Standard root) {p : Str × Str} (hp : p ∈ fieldNames)
    {v : Value} :
    (standardised root).lookup p.2 = some v ↔
      ∃ t, valueOf t = v ∧ (lastMember root p.1 = some t ∨ lastMember root p.2 = some t) := by
  have hn := (lossless_object.1 h.lossless).1
  have hnodup : (Dict.keys (standardised root)).Nodup := by
    have hmap := (fieldMap_fieldNames.nodup_iff hn).2 h.distinct
    simpa only [standardised, Dict.keys, List.map_map, Function.comp_def] using hmap
  rw [Dict.lookup_eq_some_iff hnodup, standardised, List.mem_map, h.lastMember, h.lastMember]
  simp only [Dict.lookup_eq_some_iff hn, Prod.mk.injEq, fieldMap_fieldNames.eq_iff hp]
  constructor
  · rintro ⟨⟨name, t⟩, hmem, rfl | rfl, rfl⟩
    · exact ⟨t, rfl, .inl hmem⟩
    · exact ⟨t, rfl, .inr hmem⟩
  · rintro ⟨t, rfl, hmem | hmem⟩
    · exact ⟨_, hmem, .inl rfl, rfl⟩
    · exact ⟨_, hmem, .inr rfl, rfl⟩

/-- **`_is_server_shutdown` of the legacy client**: no limit is met, and the message is an object that can be
represented, with `e` or `event_type`. -/
theorem legacyIsServerShutdown_iff : legacyIsServerShutdown lim m = .ok true ↔ ¬m.Exceeds lim ∧
    ∃ text root, m = .text text ∧ Spells text (.object root) ∧ Standard root ∧
      (lastMember root (str "e") = some (.string (str "serverShutdown")) ∨
        lastMember root (str "event_type") = some (.string (str "serverShutdown"))) := by
  have hnew : ∀ {root}, Standard root →
      (((standardised root).lookup (str "event_type")).any (equalsStr (str "serverShutdown")) = true ↔
        lastMember root (str "e") = some (.string (str "serverShutdown")) ∨
          lastMember root (str "event_type") = some (.string (str "serverShutdown"))) := by
    intro root h
    rw [any_equalsStr_iff, lookup_newName h (p := (str "e", str "event_type")) (by decide)]
    simp only [valueOf_eq_str, exists_eq_left]
  constructor
  · intro h
    refine ⟨legacyIsServerShutdown_total.1 ⟨_, h⟩, ?_⟩
    cases m with
    | binary bytes => cases h
    | text text =>
      rw [legacyIsServerShutdown] at h
      split at h
      · cases h
      · cases h
      · rename_i event hn
        obtain ⟨root, hs, hstandard, rfl⟩ := standard_of_accepted hn
        exact ⟨text, root, rfl, hs.spells, hstandard, (hnew hstandard).1 (Except.ok.inj h)⟩
  · rintro ⟨hno, text, root, rfl, hs, hstandard, hfield⟩
    rw [legacyIsServerShutdown, (accepted_of_spells hno hs hstandard).2]
    exact congrArg Except.ok ((hnew hstandard).2 hfield)

theorem storedNotice_of_standard {text : Str} {root : List (Str × Tree)} (hno : ¬(WireMessage.text text).Exceeds lim)
    (hs : Spells text (.object root)) (h : Standard root)
    (he : lastMember root (str "e") = some (.string (str "serverShutdown"))) : StoredNotice lim (.text text) := by
  obtain ⟨hl, hn⟩ := accepted_of_spells hno hs h
  refine ⟨entriesOf root, ⟨⟨text, rfl, hl⟩, _, hn⟩, ?_⟩
  rw [entriesOf_eq_map, Dict.lookup_map_snd, ← h.lastMember, he]
  rfl

/-- **When the two clients agree.** For a message without `data`, both clients give the same answer, `True` for a stored
notice only, exactly if the message meets no limit of either decoder, can be represented if its last field `e` is the
notice, and has no `event_type` that is the notice if it can be represented. -/
theorem shutdown_agrees_iff {plain : Limits} (hdata : ¬HasData m) : ShutdownAgrees lim plain m ↔
    ¬m.ExceedsPlain plain ∧ ¬m.Exceeds lim ∧ ∀ text root, m = .text text → Spells text (.object root) →
      (lastMember root (str "e") = some (.string (str "serverShutdown")) → Standard root) ∧
      (Standard root → lastMember root (str "event_type") ≠ some (.string (str "serverShutdown"))) := by
  have hmulti : isServerShutdown plain m = .ok true ↔ _ := isServerShutdown_iff hdata
  have hlegacy : legacyIsServerShutdown lim m = .ok true ↔ _ := legacyIsServerShutdown_iff
  constructor
  · rintro ⟨⟨answer, hanswer, hlegacyAnswer⟩, hstored⟩
    have hplain := isServerShutdown_total.1 ⟨answer, hanswer⟩
    have hno := legacyIsServerShutdown_total.1 ⟨answer, hlegacyAnswer⟩
    refine ⟨hplain, hno, fun text root hm hs => ⟨fun he => ?_, fun hstandard htype => ?_⟩⟩
    · have htrue := hmulti.2 ⟨hplain, text, root, hm, hs, he⟩
      rw [hanswer] at htrue
      rw [Except.ok.inj htrue] at hlegacyAnswer
      obtain ⟨-, text', root', hm', hs', hstandard, -⟩ := hlegacy.1 hlegacyAnswer
      obtain rfl := WireMessage.text.inj (hm.symm.trans hm')
      exact hstandard.of_spells hs' hs
    · have htrue := hlegacy.2 ⟨hno, text, root, hm, hs, hstandard, .inr htype⟩
      rw [hlegacyAnswer] at htrue
      rw [Except.ok.inj htrue] at hanswer
      obtain ⟨-, text', root', hm', hs', he⟩ := hmulti.1 hanswer
      obtain rfl := WireMessage.text.inj (hm.symm.trans hm')
      have hold := mem_keys_of_lastMember he
      rw [keys_unique hs' hs] at hold
      exact hstandard.distinct (str "e", str "event_type") (by decide) hold (mem_keys_of_lastMember htype)
  · rintro ⟨hplain, hno, hall⟩
    have hnotices : isServerShutdown plain m = .ok true ↔ legacyIsServerShutdown lim m = .ok true := by
      rw [hmulti, hlegacy, and_iff_right hplain, and_iff_right hno]
      constructor
      · rintro ⟨text, root, hm, hs, he⟩
        exact ⟨text, root, hm, hs, (hall text root hm hs).1 he, .inl he⟩
      · rintro ⟨text, root, hm, hs, hstandard, he | htype⟩
        · exact ⟨text, root, hm, hs, he⟩
        · exact absurd htype ((hall text root hm hs).2 hstandard)
    obtain ⟨answer, hanswer⟩ := isServerShutdown_total.2 hplain
    obtain ⟨answer', hanswer'⟩ := legacyIsServerShutdown_total.2 hno
    refine ⟨⟨answer, hanswer, ?_⟩, fun h => ?_⟩
    · rw [hanswer, hanswer'] at hnotices
      rw [hanswer']
      cases answer <;> cases answer' <;> simp at hnotices ⊢
    · obtain ⟨-, text, root, rfl, hs, he⟩ := hmulti.1 (h.elim id hnotices.2)
      exact storedNotice_of_standard hno hs ((hall text root rfl hs).1 he) he

/-- A notice with this event time. -/
def noticeAt (time : String) : Str := str "\x7b\"e\":\"serverShutdown\",\"E\":" ++ str time ++ str "\x7d"

theorem shutdown_agrees_integer : ShutdownAgrees ⟨1000, 4300⟩ ⟨1001, 4300⟩ (.text (noticeAt "1")) ∧
    ¬(WireMessage.text (noticeAt "1")).ExceedsPlain ⟨1001, 4300⟩ := by
  have hl : loads strictHooks ⟨1000, 4300⟩ (noticeAt "1") =
      .ok (.object [(str "e", .str (str "serverShutdown")), (str "E", .int 1)]) := by decide +kernel
  have hn : normalizeMessage ⟨1000, 4300⟩ (.text (noticeAt "1")) =
      .ok ⟨[(str "event_type", .str (str "serverShutdown")), (str "event_time", .int 1)], none⟩ := by decide +kernel
  have hd : decodeObject ⟨1001, 4300⟩ (.text (noticeAt "1")) =
      .ok (some [(str "e", .str (str "serverShutdown")), (str "E", .int 1)]) := by decide +kernel
  have hagrees : ShutdownAgrees ⟨1000, 4300⟩ ⟨1001, 4300⟩ (.text (noticeAt "1")) :=
    ⟨⟨true, by decide +kernel, by decide +kernel⟩, fun _ => ⟨_, ⟨⟨_, rfl, hl⟩, _, hn⟩, rfl⟩⟩
  exact ⟨hagrees, ((shutdown_agrees_iff (not_hasData hd rfl)).1 hagrees).1⟩

/-- The multi-stream client reconnects for a notice with a decimal number, which is stored as text. -/
theorem shutdown_decimal :
    ¬HasData (.text (noticeAt "1.5")) ∧ ¬ShutdownAgrees ⟨1000, 4300⟩ ⟨1000, 4300⟩ (.text (noticeAt "1.5")) := by
  have hd : decodeObject ⟨1000, 4300⟩ (.text (noticeAt "1.5")) =
      .ok (some [(str "e", .str (str "serverShutdown")), (str "E", .float (str "1.5"))]) := by decide +kernel
  have htrue : isServerShutdown ⟨1000, 4300⟩ (.text (noticeAt "1.5")) = .ok true := by rw [isServerShutdown, hd]; rfl
  have hfalse : legacyIsServerShutdown ⟨1000, 4300⟩ (.text (noticeAt "1.5")) = .ok false := by decide +kernel
  refine ⟨not_hasData hd rfl, ?_⟩
  rintro ⟨⟨answer, hanswer, hlegacy⟩, -⟩
  rw [htrue] at hanswer
  rw [hfalse, ← Except.ok.inj hanswer] at hlegacy
  cases hlegacy

end BinanceCollector
