import BinanceCollector.Collector.Recovery
import BinanceCollector.Envelope

/-!
# What a v2 event tells about the message

Two received messages whose v2 events are equal as dictionaries were received at the same time, with the same number, on
the same connection of the same group, and are the same or decode to equal objects, unless both are renamed and one has a
name of the map where the other has the new name. A message that only looks like the wrapper of a raw one is no exception
here: `meta` tells.

- `SameEvent.lookup`: equal dictionaries have equal values under the same keys.
- `Told`: what `meta` has of the message, and what the rest of the event has of it.
- `received_determined`: the theorem.
-/

namespace BinanceCollector

open Text Json

/-! ## Equal dictionaries -/

/-- The entries of two dictionaries with the same order, entry by entry. -/
def SameEntry (p q : Str × Value) : Prop := p.1 = q.1 ∧ SameValue p.2 q.2

theorem sameMembers_iff {ms ns : Event} : SameMembers ms ns ↔ List.Forall₂ SameEntry ms ns := by
  constructor
  · intro h
    induction ms generalizing ns with
    | nil => cases h; exact .nil
    | cons p ms ih =>
      cases h with
      | cons hv h => exact .cons ⟨rfl, hv⟩ (ih h)
  · intro h
    induction h with
    | nil => exact .nil
    | @cons p q ms ns hpq _ ih =>
      obtain ⟨k, v⟩ := p
      obtain ⟨k', v'⟩ := q
      obtain ⟨rfl, hv⟩ := hpq
      exact .cons hv ih

/-- Both dictionaries may be reordered. -/
theorem SameEvent.of_perms {d e e' d' : Event} (h : d.Perm e) (hs : SameMembers e e') (h' : e'.Perm d') :
    SameEvent d d' := by
  have hcomp : Relation.Comp (List.Forall₂ SameEntry) List.Perm e d' := ⟨e', sameMembers_iff.1 hs, h'⟩
  rw [List.forall₂_comp_perm_eq_perm_comp_forall₂] at hcomp
  obtain ⟨f, hf, hf'⟩ := hcomp
  exact .object (h.trans hf) (sameMembers_iff.2 hf')

mutual

theorem SameValue.refl : ∀ v : Value, SameValue v v
  | .null => .null
  | .bool b => .bool b
  | .int n => .int n
  | .float literal => .float literal
  | .str s => .str s
  | .array vs => .array (SameItems.refl vs)
  | .object ms => .object (.refl ms) (SameMembers.refl ms)

theorem SameItems.refl : ∀ vs : List Value, SameItems vs vs
  | [] => .nil
  | v :: vs => .cons (SameValue.refl v) (SameItems.refl vs)

theorem SameMembers.refl : ∀ ms : Event, SameMembers ms ms
  | [] => .nil
  | (_, v) :: ms => .cons (SameValue.refl v) (SameMembers.refl ms)

end

theorem SameMembers.lookup {ms ns : Event} (h : SameMembers ms ns) (k : Str) :
    Option.Rel SameValue (ms.lookup k) (ns.lookup k) := by
  rw [sameMembers_iff] at h
  induction h with
  | nil => exact .none
  | @cons p q ms ns hpq _ ih =>
    rw [List.lookup_cons, List.lookup_cons, hpq.1]
    split
    · exact .some hpq.2
    · exact ih

/-- **Equal dictionaries have equal values under the same keys.** -/
theorem SameEvent.lookup {d d' : Event} (hn : (Dict.keys d).Nodup) (h : SameEvent d d') (k : Str) :
    Option.Rel SameValue (d.lookup k) (d'.lookup k) := by
  cases h with
  | @object _ e _ hperm hs =>
    have hn' : (Dict.keys e).Nodup := ((hperm.map (·.1)).nodup_iff).1 hn
    have heq : d.lookup k = e.lookup k := by
      refine Option.ext fun v => ?_
      rw [Dict.lookup_eq_some_iff hn, Dict.lookup_eq_some_iff hn', hperm.mem_iff]
    rw [heq]
    exact hs.lookup k

/-- Under a key that has a text in both, it is the same text. -/
theorem SameEvent.text {d d' : Event} (hn : (Dict.keys d).Nodup) (h : SameEvent d d') {k s s' : Str}
    (hs : d.lookup k = some (.str s)) (hs' : d'.lookup k = some (.str s')) : s = s' := by
  have hrel := h.lookup hn k
  rw [hs, hs'] at hrel
  cases hrel with
  | some hv => cases hv; rfl

theorem SameEvent.int {d d' : Event} (hn : (Dict.keys d).Nodup) (h : SameEvent d d') {k : Str} {i i' : ℤ}
    (hi : d.lookup k = some (.int i)) (hi' : d'.lookup k = some (.int i')) : i = i' := by
  have hrel := h.lookup hn k
  rw [hi, hi'] at hrel
  cases hrel with
  | some hv => cases hv; rfl

theorem SameEvent.object {d d' : Event} (hn : (Dict.keys d).Nodup) (h : SameEvent d d') {k : Str} {e e' : Event}
    (he : d.lookup k = some (.object e)) (he' : d'.lookup k = some (.object e')) : SameEvent e e' := by
  have hrel := h.lookup hn k
  rw [he, he'] at hrel
  cases hrel with
  | some hv => exact hv

/-- A text is there in both or in neither. -/
theorem SameEvent.text? {d d' : Event} (hn : (Dict.keys d).Nodup) (h : SameEvent d d') {k : Str} {s s' : Option Str}
    (hs : d.lookup k = s.map .str) (hs' : d'.lookup k = s'.map .str) : s = s' := by
  have hrel := h.lookup hn k
  rw [hs, hs'] at hrel
  cases s with
  | none => cases s' with
    | none => rfl
    | some t => cases hrel
  | some s => cases s' with
    | none => cases hrel
    | some t =>
      cases hrel with
      | some hv => cases hv; rfl

/-! ## What `meta` tells -/

/-- What `meta` has of a message, whatever kind of event it is. -/
structure Told (message : ReceivedMessage) (event metadata : Event) : Prop where
  keys : (Dict.keys event).Nodup
  metaKeys : (Dict.keys metadata).Nodup
  found : event.lookup (str "meta") = some (.object metadata)
  group : metadata.lookup (str "connection_group") = some (.str message.connectionGroup)
  connection : metadata.lookup (str "connection_id") = some (.str message.connectionId)
  sequence : metadata.lookup (str "receive_sequence") = some (.int message.receiveSequence)
  time : metadata.lookup (str "received_at_ms") = some (.int message.receivedAtMs)

/-- The message was received on the same connection, with the same number, at the same time. -/
structure SameOrigin (message message' : ReceivedMessage) : Prop where
  group : message.connectionGroup = message'.connectionGroup
  connection : message.connectionId = message'.connectionId
  sequence : message.receiveSequence = message'.receiveSequence
  time : message.receivedAtMs = message'.receivedAtMs

theorem Told.metadata {message message' : ReceivedMessage} {event event' metadata metadata' : Event}
    (h : Told message event metadata) (h' : Told message' event' metadata') (hs : SameEvent event event') :
    SameEvent metadata metadata' :=
  hs.object h.keys h.found h'.found

theorem Told.sameOrigin {message message' : ReceivedMessage} {event event' metadata metadata' : Event}
    (h : Told message event metadata) (h' : Told message' event' metadata') (hs : SameEvent event event') :
    SameOrigin message message' := by
  have hmeta := h.metadata h' hs
  have hsequence := hmeta.int h.metaKeys h.sequence h'.sequence
  exact {
    group := hmeta.text h.metaKeys h.group h'.group
    connection := hmeta.text h.metaKeys h.connection h'.connection
    sequence := by exact_mod_cast hsequence
    time := hmeta.int h.metaKeys h.time h'.time }

theorem baseMeta_keys (message : ReceivedMessage) : (Dict.keys (baseMeta message)).Nodup := by
  show ([str "schema_version", str "exchange", str "market", str "connection_group", str "received_at_ms",
    str "connection_id", str "receive_sequence"] : List Str).Nodup
  decide

theorem setSome_keys {metadata : Event} (h : (Dict.keys metadata).Nodup) (name : Str) (value : Option Str) :
    (Dict.keys (setSome name value metadata)).Nodup := by
  cases value with
  | none => exact h
  | some text => exact Dict.nodup_keys_set h _ _

theorem controlMeta_keys (message : ReceivedMessage) (warning streamName : Option Str) :
    (Dict.keys (controlMeta message warning streamName)).Nodup :=
  setSome_keys (setSome_keys (Dict.nodup_keys_set (baseMeta_keys message) _ _) _ _) _ _

theorem marketMeta_keys (message : ReceivedMessage) (spec : StreamSpec) :
    (Dict.keys (marketMeta message spec)).Nodup :=
  Dict.nodup_keys_set (Dict.nodup_keys_set (Dict.nodup_keys_set (baseMeta_keys message) _ _) _ _) _ _

/-- The names that `_base_meta` has for itself. -/
def ownNames : List Str := ["connection_group", "received_at_ms", "connection_id", "receive_sequence"].map str

theorem ownNames_ne : ∀ name ∈ ownNames, name ≠ str "warning" ∧ name ≠ str "stream_name" ∧ name ≠ str "stream_type" ∧
    name ≠ str "market" := by decide

theorem controlMeta_base (message : ReceivedMessage) (warning streamName : Option Str) {name : Str}
    (h : name ∈ ownNames) : (controlMeta message warning streamName).lookup name = (baseMeta message).lookup name := by
  obtain ⟨hwarning, hname, htype, -⟩ := ownNames_ne name h
  rw [controlMeta, lookup_setSome hwarning, lookup_setSome hname, Dict.lookup_set, if_neg htype]

theorem marketMeta_base (message : ReceivedMessage) (spec : StreamSpec) {name : Str} (h : name ∈ ownNames) :
    (marketMeta message spec).lookup name = (baseMeta message).lookup name := by
  obtain ⟨-, hname, htype, hmarket⟩ := ownNames_ne name h
  rw [marketMeta, Dict.lookup_set, if_neg hname, Dict.lookup_set, if_neg htype, Dict.lookup_set, if_neg hmarket]

theorem controlMeta_warning (message : ReceivedMessage) (warning streamName : Option Str) :
    (controlMeta message warning streamName).lookup (str "warning") = warning.map .str := by
  cases warning with
  | some text => rw [controlMeta, setSome, Dict.lookup_set, if_pos rfl]; rfl
  | none =>
    rw [controlMeta, setSome, lookup_setSome (by decide), Dict.lookup_set, if_neg (by decide)]
    rfl

theorem told_controlEvent (message : ReceivedMessage) (data : Event) (warning streamName : Option Str) :
    Told message (controlEvent message data warning streamName).event (controlMeta message warning streamName) where
  keys := by show ([str "meta", str "data"] : List Str).Nodup; decide
  metaKeys := controlMeta_keys message warning streamName
  found := controlEvent_meta message data warning streamName
  group := by rw [controlMeta_base _ _ _ (by decide)]; rfl
  connection := by rw [controlMeta_base _ _ _ (by decide)]; rfl
  sequence := by rw [controlMeta_base _ _ _ (by decide)]; rfl
  time := by rw [controlMeta_base _ _ _ (by decide)]; rfl

theorem told_marketEvent (message : ReceivedMessage) (spec : StreamSpec) (data transport : Event) :
    Told message (marketEvent message spec data transport).event (marketMeta message spec) where
  keys := by
    cases transport with
    | nil => show ([str "meta", str "data"] : List Str).Nodup; decide
    | cons p transport => show ([str "meta", str "data", str "transport"] : List Str).Nodup; decide
  metaKeys := marketMeta_keys message spec
  found := marketEvent_meta message spec data transport
  group := by rw [marketMeta_base _ _ (by decide)]; rfl
  connection := by rw [marketMeta_base _ _ (by decide)]; rfl
  sequence := by rw [marketMeta_base _ _ (by decide)]; rfl
  time := by rw [marketMeta_base _ _ (by decide)]; rfl

/-! ## What the rest tells -/

/-- The warnings of `normalize_message`. -/
def wireWarnings : List Str :=
  ["invalid_json", "duplicate_key", "unsupported_number", "field_name_collision", "non_object_json",
    "binary_message"].map str

/-- A message with a warning is kept as it came. -/
theorem rawWire_of_warned {lim : Limits} {m : WireMessage} {event : Event} {warning : Str}
    (h : normalizeMessage lim m = .ok ⟨event, some warning⟩) : event = rawWire m ∧ warning ∈ wireWarnings := by
  cases m with
  | binary bytes =>
    cases h
    exact ⟨rfl, by decide⟩
  | text s =>
    refine ⟨normalizeMessage_raw h (by simp), ?_⟩
    simp only [normalizeMessage] at h
    split at h
    any_goals cases h
    any_goals decide
    split at h
    · cases h
      decide
    · cases h

theorem wireWarnings_ne : ∀ warning ∈ wireWarnings, warning ≠ str "unknown_stream" := by decide

/-- The message decodes to this object, which is renamed, and its data is where the stream is known. -/
structure ReceivedAs (lim : Limits) (index : StreamIndex) (message : ReceivedMessage) (entries : Event) : Prop where
  accepted : AcceptedAs lim message.payload entries
  data : ∀ streamName payload spec, Enveloped entries streamName payload →
    index.lookup (message.connectionGroup, streamName) = some spec →
      ∃ data, renameFields payload (fieldNamesByStream spec.streamType) = .ok data

/-- What the rest of the event of a message has of it, with the parts of `meta` that tell which. -/
inductive Content (lim : Limits) (index : StreamIndex) (message : ReceivedMessage) (event metadata : Event) : Prop
  | raw {warning : Str} (listed : warning ∈ wireWarnings)
      (streamType : metadata.lookup (str "stream_type") = some (.str (str "control")))
      (warned : metadata.lookup (str "warning") = (some warning).map .str)
      (data : event.lookup (str "data") = some (.object (rawWire message.payload))) :
      Content lim index message event metadata
  | object {entries : Event} {warning : Option Str} (received : ReceivedAs lim index message entries)
      (streamType : metadata.lookup (str "stream_type") = some (.str (str "control")))
      (warned : metadata.lookup (str "warning") = warning.map .str)
      (unlisted : ∀ text ∈ wireWarnings, warning ≠ some text)
      (data : event.lookup (str "data") = some (.object (Dict.rename (fieldName fieldNames) entries))) :
      Content lim index message event metadata
  | market {entries payload : Event} {streamName : Str} {spec : StreamSpec}
      (received : ReceivedAs lim index message entries)
      (enveloped : Enveloped entries streamName payload)
      (known : index.lookup (message.connectionGroup, streamName) = some spec)
      (streamType : metadata.lookup (str "stream_type") = some (.str spec.streamType.value))
      (named : metadata.lookup (str "stream_name") = some (.str spec.streamName))
      (data : event.lookup (str "data") =
        some (.object (Dict.rename (fieldName (fieldNamesByStream spec.streamType)) payload)))
      (transport : event.lookup (str "transport") =
        if transportOf (Dict.rename (fieldName fieldNames) entries) = [] then none
        else some (.object (transportOf (Dict.rename (fieldName fieldNames) entries)))) :
      Content lim index message event metadata

/-- The envelope is in its place after the renaming. -/
theorem enveloped_rename {entries : Event} {streamName : Str} {payload : Event} :
    Enveloped (Dict.rename (fieldName fieldNames) entries) streamName payload ↔
      Enveloped entries streamName payload := by
  constructor
  · rintro ⟨hs, hd⟩
    exact ⟨by rwa [Dict.lookup_rename fieldName_stream] at hs, by rwa [Dict.lookup_rename fieldName_data] at hd⟩
  · rintro ⟨hs, hd⟩
    exact ⟨by rwa [Dict.lookup_rename fieldName_stream], by rwa [Dict.lookup_rename fieldName_data]⟩

/-- An envelope has one stream and one object of data. -/
theorem Enveloped.unique {envelope payload payload' : Event} {streamName streamName' : Str}
    (h : Enveloped envelope streamName payload) (h' : Enveloped envelope streamName' payload') :
    streamName = streamName' ∧ payload = payload' := by
  have hs := h.stream.symm.trans h'.stream
  have hd := h.data.symm.trans h'.data
  simp only [Option.some.injEq, Value.str.injEq, Value.object.injEq] at hs hd
  exact ⟨hs, hd⟩

theorem content_of_normalized {lim : Limits} {index : StreamIndex} {message : ReceivedMessage} {n : NormalizedMessage}
    (h : Normalized lim message index n) :
    ∃ metadata, Told message n.event metadata ∧ Content lim index message n.event metadata := by
  cases h with
  | warned decoded =>
    obtain ⟨rfl, hlisted⟩ := rawWire_of_warned decoded
    exact ⟨_, told_controlEvent .., .raw hlisted (controlMeta_streamType ..) (controlMeta_warning ..)
      (controlEvent_data ..)⟩
  | bare decoded hbare =>
    obtain ⟨entries, haccepted, rfl⟩ := acceptedAs_of_accepted decoded
    have hreceived : ReceivedAs lim index message entries :=
      ⟨haccepted, fun _ _ _ henv _ => absurd (enveloped_rename.2 henv) (hbare _ _)⟩
    exact ⟨_, told_controlEvent .., .object hreceived (controlMeta_streamType ..) (controlMeta_warning ..) (by simp)
      (controlEvent_data ..)⟩
  | unknownStream decoded enveloped unknown =>
    obtain ⟨entries, haccepted, rfl⟩ := acceptedAs_of_accepted decoded
    have hreceived : ReceivedAs lim index message entries := by
      refine ⟨haccepted, fun streamName payload spec henv hknown => ?_⟩
      rw [((enveloped_rename.1 enveloped).unique henv).1, hknown] at unknown
      cases unknown
    refine ⟨_, told_controlEvent .., .object hreceived (controlMeta_streamType ..) (controlMeta_warning ..) ?_
      (controlEvent_data ..)⟩
    exact fun text hlisted heq => wireWarnings_ne text hlisted (Option.some.inj heq).symm
  | collision decoded _ _ _ =>
    obtain ⟨text, -, htext, -, -⟩ := normalizeMessage_accepted decoded
    have hlisted : str "field_name_collision" ∈ wireWarnings := by decide
    refine ⟨_, told_controlEvent .., .raw hlisted (controlMeta_streamType ..) (controlMeta_warning ..) ?_⟩
    rw [controlEvent_data, htext]
    rfl
  | market decoded enveloped known renamed =>
    obtain ⟨entries, haccepted, rfl⟩ := acceptedAs_of_accepted decoded
    have henveloped := enveloped_rename.1 enveloped
    have hreceived : ReceivedAs lim index message entries := by
      refine ⟨haccepted, fun streamName payload spec henv hknown => ?_⟩
      obtain ⟨rfl, rfl⟩ := henveloped.unique henv
      cases known.symm.trans hknown
      exact ⟨_, renamed⟩
    refine ⟨_, told_marketEvent .., .market hreceived henveloped known (marketMeta_streamType ..)
      (marketMeta_streamName ..) ?_ (marketEvent_transport ..)⟩
    rw [marketEvent_data, (renameFields_eq_ok.1 renamed).1]

/-! ## The exceptions -/

/-- Objects whose names do not overlap, and that are equal once renamed. -/
theorem SameEvent.undone {names : List (Str × Str)} (hnames : FieldMap names) {d d' : Event} (hno : ¬Overlap names d d')
    (h : SameEvent (Dict.rename (fieldName names) d) (Dict.rename (fieldName names) d')) : SameEvent d d' :=
  equality_sameEvent.rename _ _ _ (hnames.injective_of_not_overlap hno) h

/-- Both messages are renamed, and in the envelope or in the data one has a name of the map where the other has the new
name. -/
inductive ConfusableReceived (lim : Limits) (index : StreamIndex) (message message' : ReceivedMessage) : Prop
  | envelope {entries entries' : Event} : ReceivedAs lim index message entries → ReceivedAs lim index message' entries' →
      Overlap fieldNames entries entries' → ConfusableReceived lim index message message'
  | data {entries entries' payload payload' : Event} {streamName : Str} {spec : StreamSpec} :
      ReceivedAs lim index message entries → ReceivedAs lim index message' entries' →
      Enveloped entries streamName payload → Enveloped entries' streamName payload' →
      index.lookup (message.connectionGroup, streamName) = some spec →
      Overlap (fieldNamesByStream spec.streamType) payload payload' → ConfusableReceived lim index message message'

/-- An envelope is its stream, its data and its other fields. -/
theorem Enveloped.perm {envelope payload : Event} {streamName : Str} (h : Enveloped envelope streamName payload)
    (hn : (Dict.keys envelope).Nodup) :
    envelope.Perm ((str "stream", .str streamName) :: (str "data", .object payload) :: transportOf envelope) := by
  have hstream : (str "stream", Value.str streamName) ∈ envelope := (Dict.lookup_eq_some_iff hn).1 h.stream
  have hdata : (str "data", Value.object payload) ∈ envelope := (Dict.lookup_eq_some_iff hn).1 h.data
  have hother : ∀ entry ∈ transportOf envelope, entry.1 ≠ str "stream" ∧ entry.1 ≠ str "data" := by
    intro entry hmem
    simpa using (List.mem_filter.1 hmem).2
  refine (List.perm_ext_iff_of_nodup hn.of_map ?_).2 fun entry => ?_
  · refine List.nodup_cons.2 ⟨?_, List.nodup_cons.2 ⟨?_, (hn.of_map).filter _⟩⟩
    · rw [List.mem_cons, not_or]
      exact ⟨by simp [show str "stream" ≠ str "data" by decide], fun hmem => (hother _ hmem).1 rfl⟩
    · exact fun hmem => (hother _ hmem).2 rfl
  · rw [List.mem_cons, List.mem_cons]
    constructor
    · intro hmem
      by_cases hs : entry.1 = str "stream"
      · have hfound := (Dict.lookup_eq_some_iff hn).2 (show (str "stream", entry.2) ∈ envelope from hs ▸ hmem)
        exact .inl (Prod.ext hs (Option.some.inj (hfound.symm.trans h.stream)))
      by_cases hd : entry.1 = str "data"
      · have hfound := (Dict.lookup_eq_some_iff hn).2 (show (str "data", entry.2) ∈ envelope from hd ▸ hmem)
        exact .inr (.inl (Prod.ext hd (Option.some.inj (hfound.symm.trans h.data))))
      exact .inr (.inr (List.mem_filter.2 ⟨hmem, by simp [hs, hd]⟩))
    · rintro (rfl | rfl | hmem)
      · exact hstream
      · exact hdata
      · exact (List.mem_filter.1 hmem).1

/-- Envelopes with the same stream, equal data and equal other fields are equal. -/
theorem Enveloped.same {envelope envelope' payload payload' : Event} {streamName : Str}
    (h : Enveloped envelope streamName payload) (hn : (Dict.keys envelope).Nodup)
    (h' : Enveloped envelope' streamName payload') (hn' : (Dict.keys envelope').Nodup)
    (hdata : SameEvent payload payload') (htransport : SameEvent (transportOf envelope) (transportOf envelope')) :
    SameEvent envelope envelope' := by
  cases htransport with
  | @object _ transport _ hperm hsame =>
    have hmiddle : SameMembers ((str "stream", .str streamName) :: (str "data", .object payload) :: transport)
        ((str "stream", .str streamName) :: (str "data", .object payload') :: transportOf envelope') :=
      .cons (.str streamName) (.cons hdata hsame)
    exact .of_perms ((h.perm hn).trans ((hperm.cons _).cons _)) hmiddle (h'.perm hn').symm

/-- Events with equal other fields, none if there are none. -/
theorem SameEvent.transport {d d' t t' : Event} (hn : (Dict.keys d).Nodup) (h : SameEvent d d')
    (ht : d.lookup (str "transport") = if t = [] then none else some (.object t))
    (ht' : d'.lookup (str "transport") = if t' = [] then none else some (.object t')) : SameEvent t t' := by
  have hrel := h.lookup hn (str "transport")
  rw [ht, ht'] at hrel
  split at hrel
  · rename_i hempty
    split at hrel
    · rename_i hempty'
      rw [hempty, hempty']
      exact SameValue.object (.refl _) .nil
    · cases hrel
  · split at hrel
    · cases hrel
    · cases hrel with
      | some hv => exact hv

/-! ## What is determined -/

/-- Messages that are the same decode to equal objects. -/
theorem SameMessage.events {lim : Limits} {m m' : WireMessage} (h : SameMessage lim SameEvent m m')
    {entries entries' : Event} (hd : Decodes lim m entries) (hd' : Decodes lim m' entries') :
    SameEvent entries entries' := by
  rcases h with rfl | ⟨payload, payload', he, he', hsame⟩
  · rw [hd.unique hd']
    exact SameValue.refl _
  · rw [hd.unique he, hd'.unique he']
    exact hsame

section

variable {lim : Limits} {specs : List StreamSpec} {index : StreamIndex} {message message' : ReceivedMessage}

/-- Envelopes that are equal once renamed. -/
theorem sameMessage_of_envelopes (hno : ¬ConfusableReceived lim index message message') {entries entries' : Event}
    (hr : ReceivedAs lim index message entries) (hr' : ReceivedAs lim index message' entries')
    (h : SameEvent (Dict.rename (fieldName fieldNames) entries) (Dict.rename (fieldName fieldNames) entries')) :
    SameMessage lim SameEvent message.payload message'.payload :=
  .inr ⟨entries, entries', hr.accepted.1, hr'.accepted.1,
    h.undone fieldMap_fieldNames fun hover => hno (.envelope hr hr' hover)⟩

theorem sameMessage_of_contents (hi : indexStreamSpecs specs = .ok index) {event event' metadata metadata' : Event}
    (ht : Told message event metadata) (ht' : Told message' event' metadata')
    (hc : Content lim index message event metadata) (hc' : Content lim index message' event' metadata')
    (hs : SameEvent event event') (hno : ¬ConfusableReceived lim index message message') :
    SameMessage lim SameEvent message.payload message'.payload := by
  have hmeta := ht.metadata ht' hs
  cases hc with
  | raw listed streamType warned data =>
    cases hc' with
    | raw _ _ _ data' => exact .inl (rawWire_injective equality_sameEvent (hs.object ht.keys data data'))
    | object _ _ warned' unlisted' _ =>
      exact absurd (hmeta.text? ht.metaKeys warned warned').symm (unlisted' _ listed)
    | market _ _ _ streamType' _ _ _ =>
      exact absurd (hmeta.text ht.metaKeys streamType streamType').symm (streamType_ne_control _)
  | object received streamType warned unlisted data =>
    cases hc' with
    | raw listed' _ warned' _ => exact absurd (hmeta.text? ht.metaKeys warned warned') (unlisted _ listed')
    | object received' _ _ _ data' =>
      exact sameMessage_of_envelopes hno received received' (hs.object ht.keys data data')
    | market _ _ _ streamType' _ _ _ =>
      exact absurd (hmeta.text ht.metaKeys streamType streamType').symm (streamType_ne_control _)
  | market received enveloped known streamType named data transport =>
    cases hc' with
    | raw _ streamType' _ _ =>
      exact absurd (hmeta.text ht.metaKeys streamType streamType') (streamType_ne_control _)
    | object _ streamType' _ _ _ =>
      exact absurd (hmeta.text ht.metaKeys streamType streamType') (streamType_ne_control _)
    | market received' enveloped' known' _ named' data' transport' =>
      -- the group and the name of the stream tell the subscription, and so the map of the names
      obtain ⟨-, -, hname⟩ := (indexStreamSpecs_finds hi _ _ _).1 known
      obtain ⟨-, -, hname'⟩ := (indexStreamSpecs_finds hi _ _ _).1 known'
      have hsame := hmeta.text ht.metaKeys named named'
      rw [hname, hname'] at hsame
      subst hsame
      have hspec := known'
      rw [← (ht.sameOrigin ht' hs).group, known] at hspec
      obtain rfl := Option.some.inj hspec
      have hdata : SameEvent _ _ := (hs.object ht.keys data data').undone (fieldMap_fieldNamesByStream _)
        fun hover => hno (.data received received' enveloped enveloped' known hover)
      exact sameMessage_of_envelopes hno received received' ((enveloped_rename.2 enveloped).same received.accepted.keys.2
        (enveloped_rename.2 enveloped') received'.accepted.keys.2 hdata (hs.transport ht.keys transport transport'))

/-- The exceptions are about different messages. -/
theorem SameMessage.not_confusableReceived (h : SameMessage lim SameEvent message.payload message'.payload) :
    ¬ConfusableReceived lim index message message' := by
  rintro (⟨hr, hr', hover⟩ | ⟨hr, hr', henv, henv', hknown, hover⟩)
  · exact fieldMap_fieldNames.not_overlap hr.accepted.renames
      (h.keys equality_sameEvent hr.accepted.1 hr'.accepted.1) hover
  · obtain ⟨data, hok⟩ := hr.data _ _ _ henv hknown
    refine (fieldMap_fieldNamesByStream _).not_overlap hok ?_ hover
    have hsame := h.events hr.accepted.1 hr'.accepted.1
    exact equality_sameEvent.keys _ _ (hsame.object hr.accepted.keys.1 henv.data henv'.data)

/-- **The event determines the received message.** Messages with equal v2 events were received at the same time, with
the same number, on the same connection of the same group, and are the same or decode to equal objects, unless both are
renamed and one has a name of the map where the other has the new name. In that case they are different. -/
theorem received_determined (hi : indexStreamSpecs specs = .ok index) {n n' : NormalizedMessage}
    (hn : normalizeReceivedMessage lim message index = .ok n)
    (hn' : normalizeReceivedMessage lim message' index = .ok n') (hs : SameEvent n.event n'.event) :
    SameOrigin message message' ∧
      (SameMessage lim SameEvent message.payload message'.payload ↔ ¬ConfusableReceived lim index message message') := by
  obtain ⟨metadata, ht, hc⟩ := content_of_normalized (normalized_of_ok hn)
  obtain ⟨metadata', ht', hc'⟩ := content_of_normalized (normalized_of_ok hn')
  exact ⟨ht.sameOrigin ht' hs, SameMessage.not_confusableReceived, sameMessage_of_contents hi ht ht' hc hc' hs⟩

end

/-- A trade, and the same trade with its fields in another order. -/
def tradeText : Str :=
  str "\x7b\"stream\":\"btcusdt@aggTrade\",\"data\":\x7b\"p\":\"9\",\"q\":\"2\"\x7d\x7d"

def reorderedText : Str :=
  str "\x7b\"data\":\x7b\"q\":\"2\",\"p\":\"9\"\x7d,\"stream\":\"btcusdt@aggTrade\"\x7d"

def receivedTrade (text : Str) : ReceivedMessage :=
  ⟨.text text, str "spot_market", str "run-spot_market-1", 7, 1700000000000⟩

def tradeIndex : StreamIndex := [((str "spot_market", str "btcusdt@aggTrade"), btcTrades)]

def tradeEntries : Event := [(str "stream", .str (str "btcusdt@aggTrade")),
  (str "data", .object [(str "p", .str (str "9")), (str "q", .str (str "2"))])]

def reorderedEntries : Event := [(str "data", .object [(str "q", .str (str "2")), (str "p", .str (str "9"))]),
  (str "stream", .str (str "btcusdt@aggTrade"))]

theorem tradeText_loads : loads strictHooks ⟨1000, 4300⟩ tradeText = .ok (.object tradeEntries) := by decide +kernel

theorem reorderedText_loads : loads strictHooks ⟨1000, 4300⟩ reorderedText = .ok (.object reorderedEntries) := by
  decide +kernel

theorem tradeText_event : normalizeReceivedMessage ⟨1000, 4300⟩ (receivedTrade tradeText) tradeIndex =
    .ok (marketEvent (receivedTrade tradeText) btcTrades
      [(str "price", .str (str "9")), (str "quantity", .str (str "2"))] []) := by decide +kernel

theorem reorderedText_event : normalizeReceivedMessage ⟨1000, 4300⟩ (receivedTrade reorderedText) tradeIndex =
    .ok (marketEvent (receivedTrade reorderedText) btcTrades
      [(str "quantity", .str (str "2")), (str "price", .str (str "9"))] []) := by decide +kernel

/-- The order of the fields is not determined, and nothing else is left open. -/
theorem received_determined_reordered : tradeText ≠ reorderedText ∧
    SameOrigin (receivedTrade tradeText) (receivedTrade reorderedText) ∧
    SameMessage ⟨1000, 4300⟩ SameEvent (.text tradeText) (.text reorderedText) := by
  have hindex : indexStreamSpecs [btcTrades] = .ok tradeIndex := by decide +kernel
  have hdata : SameEvent [(str "price", .str (str "9")), (str "quantity", .str (str "2"))]
      [(str "quantity", .str (str "2")), (str "price", .str (str "9"))] :=
    SameValue.object (.swap ..) (SameMembers.refl _)
  have hmeta : marketMeta (receivedTrade tradeText) btcTrades = marketMeta (receivedTrade reorderedText) btcTrades := by
    simp only [marketMeta, baseMeta, receivedTrade]
  have hs : SameEvent
      (marketEvent (receivedTrade tradeText) btcTrades
        [(str "price", .str (str "9")), (str "quantity", .str (str "2"))] []).event
      (marketEvent (receivedTrade reorderedText) btcTrades
        [(str "quantity", .str (str "2")), (str "price", .str (str "9"))] []).event := by
    rw [marketEvent, marketEvent, hmeta]
    exact SameValue.object (.refl _) (.cons (SameValue.refl _) (.cons hdata .nil))
  have hfields : tradeEntries.lookup (str "data") =
      some (.object [(str "p", .str (str "9")), (str "q", .str (str "2"))]) := by decide +kernel
  have hfields' : reorderedEntries.lookup (str "data") =
      some (.object [(str "q", .str (str "2")), (str "p", .str (str "9"))]) := by decide +kernel
  have hapart : ∀ t : StreamType, ∀ p ∈ fieldNamesByStream t, ¬(p.1 ∈ [str "p", str "q"] ∧ p.2 ∈ [str "q", str "p"] ∨
      p.1 ∈ [str "q", str "p"] ∧ p.2 ∈ [str "p", str "q"]) := fun t => by cases t <;> decide
  refine ⟨by decide +kernel, ?_⟩
  obtain ⟨horigin, hsame⟩ := received_determined hindex tradeText_event reorderedText_event hs
  refine ⟨horigin, hsame.2 ?_⟩
  have htrade : Decodes ⟨1000, 4300⟩ (receivedTrade tradeText).payload tradeEntries := ⟨_, rfl, tradeText_loads⟩
  have hreordered : Decodes ⟨1000, 4300⟩ (receivedTrade reorderedText).payload reorderedEntries :=
    ⟨_, rfl, reorderedText_loads⟩
  rintro (⟨hr, hr', p, hp, hover⟩ | ⟨hr, hr', henv, henv', -, p, hp, hover⟩)
  · rw [hr.accepted.1.unique htrade, hr'.accepted.1.unique hreordered] at hover
    revert p
    decide
  · rw [hr.accepted.1.unique htrade] at henv
    rw [hr'.accepted.1.unique hreordered] at henv'
    cases hfields.symm.trans henv.data
    cases hfields'.symm.trans henv'.data
    exact hapart _ p hp hover

end BinanceCollector
