import BinanceCollector.Collector.FieldMaps
import BinanceCollector.Lib.JsonLimits

/-!
# What `normalize_message` accepts

A tree is lossless when no object of it repeats a key and all its numbers are integers. The strict hooks build exactly
the lossless trees (`build_strictHooks`), so that a text is accepted exactly when it spells a lossless object whose keys
stay distinct under `FIELD_NAMES`, that is, which has no key beside the name that the key is given
(`FieldMap.nodup_iff`).

- `normalizeMessage_total`: normalisation returns exactly for the messages that meet no limit of the decoder.
- **`accepts_standard`**: acceptance and the event, for every text and every binary message.
-/

namespace BinanceCollector

open Text Json

/-! ## Normalisation returns -/

/-- The message is a text that meets a limit of the decoder. -/
def WireMessage.Exceeds (lim : Limits) : WireMessage → Prop
  | .text message => Json.Exceeds strictHooks lim message
  | .binary _ => False

/-- **Normalisation returns exactly for the messages that meet no limit of the decoder.** -/
theorem normalizeMessage_total {lim : Limits} {message : WireMessage} :
    (∃ n, normalizeMessage lim message = .ok n) ↔ ¬message.Exceeds lim := by
  cases message with
  | binary bytes => exact ⟨fun _ => id, fun _ => ⟨_, rfl⟩⟩
  | text text =>
    rw [WireMessage.Exceeds, ← loads_limit]
    cases hl : loads strictHooks lim text with
    | ok v =>
      have hno : ¬∃ e : Error Refusal, (Except.ok v : Except (Error Refusal) Value) = .error e ∧ e.isLimit = true := by
        rintro ⟨e, he, -⟩
        cases he
      refine iff_of_true ?_ hno
      cases v with
      | object payload => exact ⟨_, normalizeMessage_object hl⟩
      | null | bool | int | float | str | array => exact ⟨_, by rw [normalizeMessage, hl]⟩
    | error e =>
      simp only [Except.error.injEq, exists_eq_left']
      cases e with
      | malformed => exact ⟨fun _ => by decide, fun _ => ⟨_, by rw [normalizeMessage, hl]⟩⟩
      | refused refusal =>
        refine ⟨fun _ => Bool.false_ne_true, fun _ => ?_⟩
        cases refusal <;> exact ⟨_, by rw [normalizeMessage, hl]⟩
      | exhausted => exact absurd hl (loads_ne_exhausted _ _ _)
      | tooDeep | tooLong =>
        refine ⟨fun h => ?_, fun hno => absurd rfl hno⟩
        obtain ⟨n, hn⟩ := h
        rw [normalizeMessage, hl] at hn
        cases hn

/-! ## Lossless trees -/

/-- No key is repeated and every number is an integer. -/
inductive Lossless : Tree → Prop
  | null : Lossless .null
  | bool (b : Bool) : Lossless (.bool b)
  | integer (literal : Str) : Lossless (.integer literal)
  | string (s : Str) : Lossless (.string s)
  | array {items : List Tree} : (∀ t ∈ items, Lossless t) → Lossless (.array items)
  | object {members : List (Str × Tree)} : (Dict.keys members).Nodup → (∀ p ∈ members, Lossless p.2) →
      Lossless (.object members)

mutual

/-- The value of a tree, which `json.loads` returns for it. -/
def valueOf : Tree → Value
  | .null => .null
  | .bool b => .bool b
  | .integer literal => .int (intOfLiteral literal)
  | .number literal => .float literal
  | .constant name => .float name
  | .string s => .str s
  | .array items => .array (valuesOf items)
  | .object members => .object (entriesOf members)

def valuesOf : List Tree → List Value
  | [] => []
  | t :: ts => valueOf t :: valuesOf ts

def entriesOf : List (Str × Tree) → List (Str × Value)
  | [] => []
  | (key, t) :: ms => (key, valueOf t) :: entriesOf ms

end

@[simp] theorem keys_entriesOf (members : List (Str × Tree)) : Dict.keys (entriesOf members) = Dict.keys members := by
  induction members with
  | nil => rfl
  | cons p ms ih => rw [entriesOf, Dict.keys, List.map_cons, ← Dict.keys, ih]; rfl

theorem entriesOf_eq_map (members : List (Str × Tree)) :
    entriesOf members = members.map fun p => (p.1, valueOf p.2) := by
  induction members with
  | nil => rfl
  | cons p ms ih => rw [entriesOf, ih]; rfl

theorem pairsWithoutDuplicates_eq_ok {pairs : List (Str × Value)} {v : Value} :
    pairsWithoutDuplicates pairs = .ok v ↔ (Dict.keys pairs).Nodup ∧ v = .object pairs := by
  unfold pairsWithoutDuplicates
  constructor
  · intro h
    split at h
    · rename_i result hr
      obtain ⟨rfl, hn⟩ := Dict.collect_eq_ok.1 hr
      cases h
      exact ⟨by simpa using hn, by rw [Dict.rename_eq_self (f := id) fun _ _ => rfl]⟩
    · cases h
  · rintro ⟨hn, rfl⟩
    have hc : Dict.collect id [] pairs = .ok pairs :=
      Dict.collect_eq_ok.2 ⟨(Dict.rename_eq_self (f := id) fun _ _ => rfl).symm, by simpa using hn⟩
    rw [hc]

theorem lossless_array {items : List Tree} : Lossless (.array items) ↔ ∀ t ∈ items, Lossless t :=
  ⟨fun h => by cases h; assumption, .array⟩

theorem lossless_object {members : List (Str × Tree)} :
    Lossless (.object members) ↔ (Dict.keys members).Nodup ∧ ∀ p ∈ members, Lossless p.2 :=
  ⟨fun h => by cases h; exact ⟨‹_›, ‹_›⟩, fun h => .object h.1 h.2⟩

mutual

/-- **The strict hooks build exactly the lossless trees.** -/
theorem build_strictHooks : (t : Tree) → (v : Value) → (t.build strictHooks = .ok v ↔ Lossless t ∧ v = valueOf t)
  | .null, v => ⟨fun h => by cases h; exact ⟨.null, rfl⟩, fun h => h.2 ▸ rfl⟩
  | .bool b, v => ⟨fun h => by cases h; exact ⟨.bool b, rfl⟩, fun h => h.2 ▸ rfl⟩
  | .integer literal, v => ⟨fun h => by cases h; exact ⟨.integer literal, rfl⟩, fun h => h.2 ▸ rfl⟩
  | .number _, _ => ⟨fun h => (by cases h), fun h => (by cases h.1)⟩
  | .constant _, _ => ⟨fun h => (by cases h), fun h => (by cases h.1)⟩
  | .string s, v => ⟨fun h => by cases h; exact ⟨.string s, rfl⟩, fun h => h.2 ▸ rfl⟩
  | .array items, v => by
    have ih := buildItems_strictHooks items
    rw [Tree.build, lossless_array, valueOf]
    constructor
    · intro h
      cases hvs : buildItems strictHooks items with
      | error e => rw [hvs] at h; cases h
      | ok vs =>
        rw [hvs] at h
        cases h
        obtain ⟨hl, rfl⟩ := (ih vs).1 hvs
        exact ⟨hl, rfl⟩
    · rintro ⟨hl, rfl⟩
      rw [(ih _).2 ⟨hl, rfl⟩]
      rfl
  | .object members, v => by
    have ih := buildMembers_strictHooks members
    rw [Tree.build, lossless_object, valueOf]
    constructor
    · intro h
      cases hvs : buildMembers strictHooks members with
      | error e => rw [hvs] at h; cases h
      | ok vs =>
        rw [hvs] at h
        obtain ⟨hl, rfl⟩ := (ih vs).1 hvs
        obtain ⟨hn, rfl⟩ := pairsWithoutDuplicates_eq_ok.1 h
        exact ⟨⟨keys_entriesOf members ▸ hn, hl⟩, rfl⟩
    · rintro ⟨⟨hn, hl⟩, rfl⟩
      rw [(ih _).2 ⟨hl, rfl⟩]
      exact pairsWithoutDuplicates_eq_ok.2 ⟨(keys_entriesOf members).symm ▸ hn, rfl⟩

theorem buildItems_strictHooks : (items : List Tree) → (vs : List Value) →
    (buildItems strictHooks items = .ok vs ↔ (∀ t ∈ items, Lossless t) ∧ vs = valuesOf items)
  | [], vs => ⟨fun h => by cases h; exact ⟨List.forall_mem_nil _, rfl⟩, fun h => h.2 ▸ rfl⟩
  | t :: items, vs => by
    have iht := build_strictHooks t
    have ih := buildItems_strictHooks items
    rw [List.forall_mem_cons, valuesOf]
    constructor
    · intro h
      obtain ⟨v, vs', hv, hvs, rfl⟩ := buildItems_cons h
      obtain ⟨hl, rfl⟩ := (iht v).1 hv
      obtain ⟨hls, rfl⟩ := (ih vs').1 hvs
      exact ⟨⟨hl, hls⟩, rfl⟩
    · rintro ⟨⟨hl, hls⟩, rfl⟩
      rw [buildItems, (iht _).2 ⟨hl, rfl⟩, (ih _).2 ⟨hls, rfl⟩]
      rfl

theorem buildMembers_strictHooks : (members : List (Str × Tree)) → (vs : List (Str × Value)) →
    (buildMembers strictHooks members = .ok vs ↔ (∀ p ∈ members, Lossless p.2) ∧ vs = entriesOf members)
  | [], vs => ⟨fun h => by cases h; exact ⟨List.forall_mem_nil _, rfl⟩, fun h => h.2 ▸ rfl⟩
  | (key, t) :: members, vs => by
    have iht := build_strictHooks t
    have ih := buildMembers_strictHooks members
    rw [List.forall_mem_cons, entriesOf]
    constructor
    · intro h
      obtain ⟨v, vs', hv, hvs, rfl⟩ := buildMembers_cons h
      obtain ⟨hl, rfl⟩ := (iht v).1 hv
      obtain ⟨hls, rfl⟩ := (ih vs').1 hvs
      exact ⟨⟨hl, hls⟩, rfl⟩
    · rintro ⟨⟨hl, hls⟩, rfl⟩
      rw [buildMembers, (iht _).2 ⟨hl, rfl⟩, (ih _).2 ⟨hls, rfl⟩]
      rfl

end

/-! ## Acceptance -/

/-- An object that `normalize_message` can represent: it is lossless, and no key is there beside its new name. -/
structure Standard (root : List (Str × Tree)) : Prop where
  lossless : Lossless (.object root)
  distinct : ∀ p ∈ fieldNames, p.1 ∈ Dict.keys root → p.2 ∉ Dict.keys root

/-- The pairs of an object under their new names. -/
def standardised (root : List (Str × Tree)) : Event := root.map fun p => (fieldName fieldNames p.1, valueOf p.2)

theorem renameFields_standard {root : List (Str × Tree)} (h : Standard root) :
    renameFields (entriesOf root) fieldNames = .ok (standardised root) := by
  obtain ⟨hn, -⟩ := lossless_object.1 h.lossless
  refine renameFields_eq_ok.2 ⟨?_, ?_⟩
  · rw [standardised, entriesOf_eq_map, Dict.rename, List.map_map]
    rfl
  · rw [keys_entriesOf]
    exact (fieldMap_fieldNames.nodup_iff hn).2 h.distinct

/-- An accepted text spells an object that can be represented. -/
theorem standard_of_accepted {lim : Limits} {m : Str} {event : Event}
    (h : normalizeMessage lim (.text m) = .ok ⟨event, none⟩) :
    ∃ root, SpellsWithin lim m (.object root) ∧ Standard root ∧ event = standardised root := by
  obtain ⟨text, payload, heq, hl, hr⟩ := normalizeMessage_accepted h
  cases heq
  obtain ⟨t, ht, hb⟩ := loads_sound hl
  obtain ⟨hlossless, hv⟩ := (build_strictHooks t _).1 hb
  cases t with
  | object root =>
    rw [valueOf] at hv
    obtain rfl := Value.object.inj hv
    obtain ⟨hn, -⟩ := lossless_object.1 hlossless
    obtain ⟨-, hnodup⟩ := renameFields_eq_ok.1 hr
    rw [keys_entriesOf] at hnodup
    have hstandard : Standard root := ⟨hlossless, (fieldMap_fieldNames.nodup_iff hn).1 hnodup⟩
    exact ⟨root, ht, hstandard, Except.ok.inj (hr.symm.trans (renameFields_standard hstandard))⟩
  | _ => simp [valueOf] at hv

/-- A text that is not accepted is kept as it is. -/
theorem normalizeMessage_raw {lim : Limits} {m : Str} {n : NormalizedMessage}
    (h : normalizeMessage lim (.text m) = .ok n) (hw : n.warning ≠ none) : n.event = [(str "raw_message", .str m)] := by
  simp only [normalizeMessage] at h
  split at h
  all_goals first | cases h; rfl | cases h | skip
  split at h
  · cases h; rfl
  · cases h
    exact absurd rfl hw

/-- A text that spells such an object is decoded and accepted, where it meets no limit. -/
theorem accepted_of_spells {lim : Limits} {m : Str} {root : List (Str × Tree)}
    (hno : ¬(WireMessage.text m).Exceeds lim) (hs : Spells m (.object root)) (h : Standard root) :
    loads strictHooks lim m = .ok (.object (entriesOf root)) ∧
      normalizeMessage lim (.text m) = .ok ⟨standardised root, none⟩ := by
  have hl := loads_of_spells hno hs ((build_strictHooks _ _).2 ⟨h.lossless, rfl⟩)
  rw [valueOf] at hl
  exact ⟨hl, by rw [normalizeMessage_object hl, renameFields_standard h]⟩

/-- **`normalize_message` accepts exactly the objects it can represent.** Where `json.loads` meets no limit, a text is
accepted if and only if it spells such an object, whose pairs the event holds under their new names; every other text is
kept as it is. Within the limits such an object is accepted. -/
theorem accepts_standard (lim : Limits) :
    (∀ m n, normalizeMessage lim (.text m) = .ok n →
      (n.warning = none ↔ ∃ root, Spells m (.object root) ∧ Standard root) ∧
      (∀ root, Spells m (.object root) → Standard root → n.event = standardised root) ∧
      (n.warning ≠ none → n.event = [(str "raw_message", .str m)])) ∧
    (∀ m root, SpellsWithin lim m (.object root) → Standard root →
      normalizeMessage lim (.text m) = .ok ⟨standardised root, none⟩) ∧
    ∀ bytes, normalizeMessage lim (.binary bytes) = .ok
      ⟨[(str "raw_message", .str (b64encode bytes)), (str "raw_encoding", .str (str "base64"))],
        some (str "binary_message")⟩ := by
  have hreturns : ∀ {m n root}, normalizeMessage lim (.text m) = .ok n → Spells m (.object root) → Standard root →
      n = ⟨standardised root, none⟩ := by
    intro m n root hn hs h
    exact Except.ok.inj (hn.symm.trans (accepted_of_spells (normalizeMessage_total.1 ⟨_, hn⟩) hs h).2)
  have hwithin : ∀ {m root}, SpellsWithin lim m (.object root) → Standard root →
      normalizeMessage lim (.text m) = .ok ⟨standardised root, none⟩ := by
    intro m root hs h
    have hl := loads_within hs ((build_strictHooks _ _).2 ⟨h.lossless, rfl⟩)
    rw [valueOf] at hl
    rw [normalizeMessage_object hl, renameFields_standard h]
  refine ⟨fun m n hn => ⟨⟨fun hw => ?_, ?_⟩, fun root hs h => by rw [hreturns hn hs h], normalizeMessage_raw hn⟩,
    fun _ _ => hwithin, fun _ => rfl⟩
  · obtain ⟨event, warning⟩ := n
    cases hw
    obtain ⟨root, hs, h, -⟩ := standard_of_accepted hn
    exact ⟨root, hs.spells, h⟩
  · rintro ⟨root, hs, h⟩
    rw [hreturns hn hs h]

/-- An aggregate trade with a field of its own is accepted. -/
theorem accepts_standard_trade : ∃ root,
    Spells (str "\x7b\"e\":\"aggTrade\",\"M\":[1,\x7b\"p\":null\x7d]\x7d") (.object root) ∧ Standard root := by
  have hn : normalizeMessage ⟨1000, 4300⟩ (.text (str "\x7b\"e\":\"aggTrade\",\"M\":[1,\x7b\"p\":null\x7d]\x7d")) =
      .ok ⟨[(str "event_type", .str (str "aggTrade")), (str "M", .array [.int 1, .object [(str "p", .null)]])],
        none⟩ := by decide +kernel
  exact ((accepts_standard ⟨1000, 4300⟩).1 _ _ hn).1.1 rfl

end BinanceCollector
