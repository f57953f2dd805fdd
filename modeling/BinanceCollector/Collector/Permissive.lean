import BinanceCollector.Collector.Acceptance
import BinanceCollector.Collector.Subscriptions

/-!
# Decoding without hooks

`StreamConnection._decode_object` calls `json.loads` without hooks, which builds a value from every tree
(`build_plainHooks`) and lets the last member with a key count (`lastMember`). The predicates of the multi-stream client
are read off the tree of the text here. That the tree is lossless does not depend on how the text is parsed
(`Standard.of_spells`).
-/

namespace BinanceCollector

open Text Json

/-! ## Values without hooks -/

mutual

/-- What `json.loads` without hooks returns for a tree. -/
def plainValue : Tree → Value
  | .null => .null
  | .bool b => .bool b
  | .integer literal => .int (intOfLiteral literal)
  | .number literal => .float literal
  | .constant name => .float name
  | .string s => .str s
  | .array items => .array (plainValues items)
  | .object members => .object (Dict.ofPairs (plainEntries members))

def plainValues : List Tree → List Value
  | [] => []
  | t :: ts => plainValue t :: plainValues ts

def plainEntries : List (Str × Tree) → List (Str × Value)
  | [] => []
  | (key, t) :: ms => (key, plainValue t) :: plainEntries ms

end

theorem plainEntries_eq_map (members : List (Str × Tree)) :
    plainEntries members = members.map fun p => (p.1, plainValue p.2) := by
  induction members with
  | nil => rfl
  | cons p ms ih => rw [plainEntries, ih]; rfl

mutual

/-- **Without hooks every tree has a value.** -/
theorem build_plainHooks : (t : Tree) → t.build plainHooks = .ok (plainValue t)
  | .null => rfl
  | .bool _ => rfl
  | .integer _ => rfl
  | .number _ => rfl
  | .constant _ => rfl
  | .string _ => rfl
  | .array items => by rw [Tree.build, buildItems_plainHooks items]; rfl
  | .object members => by rw [Tree.build, buildMembers_plainHooks members]; rfl

theorem buildItems_plainHooks : (items : List Tree) → buildItems plainHooks items = .ok (plainValues items)
  | [] => rfl
  | t :: items => by rw [buildItems, build_plainHooks t, buildItems_plainHooks items]; rfl

theorem buildMembers_plainHooks : (members : List (Str × Tree)) →
    buildMembers plainHooks members = .ok (plainEntries members)
  | [] => rfl
  | (key, t) :: members => by rw [buildMembers, build_plainHooks t, buildMembers_plainHooks members]; rfl

end

/-- The member that counts: the last one with the key. -/
def lastMember (root : List (Str × Tree)) (key : Str) : Option Tree := root.reverse.lookup key

theorem lastMember_eq_none {root : List (Str × Tree)} {key : Str} :
    lastMember root key = none ↔ key ∉ Dict.keys root := by
  rw [lastMember, List.lookup_eq_none_iff]
  constructor
  · intro h hkey
    obtain ⟨p, hp, rfl⟩ := List.mem_map.1 hkey
    exact absurd (h p (List.mem_reverse.2 hp)) (by simp)
  · intro h p hp
    exact bne_iff_ne.2 fun hkey => h (List.mem_map.2 ⟨p, List.mem_reverse.1 hp, hkey.symm⟩)

theorem mem_keys_of_lastMember {root : List (Str × Tree)} {key : Str} {t : Tree} (h : lastMember root key = some t) :
    key ∈ Dict.keys root := by
  by_contra hkey
  rw [lastMember_eq_none.2 hkey] at h
  cases h

theorem lookup_plainEntries (root : List (Str × Tree)) (key : Str) :
    (Dict.ofPairs (plainEntries root)).lookup key = (lastMember root key).map plainValue := by
  rw [Dict.lookup_ofPairs, plainEntries_eq_map, ← List.map_reverse, Dict.lookup_map_snd, lastMember]

theorem plainValue_eq_str {t : Tree} {s : Str} : plainValue t = .str s ↔ t = .string s := by
  cases t <;> simp [plainValue]

theorem plainValue_eq_object {t : Tree} {d : List (Str × Value)} :
    plainValue t = .object d ↔ ∃ members, t = .object members ∧ d = Dict.ofPairs (plainEntries members) := by
  cases t <;> simp [plainValue, eq_comm]

theorem any_equalsStr_iff {o : Option Value} {s : Str} : o.any (equalsStr s) = true ↔ o = some (.str s) := by
  cases o with
  | none => simp
  | some v => cases v <;> simp [equalsStr]

theorem any_equalsStr {o : Option Tree} {s : Str} :
    (o.map plainValue).any (equalsStr s) = true ↔ o = some (.string s) := by
  rw [any_equalsStr_iff, Option.map_eq_some_iff]
  simp only [plainValue_eq_str, exists_eq_right]

/-! ## One text has one tree -/

/-- Hooks that keep every member and every literal. -/
def keepingHooks : Hooks Empty where
  object pairs := .ok (.object pairs)
  float raw := .ok (.float raw)
  constant raw := .ok (.float raw)

mutual

theorem build_keepingHooks : (t : Tree) → t.build keepingHooks = .ok (valueOf t)
  | .null => rfl
  | .bool _ => rfl
  | .integer _ => rfl
  | .number _ => rfl
  | .constant _ => rfl
  | .string _ => rfl
  | .array items => by rw [Tree.build, buildItems_keepingHooks items]; rfl
  | .object members => by rw [Tree.build, buildMembers_keepingHooks members]; rfl

theorem buildItems_keepingHooks : (items : List Tree) → buildItems keepingHooks items = .ok (valuesOf items)
  | [] => rfl
  | t :: items => by rw [buildItems, build_keepingHooks t, buildItems_keepingHooks items]; rfl

theorem buildMembers_keepingHooks : (members : List (Str × Tree)) →
    buildMembers keepingHooks members = .ok (entriesOf members)
  | [] => rfl
  | (key, t) :: members => by rw [buildMembers, build_keepingHooks t, buildMembers_keepingHooks members]; rfl

end

section

variable {s : Str} {t t' : Tree} {root root' : List (Str × Tree)}

theorem valueOf_unique (h : Spells s t) (h' : Spells s t') : valueOf t = valueOf t' := by
  obtain ⟨lim, hl, hl'⟩ := exists_loads h h' (build_keepingHooks t) (build_keepingHooks t')
  exact Except.ok.inj (hl.symm.trans hl')

theorem entriesOf_unique (h : Spells s (.object root)) (h' : Spells s (.object root')) :
    entriesOf root = entriesOf root' := by
  have hvalue := valueOf_unique h h'
  rw [valueOf, valueOf] at hvalue
  exact Value.object.inj hvalue

theorem valuesOf_eq_map (items : List Tree) : valuesOf items = items.map valueOf := by
  induction items with
  | nil => rfl
  | cons t ts ih => rw [valuesOf, ih]; rfl

/-- Whether a tree is lossless can be seen from its value. -/
theorem Lossless.of_valueOf (h : Lossless t) : ∀ t', valueOf t' = valueOf t → Lossless t' := by
  induction h with
  | null =>
    intro t' heq
    cases t' <;> simp [valueOf] at heq
    exact .null
  | bool b =>
    intro t' heq
    cases t' <;> simp [valueOf] at heq
    exact .bool _
  | integer literal =>
    intro t' heq
    cases t' <;> simp [valueOf] at heq
    exact .integer _
  | string s =>
    intro t' heq
    cases t' <;> simp [valueOf] at heq
    exact .string _
  | array hitems ih =>
    intro t' heq
    cases t' <;> simp [valueOf, valuesOf_eq_map] at heq
    refine .array fun u hu => ?_
    obtain ⟨v, hv, hvu⟩ := List.mem_map.1 (heq ▸ List.mem_map_of_mem hu)
    exact ih v hv u hvu.symm
  | object hkeys hmembers ih =>
    intro t' heq
    cases t' <;> simp [valueOf] at heq
    rename_i members'
    refine .object ?_ fun p hp => ?_
    · rw [← keys_entriesOf, heq, keys_entriesOf]
      exact hkeys
    · have hmem : (p.1, valueOf p.2) ∈ entriesOf members' := by
        rw [entriesOf_eq_map]
        exact List.mem_map_of_mem hp
      rw [heq, entriesOf_eq_map] at hmem
      obtain ⟨q, hq, hqp⟩ := List.mem_map.1 hmem
      exact ih q hq p.2 (Prod.mk.inj hqp).2.symm

theorem keys_unique (h : Spells s (.object root)) (h' : Spells s (.object root')) :
    Dict.keys root = Dict.keys root' := by
  rw [← keys_entriesOf, entriesOf_unique h h', keys_entriesOf]

theorem Standard.of_spells (h : Standard root') (hs' : Spells s (.object root')) (hs : Spells s (.object root)) :
    Standard root :=
  ⟨h.lossless.of_valueOf _ (valueOf_unique hs hs'), by rw [keys_unique hs hs']; exact h.distinct⟩

end

/-! ## The predicates of the multi-stream client -/

section

variable {lim : Limits} {m : WireMessage}

/-- The message is a text that meets a limit of the decoder without hooks. -/
def WireMessage.ExceedsPlain (lim : Limits) : WireMessage → Prop
  | .text message => Json.Exceeds plainHooks lim message
  | .binary _ => False

theorem decodeObject_total : (∃ d, decodeObject lim m = .ok d) ↔ ¬m.ExceedsPlain lim := by
  cases m with
  | binary bytes => exact ⟨fun _ => id, fun _ => ⟨_, rfl⟩⟩
  | text text =>
    rw [WireMessage.ExceedsPlain, ← loads_limit]
    cases hl : loads plainHooks lim text with
    | ok v =>
      have hno : ¬∃ e : Error Empty, (Except.ok v : Except (Error Empty) Value) = .error e ∧ e.isLimit = true := by
        rintro ⟨e, he, -⟩
        cases he
      refine iff_of_true ?_ hno
      cases v <;> exact ⟨_, by rw [decodeObject, hl]⟩
    | error e =>
      simp only [Except.error.injEq, exists_eq_left']
      cases e with
      | malformed => exact ⟨fun _ => by decide, fun _ => ⟨_, by rw [decodeObject, hl]⟩⟩
      | refused refusal => cases refusal
      | exhausted => exact absurd hl (loads_ne_exhausted _ _ _)
      | tooDeep | tooLong =>
        refine ⟨fun h => ?_, fun hno => absurd rfl hno⟩
        obtain ⟨d, hd⟩ := h
        rw [decodeObject, hl] at hd
        cases hd

/-- What is decoded is an object, as its last members say, where no limit is met. -/
theorem decodeObject_eq_some {d : Event} : decodeObject lim m = .ok (some d) ↔ ¬m.ExceedsPlain lim ∧
    ∃ text root, m = .text text ∧ Spells text (.object root) ∧ d = Dict.ofPairs (plainEntries root) := by
  constructor
  · intro h
    refine ⟨decodeObject_total.1 ⟨_, h⟩, ?_⟩
    cases m with
    | binary bytes => cases h
    | text text =>
      rw [decodeObject] at h
      split at h <;> cases h
      rename_i hl
      obtain ⟨t, ht, hb⟩ := loads_sound hl
      rw [build_plainHooks] at hb
      obtain ⟨root, rfl, rfl⟩ := plainValue_eq_object.1 (Except.ok.inj hb)
      exact ⟨text, root, rfl, ht.spells, rfl⟩
  · rintro ⟨hno, text, root, rfl, hs, rfl⟩
    rw [decodeObject, loads_of_spells hno hs (build_plainHooks _), plainValue]

/-- **`_is_known_stream`**: no limit is met, the last member `stream` is a name of the connection, and the last member
`data` an object. -/
theorem isKnownStream_iff {names : List Str} : isKnownStream lim names m = .ok true ↔ ¬m.ExceedsPlain lim ∧
    ∃ text root stream data, m = .text text ∧ Spells text (.object root) ∧
      lastMember root (str "stream") = some (.string stream) ∧ stream ∈ names ∧
        lastMember root (str "data") = some (.object data) := by
  constructor
  · intro h
    rw [isKnownStream] at h
    split at h
    · cases h
    · cases h
    · rename_i d hd
      obtain ⟨hno, text, root, rfl, hs, rfl⟩ := decodeObject_eq_some.1 hd
      rw [lookup_plainEntries, lookup_plainEntries] at h
      split at h
      · rename_i stream data hstream hdata
        obtain ⟨t, ht, htv⟩ := Option.map_eq_some_iff.1 hstream
        obtain rfl := plainValue_eq_str.1 htv
        obtain ⟨u, hu, huv⟩ := Option.map_eq_some_iff.1 hdata
        obtain ⟨members, rfl, -⟩ := plainValue_eq_object.1 huv
        exact ⟨hno, text, root, stream, members, rfl, hs, ht, by simpa using h, hu⟩
      · cases h
  · rintro ⟨hno, text, root, stream, data, rfl, hs, hstream, hmem, hdata⟩
    rw [isKnownStream, decodeObject_eq_some.2 ⟨hno, text, root, rfl, hs, rfl⟩]
    simp [lookup_plainEntries, hstream, hdata, plainValue, hmem]

/-- The message is the text of an object with a member `data`. -/
def HasData (m : WireMessage) : Prop :=
  ∃ text root, m = .text text ∧ Spells text (.object root) ∧ str "data" ∈ Dict.keys root

theorem not_hasData {d : Event} (h : decodeObject lim m = .ok (some d)) (hd : d.lookup (str "data") = none) :
    ¬HasData m := by
  rintro ⟨text, root, rfl, hs, hkey⟩
  have hno : ¬(WireMessage.text text).ExceedsPlain lim := decodeObject_total.1 ⟨_, h⟩
  have hsame : d = Dict.ofPairs (plainEntries root) := by
    rw [decodeObject, loads_of_spells hno hs (build_plainHooks _), plainValue] at h
    exact (Option.some.inj (Except.ok.inj h)).symm
  rw [hsame, lookup_plainEntries, Option.map_eq_none_iff, lastMember_eq_none] at hd
  exact hd hkey

/-- **`_is_server_shutdown` of the multi-stream client**, where there is no `data`: no limit is met, and the last member
`e` tells. -/
theorem isServerShutdown_iff (hdata : ¬HasData m) : isServerShutdown lim m = .ok true ↔ ¬m.ExceedsPlain lim ∧
    ∃ text root, m = .text text ∧ Spells text (.object root) ∧
      lastMember root (str "e") = some (.string (str "serverShutdown")) := by
  have hlast : ∀ {text root}, m = .text text → Spells text (.object root) →
      lastMember root (str "data") = none := fun hm hs =>
    lastMember_eq_none.2 fun hkey => hdata ⟨_, _, hm, hs, hkey⟩
  constructor
  · intro h
    rw [isServerShutdown] at h
    split at h
    · cases h
    · cases h
    · rename_i d hd
      obtain ⟨hno, text, root, hm, hs, rfl⟩ := decodeObject_eq_some.1 hd
      simp only [lookup_plainEntries, hlast hm hs, Option.map_none] at h
      exact ⟨hno, text, root, hm, hs, any_equalsStr.1 (Except.ok.inj h)⟩
  · rintro ⟨hno, text, root, hm, hs, he⟩
    rw [isServerShutdown, decodeObject_eq_some.2 ⟨hno, text, root, hm, hs, rfl⟩]
    simp only [lookup_plainEntries, hlast hm hs, Option.map_none]
    rw [any_equalsStr.2 he]

theorem isServerShutdown_total : (∃ b, isServerShutdown lim m = .ok b) ↔ ¬m.ExceedsPlain lim := by
  rw [← decodeObject_total]
  constructor
  · rintro ⟨b, hb⟩
    cases hd : decodeObject lim m with
    | ok d => exact ⟨d, rfl⟩
    | error failure => rw [isServerShutdown, hd] at hb; cases hb
  · rintro ⟨d, hd⟩
    rw [isServerShutdown, hd]
    cases d with
    | none => exact ⟨_, rfl⟩
    | some decoded =>
      simp only
      split <;> exact ⟨_, rfl⟩

end

end BinanceCollector
