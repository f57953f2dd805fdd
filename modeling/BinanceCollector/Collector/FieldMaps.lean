import BinanceCollector.Collector.MultiParser

/-!
# The field maps

`FIELD_NAMES` and the five maps of `FIELD_NAMES_BY_STREAM` give a letter a different meaning for each stream. What they
have in common is `FieldMap`, and from it follows what `rename_fields` does with any payload.

- `FieldMap.nodup_iff`: the new names are distinct exactly when no key is there beside its new name.
- `FieldMap.error_name`: the name that `FieldNameCollisionError` carries.
- **`renameFields_fieldMaps`**: collision and result, for every one of the six maps and every payload.
-/

namespace BinanceCollector

open Text Json

/-- A map of field names: no field gets an old name, and no two fields get one name. -/
structure FieldMap (names : List (Str × Str)) : Prop where
  renames : ∀ p ∈ names, fieldName names p.1 = p.2
  fresh : ∀ p ∈ names, p.2 ∉ Dict.keys names
  injective : ∀ p ∈ names, ∀ q ∈ names, p.2 = q.2 → p.1 = q.1

theorem fieldMap_fieldNames : FieldMap fieldNames where
  renames := by decide
  fresh := by decide
  injective := by decide

theorem fieldMap_fieldNamesByStream (t : StreamType) : FieldMap (fieldNamesByStream t) := by
  cases t <;> exact ⟨by decide, by decide, by decide⟩

/-- The field maps of the program. -/
def fieldMaps : List (List (Str × Str)) :=
  fieldNames :: [StreamType.aggTrade, .depth, .bookTicker, .kline, .markPrice].map fieldNamesByStream

theorem fieldMap_of_mem {names : List (Str × Str)} (h : names ∈ fieldMaps) : FieldMap names := by
  rcases List.mem_cons.1 h with rfl | hmem
  · exact fieldMap_fieldNames
  · obtain ⟨t, -, rfl⟩ := List.mem_map.1 hmem
    exact fieldMap_fieldNamesByStream t

variable {names : List (Str × Str)}

/-! ## Names that stay distinct -/

/-- The names that become a new name: the old one and itself. -/
theorem FieldMap.eq_iff (h : FieldMap names) {p : Str × Str} (hp : p ∈ names) (name : Str) :
    fieldName names name = p.2 ↔ name = p.1 ∨ name = p.2 := by
  constructor
  · intro hname
    rcases fieldName_cases names name with hmem | ⟨hsame, -⟩
    · exact .inl (h.injective _ hmem _ hp hname)
    · exact .inr (hsame.symm.trans hname)
  · rintro (rfl | rfl)
    · exact h.renames _ hp
    · exact fieldName_eq_self (h.fresh _ hp)

/-- Two names that become one name: the old one and the new one of an entry. -/
theorem FieldMap.merged (h : FieldMap names) {x y : Str} (hne : x ≠ y) (hxy : fieldName names x = fieldName names y) :
    ∃ p ∈ names, fieldName names x = p.2 ∧ (p.1 = x ∧ p.2 = y ∨ p.1 = y ∧ p.2 = x) := by
  rcases fieldName_cases names x with hmx | ⟨hsx, -⟩
  · refine ⟨_, hmx, rfl, .inl ⟨rfl, ?_⟩⟩
    rcases fieldName_cases names y with hmy | ⟨hsy, -⟩
    · exact absurd (h.injective _ hmx _ hmy hxy) hne
    · exact hxy.trans hsy
  · rcases fieldName_cases names y with hmy | ⟨hsy, -⟩
    · exact ⟨_, hmy, hxy, .inr ⟨rfl, hxy.symm.trans hsx⟩⟩
    · exact absurd (hsx.symm.trans (hxy.trans hsy)) hne

/-- **Keys stay distinct exactly when none is there beside its new name.** -/
theorem FieldMap.nodup_iff (h : FieldMap names) {keys : List Str} (hn : keys.Nodup) :
    (keys.map (fieldName names)).Nodup ↔ ∀ p ∈ names, p.1 ∈ keys → p.2 ∉ keys := by
  rw [List.nodup_map_iff_inj_on hn]
  constructor
  · intro hinj p hp hold hnew
    have heq : p.1 = p.2 := hinj _ hold _ hnew ((h.renames p hp).trans (fieldName_eq_self (h.fresh p hp)).symm)
    exact h.fresh p hp (heq ▸ List.mem_map.2 ⟨p, hp, rfl⟩)
  · intro hfree x hx y hy hxy
    by_contra hne
    obtain ⟨p, hp, -, ⟨rfl, rfl⟩ | ⟨rfl, rfl⟩⟩ := h.merged hne hxy
    · exact hfree p hp hx hy
    · exact hfree p hp hy hx

/-! ## Renaming a payload -/

/-- A key of the payload is mapped, and its new name is a key as well. -/
def Collides (names : List (Str × Str)) (payload : List (Str × Value)) : Prop :=
  ∃ p ∈ names, p.1 ∈ Dict.keys payload ∧ p.2 ∈ Dict.keys payload

variable {payload result : List (Str × Value)}

theorem FieldMap.ok_iff (h : FieldMap names) (hn : (Dict.keys payload).Nodup) :
    renameFields payload names = .ok result ↔
      result = Dict.rename (fieldName names) payload ∧ ¬Collides names payload := by
  rw [renameFields_eq_ok, h.nodup_iff hn]
  refine and_congr_right fun _ => ?_
  simp [Collides]

/-- One dictionary has a name of the map, and the other has its new name. -/
def Overlap (names : List (Str × Str)) (d d' : List (Str × Value)) : Prop :=
  ∃ p ∈ names, p.1 ∈ Dict.keys d ∧ p.2 ∈ Dict.keys d' ∨ p.1 ∈ Dict.keys d' ∧ p.2 ∈ Dict.keys d

/-- Names of dictionaries that do not overlap stay distinct. -/
theorem FieldMap.injective_of_not_overlap (h : FieldMap names) {d d' : List (Str × Value)} (hno : ¬Overlap names d d') :
    ∀ k ∈ Dict.keys d, ∀ k' ∈ Dict.keys d', fieldName names k = fieldName names k' → k = k' := by
  intro k hk k' hk' heq
  by_contra hne
  obtain ⟨p, hp, -, ⟨rfl, rfl⟩ | ⟨rfl, rfl⟩⟩ := h.merged hne heq
  · exact hno ⟨p, hp, .inl ⟨hk, hk'⟩⟩
  · exact hno ⟨p, hp, .inr ⟨hk', hk⟩⟩

/-- A dictionary that can be renamed does not overlap with one that has the same keys. -/
theorem FieldMap.not_overlap (h : FieldMap names) (hok : renameFields payload names = .ok result)
    {d : List (Str × Value)} (hkeys : (Dict.keys payload).Perm (Dict.keys d)) : ¬Overlap names payload d := by
  obtain ⟨-, hnodup⟩ := renameFields_eq_ok.1 hok
  have hfree := (h.nodup_iff hnodup.of_map).1 hnodup
  rintro ⟨p, hp, ⟨hold, hnew⟩ | ⟨hold, hnew⟩⟩
  · exact hfree p hp hold (hkeys.mem_iff.2 hnew)
  · exact hfree p hp (hkeys.mem_iff.2 hold) hnew

/-- **`FieldNameCollisionError` carries the new name of a key that is there beside it.** -/
theorem FieldMap.error_name (h : FieldMap names) (hn : (Dict.keys payload).Nodup) {name : Str}
    (herror : renameFields payload names = .error name) :
    ∃ p ∈ names, p.2 = name ∧ p.1 ∈ Dict.keys payload ∧ p.2 ∈ Dict.keys payload := by
  obtain ⟨pre, q, post, rfl, rfl, hmem⟩ := Dict.collect_error herror
  rw [List.nil_append, Dict.keys_rename, List.mem_map] at hmem
  obtain ⟨x, hx, hxq⟩ := hmem
  have hne : q.1 ≠ x := by
    rintro rfl
    rw [Dict.keys, List.map_append, List.map_cons] at hn
    exact List.disjoint_of_nodup_append hn hx List.mem_cons_self
  have hx : x ∈ Dict.keys (pre ++ q :: post) := by simp [hx]
  have hq : q.1 ∈ Dict.keys (pre ++ q :: post) := by simp
  obtain ⟨p, hp, hname, ⟨hold, hnew⟩ | ⟨hold, hnew⟩⟩ := h.merged hne hxq.symm
  · exact ⟨p, hp, hname.symm, hold ▸ hq, hnew ▸ hx⟩
  · exact ⟨p, hp, hname.symm, hold ▸ hx, hnew ▸ hq⟩

/-- What has been renamed is renamed to itself. -/
theorem FieldMap.rename_again (h : FieldMap names) (hok : renameFields payload names = .ok result) :
    renameFields result names = .ok result := by
  obtain ⟨rfl, hnodup⟩ := renameFields_eq_ok.1 hok
  have hsame : ∀ k ∈ Dict.keys (Dict.rename (fieldName names) payload), fieldName names k = k := by
    intro k hk
    rw [Dict.keys_rename, List.mem_map] at hk
    obtain ⟨old, -, rfl⟩ := hk
    exact fieldName_eq_self (fieldName_notMem h.fresh old)
  refine renameFields_eq_ok.2 ⟨(Dict.rename_eq_self hsame).symm, ?_⟩
  rwa [List.map_congr_left hsame, List.map_id', Dict.keys_rename]

/-- **`rename_fields` with the maps of the program.** -/
theorem renameFields_fieldMaps (hnames : names ∈ fieldMaps) (hn : (Dict.keys payload).Nodup) :
    ((∃ name, renameFields payload names = .error name) ↔ Collides names payload) ∧
    (¬Collides names payload → ∃ result, renameFields payload names = .ok result ∧
      result.length = payload.length ∧ result.map (·.2) = payload.map (·.2) ∧
      (∀ i : ℕ, (Dict.keys result)[i]? = (Dict.keys payload)[i]?.map (fieldName names)) ∧
      renameFields result names = .ok result) := by
  have h := fieldMap_of_mem hnames
  constructor
  · constructor
    · rintro ⟨name, herror⟩
      obtain ⟨p, hp, -, hold, hnew⟩ := h.error_name hn herror
      exact ⟨p, hp, hold, hnew⟩
    · intro hcollides
      cases hr : renameFields payload names with
      | error name => exact ⟨name, rfl⟩
      | ok result => exact absurd hcollides ((h.ok_iff hn).1 hr).2
  · intro hfree
    have hok := (h.ok_iff hn).2 ⟨rfl, hfree⟩
    refine ⟨_, hok, ?_, ?_, ?_, h.rename_again hok⟩
    · simp [Dict.rename]
    · simp [Dict.rename]
    · intro i
      rw [Dict.keys_rename, List.getElem?_map]

/-- An ask price under its old and its new name, and without the latter. -/
theorem renameFields_fieldMaps_bookTicker :
    (∃ name, renameFields [(str "a", .str (str "11")), (str "ask_price", .str (str "12")),
      (str "s", .str (str "BTCUSDT"))] (fieldNamesByStream .bookTicker) = .error name) ∧
    ∃ result, renameFields [(str "a", .str (str "11")), (str "s", .str (str "BTCUSDT"))]
      (fieldNamesByStream .bookTicker) = .ok result ∧
      renameFields result (fieldNamesByStream .bookTicker) = .ok result := by
  have hmap : fieldNamesByStream .bookTicker ∈ fieldMaps := by simp [fieldMaps]
  constructor
  · exact (renameFields_fieldMaps hmap (by decide)).1.2 ⟨(str "a", str "ask_price"), by decide, by decide, by decide⟩
  · have hfree : ¬Collides (fieldNamesByStream .bookTicker)
        [(str "a", .str (str "11")), (str "s", .str (str "BTCUSDT"))] := by
      rw [Collides]
      decide
    obtain ⟨result, hok, -, -, -, hagain⟩ := (renameFields_fieldMaps hmap (by decide)).2 hfree
    exact ⟨result, hok, hagain⟩

end BinanceCollector
