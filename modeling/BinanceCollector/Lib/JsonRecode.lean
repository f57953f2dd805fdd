import BinanceCollector.Lib.JsonDump

/-!
# What has been decoded can be encoded

Where the hooks build exact values only, a decoded value is within the limits of an encoder that has the limits of the
decoder: its containers nest no deeper than those of the text, and an integer in decimal has no more digits than its
literal.

- `loads_exact`: a decoded value is exact.
- `loads_fits`: a decoded value is encoded.
- `forall_mem_dump`: without `ascii` the text has the characters of the texts in the value and ASCII ones.
-/

namespace Json

open Text

/-- Hooks that build exact values only. -/
structure Hooks.Strict {ω : Type*} (h : Hooks ω) : Prop where
  object : ∀ {members v}, h.object members = .ok v → v = .object members ∧ (Dict.keys members).Nodup
  float : ∀ {raw v}, h.float raw ≠ .ok v
  constant : ∀ {raw v}, h.constant raw ≠ .ok v

variable {ω : Type*} {h : Hooks ω} {lim : Limits} {style : Style} {digits d : ℕ}

theorem build_array {items : List Tree} {v : Value} (hb : (Tree.array items).build h = .ok v) :
    ∃ vs, buildItems h items = .ok vs ∧ v = .array vs := by
  rw [Tree.build] at hb
  cases hvs : buildItems h items with
  | error e => rw [hvs] at hb; cases hb
  | ok vs => rw [hvs] at hb; cases hb; exact ⟨vs, rfl, rfl⟩

theorem build_object (hs : h.Strict) {members : List (Str × Tree)} {v : Value}
    (hb : (Tree.object members).build h = .ok v) :
    ∃ ms, buildMembers h members = .ok ms ∧ v = .object ms ∧ (Dict.keys ms).Nodup := by
  rw [Tree.build] at hb
  cases hms : buildMembers h members with
  | error e => rw [hms] at hb; cases hb
  | ok ms => rw [hms] at hb; exact ⟨ms, rfl, hs.object hb⟩

/-! ## Decoded values are exact -/

mutual

theorem build_exact (hs : h.Strict) : (t : Tree) → ∀ {v}, t.build h = .ok v → Exact v
  | .null, _, hb => by cases hb; exact .null
  | .bool b, _, hb => by cases hb; exact .bool b
  | .integer _, _, hb => by cases hb; exact .int _
  | .number _, _, hb => absurd hb hs.float
  | .constant _, _, hb => absurd hb hs.constant
  | .string s, _, hb => by cases hb; exact .str s
  | .array items, _, hb => by
    obtain ⟨vs, hvs, rfl⟩ := build_array hb
    exact .array (buildItems_exact hs items hvs)
  | .object members, _, hb => by
    obtain ⟨ms, hms, rfl, hn⟩ := build_object hs hb
    exact .object hn (buildMembers_exact hs members hms)

theorem buildItems_exact (hs : h.Strict) : (items : List Tree) → ∀ {vs}, buildItems h items = .ok vs →
    ∀ v ∈ vs, Exact v
  | [], _, hb => by cases hb; exact List.forall_mem_nil _
  | t :: ts, _, hb => by
    obtain ⟨v, vs, hv, hvs, rfl⟩ := buildItems_cons hb
    exact List.forall_mem_cons.2 ⟨build_exact hs t hv, buildItems_exact hs ts hvs⟩

theorem buildMembers_exact (hs : h.Strict) : (members : List (Str × Tree)) → ∀ {ms}, buildMembers h members = .ok ms →
    ∀ p ∈ ms, Exact p.2
  | [], _, hb => by cases hb; exact List.forall_mem_nil _
  | (_, t) :: members, _, hb => by
    obtain ⟨v, vs, hv, hvs, rfl⟩ := buildMembers_cons hb
    exact List.forall_mem_cons.2 ⟨build_exact hs t hv, buildMembers_exact hs members hvs⟩

end

/-! ## Values that can be encoded -/

/-- The value is encoded, where its containers may nest this deep. -/
def Fits (style : Style) (digits d : ℕ) (v : Value) : Prop := ∃ s, v.dump style digits d = .ok s

theorem fits_items {items : List Value} :
    (∃ ts, dumpItems style digits d items = .ok ts) ↔ ∀ v ∈ items, Fits style digits d v := by
  induction items with
  | nil => exact ⟨fun _ => List.forall_mem_nil _, fun _ => ⟨[], rfl⟩⟩
  | cons v vs ih =>
    rw [List.forall_mem_cons, ← ih]
    constructor
    · rintro ⟨ts, hts⟩
      obtain ⟨t, ts', hv, hvs, -⟩ := dumpItems_cons hts
      exact ⟨⟨t, hv⟩, ts', hvs⟩
    · rintro ⟨⟨t, hv⟩, ts, hvs⟩
      exact ⟨t :: ts, by rw [dumpItems, hv, hvs]; rfl⟩

theorem fits_members {members : List (Str × Value)} :
    (∃ ts, dumpMembers style digits d members = .ok ts) ↔ ∀ p ∈ members, Fits style digits d p.2 := by
  induction members with
  | nil => exact ⟨fun _ => List.forall_mem_nil _, fun _ => ⟨[], rfl⟩⟩
  | cons p ms ih =>
    obtain ⟨key, v⟩ := p
    rw [List.forall_mem_cons, ← ih]
    constructor
    · rintro ⟨ts, hts⟩
      obtain ⟨t, ts', hv, hvs, -⟩ := dumpMembers_cons hts
      exact ⟨⟨t, hv⟩, ts', hvs⟩
    · rintro ⟨⟨t, hv⟩, ts, hvs⟩
      exact ⟨_, by rw [dumpMembers, hv, hvs]; rfl⟩

theorem fits_array {items : List Value} (hv : ∀ v ∈ items, Fits style digits d v) :
    Fits style digits (d + 1) (.array items) := by
  obtain ⟨ts, hts⟩ := fits_items.2 hv
  exact ⟨_, by rw [Value.dump, hts]; rfl⟩

/-- **An object is encoded when its values are**, whatever its keys. -/
theorem fits_object {members : List (Str × Value)} :
    Fits style digits (d + 1) (.object members) ↔ ∀ p ∈ members, Fits style digits d p.2 := by
  rw [← fits_members]
  constructor
  · rintro ⟨s, hs⟩
    rw [Value.dump] at hs
    cases hts : dumpMembers style digits d members with
    | error e => rw [hts] at hs; cases hs
    | ok ts => exact ⟨ts, rfl⟩
  · rintro ⟨ts, hts⟩
    exact ⟨_, by rw [Value.dump, hts]; rfl⟩

mutual

/-- A text does not depend on limits that it keeps. -/
theorem dump_mono {digits' : ℕ} (hdigits : digits ≤ digits') : (v : Value) → ∀ {d d' s}, d ≤ d' →
    v.dump style digits d = .ok s → v.dump style digits' d' = .ok s
  | .null, d, d', _, _, h | .bool _, d, d', _, _, h | .float _, d, d', _, _, h | .str _, d, d', _, _, h => by
    cases d <;> cases d' <;> exact h
  | .int n, d, d', s, _, h => by
    have hs : ¬digits < (decimal n.natAbs).length ∧ dumpInt n = s := by
      cases d <;> simp only [Value.dump] at h <;> split at h <;> cases h <;> exact ⟨‹_›, rfl⟩
    have hlong : ¬digits' < (decimal n.natAbs).length := fun hlt => hs.1 (Nat.lt_of_le_of_lt hdigits hlt)
    rw [← hs.2]
    cases d' <;> exact if_neg hlong
  | .array _, 0, _, _, _, h | .object _, 0, _, _, _, h => by cases h
  | .array _, _ + 1, 0, _, hd, _ | .object _, _ + 1, 0, _, hd, _ => absurd hd (Nat.not_succ_le_zero _)
  | .array items, d + 1, d' + 1, s, hd, h => by
    rw [Value.dump] at h ⊢
    cases hts : dumpItems style digits d items with
    | error e => rw [hts] at h; cases h
    | ok ts =>
      rw [hts] at h
      rw [dumpItems_mono hdigits items (Nat.le_of_succ_le_succ hd) hts]
      exact h
  | .object members, d + 1, d' + 1, s, hd, h => by
    rw [Value.dump] at h ⊢
    cases hts : dumpMembers style digits d members with
    | error e => rw [hts] at h; cases h
    | ok ts =>
      rw [hts] at h
      rw [dumpMembers_mono hdigits members (Nat.le_of_succ_le_succ hd) hts]
      exact h

theorem dumpItems_mono {digits' : ℕ} (hdigits : digits ≤ digits') : (items : List Value) → ∀ {d d' ts}, d ≤ d' →
    dumpItems style digits d items = .ok ts → dumpItems style digits' d' items = .ok ts
  | [], _, _, _, _, h => h
  | v :: vs, d, d', ts, hd, h => by
    obtain ⟨t, ts', hv, hvs, rfl⟩ := dumpItems_cons h
    rw [dumpItems, dump_mono hdigits v hd hv, dumpItems_mono hdigits vs hd hvs]
    rfl

theorem dumpMembers_mono {digits' : ℕ} (hdigits : digits ≤ digits') : (members : List (Str × Value)) →
    ∀ {d d' ts}, d ≤ d' → dumpMembers style digits d members = .ok ts →
      dumpMembers style digits' d' members = .ok ts
  | [], _, _, _, _, h => h
  | (key, v) :: ms, d, d', ts, hd, h => by
    obtain ⟨t, ts', hv, hms, rfl⟩ := dumpMembers_cons h
    rw [dumpMembers, dump_mono hdigits v hd hv, dumpMembers_mono hdigits ms hd hms]
    rfl

end

theorem Fits.mono {digits' d' : ℕ} {v : Value} (h : Fits style digits d v) (hdigits : digits ≤ digits')
    (hd : d ≤ d') : Fits style digits' d' v := h.imp fun _ hs => dump_mono hdigits v hd hs

theorem fits_null : Fits style digits d .null := ⟨str "null", by cases d <;> rfl⟩

theorem fits_bool (b : Bool) : Fits style digits d (.bool b) :=
  ⟨str (if b then "true" else "false"), by cases d <;> rfl⟩

theorem fits_str (s : Str) : Fits style digits d (.str s) := ⟨dumpString style.ascii s, by cases d <;> rfl⟩

theorem fits_int {n : ℤ} (hn : (decimal n.natAbs).length ≤ digits) : Fits style digits d (.int n) :=
  ⟨dumpInt n, by cases d <;> exact if_neg (not_lt.2 hn)⟩

/-! ## Digits -/

theorem natOfDigits_lt {ds : Str} (hds : ∀ c ∈ ds, isDigit c = true) : natOfDigits ds < 10 ^ ds.length := by
  induction ds using List.reverseRecOn with
  | nil => decide
  | append_singleton ds c ih =>
    have hc : 48 ≤ c.val ∧ c.val ≤ 57 := of_decide_eq_true (hds c (by simp))
    have ih := ih fun x hx => hds x (List.mem_append_left _ hx)
    rw [natOfDigits, List.foldl_append, ← natOfDigits, List.foldl_cons, List.foldl_nil, List.length_append,
      List.length_singleton, pow_succ]
    have hzero : (code '0').val = 48 := rfl
    omega

/-- A number has no more digits in decimal than where it is written. -/
theorem length_decimal_le {ds : Str} (hds : ∀ c ∈ ds, isDigit c = true) (hne : ds ≠ []) :
    (decimal (natOfDigits ds)).length ≤ ds.length := by
  rw [decimal, List.length_map, Nat.length_toDigits_le_iff (by decide) (List.length_pos_iff.2 hne)]
  exact natOfDigits_lt hds

theorem takeDigits_digits (s : Str) : ∀ c ∈ (takeDigits s).1, isDigit c = true := by
  induction s with
  | nil => exact List.forall_mem_nil _
  | cons c s ih =>
    rw [takeDigits]
    split
    · rename_i hc
      exact List.forall_mem_cons.2 ⟨hc, ih⟩
    · exact List.forall_mem_nil _

theorem takeInteger_isDigit {s ds r : Str} (h : takeInteger s = some (ds, r)) :
    ds ≠ [] ∧ ∀ c ∈ ds, isDigit c = true := by
  cases s with
  | nil => cases h
  | cons c s =>
    rw [takeInteger] at h
    split at h
    · rename_i hc
      cases h
      exact ⟨List.cons_ne_nil _ _, List.forall_mem_singleton.2 (by rw [hc]; decide)⟩
    split at h
    · rename_i hc
      cases h
      exact ⟨List.cons_ne_nil _ _, List.forall_mem_cons.2 ⟨hc, takeDigits_digits s⟩⟩
    · cases h

theorem intOfLiteral_digits {ds : Str} (hds : ∀ c ∈ ds, isDigit c = true) : intOfLiteral ds = natOfDigits ds := by
  cases ds with
  | nil => rfl
  | cons c ds => rw [intOfLiteral, if_neg (not_minus_of_isDigit (hds c List.mem_cons_self))]

/-- **An integer has no more digits than its literal.** -/
theorem digits_of_scanNumber {s literal r : Str} (hs : scanNumber s = some (literal, [], r)) :
    (decimal (intOfLiteral literal).natAbs).length ≤ digitCount literal := by
  unfold scanNumber at hs
  dsimp only at hs
  split at hs
  · cases hs
  rename_i ds t ht
  obtain ⟨hne, hds⟩ := takeInteger_isDigit ht
  have hlen := length_decimal_le hds hne
  have hfilter : ds.filter isDigit = ds := List.filter_eq_self.2 hds
  simp only [Option.some.injEq, Prod.mk.injEq] at hs
  obtain ⟨rfl, -, -⟩ := hs
  have hsign : (takeSign (fun c => decide (c = code '-')) s).1 = [] ∨
      (takeSign (fun c => decide (c = code '-')) s).1 = [code '-'] := by
    cases s with
    | nil => exact .inl rfl
    | cons c s =>
      rw [takeSign]
      split
      · rename_i hc
        exact .inr (by rw [of_decide_eq_true hc])
      · exact .inl rfl
  rcases hsign with hsign | hsign
  · rw [hsign, List.nil_append, digitCount, hfilter, intOfLiteral_digits hds]
    exact hlen
  · rw [hsign, List.singleton_append, digitCount, List.filter_cons_of_neg (by decide), hfilter, intOfLiteral, if_pos rfl,
      Int.natAbs_neg]
    exact hlen

/-! ## Decoded values can be encoded -/

theorem scalar_fits (hs : h.Strict) {s r : Str} {t : Tree} {v : Value} (ht : Scalar s t r) (hb : t.build h = .ok v)
    (hshort : Short digits t.integers) : Fits style digits d v := by
  cases ht with
  | word hmem =>
    simp only [wordTrees, List.mem_cons, Prod.mk.injEq, List.not_mem_nil, or_false] at hmem
    rcases hmem with ⟨-, rfl⟩ | ⟨-, rfl⟩ | ⟨-, rfl⟩ | ⟨-, rfl⟩ | ⟨-, rfl⟩ | ⟨-, rfl⟩
    · cases hb; exact fits_null
    · cases hb; exact fits_bool _
    · cases hb; exact fits_bool _
    all_goals exact absurd hb hs.constant
  | integer hn =>
    cases hb
    exact fits_int ((digits_of_scanNumber hn).trans (hshort _ (List.mem_singleton_self _)))
  | number => exact absurd hb hs.float
  | string => cases hb; exact fits_str _

/-- What is built from a tree of this grammar is encoded. -/
def Encodes (h : Hooks ω) (style : Style) (digits d : ℕ) (V : Grammar) : Prop :=
  ∀ s t r v, V s t r → t.build h = .ok v → Short digits t.integers → Fits style digits d v

theorem members_fits {V : Grammar} (hV : Encodes h style digits d V) {s r : Str} {members : List (Str × Tree)}
    (hms : Members V s members r) : ∀ {ms}, buildMembers h members = .ok ms →
      Short digits (integersOfMembers members) → ∀ p ∈ ms, Fits style digits d p.2 := by
  induction hms with
  | last hkey hs₁ ht hs₃ =>
    intro ms hb hshort
    obtain ⟨v, vs, hv, hvs, rfl⟩ := buildMembers_cons hb
    cases hvs
    exact List.forall_mem_singleton.2 (hV _ _ _ _ ht hv (short_append.1 hshort).1)
  | more hkey hs₁ ht hs₃ hms ih =>
    intro ms hb hshort
    obtain ⟨v, vs, hv, hvs, rfl⟩ := buildMembers_cons hb
    obtain ⟨hfirst, hrest⟩ := short_append.1 hshort
    exact List.forall_mem_cons.2 ⟨hV _ _ _ _ ht hv hfirst, ih hvs hrest⟩

theorem items_fits {V : Grammar} (hV : Encodes h style digits d V) {s r : Str} {items : List Tree}
    (hts : Items V s items r) : ∀ {vs}, buildItems h items = .ok vs → Short digits (integersOfItems items) →
      ∀ v ∈ vs, Fits style digits d v := by
  induction hts with
  | last ht hs₁ =>
    intro vs hb hshort
    obtain ⟨v, vs, hv, hvs, rfl⟩ := buildItems_cons hb
    cases hvs
    exact List.forall_mem_singleton.2 (hV _ _ _ _ ht hv (short_append.1 hshort).1)
  | more ht hs₁ hts ih =>
    intro vs hb hshort
    obtain ⟨v, vs, hv, hvs, rfl⟩ := buildItems_cons hb
    obtain ⟨hfirst, hrest⟩ := short_append.1 hshort
    exact List.forall_mem_cons.2 ⟨hV _ _ _ _ ht hv hfirst, ih hvs hrest⟩

theorem nested_fits (hs : h.Strict) : ∀ d, Encodes h style digits d (Nested d)
  | 0 => fun _ _ _ _ => scalar_fits hs
  | d + 1 => fun s t r v ht hb hshort => by
    have ih := nested_fits hs d
    cases ht with
    | scalar ht => exact scalar_fits hs ht hb hshort
    | emptyObject =>
      obtain ⟨ms, hms, rfl, -⟩ := build_object hs hb
      cases hms
      exact fits_object.2 (List.forall_mem_nil _)
    | object hmembers =>
      obtain ⟨ms, hms, rfl, -⟩ := build_object hs hb
      exact fits_object.2 (members_fits ih hmembers hms hshort)
    | emptyArray =>
      obtain ⟨vs, hvs, rfl⟩ := build_array hb
      cases hvs
      exact fits_array (List.forall_mem_nil _)
    | array _ _ hitems =>
      obtain ⟨vs, hvs, rfl⟩ := build_array hb
      exact fits_array (items_fits ih hitems hvs hshort)

/-- A decoded value is exact. -/
theorem loads_exact (hs : h.Strict) {s : Str} {v : Value} (hl : loads h lim s = .ok v) : Exact v := by
  obtain ⟨t, -, hb⟩ := loads_sound hl
  exact build_exact hs t hb

/-- **A decoded value is encoded**, within the limits of the decoder. -/
theorem loads_fits (hs : h.Strict) {s : Str} {v : Value} (hl : loads h lim s = .ok v) :
    Fits style lim.digits lim.depth v := by
  obtain ⟨t, ⟨-, ⟨r, ht, -⟩, hshort⟩, hb⟩ := loads_sound hl
  exact nested_fits hs lim.depth _ _ _ _ ht hb hshort

/-! ## Characters -/

section Characters

variable {P : CodePoint → Prop} (hP : ∀ c : CodePoint, c.val < 0x80 → P c)
include hP

theorem forall_visible {s : Str} (hs : ∀ c ∈ s, Visible true c) : ∀ c ∈ s, P c := fun c hc =>
  hP c (((hs c hc).2 rfl).trans (by decide))

theorem unescape_ascii {c e : CodePoint} (h : unescape e = some c) : P c := by
  unfold unescape at h
  split at h
  · rename_i he
    cases h
    rcases he with rfl | rfl | rfl <;> exact hP _ (by decide)
  all_goals repeat' split at h
  all_goals cases h
  all_goals exact hP _ (by decide)

theorem Written.forall_mem {c : CodePoint} {t : Str} (hw : Written false c t) : (∀ x ∈ t, P x) ↔ P c := by
  cases hw with
  | short _ hback hlow hhigh =>
    refine iff_of_true ?_ (unescape_ascii hP hback)
    exact List.forall_mem_cons.2 ⟨hP _ (by decide), List.forall_mem_singleton.2 (hP _ (hhigh.trans (by decide)))⟩
  | plain => exact List.forall_mem_singleton
  | unit _ hctl =>
    exact iff_of_true (forall_visible hP fun x hx => visible_of_ascii (unitEscape_visible _ x hx))
      (hP _ ((hctl rfl).trans (by decide)))
  | pair hascii => cases hascii

/-- A string with its quotes has the characters of the text. -/
theorem forall_mem_dumpString (s : Str) : (∀ c ∈ dumpString false s, P c) ↔ ∀ c ∈ s, P c := by
  have hquote : P (code '"') := hP _ (by decide)
  rw [dumpString, List.forall_mem_cons, List.forall_mem_append, List.forall_mem_singleton]
  simp only [hquote, true_and, and_true, escape, List.mem_flatMap, forall_exists_index, and_imp]
  constructor
  · intro h c hc
    exact ((written_escapeChar false c).forall_mem hP).1 fun x hx => h x c hc hx
  · intro h x c hc hx
    exact ((written_escapeChar false c).forall_mem hP).2 (h c hc) x hx

theorem forall_mem_commas (ts : List Str) : (∀ c ∈ commas ts, P c) ↔ ∀ t ∈ ts, ∀ c ∈ t, P c := by
  induction ts with
  | nil => simp [commas]
  | cons t ts ih =>
    cases ts with
    | nil => simp [commas]
    | cons u ts =>
      have hcomma : P (code ',') := hP _ (by decide)
      rw [commas_cons (List.cons_ne_nil _ _), List.forall_mem_append, List.forall_mem_cons, ih, and_iff_right hcomma]
      exact (List.forall_mem_cons (p := fun t => ∀ c ∈ t, P c)).symm

theorem forall_mem_dumpInt (n : ℤ) : ∀ c ∈ dumpInt n, P c := by
  have hdigits : ∀ c ∈ decimal n.natAbs, P c := fun c hc =>
    hP c (((isDigit_visible ((digits_decimal n.natAbs).digits c hc)).2).trans (by decide))
  unfold dumpInt
  split
  · exact List.forall_mem_cons.2 ⟨hP _ (by decide), hdigits⟩
  · exact hdigits

/-- Between two characters of ASCII. -/
theorem forall_mem_brackets {a b : CodePoint} (ha : a.val < 0x80) (hb : b.val < 0x80) (ts : List Str) :
    (∀ c ∈ a :: (commas ts ++ [b]), P c) ↔ ∀ t ∈ ts, ∀ c ∈ t, P c := by
  rw [List.forall_mem_cons, List.forall_mem_append, List.forall_mem_singleton, forall_mem_commas hP,
    and_iff_right (hP a ha), and_iff_left (hP b hb)]

end Characters

section Values

variable {P : CodePoint → Prop}

mutual

/-- **The characters of an encoded value** are those of its texts, and ASCII ones. -/
theorem forall_mem_dump (hP : ∀ c : CodePoint, c.val < 0x80 → P c) (hascii : style.ascii = false) : (v : Value) →
    Exact v → ∀ {d s}, v.dump style digits d = .ok s → ((∀ c ∈ s, P c) ↔ Texts (fun t => ∀ c ∈ t, P c) v)
  | .null, _, d, s, h => by
    have hs : s = str "null" := by cases d <;> cases h <;> rfl
    subst hs
    exact iff_of_true (forall_visible hP (dumped_null : Dumped true 0 0 _ _).visible) .null
  | .bool b, _, d, s, h => by
    have hs : s = str (if b then "true" else "false") := by cases d <;> cases h <;> rfl
    subst hs
    exact iff_of_true (forall_visible hP (dumped_bool b : Dumped true 0 0 _ _).visible) (.bool b)
  | .int n, _, d, s, h => by
    have hs : s = dumpInt n := by
      cases d <;> simp only [Value.dump] at h <;> split at h <;> cases h <;> rfl
    subst hs
    exact iff_of_true (forall_mem_dumpInt hP n) (.int n)
  | .float _, he, _, _, _ => by cases he
  | .str t, _, d, s, h => by
    have hs : s = dumpString false t := by cases d <;> cases h <;> rw [hascii]
    subst hs
    rw [forall_mem_dumpString hP]
    exact ⟨fun ht => .str ht, fun ht => by cases ht; assumption⟩
  | .array _, _, 0, _, h => by cases h
  | .array items, he, d + 1, s, h => by
    rw [Value.dump] at h
    cases hts : dumpItems style digits d items with
    | error e => rw [hts] at h; cases h
    | ok ts =>
      rw [hts] at h
      cases h
      rw [forall_mem_brackets hP (by decide) (by decide), forall_mem_items hP hascii items (exact_array.1 he) hts]
      exact ⟨.array, fun ht => by cases ht; assumption⟩
  | .object _, _, 0, _, h => by cases h
  | .object members, he, d + 1, s, h => by
    rw [Value.dump] at h
    cases hts : dumpMembers style digits d members with
    | error e => rw [hts] at h; cases h
    | ok ts =>
      rw [hts] at h
      cases h
      rw [forall_mem_brackets hP (by decide) (by decide),
        forall_mem_members hP hascii members (exact_object.1 he).2 hts]
      exact ⟨fun ht => .object (fun p hp => (ht p hp).1) fun p hp => (ht p hp).2,
        fun ht p hp => by cases ht with | object hk hv => exact ⟨hk p hp, hv p hp⟩⟩

theorem forall_mem_items (hP : ∀ c : CodePoint, c.val < 0x80 → P c) (hascii : style.ascii = false) :
    (items : List Value) → (∀ v ∈ items, Exact v) → ∀ {d ts},
    dumpItems style digits d items = .ok ts →
      ((∀ t ∈ ts, ∀ c ∈ t, P c) ↔ ∀ v ∈ items, Texts (fun t => ∀ c ∈ t, P c) v)
  | [], _, _, _, h => by cases h; simp
  | v :: vs, he, d, ts, h => by
    obtain ⟨t, ts', hv, hvs, rfl⟩ := dumpItems_cons h
    rw [List.forall_mem_cons] at he
    rw [List.forall_mem_cons, List.forall_mem_cons, forall_mem_dump hP hascii v he.1 hv,
      forall_mem_items hP hascii vs he.2 hvs]

theorem forall_mem_members (hP : ∀ c : CodePoint, c.val < 0x80 → P c) (hascii : style.ascii = false) :
    (members : List (Str × Value)) → (∀ p ∈ members, Exact p.2) → ∀ {d ts},
    dumpMembers style digits d members = .ok ts →
      ((∀ t ∈ ts, ∀ c ∈ t, P c) ↔ ∀ p ∈ members, (∀ c ∈ p.1, P c) ∧ Texts (fun t => ∀ c ∈ t, P c) p.2)
  | [], _, _, _, h => by cases h; simp
  | (key, v) :: ms, he, d, ts, h => by
    obtain ⟨t, ts', hv, hms, rfl⟩ := dumpMembers_cons h
    have hcolon : P (code ':') := hP _ (by decide)
    rw [List.forall_mem_cons] at he
    rw [List.forall_mem_cons, List.forall_mem_cons, hascii, List.forall_mem_append, List.forall_mem_cons,
      forall_mem_dumpString hP, and_iff_right hcolon, forall_mem_dump hP hascii v he.1 hv,
      forall_mem_members hP hascii ms he.2 hms]

end

end Values

end Json
