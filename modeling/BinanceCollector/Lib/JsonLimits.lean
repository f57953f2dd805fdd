import BinanceCollector.Lib.JsonGrammar

/-!
# Where the decoder meets its limits

`Meets d s` says, in terms of the grammar, that a reader of the text comes to an integer that is too long or to a
container that nests too deep: everything before it is complete values that the hooks accept.

- `scan_limit`, `loads_limit`: the decoder stops at a limit exactly on these texts.
-/

namespace Json

open Text

variable {ω : Type*} {h : Hooks ω} {lim : Limits}

/-- A value that is read: within the limits and accepted by the hooks. -/
def Readable (h : Hooks ω) (lim : Limits) (d : ℕ) : Grammar := fun s t r =>
  Nested d s t r ∧ (∃ v, t.build h = .ok v) ∧ Short lim.digits t.integers

/-- An integer with too many digits is at the head of the text. -/
def TooLong (lim : Limits) (s : Str) : Prop :=
  ∃ literal r, scanNumber s = some (literal, [], r) ∧ lim.digits < digitCount literal

/-- After some members that are read there is one whose value meets a limit. -/
inductive MembersMeet (R : Grammar) (E : Str → Prop) : Str → Prop
  | here {s key s₁ s₂} : scanString s = some (key, s₁) → skipSpace s₁ = code ':' :: s₂ → E (skipSpace s₂) →
      MembersMeet R E (code '"' :: s)
  | later {s key s₁ s₂ t s₃ s₄} : scanString s = some (key, s₁) → skipSpace s₁ = code ':' :: s₂ →
      R (skipSpace s₂) t s₃ → skipSpace s₃ = code ',' :: s₄ → MembersMeet R E (skipSpace s₄) →
      MembersMeet R E (code '"' :: s)

/-- After some items that are read there is one that meets a limit. -/
inductive ItemsMeet (R : Grammar) (E : Str → Prop) : Str → Prop
  | here {s} : E s → ItemsMeet R E s
  | later {s t s₁ s₂} : R s t s₁ → skipSpace s₁ = code ',' :: s₂ → ItemsMeet R E (skipSpace s₂) → ItemsMeet R E s

/-- A reader of a value at the head of the text meets a limit; containers may nest `d` deep there. -/
def Meets (h : Hooks ω) (lim : Limits) : ℕ → Str → Prop
  | 0, s => TooLong lim s ∨ s.head? = some (code '{') ∨ s.head? = some (code '[')
  | d + 1, s => TooLong lim s ∨
      (∃ t, s = code '{' :: t ∧ MembersMeet (Readable h lim d) (Meets h lim d) (skipSpace t)) ∨
      ∃ t c u, s = code '[' :: t ∧ skipSpace t = c :: u ∧ c ≠ code ']' ∧
        ItemsMeet (Readable h lim d) (Meets h lim d) (c :: u)

/-- The error of a limit. -/
def Error.isLimit : Error ω → Bool
  | .tooDeep | .tooLong => true
  | _ => false

/-- The reader stops at a limit. -/
def Stops {α : Type*} (result : Scanned ω α) : Prop := ∃ e : Error ω, result = .error e ∧ e.isLimit = true

theorem not_stops_ok {α : Type*} {x : α × Str} : ¬Stops (.ok x : Scanned ω α) := by
  rintro ⟨e, he, -⟩
  cases he

theorem stops_error {α : Type*} {e : Error ω} : Stops (.error e : Scanned ω α) ↔ e.isLimit = true :=
  ⟨fun ⟨_, he, hl⟩ => by cases he; exact hl, fun hl => ⟨e, rfl, hl⟩⟩

theorem not_stops_hooked (r : Except ω Value) (s : Str) : ¬Stops (hooked r s) := by
  cases r with
  | ok v => exact not_stops_ok
  | error e => exact fun hs => by cases stops_error.1 hs

/-! ## Scalars -/

theorem scanScalar_limit {s : Str} : Stops (scanScalar h lim s) ↔ TooLong lim s := by
  constructor
  · intro hs
    unfold scanScalar at hs
    split at hs
    · rename_i result hw
      obtain ⟨w, t, r, -, -, rfl⟩ := scanWord_sound wordTrees (words_eq h ▸ hw)
      exact absurd hs (not_stops_hooked _ _)
    · split at hs
      · cases stops_error.1 hs
      · rename_i literal r hn
        split at hs
        · exact ⟨literal, r, hn, ‹_›⟩
        · exact absurd hs not_stops_ok
      · exact absurd hs (not_stops_hooked _ _)
  · rintro ⟨literal, r, hn, hd⟩
    rw [scanScalar, scanWord_number hn, hn]
    simp only [show lim.digits < (literal.filter isDigit).length from hd, if_true]
    exact stops_error.2 rfl

/-- A token stops at a limit where its reader does. -/
theorem scanToken_limit {object array : Str → Scanned ω Value} {s : Str} :
    Stops (scanToken h lim object array s) ↔ TooLong lim s ∨
      (∃ t, s = code '{' :: t ∧ Stops (object t)) ∨ ∃ t, s = code '[' :: t ∧ Stops (array t) := by
  have hnot : ∀ {c t}, c = code '"' ∨ c = code '{' ∨ c = code '[' → ¬TooLong lim (c :: t) := by
    rintro c t (rfl | rfl | rfl) ⟨literal, r, hn, -⟩ <;> cases hn
  cases s with
  | nil =>
    refine ⟨fun hs => (by cases stops_error.1 hs), ?_⟩
    rintro (⟨_, _, hn, -⟩ | ⟨_, ht, -⟩ | ⟨_, ht, -⟩)
    · cases hn
    · cases ht
    · cases ht
  | cons c t =>
    by_cases hq : c = code '"'
    · subst hq
      refine ⟨fun hs => ?_, ?_⟩
      · simp only [scanToken, if_true] at hs
        split at hs
        · cases stops_error.1 hs
        · exact absurd hs not_stops_ok
      · rintro (hn | ⟨_, ht, -⟩ | ⟨_, ht, -⟩)
        · exact absurd hn (hnot (.inl rfl))
        · cases ht
        · cases ht
    by_cases ho : c = code '{'
    · subst ho
      rw [scanToken_brace]
      refine ⟨fun hs => .inr (.inl ⟨t, rfl, hs⟩), ?_⟩
      rintro (hn | ⟨_, ht, hs⟩ | ⟨_, ht, -⟩)
      · exact absurd hn (hnot (.inr (.inl rfl)))
      · cases ht; exact hs
      · cases ht
    by_cases ha : c = code '['
    · subst ha
      rw [scanToken_bracket]
      refine ⟨fun hs => .inr (.inr ⟨t, rfl, hs⟩), ?_⟩
      rintro (hn | ⟨_, ht, -⟩ | ⟨_, ht, hs⟩)
      · exact absurd hn (hnot (.inr (.inr rfl)))
      · cases ht
      · cases ht; exact hs
    · simp only [scanToken, if_neg hq, if_neg ho, if_neg ha]
      rw [scanScalar_limit]
      refine ⟨.inl, ?_⟩
      rintro (hn | ⟨_, ht, -⟩ | ⟨_, ht, -⟩)
      · exact hn
      · cases ht; exact absurd rfl ho
      · cases ht; exact absurd rfl ha

/-! ## Containers -/

/-- The reader of a value stops where `E` says, and what it reads is in `R`. -/
structure Limit (value : Str → Scanned ω Value) (R : Grammar) (E : Str → Prop) : Prop where
  stops : ∀ s, Stops (value s) ↔ E s
  reads : ∀ s v r, value s = .ok (v, r) → ∃ t, R s t r
  complete : ∀ s t r, R s t r → ∃ v, value s = .ok (v, r)
  shorter : Reads value

theorem Stops.of_error {α β : Type*} {e : Error ω} (hs : Stops (.error e : Scanned ω α)) :
    Stops (.error e : Scanned ω β) :=
  stops_error.2 (stops_error.1 hs)

theorem scanMembers_stops {value : Str → Scanned ω Value} {R : Grammar} {E : Str → Prop} (hv : Limit value R E) :
    ∀ (n : ℕ) (members : List (Str × Value)) (s : Str), Stops (scanMembers value n members s) → MembersMeet R E s
  | 0, _, _, hs => by cases stops_error.1 hs
  | n + 1, members, s, hs => by
    unfold scanMembers at hs
    split at hs
    · cases stops_error.1 hs
    rename_i q s
    split at hs
    case isFalse => cases stops_error.1 hs
    rename_i hq
    subst hq
    split at hs
    · cases stops_error.1 hs
    rename_i key s₁ hkey
    split at hs
    · cases stops_error.1 hs
    rename_i c s₂ hs₁
    split at hs
    case isFalse => cases stops_error.1 hs
    rename_i hc
    subst hc
    split at hs
    · rename_i e he
      refine .here hkey hs₁ ((hv.stops _).1 ?_)
      rw [he]
      exact hs.of_error
    rename_i v s₃ hval
    obtain ⟨t, ht⟩ := hv.reads _ _ _ hval
    split at hs
    · cases stops_error.1 hs
    rename_i c s₄ hs₃
    split at hs
    · exact absurd hs not_stops_ok
    split at hs
    · rename_i hc
      subst hc
      exact .later hkey hs₁ ht hs₃ (scanMembers_stops hv n _ _ hs)
    · cases stops_error.1 hs

theorem scanItems_stops {value : Str → Scanned ω Value} {R : Grammar} {E : Str → Prop} (hv : Limit value R E) :
    ∀ (n : ℕ) (items : List Value) (s : Str), Stops (scanItems value n items s) → ItemsMeet R E s
  | 0, _, _, hs => by cases stops_error.1 hs
  | n + 1, items, s, hs => by
    rw [scanItems] at hs
    split at hs
    · rename_i e he
      refine .here ((hv.stops _).1 ?_)
      rw [he]
      exact hs.of_error
    rename_i v s₁ hval
    obtain ⟨t, ht⟩ := hv.reads _ _ _ hval
    split at hs
    · cases stops_error.1 hs
    rename_i c s₂ hs₁
    split at hs
    · exact absurd hs not_stops_ok
    split at hs
    · rename_i hc
      subst hc
      exact .later ht hs₁ (scanItems_stops hv n _ _ hs)
    · cases stops_error.1 hs

theorem stops_scanMembers {value : Str → Scanned ω Value} {R : Grammar} {E : Str → Prop} (hv : Limit value R E)
    {s : Str} (hs : MembersMeet R E s) :
    ∀ (n : ℕ) (members : List (Str × Value)), s.length < n → Stops (scanMembers value n members s) := by
  induction hs with
  | @here s key s₁ s₂ hkey hs₁ he =>
    intro n members hn
    obtain ⟨n, rfl⟩ := Nat.exists_eq_add_one_of_ne_zero (Nat.ne_zero_of_lt hn)
    obtain ⟨e, hval, hlimit⟩ := (hv.stops _).2 he
    simp only [scanMembers, hkey, hs₁, if_true, hval]
    exact stops_error.2 hlimit
  | @later s key s₁ s₂ t s₃ s₄ hkey hs₁ ht hs₃ hrest ih =>
    intro n members hn
    obtain ⟨n, rfl⟩ := Nat.exists_eq_add_one_of_ne_zero (Nat.ne_zero_of_lt hn)
    obtain ⟨v, hval⟩ := hv.complete _ _ _ ht
    simp only [scanMembers, hkey, hs₁, if_true, hval, hs₃, if_neg (show code ',' ≠ code '}' by decide)]
    refine ih n _ ?_
    have h₁ := scanString_shorter hkey
    have h₂ := length_skipSpace s₁
    have h₃ := length_skipSpace s₂
    have h₄ := hv.shorter.shorter hval
    have h₅ := length_skipSpace s₃
    have h₆ := length_skipSpace s₄
    rw [hs₁, List.length_cons] at h₂
    rw [hs₃, List.length_cons] at h₅
    rw [List.length_cons] at hn
    omega

theorem stops_scanItems {value : Str → Scanned ω Value} {R : Grammar} {E : Str → Prop} (hv : Limit value R E)
    {s : Str} (hs : ItemsMeet R E s) :
    ∀ (n : ℕ) (items : List Value), s.length < n → Stops (scanItems value n items s) := by
  induction hs with
  | @here s he =>
    intro n items hn
    obtain ⟨n, rfl⟩ := Nat.exists_eq_add_one_of_ne_zero (Nat.ne_zero_of_lt hn)
    obtain ⟨e, hval, hlimit⟩ := (hv.stops _).2 he
    simp only [scanItems, hval]
    exact stops_error.2 hlimit
  | @later s t s₁ s₂ ht hs₁ hrest ih =>
    intro n items hn
    obtain ⟨n, rfl⟩ := Nat.exists_eq_add_one_of_ne_zero (Nat.ne_zero_of_lt hn)
    obtain ⟨v, hval⟩ := hv.complete _ _ _ ht
    simp only [scanItems, hval, hs₁, if_neg (show code ',' ≠ code ']' by decide)]
    refine ih n _ ?_
    have h₁ := hv.shorter.shorter hval
    have h₂ := length_skipSpace s₁
    have h₃ := length_skipSpace s₂
    rw [hs₁, List.length_cons] at h₂
    omega

theorem MembersMeet.head {R : Grammar} {E : Str → Prop} {s : Str} (hs : MembersMeet R E s) :
    ∃ s', s = code '"' :: s' := by
  cases hs with
  | here => exact ⟨_, rfl⟩
  | later => exact ⟨_, rfl⟩

theorem scanObject_limit {value : Str → Scanned ω Value} {R : Grammar} {E : Str → Prop} (hv : Limit value R E)
    {s : Str} : Stops (scanObject h value s) ↔ MembersMeet R E (skipSpace s) := by
  constructor
  · intro hs
    unfold scanObject at hs
    split at hs
    · cases stops_error.1 hs
    rename_i c s₁ hs₁
    split at hs
    · exact absurd hs (not_stops_hooked _ _)
    split at hs
    · rename_i e he
      rw [hs₁]
      refine scanMembers_stops hv (s₁.length + 2) [] _ ?_
      rw [he]
      exact hs.of_error
    · exact absurd hs (not_stops_hooked _ _)
  · intro hs
    obtain ⟨s', hs'⟩ := hs.head
    rw [hs'] at hs
    obtain ⟨e, he, hlimit⟩ := stops_scanMembers hv hs (s'.length + 2) [] (by simp)
    rw [scanObject, hs']
    simp only [if_neg (show code '"' ≠ code '}' by decide), he]
    exact stops_error.2 hlimit

theorem scanArray_limit {value : Str → Scanned ω Value} {R : Grammar} {E : Str → Prop} (hv : Limit value R E)
    {s : Str} : Stops (scanArray value s) ↔
      ∃ c u, skipSpace s = c :: u ∧ c ≠ code ']' ∧ ItemsMeet R E (c :: u) := by
  constructor
  · intro hs
    unfold scanArray at hs
    split at hs
    · cases stops_error.1 hs
    rename_i c u hs₁
    split at hs
    · exact absurd hs not_stops_ok
    rename_i hc
    split at hs
    · rename_i e he
      refine ⟨c, u, hs₁, hc, scanItems_stops hv (u.length + 2) [] _ ?_⟩
      rw [he]
      exact hs.of_error
    · exact absurd hs not_stops_ok
  · rintro ⟨c, u, hs, hc, hmeet⟩
    obtain ⟨e, he, hlimit⟩ := stops_scanItems hv hmeet (u.length + 2) [] (by simp)
    rw [scanArray, hs]
    simp only [if_neg hc, he]
    exact stops_error.2 hlimit

theorem readable_of_scan {d : ℕ} {s r : Str} {v : Value} (hs : scanOnce h lim d s = .ok (v, r)) :
    ∃ t, Readable h lim d s t r := by
  obtain ⟨t, ht, hbuild, hshort⟩ := scan_sound h lim d s v r hs
  exact ⟨t, ht, ⟨v, hbuild⟩, hshort⟩

theorem Readable.scan {d : ℕ} {s r : Str} {t : Tree} (hs : Readable h lim d s t r) :
    ∃ v, scanOnce h lim d s = .ok (v, r) := by
  obtain ⟨ht, ⟨v, hbuild⟩, hshort⟩ := hs
  have hresult := scan_complete h lim d d s t r v ht hbuild
  revert hresult
  generalize scanOnce h lim d s = result
  rintro (_ | hd | hl)
  · exact ⟨v, rfl⟩
  · exact absurd hd (Nat.lt_irrefl d)
  · exact absurd hshort hl

/-- **The reader stops at a limit exactly where the grammar meets one.** -/
theorem scan_limit (h : Hooks ω) (lim : Limits) : ∀ d, Limit (scanOnce h lim d) (Readable h lim d) (Meets h lim d)
  | 0 => by
    refine ⟨fun s => ?_, fun s v r => readable_of_scan, fun s t r hs => hs.scan, scan_shorter h lim 0⟩
    rw [show scanOnce h lim 0 s = scanToken h lim _ _ s from rfl, scanToken_limit, Meets, List.head?_eq_some_iff,
      List.head?_eq_some_iff]
    simp only [stops_error, Error.isLimit, and_true]
  | d + 1 => by
    refine ⟨fun s => ?_, fun s v r => readable_of_scan, fun s t r hs => hs.scan, scan_shorter h lim (d + 1)⟩
    rw [show scanOnce h lim (d + 1) s = scanToken h lim _ _ s from rfl, scanToken_limit, Meets]
    simp only [scanObject_limit (scan_limit h lim d), scanArray_limit (scan_limit h lim d), exists_and_left]

/-- The text meets a limit of the decoder. -/
def Exceeds (h : Hooks ω) (lim : Limits) (s : Str) : Prop :=
  s.head? ≠ some (ofUnit 0xFEFF) ∧ Meets h lim lim.depth (skipSpace s)

/-- **The decoder stops at a limit exactly on the texts that meet one.** -/
theorem loads_limit {s : Str} :
    (∃ e : Error ω, loads h lim s = .error e ∧ e.isLimit = true) ↔ Exceeds h lim s := by
  unfold loads Exceeds
  split
  · rename_i hbom
    refine ⟨?_, fun he => absurd hbom he.1⟩
    rintro ⟨e, he, hlimit⟩
    cases he
    cases hlimit
  rename_i hbom
  rw [and_iff_right (show s.head? ≠ some (ofUnit 0xFEFF) from hbom), ← (scan_limit h lim lim.depth).stops]
  split
  · rename_i e he
    rw [he]
    exact ⟨fun ⟨e', he', hl⟩ => (by cases he'; exact stops_error.2 hl), fun hs => ⟨e, rfl, stops_error.1 hs⟩⟩
  · rename_i v r hv
    rw [hv]
    refine ⟨?_, fun hs => absurd hs not_stops_ok⟩
    rintro ⟨e, he, hlimit⟩
    split at he
    · cases he
    · cases he; cases hlimit

/-- **A text in the grammar is decoded**, where the hooks accept it and it meets no limit. -/
theorem loads_of_spells {s : Str} {t : Tree} {v : Value} (hno : ¬Exceeds h lim s) (hs : Spells s t)
    (hb : t.build h = .ok v) : loads h lim s = .ok v := by
  rcases loads_complete hs hb with hl | hl | hl
  · exact hl
  · exact absurd (loads_limit.1 ⟨_, hl, rfl⟩) hno
  · exact absurd (loads_limit.1 ⟨_, hl, rfl⟩) hno

/-! ## An integer of many digits -/

theorem takeDigits_replicate {c : CodePoint} (hc : isDigit c = true) {r : Str} (hr : takeDigits r = ([], r)) :
    ∀ n, takeDigits (.replicate n c ++ r) = (.replicate n c, r)
  | 0 => hr
  | n + 1 => by
    rw [List.replicate_succ, List.cons_append, takeDigits, if_pos hc, takeDigits_replicate hc hr n]

theorem digitCount_replicate {c : CodePoint} (hc : isDigit c = true) (n : ℕ) : digitCount (.replicate n c) = n := by
  rw [digitCount, List.filter_replicate, if_pos hc, List.length_replicate]

/-- A repeated digit is an integer, where the text goes on with `}`. -/
theorem scanNumber_replicate (n : ℕ) (r : Str) :
    scanNumber (.replicate (n + 1) (code '1') ++ code '}' :: r) =
      some (.replicate (n + 1) (code '1'), [], code '}' :: r) := by
  have hdigits : takeDigits (.replicate n (code '1') ++ code '}' :: r) = (.replicate n (code '1'), code '}' :: r) :=
    takeDigits_replicate (by decide) (by rw [takeDigits, if_neg (by decide)]) n
  have hinteger : takeInteger (.replicate (n + 1) (code '1') ++ code '}' :: r) =
      some (.replicate (n + 1) (code '1'), code '}' :: r) := by
    rw [List.replicate_succ, List.cons_append, takeInteger, if_neg (by decide), if_pos (by decide), hdigits]
  have hsign : takeSign (fun c => decide (c = code '-')) (.replicate (n + 1) (code '1') ++ code '}' :: r) =
      ([], .replicate (n + 1) (code '1') ++ code '}' :: r) := by
    rw [List.replicate_succ, List.cons_append, takeSign, if_neg (by decide)]
  have hfraction : takeFraction (code '}' :: r) = ([], code '}' :: r) := by
    rw [takeFraction, if_neg fun h => absurd h.1 (by decide)]
  have hexponent : takeExponent (code '}' :: r) = ([], code '}' :: r) := by
    simp only [takeExponent]
    rw [if_neg fun h => absurd h.1 (by decide)]
  rw [scanNumber, hsign]
  simp only [hinteger, hfraction, hexponent, List.nil_append]

end Json
