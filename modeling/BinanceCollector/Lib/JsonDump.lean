import BinanceCollector.Lib.Dict
import BinanceCollector.Lib.JsonGrammar

/-!
# A JSON encoder without white space

`dump` writes a value as `json.dumps` does with the separators `,` and `:`. With `ascii` every character outside of
ASCII is escaped, the others as pairs of units where they need two; floats are written by a parameter. The nesting of
containers and the digits of an integer are limited as they are for the decoder.

- `Exact`: the values without floats and without repeated keys.
- `scanString_escape`, `scanNumber_dumpInt`: strings and integers are read back.
- `dump_dumped`: the text of an exact value is in the grammar of the decoder.
- `loads_dumps`: it is decoded to the value, within the same limits or wider ones.
- `dumps_visible`: no control character, such as a line feed, is in it.
-/

namespace Json

open Text

/-- How texts and floats are written. -/
structure Style where
  /-- `ensure_ascii` -/
  ascii : Bool
  /-- the text of a float, or `none` where it is refused -/
  float : Str → Option Str

/-- Why a value is not encoded. -/
inductive DumpError where
  | tooDeep
  | tooLong
  | float
  deriving DecidableEq

/-! ## Tokens -/

/-- A hexadecimal digit, in lower case. -/
def hexChar (n : ℕ) : CodePoint := if n < 10 then ofUnit (0x30 + n) else ofUnit (0x57 + n)

/-- The escape of a unit of 16 bits. -/
def unitEscape (n : ℕ) : Str :=
  [code '\\', code 'u', hexChar (n / 4096 % 16), hexChar (n / 256 % 16), hexChar (n / 16 % 16), hexChar (n % 16)]

/-- The character after the backslash, for the characters with a short escape. -/
def shortEscape (c : CodePoint) : Option CodePoint :=
  if c = code '"' ∨ c = code '\\' then some c
  else if c = code '\n' then some (code 'n')
  else if c = code '\r' then some (code 'r')
  else if c = code '\t' then some (code 't')
  else if c = ofUnit 12 then some (code 'f')
  else if c = ofUnit 8 then some (code 'b')
  else none

/-- A character in a string. -/
def escapeChar (ascii : Bool) (c : CodePoint) : Str :=
  match shortEscape c with
  | some e => [code '\\', e]
  | none =>
    if c.val < 0x20 then unitEscape c.val
    else if !ascii || decide (c.val < 0x7F) then [c]
    else if c.val < 0x10000 then unitEscape c.val
    else unitEscape (0xD800 + (c.val - 0x10000) / 0x400) ++ unitEscape (0xDC00 + (c.val - 0x10000) % 0x400)

/-- The inside of a string. -/
def escape (ascii : Bool) (s : Str) : Str := s.flatMap (escapeChar ascii)

/-- A string with its quotes. -/
def dumpString (ascii : Bool) (s : Str) : Str := code '"' :: (escape ascii s ++ [code '"'])

/-- An integer in decimal. -/
def dumpInt (n : ℤ) : Str := if n < 0 then code '-' :: decimal n.natAbs else decimal n.natAbs

/-- Texts with commas between them. -/
def commas : List Str → Str
  | [] => []
  | [t] => t
  | t :: u :: ts => t ++ code ',' :: commas (u :: ts)

/-! ## Values -/

mutual

/-- The text of a value whose containers nest at most this deep. -/
def Value.dump (style : Style) (digits : ℕ) : ℕ → Value → Except DumpError Str
  | _, .null => .ok (str "null")
  | _, .bool b => .ok (str (if b then "true" else "false"))
  | _, .int n => if digits < (decimal n.natAbs).length then .error .tooLong else .ok (dumpInt n)
  | _, .float literal =>
    match style.float literal with
    | some t => .ok t
    | none => .error .float
  | _, .str s => .ok (dumpString style.ascii s)
  | 0, .array _ | 0, .object _ => .error .tooDeep
  | d + 1, .array items => (dumpItems style digits d items).map fun ts => code '[' :: (commas ts ++ [code ']'])
  | d + 1, .object members => (dumpMembers style digits d members).map fun ts => code '{' :: (commas ts ++ [code '}'])

def dumpItems (style : Style) (digits d : ℕ) : List Value → Except DumpError (List Str)
  | [] => .ok []
  | v :: vs => (v.dump style digits d).bind fun t => (dumpItems style digits d vs).map (t :: ·)

def dumpMembers (style : Style) (digits d : ℕ) : List (Str × Value) → Except DumpError (List Str)
  | [] => .ok []
  | (key, v) :: ms => (v.dump style digits d).bind fun t =>
      (dumpMembers style digits d ms).map ((dumpString style.ascii key ++ code ':' :: t) :: ·)

end

/-- The text of a value. -/
def dumps (style : Style) (lim : Limits) (v : Value) : Except DumpError Str := v.dump style lim.digits lim.depth

/-! ## Strings are read back -/

theorem hexDigit_hexChar : ∀ n < 16, hexDigit (hexChar n) = some n := by decide

theorem hexUnit_unitEscape {n : ℕ} (hn : n < 0x10000) :
    hexUnit (hexChar (n / 4096 % 16)) (hexChar (n / 256 % 16)) (hexChar (n / 16 % 16)) (hexChar (n % 16)) = some n := by
  have hmod : ∀ m : ℕ, m % 16 < 16 := fun m => Nat.mod_lt m (by decide)
  rw [hexUnit, hexDigit_hexChar _ (hmod _), hexDigit_hexChar _ (hmod _), hexDigit_hexChar _ (hmod _),
    hexDigit_hexChar _ (hmod _)]
  simp only [Option.bind_eq_bind, Option.bind_some, Option.pure_def, Option.some.injEq]
  omega

theorem ofUnit_val (c : CodePoint) : ofUnit c.val = c := Fin.ofNat_val_eq_self c

/-- The text goes on with the escape of a unit that can end a pair. -/
def StartsLow (s : Str) : Prop :=
  ∃ l₁ l₂ l₃ l₄ m r, s = code '\\' :: code 'u' :: l₁ :: l₂ :: l₃ :: l₄ :: r ∧ hexUnit l₁ l₂ l₃ l₄ = some m ∧
    isLowSurrogate m = true

theorem scanString_plain {c : CodePoint} (hq : c ≠ code '"') (hb : c ≠ code '\\') (hc : 0x20 ≤ c.val) (s : Str) :
    scanString (c :: s) = (scanString s).map fun p => (c :: p.1, p.2) := by
  cases s with
  | nil => rw [scanString.eq_def]; simp [hq, scanString]
  | cons d s =>
    conv_lhs => rw [scanString.eq_def]
    simp only [if_neg hq, if_neg hb, if_neg (not_lt.2 hc)]

theorem scanString_short {d e : CodePoint} (hd : d ≠ code 'u') (he : unescape d = some e) (s : Str) :
    scanString (code '\\' :: d :: s) = (scanString s).map fun p => (e :: p.1, p.2) := by
  conv_lhs => rw [scanString.eq_def]
  simp only [if_neg (show code '\\' ≠ code '"' by decide), if_true, if_neg hd, he]

/-- A unit is a character, unless a pair begins with it. -/
theorem scanString_unit {n : ℕ} (hn : n < 0x10000) {s : Str} (hs : isHighSurrogate n = true → ¬StartsLow s) :
    scanString (unitEscape n ++ s) = (scanString s).map fun p => (ofUnit n :: p.1, p.2) := by
  conv_lhs => rw [scanString.eq_def]
  simp only [unitEscape, List.cons_append, List.nil_append, if_neg (show code '\\' ≠ code '"' by decide), if_true,
    hexUnit_unitEscape hn]
  split
  · rename_i c d l₁ l₂ l₃ l₄ s'
    split
    · rename_i m hpair hm
      simp only [Bool.and_eq_true, decide_eq_true_eq] at hpair
      obtain ⟨⟨hhigh, rfl⟩, rfl⟩ := hpair
      exact if_neg fun hlow => hs hhigh ⟨_, _, _, _, m, s', rfl, hm, hlow⟩
    · rfl
  · rfl

/-- Two units that are a pair are one character. -/
theorem scanString_pair {n m : ℕ} (hn : n < 0x10000) (hm : m < 0x10000) (hhigh : isHighSurrogate n = true)
    (hlow : isLowSurrogate m = true) (s : Str) : scanString (unitEscape n ++ (unitEscape m ++ s)) =
      (scanString s).map fun p => (joinSurrogates n m :: p.1, p.2) := by
  conv_lhs => rw [scanString.eq_def]
  simp only [unitEscape, List.cons_append, List.nil_append, if_neg (show code '\\' ≠ code '"' by decide), if_true,
    hexUnit_unitEscape hn, hexUnit_unitEscape hm, hhigh, hlow, decide_true, Bool.and_self]

/-! ### Characters -/

theorem shortEscape_cases {c : CodePoint} : (∃ e, shortEscape c = some e ∧ e ≠ code 'u' ∧ unescape e = some c ∧
    0x20 ≤ e.val ∧ e.val < 0x7F) ∨ (shortEscape c = none ∧ c ≠ code '"' ∧ c ≠ code '\\') := by
  unfold shortEscape
  split
  · rename_i h
    rcases h with rfl | rfl <;> exact .inl ⟨_, rfl, by decide⟩
  rename_i h
  simp only [not_or] at h
  split
  · rename_i h; subst h; exact .inl ⟨_, rfl, by decide⟩
  split
  · rename_i h; subst h; exact .inl ⟨_, rfl, by decide⟩
  split
  · rename_i h; subst h; exact .inl ⟨_, rfl, by decide⟩
  split
  · rename_i h; subst h; exact .inl ⟨_, rfl, by decide⟩
  split
  · rename_i h; subst h; exact .inl ⟨_, rfl, by decide⟩
  · exact .inr ⟨rfl, h⟩

/-- A character that is half of a pair is not followed by the other half. -/
def Unpaired (s : Str) : Prop := s.IsChain fun c d => ¬(isHighSurrogate c.val = true ∧ isLowSurrogate d.val = true)

/-- How a character is written. -/
inductive Written (ascii : Bool) (c : CodePoint) : Str → Prop
  | short {e : CodePoint} : e ≠ code 'u' → unescape e = some c → 0x20 ≤ e.val → e.val < 0x7F →
      Written ascii c [code '\\', e]
  | plain : c ≠ code '"' → c ≠ code '\\' → 0x20 ≤ c.val → (ascii = true → c.val < 0x7F) → Written ascii c [c]
  | unit : c.val < 0x10000 → (ascii = false → c.val < 0x20) → Written ascii c (unitEscape c.val)
  | pair {n m : ℕ} : ascii = true → n < 0x10000 → m < 0x10000 → isHighSurrogate n = true → isLowSurrogate m = true →
      joinSurrogates n m = c → Written ascii c (unitEscape n ++ unitEscape m)

theorem written_escapeChar (ascii : Bool) (c : CodePoint) : Written ascii c (escapeChar ascii c) := by
  unfold escapeChar
  rcases shortEscape_cases (c := c) with ⟨e, he, hu, hback, hlow, hhigh⟩ | ⟨he, hq, hb⟩
  · rw [he]
    exact .short hu hback hlow hhigh
  rw [he]
  dsimp only
  have hval := c.isLt
  split
  · exact .unit (by omega) fun _ => ‹_›
  split
  · rename_i hctl hraw
    refine .plain hq hb (not_lt.1 hctl) fun ha => ?_
    simpa [ha] using hraw
  rename_i hraw
  simp only [Bool.or_eq_true, Bool.not_eq_true', decide_eq_true_eq, not_or, Bool.not_eq_false] at hraw
  split
  · exact .unit ‹_› fun ha => by rw [ha] at hraw; cases hraw.1
  · have hquot : (c.val - 0x10000) / 0x400 < 0x400 := by omega
    have hrem : (c.val - 0x10000) % 0x400 < 0x400 := Nat.mod_lt _ (by decide)
    refine .pair hraw.1 (by omega) (by omega) ?_ ?_ ?_
    · simp only [isHighSurrogate, decide_eq_true_eq]; omega
    · simp only [isLowSurrogate, decide_eq_true_eq]; omega
    · rw [joinSurrogates, show 0x10000 + (0xD800 + (c.val - 0x10000) / 0x400 - 0xD800) * 0x400 +
        (0xDC00 + (c.val - 0x10000) % 0x400 - 0xDC00) = c.val by omega, ofUnit_val]

theorem not_low_of_high {n : ℕ} (h : isHighSurrogate n = true) : ¬isLowSurrogate n = true := by
  simp only [isHighSurrogate, isLowSurrogate, decide_eq_true_eq] at h ⊢
  omega

theorem Written.not_startsLow {ascii : Bool} {d : CodePoint} {t : Str} (hw : Written ascii d t)
    (hd : ¬isLowSurrogate d.val = true) (r : Str) : ¬StartsLow (t ++ r) := by
  rintro ⟨l₁, l₂, l₃, l₄, m, r', heq, hm, hlow⟩
  have hunit : ∀ {n : ℕ} {u : Str}, n < 0x10000 → unitEscape n ++ u =
      code '\\' :: code 'u' :: l₁ :: l₂ :: l₃ :: l₄ :: r' → n = m := by
    intro n u hn h
    simp only [unitEscape, List.cons_append, List.nil_append, List.cons.injEq, true_and] at h
    obtain ⟨rfl, rfl, rfl, rfl, -⟩ := h
    exact Option.some.inj ((hexUnit_unitEscape hn).symm.trans hm)
  cases hw with
  | short hu => exact hu (List.cons.inj (List.cons.inj heq).2).1
  | plain _ hb => exact hb (List.cons.inj heq).1
  | unit hn => exact hd (hunit hn heq ▸ hlow)
  | pair _ hn _ hhigh =>
    rw [List.append_assoc] at heq
    exact not_low_of_high (hunit hn heq ▸ hhigh) hlow

/-- **The inside of a string is read back**, up to the closing quote. -/
theorem scanString_escape {ascii : Bool} {s : Str} (hs : ascii = true → Unpaired s) (r : Str) :
    scanString (escape ascii s ++ code '"' :: r) = some (s, r) := by
  induction s with
  | nil =>
    rw [scanString.eq_def]
    cases r <;> exact if_pos rfl
  | cons c s ih =>
    have ih := ih fun ha => List.IsChain.of_cons (hs ha)
    rw [escape, List.flatMap_cons, List.append_assoc, ← escape]
    have hw := written_escapeChar ascii c
    revert hw
    generalize escapeChar ascii c = t
    intro hw
    cases hw with
    | short hu hback => rw [List.cons_append, List.singleton_append, scanString_short hu hback, ih]; rfl
    | plain hq hb hc => rw [List.singleton_append, scanString_plain hq hb hc, ih]; rfl
    | unit hn hctl =>
      rw [scanString_unit hn fun hhigh => ?_, ih, ofUnit_val]
      · rfl
      -- a lone first half, which is escaped: no second half follows
      have ha : ascii = true := by
        cases ascii with
        | true => rfl
        | false =>
          simp only [isHighSurrogate, decide_eq_true_eq] at hhigh
          have := hctl rfl
          omega
      cases s with
      | nil => rintro ⟨_, _, _, _, _, _, heq, -, -⟩; cases heq
      | cons d s =>
        rw [escape, List.flatMap_cons, List.append_assoc]
        refine (written_escapeChar ascii d).not_startsLow (fun hlow => ?_) _
        exact (List.isChain_cons_cons.1 (hs ha)).1 ⟨hhigh, hlow⟩
    | pair _ hn hm hhigh hlow hjoin =>
      rw [List.append_assoc, scanString_pair hn hm hhigh hlow, ih, hjoin]
      rfl

/-! ## Integers are read back -/

theorem digitChar_isDigit : ∀ n < 10, isDigit (code n.digitChar) = true ∧ (code n.digitChar).val - (code '0').val = n ∧
    (n ≠ 0 → code n.digitChar ≠ code '0') := by decide

theorem decimal_of_lt {n : ℕ} (hn : n < 10) : decimal n = [code n.digitChar] := by
  rw [decimal, Nat.toDigits_of_lt_base hn, List.map_singleton]

theorem decimal_of_le {n : ℕ} (hn : 10 ≤ n) : decimal n = decimal (n / 10) ++ [code (n % 10).digitChar] := by
  rw [decimal, Nat.toDigits_of_base_le (by decide) hn, List.map_append, List.map_singleton, decimal]

/-- The digits of a number, with no needless zero before them. -/
structure Digits (n : ℕ) (ds : Str) : Prop where
  digits : ∀ c ∈ ds, isDigit c = true
  value : natOfDigits ds = n
  head : ∃ c t, ds = c :: t ∧ (c = code '0' → t = [])

theorem digits_decimal (n : ℕ) : Digits n (decimal n) := by
  induction n using Nat.strong_induction_on with
  | _ n ih =>
    rcases Nat.lt_or_ge n 10 with hn | hn
    · obtain ⟨hdigit, hval, -⟩ := digitChar_isDigit n hn
      rw [decimal_of_lt hn]
      refine ⟨by simpa using hdigit, ?_, _, _, rfl, fun _ => rfl⟩
      simpa [natOfDigits] using hval
    · have hmod : n % 10 < 10 := Nat.mod_lt n (by decide)
      obtain ⟨hdigit, hval, -⟩ := digitChar_isDigit _ hmod
      obtain ⟨hds, hvalue, c, t, heq, hzero⟩ := ih (n / 10) (by omega)
      rw [decimal_of_le hn]
      refine ⟨?_, ?_, c, t ++ [code (n % 10).digitChar], by rw [heq]; rfl, fun hc => ?_⟩
      · intro d hd
        rcases List.mem_append.1 hd with hd | hd
        · exact hds d hd
        · rwa [List.mem_singleton.1 hd]
      · rw [natOfDigits, List.foldl_append, ← natOfDigits, hvalue, List.foldl_cons, List.foldl_nil, hval]
        omega
      · -- a number of two digits or more does not begin with zero
        rw [hzero hc, hc] at heq
        rw [heq] at hvalue
        have : n / 10 = 0 := hvalue.symm
        omega

/-- The text ends a number: no digit, point or exponent is at its head. -/
def EndsNumber (r : Str) : Prop := ∀ c ∈ r.head?, isDigit c = false ∧ c ≠ code '.' ∧ c ≠ code 'e' ∧ c ≠ code 'E'

theorem takeDigits_append {ds r : Str} (hds : ∀ c ∈ ds, isDigit c = true) (hr : ∀ c ∈ r.head?, isDigit c = false) :
    takeDigits (ds ++ r) = (ds, r) := by
  induction ds with
  | nil =>
    cases r with
    | nil => rfl
    | cons c r => rw [List.nil_append, takeDigits, if_neg (by simp [hr c rfl])]
  | cons c ds ih =>
    rw [List.cons_append, takeDigits, if_pos (hds c List.mem_cons_self),
      ih fun d hd => hds d (List.mem_cons_of_mem _ hd)]

theorem takeInteger_digits {n : ℕ} {ds r : Str} (h : Digits n ds) (hr : EndsNumber r) :
    takeInteger (ds ++ r) = some (ds, r) := by
  obtain ⟨c, t, rfl, hzero⟩ := h.head
  rw [List.cons_append, takeInteger]
  split
  · rename_i hc
    rw [hzero hc, List.nil_append]
  · rw [if_pos (h.digits c List.mem_cons_self), takeDigits_append (fun d hd => h.digits d (List.mem_cons_of_mem _ hd))
      fun d hd => (hr d hd).1]

theorem takeFraction_ends {r : Str} (hr : EndsNumber r) : takeFraction r = ([], r) := by
  cases r with
  | nil => rfl
  | cons c r => rw [takeFraction, if_neg fun h => (hr c rfl).2.1 h.1]

theorem takeExponent_ends {r : Str} (hr : EndsNumber r) : takeExponent r = ([], r) := by
  cases r with
  | nil => rfl
  | cons c r =>
    have hc := hr c rfl
    rw [takeExponent]
    exact if_neg fun h => h.1.elim hc.2.2.1 hc.2.2.2

theorem not_minus_of_isDigit {c : CodePoint} (h : isDigit c = true) : c ≠ code '-' := by
  rintro rfl
  revert h
  decide

/-- **An integer is read back.** -/
theorem scanNumber_dumpInt (n : ℤ) {r : Str} (hr : EndsNumber r) :
    scanNumber (dumpInt n ++ r) = some (dumpInt n, [], r) := by
  have hd := digits_decimal n.natAbs
  obtain ⟨c, t, heq, -⟩ := hd.head
  have hc : c ≠ code '-' := not_minus_of_isDigit (hd.digits c (heq ▸ List.mem_cons_self))
  have hsign : takeSign (fun x => decide (x = code '-')) (decimal n.natAbs ++ r) = ([], decimal n.natAbs ++ r) := by
    rw [heq, List.cons_append, takeSign, if_neg (by simpa using hc)]
  unfold dumpInt
  split
  · rw [scanNumber, List.cons_append, takeSign, if_pos (by decide)]
    simp only [takeInteger_digits hd hr, takeFraction_ends hr, takeExponent_ends hr]
    rfl
  · rw [scanNumber, hsign]
    simp only [takeInteger_digits hd hr, takeFraction_ends hr, takeExponent_ends hr]
    rfl

theorem intOfLiteral_dumpInt (n : ℤ) : intOfLiteral (dumpInt n) = n := by
  have hd := digits_decimal n.natAbs
  obtain ⟨c, t, heq, -⟩ := hd.head
  have hc : c ≠ code '-' := not_minus_of_isDigit (hd.digits c (heq ▸ List.mem_cons_self))
  unfold dumpInt
  split
  · rw [intOfLiteral, if_pos rfl, hd.value]
    omega
  · rw [heq, intOfLiteral, if_neg hc, ← heq, hd.value]
    omega

theorem digitCount_dumpInt (n : ℤ) : digitCount (dumpInt n) = (decimal n.natAbs).length := by
  have hd := (digits_decimal n.natAbs).digits
  have hfilter : (decimal n.natAbs).filter isDigit = decimal n.natAbs := List.filter_eq_self.2 hd
  unfold digitCount dumpInt
  split
  · rw [List.filter_cons_of_neg (by decide), hfilter]
  · rw [hfilter]

/-! ## Values are read back -/

/-- A value without floats whose objects have distinct keys. -/
inductive Exact : Value → Prop
  | null : Exact .null
  | bool (b : Bool) : Exact (.bool b)
  | int (n : ℤ) : Exact (.int n)
  | str (s : Str) : Exact (.str s)
  | array {items : List Value} : (∀ v ∈ items, Exact v) → Exact (.array items)
  | object {members : List (Str × Value)} : (Dict.keys members).Nodup → (∀ p ∈ members, Exact p.2) →
      Exact (.object members)

theorem exact_array {items : List Value} : Exact (.array items) ↔ ∀ v ∈ items, Exact v :=
  ⟨fun h => by cases h; assumption, .array⟩

theorem exact_object {members : List (Str × Value)} :
    Exact (.object members) ↔ (Dict.keys members).Nodup ∧ ∀ p ∈ members, Exact p.2 :=
  ⟨fun h => by cases h; exact ⟨‹_›, ‹_›⟩, fun h => .object h.1 h.2⟩

/-- Every text in the value, keys included, is of this kind. -/
inductive Texts (P : Str → Prop) : Value → Prop
  | null : Texts P .null
  | bool (b : Bool) : Texts P (.bool b)
  | int (n : ℤ) : Texts P (.int n)
  | float (literal : Str) : Texts P (.float literal)
  | str {s : Str} : P s → Texts P (.str s)
  | array {items : List Value} : (∀ v ∈ items, Texts P v) → Texts P (.array items)
  | object {members : List (Str × Value)} : (∀ p ∈ members, P p.1) → (∀ p ∈ members, Texts P p.2) →
      Texts P (.object members)

mutual

/-- The tree of the text of a value. -/
def Value.tree : Value → Tree
  | .null => .null
  | .bool b => .bool b
  | .int n => .integer (dumpInt n)
  | .float literal => .number literal
  | .str s => .string s
  | .array items => .array (treesOf items)
  | .object members => .object (memberTreesOf members)

def treesOf : List Value → List Tree
  | [] => []
  | v :: vs => v.tree :: treesOf vs

def memberTreesOf : List (Str × Value) → List (Str × Tree)
  | [] => []
  | (key, v) :: ms => (key, v.tree) :: memberTreesOf ms

end

/-- A character that a text holds as it is. -/
def Visible (ascii : Bool) (c : CodePoint) : Prop := 0x20 ≤ c.val ∧ (ascii = true → c.val < 0x7F)

/-- A text as the encoder writes it: at its place in a longer text there is this tree. -/
structure Dumped (ascii : Bool) (digits d : ℕ) (s : Str) (t : Tree) : Prop where
  nested : ∀ r, EndsNumber r → Nested d (s ++ r) t r
  head : ∃ c u, s = c :: u ∧ isSpace c = false ∧ c ≠ code ']' ∧ c.val < 0x7F
  visible : ∀ c ∈ s, Visible ascii c
  short : Short digits t.integers

variable {ascii : Bool} {digits d : ℕ}

theorem visible_of_ascii {c : CodePoint} (h : 0x20 ≤ c.val ∧ c.val < 0x7F) : Visible ascii c := ⟨h.1, fun _ => h.2⟩

/-- Space is skipped up to a character that is none. -/
theorem skipSpace_cons {c : CodePoint} (hc : isSpace c = false) (s : Str) : skipSpace (c :: s) = c :: s := by
  rw [skipSpace, if_neg (by simp [hc])]

theorem Dumped.skipSpace_eq {s : Str} {t : Tree} (h : Dumped ascii digits d s t) (r : Str) :
    skipSpace (s ++ r) = s ++ r := by
  obtain ⟨c, u, rfl, hc, -, -⟩ := h.head
  exact skipSpace_cons hc _

theorem Scalar.nested {s r : Str} {t : Tree} (h : Scalar s t r) : Nested d s t r := by
  cases d with
  | zero => exact h
  | succ d => exact .scalar h

/-! ### Scalars -/

theorem dumped_word {w : String} {t : Tree} (hmem : (w, t) ∈ wordTrees)
    (hhead : ∃ c u, str w = c :: u ∧ isSpace c = false ∧ c ≠ code ']' ∧ c.val < 0x7F)
    (hvisible : ((str w).all fun c => decide (0x20 ≤ c.val ∧ c.val < 0x7F)) = true) (hnone : t.integers = []) :
    Dumped ascii digits d (str w) t where
  nested r _ := (Scalar.word hmem (List.dropPrefix?_eq_some_iff.2 ⟨_, rfl, beq_self_eq_true _⟩)).nested
  head := hhead
  visible c hc := visible_of_ascii (of_decide_eq_true (List.all_eq_true.1 hvisible c hc))
  short := by rw [hnone]; exact List.forall_mem_nil _

theorem dumped_null : Dumped ascii digits d (str "null") .null :=
  dumped_word (by simp [wordTrees]) ⟨_, _, rfl, by decide, by decide, by decide⟩ (by decide) rfl

theorem dumped_bool : (b : Bool) → Dumped ascii digits d (str (if b then "true" else "false")) (.bool b)
  | true => dumped_word (by simp [wordTrees]) ⟨_, _, rfl, by decide, by decide, by decide⟩ (by decide) rfl
  | false => dumped_word (by simp [wordTrees]) ⟨_, _, rfl, by decide, by decide, by decide⟩ (by decide) rfl

theorem isDigit_visible {c : CodePoint} (h : isDigit c = true) : 0x20 ≤ c.val ∧ c.val < 0x7F := by
  have h : 48 ≤ c.val ∧ c.val ≤ 57 := of_decide_eq_true h
  omega

theorem dumped_int {n : ℤ} (hn : (decimal n.natAbs).length ≤ digits) :
    Dumped ascii digits d (dumpInt n) (.integer (dumpInt n)) where
  nested r hr := (Scalar.integer (scanNumber_dumpInt n hr)).nested
  head := by
    have hd := digits_decimal n.natAbs
    obtain ⟨c, t, heq, -⟩ := hd.head
    have hdigit := hd.digits c (heq ▸ List.mem_cons_self)
    unfold dumpInt
    split
    · exact ⟨_, _, rfl, by decide, by decide, by decide⟩
    · refine ⟨c, t, heq, ?_, ?_, (isDigit_visible hdigit).2⟩
      · by_contra hc
        simp only [isSpace, Bool.not_eq_false, Bool.or_eq_true, decide_eq_true_eq] at hc
        rcases hc with ((rfl | rfl) | rfl) | rfl <;> cases hdigit
      · rintro rfl
        cases hdigit
  visible c hc := by
    have hdigits : ∀ c ∈ decimal n.natAbs, 0x20 ≤ c.val ∧ c.val < 0x7F := fun c hc =>
      isDigit_visible ((digits_decimal n.natAbs).digits c hc)
    unfold dumpInt at hc
    split at hc
    · rcases List.mem_cons.1 hc with rfl | hc
      · exact visible_of_ascii (by decide)
      · exact visible_of_ascii (hdigits c hc)
    · exact visible_of_ascii (hdigits c hc)
  short := List.forall_mem_singleton.2 (by rwa [digitCount_dumpInt])

theorem hexChar_visible : ∀ n < 16, 0x20 ≤ (hexChar n).val ∧ (hexChar n).val < 0x7F := by decide

theorem unitEscape_visible (n : ℕ) : ∀ c ∈ unitEscape n, 0x20 ≤ c.val ∧ c.val < 0x7F := by
  have hhex : ∀ m : ℕ, 0x20 ≤ (hexChar (m % 16)).val ∧ (hexChar (m % 16)).val < 0x7F := fun m =>
    hexChar_visible _ (Nat.mod_lt m (by decide))
  simp only [unitEscape, List.forall_mem_cons, List.not_mem_nil, false_imp_iff, implies_true, and_true]
  exact ⟨by decide, by decide, hhex _, hhex _, hhex _, hhex _⟩

theorem Written.visible {c : CodePoint} {t : Str} (hw : Written ascii c t) : ∀ x ∈ t, Visible ascii x := by
  have hunit : ∀ n, ∀ x ∈ unitEscape n, Visible ascii x := fun n x hx => visible_of_ascii (unitEscape_visible n x hx)
  cases hw with
  | short _ _ hlow hhigh =>
    rw [List.forall_mem_cons, List.forall_mem_singleton]
    exact ⟨visible_of_ascii (by decide), hlow, fun _ => hhigh⟩
  | plain _ _ hlow hhigh => exact List.forall_mem_singleton.2 ⟨hlow, hhigh⟩
  | unit => exact hunit _
  | pair => exact List.forall_mem_append.2 ⟨hunit _, hunit _⟩

theorem dumpString_visible (ascii : Bool) (s : Str) : ∀ c ∈ dumpString ascii s, Visible ascii c := by
  rw [dumpString, List.forall_mem_cons, List.forall_mem_append, List.forall_mem_singleton]
  refine ⟨visible_of_ascii (by decide), fun x hx => ?_, visible_of_ascii (by decide)⟩
  obtain ⟨c, -, hx⟩ := List.mem_flatMap.1 hx
  exact (written_escapeChar ascii c).visible x hx

theorem dumped_string {s : Str} (hs : ascii = true → Unpaired s) :
    Dumped ascii digits d (dumpString ascii s) (.string s) where
  nested r _ := by
    have hsplit : dumpString ascii s ++ r = code '"' :: (escape ascii s ++ code '"' :: r) := by simp [dumpString]
    rw [hsplit]
    exact (Scalar.string (scanString_escape hs r)).nested
  head := ⟨_, _, rfl, by decide, by decide, by decide⟩
  visible := dumpString_visible ascii s
  short := List.forall_mem_nil _

/-! ### Containers -/

theorem endsNumber_cons {c : CodePoint} (hc : isDigit c = false ∧ c ≠ code '.' ∧ c ≠ code 'e' ∧ c ≠ code 'E')
    (r : Str) : EndsNumber (c :: r) := fun _ h => Option.some.inj h ▸ hc

theorem commas_cons {t : Str} {ts : List Str} (hne : ts ≠ []) : commas (t :: ts) = t ++ code ',' :: commas ts := by
  cases ts with
  | nil => exact absurd rfl hne
  | cons u ts => rfl

/-- The items of an array, with commas between them. -/
theorem items_nested {ts : List Str} {trees : List Tree} (h : List.Forall₂ (Dumped ascii digits d) ts trees)
    (hne : ts ≠ []) (r : Str) : Items (Nested d) (commas ts ++ code ']' :: r) trees r := by
  induction h with
  | nil => exact absurd rfl hne
  | @cons t tree ts trees ht hts ih =>
    cases hts with
    | nil => exact .last (ht.nested _ (endsNumber_cons (by decide) r)) (skipSpace_cons (by decide) r)
    | @cons u tree' ts trees hu hts =>
      have ih := ih (List.cons_ne_nil _ _)
      rw [commas_cons (List.cons_ne_nil _ _), List.append_assoc]
      refine .more (ht.nested _ (endsNumber_cons (by decide) _)) (skipSpace_cons (by decide) _) ?_
      have hskip : ∀ w : Str, skipSpace (commas (u :: ts) ++ w) = commas (u :: ts) ++ w := by
        intro w
        obtain ⟨c, v, hhead, hc, -, -⟩ := hu.head
        cases ts with
        | nil => exact hu.skipSpace_eq w
        | cons => rw [commas_cons (List.cons_ne_nil _ _), List.append_assoc]; exact hu.skipSpace_eq _
      show Items _ (skipSpace (commas (u :: ts) ++ code ']' :: r)) _ _
      rwa [hskip]

/-- The text of a member of an object. -/
def DumpedMember (ascii : Bool) (digits d : ℕ) (s : Str) (p : Str × Tree) : Prop :=
  ∃ t, s = dumpString ascii p.1 ++ code ':' :: t ∧ (ascii = true → Unpaired p.1) ∧ Dumped ascii digits d t p.2

/-- The members of an object, with commas between them. -/
theorem members_nested {ts : List Str} {members : List (Str × Tree)}
    (h : List.Forall₂ (DumpedMember ascii digits d) ts members) (hne : ts ≠ []) (r : Str) :
    Members (Nested d) (commas ts ++ code '}' :: r) members r := by
  induction h with
  | nil => exact absurd rfl hne
  | @cons s p ts members hs hts ih =>
    obtain ⟨key, tree⟩ := p
    obtain ⟨t, rfl, hkey, ht⟩ := hs
    have htext : ∀ w : Str, dumpString ascii key ++ code ':' :: t ++ w =
        code '"' :: (escape ascii key ++ code '"' :: code ':' :: (t ++ w)) := by
      intro w
      simp [dumpString]
    cases hts with
    | nil =>
      rw [commas, htext]
      refine .last (scanString_escape hkey _) (skipSpace_cons (by decide) _) ?_ (skipSpace_cons (by decide) r)
      rw [ht.skipSpace_eq]
      exact ht.nested _ (endsNumber_cons (by decide) r)
    | @cons s' p' ts members hs' hts =>
      have ih := ih (List.cons_ne_nil _ _)
      rw [commas_cons (List.cons_ne_nil _ _), List.append_assoc, htext]
      have hcomma : skipSpace (code ',' :: (commas (s' :: ts) ++ code '}' :: r)) = _ := skipSpace_cons (by decide) _
      refine .more (scanString_escape hkey _) (skipSpace_cons (by decide) _) ?_ hcomma ?_
      · rw [List.cons_append, ht.skipSpace_eq]
        exact ht.nested _ (endsNumber_cons (by decide) _)
      · obtain ⟨s'', hs''⟩ := ih.head
        rw [hs''] at ih ⊢
        rwa [skipSpace_cons (by decide)]

theorem commas_visible {ts : List Str} (h : ∀ t ∈ ts, ∀ c ∈ t, Visible ascii c) :
    ∀ c ∈ commas ts, Visible ascii c := by
  induction ts with
  | nil => exact List.forall_mem_nil _
  | cons t ts ih =>
    have ht := h t List.mem_cons_self
    cases ts with
    | nil => exact ht
    | cons u ts =>
      rw [commas_cons (List.cons_ne_nil _ _), List.forall_mem_append, List.forall_mem_cons]
      exact ⟨ht, visible_of_ascii (by decide), ih fun v hv => h v (List.mem_cons_of_mem _ hv)⟩

theorem forall₂_left {α β : Type*} {R : α → β → Prop} {P : α → Prop} (hP : ∀ {a b}, R a b → P a) {as : List α}
    {bs : List β} (h : List.Forall₂ R as bs) : ∀ a ∈ as, P a := by
  induction h with
  | nil => exact List.forall_mem_nil _
  | cons hab _ ih => exact List.forall_mem_cons.2 ⟨hP hab, ih⟩

theorem dumped_array {ts : List Str} {trees : List Tree} (h : List.Forall₂ (Dumped ascii digits d) ts trees) :
    Dumped ascii digits (d + 1) (code '[' :: (commas ts ++ [code ']'])) (.array trees) where
  nested r _ := by
    have hsplit : (code '[' :: (commas ts ++ [code ']'])) ++ r = code '[' :: (commas ts ++ code ']' :: r) := by simp
    rw [hsplit]
    cases h with
    | nil => exact .emptyArray (skipSpace_cons (by decide) r)
    | @cons t tree ts trees ht hts =>
      obtain ⟨c, u, hhead, hc, hbracket, -⟩ := ht.head
      obtain ⟨v, hv⟩ : ∃ v, commas (t :: ts) ++ code ']' :: r = c :: v := by
        cases ts with
        | nil => exact ⟨_, by rw [commas, hhead]; rfl⟩
        | cons => exact ⟨_, by rw [commas_cons (List.cons_ne_nil _ _), hhead]; rfl⟩
      have hitems := items_nested (.cons ht hts) (List.cons_ne_nil _ _) r
      rw [hv] at hitems ⊢
      exact .array (skipSpace_cons hc v) hbracket hitems
  head := ⟨_, _, rfl, by decide, by decide, by decide⟩
  visible := by
    rw [List.forall_mem_cons, List.forall_mem_append, List.forall_mem_singleton]
    exact ⟨visible_of_ascii (by decide), commas_visible (forall₂_left (fun ht => ht.visible) h),
      visible_of_ascii (by decide)⟩
  short := by
    rw [Tree.integers]
    induction h with
    | nil => exact List.forall_mem_nil _
    | cons ht _ ih => exact short_append.2 ⟨ht.short, ih⟩

theorem dumped_object {ts : List Str} {members : List (Str × Tree)}
    (h : List.Forall₂ (DumpedMember ascii digits d) ts members) :
    Dumped ascii digits (d + 1) (code '{' :: (commas ts ++ [code '}'])) (.object members) where
  nested r _ := by
    have hsplit : (code '{' :: (commas ts ++ [code '}'])) ++ r = code '{' :: (commas ts ++ code '}' :: r) := by simp
    rw [hsplit]
    cases h with
    | nil => exact .emptyObject (skipSpace_cons (by decide) r)
    | @cons s p ts members hs hts =>
      have hmembers := members_nested (.cons hs hts) (List.cons_ne_nil _ _) r
      obtain ⟨v, hv⟩ := hmembers.head
      rw [hv] at hmembers ⊢
      refine .object ?_
      rwa [skipSpace_cons (by decide)]
  head := ⟨_, _, rfl, by decide, by decide, by decide⟩
  visible := by
    rw [List.forall_mem_cons, List.forall_mem_append, List.forall_mem_singleton]
    refine ⟨visible_of_ascii (by decide), commas_visible (forall₂_left (fun {s p} hs => ?_) h),
      visible_of_ascii (by decide)⟩
    obtain ⟨t, rfl, -, ht⟩ := hs
    rw [List.forall_mem_append, List.forall_mem_cons]
    exact ⟨dumpString_visible ascii p.1, visible_of_ascii (by decide), ht.visible⟩
  short := by
    rw [Tree.integers]
    induction h with
    | nil => exact List.forall_mem_nil _
    | cons hs _ ih =>
      obtain ⟨t, -, -, ht⟩ := hs
      exact short_append.2 ⟨ht.short, ih⟩

/-! ### Values -/

variable {style : Style}

theorem dumpItems_cons {v : Value} {vs : List Value} {ts : List Str}
    (h : dumpItems style digits d (v :: vs) = .ok ts) :
    ∃ t ts', v.dump style digits d = .ok t ∧ dumpItems style digits d vs = .ok ts' ∧ ts = t :: ts' := by
  rw [dumpItems] at h
  cases hv : v.dump style digits d with
  | error e => rw [hv] at h; cases h
  | ok t =>
    cases hvs : dumpItems style digits d vs with
    | error e => rw [hv, hvs] at h; cases h
    | ok ts' =>
      rw [hv, hvs] at h
      cases h
      exact ⟨t, ts', rfl, rfl, rfl⟩

theorem dumpMembers_cons {key : Str} {v : Value} {ms : List (Str × Value)} {ts : List Str}
    (h : dumpMembers style digits d ((key, v) :: ms) = .ok ts) :
    ∃ t ts', v.dump style digits d = .ok t ∧ dumpMembers style digits d ms = .ok ts' ∧
      ts = (dumpString style.ascii key ++ code ':' :: t) :: ts' := by
  rw [dumpMembers] at h
  cases hv : v.dump style digits d with
  | error e => rw [hv] at h; cases h
  | ok t =>
    cases hvs : dumpMembers style digits d ms with
    | error e => rw [hv, hvs] at h; cases h
    | ok ts' =>
      rw [hv, hvs] at h
      cases h
      exact ⟨t, ts', rfl, rfl, rfl⟩

mutual

/-- **The text of an exact value is in the grammar of the decoder.** -/
theorem dump_dumped : (v : Value) → Exact v → (style.ascii = true → Texts Unpaired v) → ∀ {d s},
    v.dump style digits d = .ok s → Dumped style.ascii digits d s v.tree
  | .null, _, _, d, s, h => by
    cases d <;> cases h <;> exact dumped_null
  | .bool b, _, _, d, s, h => by
    cases d <;> cases h <;> exact dumped_bool b
  | .int n, _, _, d, s, h => by
    cases d <;> simp only [Value.dump] at h <;> split at h <;> cases h <;> exact dumped_int (not_lt.1 ‹_›)
  | .float literal, he, _, d, s, h => by cases he
  | .str x, _, ht, d, s, h => by
    have hx : style.ascii = true → Unpaired x := fun ha => by cases ht ha; assumption
    cases d <;> cases h <;> exact dumped_string hx
  | .array items, he, ht, 0, s, h => by cases h
  | .array items, he, ht, d + 1, s, h => by
    rw [Value.dump] at h
    cases hts : dumpItems style digits d items with
    | error e => rw [hts] at h; cases h
    | ok ts =>
      rw [hts] at h
      cases h
      refine dumped_array (dumpItems_dumped items (exact_array.1 he) (fun ha => ?_) hts)
      cases ht ha
      assumption
  | .object members, he, ht, 0, s, h => by cases h
  | .object members, he, ht, d + 1, s, h => by
    rw [Value.dump] at h
    cases hts : dumpMembers style digits d members with
    | error e => rw [hts] at h; cases h
    | ok ts =>
      rw [hts] at h
      cases h
      refine dumped_object (dumpMembers_dumped members (exact_object.1 he).2 (fun ha => ?_) (fun ha => ?_) hts)
      · cases ht ha
        assumption
      · cases ht ha
        assumption

theorem dumpItems_dumped : (items : List Value) → (∀ v ∈ items, Exact v) →
    (style.ascii = true → ∀ v ∈ items, Texts Unpaired v) → ∀ {d ts}, dumpItems style digits d items = .ok ts →
      List.Forall₂ (Dumped style.ascii digits d) ts (treesOf items)
  | [], _, _, d, ts, h => by cases h; exact .nil
  | v :: vs, he, ht, d, ts, h => by
    obtain ⟨t, ts', hv, hvs, rfl⟩ := dumpItems_cons h
    rw [List.forall_mem_cons] at he
    exact .cons (dump_dumped v he.1 (fun ha => ht ha v List.mem_cons_self) hv)
      (dumpItems_dumped vs he.2 (fun ha w hw => ht ha w (List.mem_cons_of_mem _ hw)) hvs)

theorem dumpMembers_dumped : (members : List (Str × Value)) → (∀ p ∈ members, Exact p.2) →
    (style.ascii = true → ∀ p ∈ members, Unpaired p.1) → (style.ascii = true → ∀ p ∈ members, Texts Unpaired p.2) →
    ∀ {d ts}, dumpMembers style digits d members = .ok ts →
      List.Forall₂ (DumpedMember style.ascii digits d) ts (memberTreesOf members)
  | [], _, _, _, d, ts, h => by cases h; exact .nil
  | (key, v) :: ms, he, hk, ht, d, ts, h => by
    obtain ⟨t, ts', hv, hvs, rfl⟩ := dumpMembers_cons h
    rw [List.forall_mem_cons] at he
    exact .cons
      ⟨t, rfl, fun ha => hk ha (key, v) List.mem_cons_self,
        dump_dumped v he.1 (fun ha => ht ha (key, v) List.mem_cons_self) hv⟩
      (dumpMembers_dumped ms he.2 (fun ha p hp => hk ha p (List.mem_cons_of_mem _ hp))
        (fun ha p hp => ht ha p (List.mem_cons_of_mem _ hp)) hvs)

end

/-- The hook keeps an object with distinct keys as it is. -/
def Hooks.Keeps {ω : Type*} (h : Hooks ω) : Prop :=
  ∀ members, (Dict.keys members).Nodup → h.object members = .ok (.object members)

mutual

/-- What such hooks build from the tree of an exact value. -/
theorem build_tree {ω : Type*} {h : Hooks ω} (hk : h.Keeps) : (v : Value) → Exact v → v.tree.build h = .ok v
  | .null, _ | .bool _, _ | .str _, _ => rfl
  | .int n, _ => by rw [Value.tree, Tree.build, intOfLiteral_dumpInt]
  | .float _, he => by cases he
  | .array items, he => by rw [Value.tree, Tree.build, build_treesOf hk items (exact_array.1 he)]; rfl
  | .object members, he => by
    obtain ⟨hn, hv⟩ := exact_object.1 he
    rw [Value.tree, Tree.build, build_memberTreesOf hk members hv]
    exact hk members hn

theorem build_treesOf {ω : Type*} {h : Hooks ω} (hk : h.Keeps) : (items : List Value) → (∀ v ∈ items, Exact v) →
    buildItems h (treesOf items) = .ok items
  | [], _ => rfl
  | v :: vs, he => by
    rw [List.forall_mem_cons] at he
    rw [treesOf, buildItems, build_tree hk v he.1, build_treesOf hk vs he.2]
    rfl

theorem build_memberTreesOf {ω : Type*} {h : Hooks ω} (hk : h.Keeps) : (members : List (Str × Value)) →
    (∀ p ∈ members, Exact p.2) → buildMembers h (memberTreesOf members) = .ok members
  | [], _ => rfl
  | (key, v) :: ms, he => by
    rw [List.forall_mem_cons] at he
    rw [memberTreesOf, buildMembers, build_tree hk v he.1, build_memberTreesOf hk ms he.2]
    rfl

end

/-! ## Main results -/

variable {ω : Type*} {h : Hooks ω} {lim lim' : Limits} {v : Value} {s : Str}

/-- **What is encoded is decoded to the same value**, within the same limits or wider ones. -/
theorem loads_dumps (hk : h.Keeps) (he : Exact v) (ht : style.ascii = true → Texts Unpaired v)
    (hdepth : lim.depth ≤ lim'.depth) (hdigits : lim.digits ≤ lim'.digits) (hs : dumps style lim v = .ok s) :
    loads h lim' s = .ok v := by
  have hd := dump_dumped v he ht hs
  obtain ⟨c, u, hhead, hc, -, hlow⟩ := hd.head
  have hskip : skipSpace s = s ++ [] := by rw [List.append_nil, hhead]; exact skipSpace_cons hc u
  have hbom : s.head? ≠ some (ofUnit 0xFEFF) := by
    rw [hhead, List.head?_cons]
    intro h
    rw [Option.some.inj h] at hlow
    exact absurd hlow (by decide)
  have hnested := hd.nested [] (fun _ h => by cases h)
  rw [loads, if_neg hbom, hskip]
  have hresult := scan_complete h lim' lim.depth lim'.depth _ _ _ _ hnested (build_tree hk v he)
  revert hresult
  generalize scanOnce h lim' lim'.depth (s ++ []) = result
  rintro (_ | hd' | hl)
  · rfl
  · exact absurd hd' (not_lt.2 hdepth)
  · exact absurd (fun literal hl => (hd.short literal hl).trans hdigits) hl

/-- No control character is in the text. -/
theorem dumps_visible (he : Exact v) (ht : style.ascii = true → Texts Unpaired v) (hs : dumps style lim v = .ok s) :
    ∀ c ∈ s, Visible style.ascii c :=
  (dump_dumped v he ht hs).visible

example : dumps ⟨true, fun _ => none⟩ ⟨2, 2⟩ (.object [(str "a", .array [.int (-1), .str [ofUnit 0x1F600, code '"']])]) =
    .ok (str "\x7b\"a\":[-1,\"\\ud83d\\ude00\\\"\"]\x7d") := by decide +kernel

end Json
