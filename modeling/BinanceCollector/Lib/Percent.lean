import Mathlib.Data.List.Flatten
import BinanceCollector.Lib.Text

/-!
# Percent encoding

A text in UTF-8 (`utf8`) and octets in the alphabet of URIs (`percentEncode`), where a space is a `+`.

- `decodeUtf8_utf8`, `percentDecode_percentEncode`: both are read back.
- `mem_percentEncode`: what is encoded has no delimiter of URIs.
-/

namespace Text

/-- An octet. -/
abbrev Octet := Fin 256

/-- The octet of a number below 256. -/
def octet (n : ℕ) : Octet := ⟨n % 256, Nat.mod_lt n (by decide)⟩

theorem octet_val {n : ℕ} (h : n < 256) : (octet n).val = n := Nat.mod_eq_of_lt h

/-- The code point of a number. -/
def codePoint (n : ℕ) : CodePoint := Fin.ofNat 0x110000 n

theorem codePoint_val (c : CodePoint) : codePoint c.val = c := Fin.ofNat_val_eq_self c

/-! ## UTF-8 -/

/-- The octets of a code point. -/
def utf8Encode (c : CodePoint) : List Octet :=
  if c.val < 0x80 then [octet c.val]
  else if c.val < 0x800 then [octet (0xC0 + c.val / 64), octet (0x80 + c.val % 64)]
  else if c.val < 0x10000 then
    [octet (0xE0 + c.val / 4096), octet (0x80 + c.val / 64 % 64), octet (0x80 + c.val % 64)]
  else
    [octet (0xF0 + c.val / 262144), octet (0x80 + c.val / 4096 % 64), octet (0x80 + c.val / 64 % 64),
      octet (0x80 + c.val % 64)]

/-- The octets of a text. -/
def utf8 (s : Str) : List Octet := s.flatMap utf8Encode

/-- The text of octets, after a code point of which so many octets are owed and this is the value so far. -/
def decodeFrom : ℕ → ℕ → List Octet → Option Str
  | 0, _, [] => some []
  | _ + 1, _, [] => none
  | 0, _, a :: bs =>
    if a.val < 0x80 then (decodeFrom 0 0 bs).map (codePoint a.val :: ·)
    else if a.val < 0xE0 then decodeFrom 1 (a.val - 0xC0) bs
    else if a.val < 0xF0 then decodeFrom 2 (a.val - 0xE0) bs
    else decodeFrom 3 (a.val - 0xF0) bs
  | 1, v, b :: bs => (decodeFrom 0 0 bs).map (codePoint (v * 64 + (b.val - 0x80)) :: ·)
  | n + 2, v, b :: bs => decodeFrom (n + 1) (v * 64 + (b.val - 0x80)) bs

/-- The text of octets, where every code point has all of its octets. -/
def decodeUtf8 (bs : List Octet) : Option Str := decodeFrom 0 0 bs

theorem decodeFrom_last {v n r : ℕ} (hr : r < 64) (hn : v * 64 + r = n) (bs : List Octet) :
    decodeFrom 1 v (octet (0x80 + r) :: bs) = (decodeFrom 0 0 bs).map (codePoint n :: ·) := by
  rw [decodeFrom, octet_val (by omega), Nat.add_sub_cancel_left, hn]

theorem decodeFrom_next {k v w r : ℕ} (hr : r < 64) (hw : v * 64 + r = w) (bs : List Octet) :
    decodeFrom (k + 2) v (octet (0x80 + r) :: bs) = decodeFrom (k + 1) w bs := by
  rw [decodeFrom, octet_val (by omega), Nat.add_sub_cancel_left, hw]

theorem decodeFrom_append (c : CodePoint) (bs : List Octet) :
    decodeFrom 0 0 (utf8Encode c ++ bs) = (decodeFrom 0 0 bs).map (c :: ·) := by
  have hc := c.isLt
  unfold utf8Encode
  split
  · rw [List.singleton_append, decodeFrom, octet_val (by omega), if_pos ‹_›, codePoint_val]
  split
  · rw [List.cons_append, List.singleton_append, decodeFrom, octet_val (by omega), if_neg (by omega),
      if_pos (by omega), Nat.add_sub_cancel_left, decodeFrom_last (Nat.mod_lt _ (by decide)) (Nat.div_add_mod' _ _),
      codePoint_val]
  split
  · rw [List.cons_append, List.cons_append, List.singleton_append, decodeFrom, octet_val (by omega),
      if_neg (by omega), if_neg (by omega), if_pos (by omega), Nat.add_sub_cancel_left,
      decodeFrom_next (w := c.val / 64) (Nat.mod_lt _ (by decide)) (by omega),
      decodeFrom_last (Nat.mod_lt _ (by decide)) (Nat.div_add_mod' _ _), codePoint_val]
  · rw [List.cons_append, List.cons_append, List.cons_append, List.singleton_append, decodeFrom,
      octet_val (by omega), if_neg (by omega), if_neg (by omega), if_neg (by omega), Nat.add_sub_cancel_left,
      decodeFrom_next (w := c.val / 4096) (Nat.mod_lt _ (by decide)) (by omega),
      decodeFrom_next (w := c.val / 64) (Nat.mod_lt _ (by decide)) (by omega),
      decodeFrom_last (Nat.mod_lt _ (by decide)) (Nat.div_add_mod' _ _), codePoint_val]

/-- **UTF-8 is read back.** -/
theorem decodeUtf8_utf8 (s : Str) : decodeUtf8 (utf8 s) = some s := by
  unfold decodeUtf8
  induction s with
  | nil => rfl
  | cons c s ih =>
    rw [utf8, List.flatMap_cons, decodeFrom_append, show s.flatMap utf8Encode = utf8 s from rfl, ih]
    rfl

/-! ## Percent encoding -/

/-- The octets that are left as they are: letters, digits and `_.-~`. -/
def isUnreserved (b : Octet) : Bool :=
  let c := codePoint b.val
  (code 'A' ≤ c && c ≤ code 'Z') || (code 'a' ≤ c && c ≤ code 'z') || (code '0' ≤ c && c ≤ code '9') ||
    (str "_.-~").contains c

/-- A digit in base sixteen. -/
def hexDigit (n : ℕ) : CodePoint := (str "0123456789ABCDEF").getD n 0

/-- The encoding of an octet. -/
def percentOctet (b : Octet) : Str :=
  if b.val = 0x20 then [code '+']
  else if isUnreserved b then [codePoint b.val]
  else [code '%', hexDigit (b.val / 16), hexDigit (b.val % 16)]

def percentEncode (bs : List Octet) : Str := bs.flatMap percentOctet

/-- The value of a digit in base sixteen. -/
def hexValue (c : CodePoint) : Option ℕ := (str "0123456789ABCDEF").findIdx? (· == c)

/-- Where a reader of an encoded text is: outside of an escape, after its `%`, or after its first digit. -/
inductive Escape where
  | outside
  | percent
  | digit (high : ℕ)

/-- The octets of an encoded text from a place on. -/
def octetsFrom : Escape → Str → Option (List Octet)
  | .outside, [] => some []
  | _, [] => none
  | .outside, c :: s =>
    if c = code '%' then octetsFrom .percent s
    else if c = code '+' then (octetsFrom .outside s).map (octet 0x20 :: ·)
    else (octetsFrom .outside s).map (octet c.val :: ·)
  | .percent, c :: s => (hexValue c).bind fun high => octetsFrom (.digit high) s
  | .digit high, c :: s => (hexValue c).bind fun low => (octetsFrom .outside s).map (octet (high * 16 + low) :: ·)

/-- The octets of an encoded text. -/
def percentDecode (s : Str) : Option (List Octet) := octetsFrom .outside s

theorem hexValue_hexDigit {n : ℕ} (h : n < 16) : hexValue (hexDigit n) = some n := by
  revert n
  decide

theorem octetsFrom_plain {c : CodePoint} (hpercent : c ≠ code '%') (hplus : c ≠ code '+') (s : Str) :
    octetsFrom .outside (c :: s) = (octetsFrom .outside s).map (octet c.val :: ·) := by
  rw [octetsFrom, if_neg hpercent, if_neg hplus]

/-- What is left as it is. -/
theorem isUnreserved_plain : ∀ b : Octet, isUnreserved b = true →
    codePoint b.val ≠ code '%' ∧ codePoint b.val ≠ code '+' ∧ octet (codePoint b.val).val = b := by
  decide +kernel

theorem octetsFrom_append (b : Octet) (s : Str) :
    octetsFrom .outside (percentOctet b ++ s) = (octetsFrom .outside s).map (b :: ·) := by
  have hb := b.isLt
  unfold percentOctet
  split
  · rename_i hspace
    have hval : octet 0x20 = b := Fin.ext hspace.symm
    rw [List.singleton_append, octetsFrom, if_neg (by decide), if_pos rfl, hval]
  split
  · rename_i hunreserved
    obtain ⟨hpercent, hplus, hval⟩ := isUnreserved_plain b hunreserved
    rw [List.singleton_append, octetsFrom_plain hpercent hplus, hval]
  · have hval : octet (b.val / 16 * 16 + b.val % 16) = b := by
      rw [Nat.div_add_mod']
      exact Fin.ofNat_val_eq_self b
    rw [List.cons_append, List.cons_append, List.singleton_append, octetsFrom, if_pos rfl, octetsFrom,
      hexValue_hexDigit (by omega), Option.bind_some, octetsFrom, hexValue_hexDigit (by omega), Option.bind_some, hval]

/-- **Octets are read back.** -/
theorem percentDecode_percentEncode (bs : List Octet) : percentDecode (percentEncode bs) = some bs := by
  unfold percentDecode
  induction bs with
  | nil => rfl
  | cons b bs ih =>
    rw [percentEncode, List.flatMap_cons, octetsFrom_append, show bs.flatMap percentOctet = percentEncode bs from rfl,
      ih]
    rfl

/-- The delimiters of URIs. -/
def isDelimiter (c : CodePoint) : Bool := (str ":/?#[]@!$&'()*,;=").contains c

theorem percentOctet_delimiter : ∀ b : Octet, (percentOctet b).all (!isDelimiter ·) = true := by decide +kernel

/-- **What is encoded has no delimiter.** -/
theorem mem_percentEncode {bs : List Octet} {c : CodePoint} (h : c ∈ percentEncode bs) : isDelimiter c = false := by
  obtain ⟨b, -, hc⟩ := List.mem_flatMap.1 h
  have hplain := List.all_eq_true.1 (percentOctet_delimiter b) c hc
  simpa using hplain

end Text
