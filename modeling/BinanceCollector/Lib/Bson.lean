import Mathlib.Algebra.Ring.Int.Defs
import BinanceCollector.Lib.Dict
import BinanceCollector.Lib.Json

/-!
# The values that BSON can hold

Integers of 64 bits, texts that have a UTF-8 encoding, and keys that besides have no NUL. `IsBson` says that a value has
nothing else at any depth.

- `isBson_object`: an object is storable when what is in it is.
- `isBson_rename`: renaming a dictionary by names that can be keys does not change it.
-/

namespace Json

open Text

/-- A code unit of UTF-16 that is half of a pair. -/
def isSurrogate (c : CodePoint) : Bool := decide (0xD800 ≤ c.val ∧ c.val ≤ 0xDFFF)

/-- The text has a UTF-8 encoding. -/
def isUtf8 (s : Str) : Bool := s.all fun c => !isSurrogate c

/-- The text can be a key. -/
def isBsonKey (s : Str) : Bool := isUtf8 s && !s.contains 0

/-- The number has 64 bits. -/
def isInt64 (n : ℤ) : Bool := decide (-2 ^ 63 ≤ n ∧ n ≤ 2 ^ 63 - 1)

mutual

/-- BSON can hold the value. -/
def Value.isBson : Value → Bool
  | .null | .bool _ | .float _ => true
  | .int n => isInt64 n
  | .str s => isUtf8 s
  | .array items => isBsonItems items
  | .object members => isBsonMembers members

def isBsonItems : List Value → Bool
  | [] => true
  | v :: vs => v.isBson && isBsonItems vs

def isBsonMembers : List (Str × Value) → Bool
  | [] => true
  | (key, v) :: ms => isBsonKey key && v.isBson && isBsonMembers ms

end

/-- BSON can hold the value. -/
def IsBson (v : Value) : Prop := v.isBson = true

instance decidableIsBson (v : Value) : Decidable (IsBson v) := inferInstanceAs (Decidable (_ = true))

theorem isBson_object {members : List (Str × Value)} :
    IsBson (.object members) ↔ ∀ p ∈ members, isBsonKey p.1 = true ∧ IsBson p.2 := by
  unfold IsBson
  rw [Value.isBson]
  induction members with
  | nil => simp [isBsonMembers]
  | cons p ms ih =>
    obtain ⟨key, v⟩ := p
    rw [isBsonMembers, Bool.and_eq_true, Bool.and_eq_true, ih, List.forall_mem_cons]

theorem isBson_append {ms ns : List (Str × Value)} :
    IsBson (.object (ms ++ ns)) ↔ IsBson (.object ms) ∧ IsBson (.object ns) := by
  simp only [isBson_object, List.forall_mem_append]

theorem isBson_cons {p : Str × Value} {ms : List (Str × Value)} :
    IsBson (.object (p :: ms)) ↔ isBsonKey p.1 = true ∧ IsBson p.2 ∧ IsBson (.object ms) := by
  simp only [isBson_object, List.forall_mem_cons, and_assoc]

@[simp] theorem isBson_nil : IsBson (.object []) := rfl

@[simp] theorem isBson_str {s : Str} : IsBson (.str s) ↔ isUtf8 s = true := Iff.rfl

@[simp] theorem isBson_int {n : ℤ} : IsBson (.int n) ↔ isInt64 n = true := Iff.rfl

/-- **Renaming between names that can be keys changes nothing.** -/
theorem isBson_rename {f : Str → Str} (hf : ∀ key, isBsonKey (f key) = isBsonKey key) (ms : List (Str × Value)) :
    IsBson (.object (Dict.rename f ms)) ↔ IsBson (.object ms) := by
  simp only [isBson_object, Dict.rename, List.forall_mem_map, hf]

/-! ## Lengths -/

/-- The bytes of a code point in UTF-8. -/
def utf8Length (c : CodePoint) : ℕ :=
  if c.val < 0x80 then 1 else if c.val < 0x800 then 2 else if c.val < 0x10000 then 3 else 4

/-- The bytes of a text with its final NUL. -/
def cstringLength (s : Str) : ℕ := (s.map utf8Length).sum + 1

mutual

/-- The bytes of a value after its type and its key. -/
def Value.bsonLength : Value → ℕ
  | .null => 0
  | .bool _ => 1
  | .float _ => 8
  | .int n => if -2 ^ 31 ≤ n ∧ n < 2 ^ 31 then 4 else 8
  | .str s => 4 + cstringLength s
  | .array items => 5 + bsonLengthItems 0 items
  | .object members => 5 + bsonLengthMembers members

/-- The items of an array have their positions as keys. -/
def bsonLengthItems (position : ℕ) : List Value → ℕ
  | [] => 0
  | v :: vs => 1 + cstringLength (decimal position) + v.bsonLength + bsonLengthItems (position + 1) vs

def bsonLengthMembers : List (Str × Value) → ℕ
  | [] => 0
  | (key, v) :: ms => 1 + cstringLength key + v.bsonLength + bsonLengthMembers ms

end

end Json
