import BinanceCollector.Lib.Dict
import BinanceCollector.Models.Event

/-!
# Strict decoding

`collector/parser.py`: a text is decoded as a JSON object with distinct keys and integers only, its known top-level
keys are renamed, and everything else is kept as a raw message with a warning.

- `renameFields_eq_ok`: renaming succeeds exactly when the new names are distinct.
- `decode_object`: the keys of an object that has been decoded are distinct.
- `normalizeMessage_object`: what a decoded object becomes.
-/

namespace BinanceCollector

open Text Json

/-- `FIELD_NAMES`. -/
def fieldNames : List (Str × Str) :=
  [(str "e", str "event_type"), (str "s", str "symbol"), (str "E", str "event_time"), (str "T", str "trade_time"),
    (str "a", str "trade_id"), (str "p", str "price"), (str "q", str "quantity"), (str "f", str "first_trade_id"),
    (str "l", str "last_trade_id"), (str "m", str "is_buyer_maker")]

/-- The exceptions of the hooks. -/
inductive Refusal where
  /-- `DuplicateKeyError` -/
  | duplicateKey (key : Str)
  /-- `UnsupportedNumberError` -/
  | unsupportedNumber (raw : Str)
  deriving DecidableEq

/-- The exceptions of `json.loads` that its callers do not catch. -/
inductive DecodeFailure where
  /-- `ValueError`: an integer has more digits than `int` converts -/
  | tooManyDigits
  /-- `RecursionError` -/
  | recursion
  deriving DecidableEq

/-- `_pairs_without_duplicates`. -/
def pairsWithoutDuplicates (pairs : List (Str × Value)) : Except Refusal Value :=
  match Dict.collect id [] pairs with
  | .ok result => .ok (.object result)
  | .error key => .error (.duplicateKey key)

/-- `_reject_floating_point_number`. -/
def rejectFloatingPointNumber (raw : Str) : Except Refusal Value := .error (.unsupportedNumber raw)

/-- `_reject_non_standard_number`. -/
def rejectNonStandardNumber (raw : Str) : Except Refusal Value := .error (.unsupportedNumber raw)

/-- The hooks `normalize_message` gives to `json.loads`. -/
def strictHooks : Hooks Refusal where
  object := pairsWithoutDuplicates
  float := rejectFloatingPointNumber
  constant := rejectNonStandardNumber

/-! ## Raw messages -/

/-- The character of a base64 digit. -/
def base64Digit (n : ℕ) : CodePoint := (str "ABCDEFGHIJKLMNOPQRSTUVWXYZabcdefghijklmnopqrstuvwxyz0123456789+/").getD n 0

/-- `base64.b64encode(message).decode("ascii")`. -/
def b64encode : List (Fin 256) → Str
  | [] => []
  | [a] => [base64Digit (a / 4), base64Digit (a % 4 * 16), code '=', code '=']
  | [a, b] => [base64Digit (a / 4), base64Digit (a % 4 * 16 + b / 16), base64Digit (b % 16 * 4), code '=']
  | a :: b :: c :: rest =>
    base64Digit (a / 4) :: base64Digit (a % 4 * 16 + b / 16) :: base64Digit (b % 16 * 4 + c / 64) ::
      base64Digit (c % 64) :: b64encode rest

/-- `_raw_text_message`. -/
def rawTextMessage (message : Str) (warning : Str) : NormalizedMessage :=
  ⟨[(str "raw_message", .str message)], some warning⟩

/-- `_raw_binary_message`. -/
def rawBinaryMessage (message : List (Fin 256)) : NormalizedMessage :=
  ⟨[(str "raw_message", .str (b64encode message)), (str "raw_encoding", .str (str "base64"))],
    some (str "binary_message")⟩

/-! ## Renaming -/

/-- `field_names.get(original_name, original_name)`. -/
def fieldName (names : List (Str × Str)) (name : Str) : Str := (names.lookup name).getD name

/-- `rename_fields`; the name that is there already where it raises `FieldNameCollisionError`. -/
def renameFields (payload : List (Str × Value)) (names : List (Str × Str)) : Except Str (List (Str × Value)) :=
  Dict.collect (fieldName names) [] payload

/-- `normalize_message`. -/
def normalizeMessage (lim : Limits) : WireMessage → Except DecodeFailure NormalizedMessage
  | .binary message => .ok (rawBinaryMessage message)
  | .text message =>
    match loads strictHooks lim message with
    | .error .malformed => .ok (rawTextMessage message (str "invalid_json"))
    | .error (.refused (.duplicateKey _)) => .ok (rawTextMessage message (str "duplicate_key"))
    | .error (.refused (.unsupportedNumber _)) => .ok (rawTextMessage message (str "unsupported_number"))
    | .error .tooLong => .error .tooManyDigits
    | .error .tooDeep | .error .exhausted => .error .recursion
    | .ok (.object payload) =>
      match renameFields payload fieldNames with
      | .error _ => .ok (rawTextMessage message (str "field_name_collision"))
      | .ok normalized => .ok ⟨normalized, none⟩
    | .ok _ => .ok (rawTextMessage message (str "non_object_json"))

/-! ## Facts -/

theorem renameFields_eq_ok {payload d : List (Str × Value)} {names : List (Str × Str)} :
    renameFields payload names = .ok d ↔
      d = Dict.rename (fieldName names) payload ∧ ((Dict.keys payload).map (fieldName names)).Nodup :=
  Dict.collect_eq_ok

theorem fieldName_eq_self {names : List (Str × Str)} {name : Str} (h : name ∉ Dict.keys names) :
    fieldName names name = name := by
  rw [fieldName, List.lookup_eq_none_iff.2 fun p hp => bne_iff_ne.2 fun heq => h (List.mem_map.2 ⟨p, hp, heq.symm⟩)]
  rfl

/-- A name is in the map, or stays as it is. -/
theorem fieldName_cases (names : List (Str × Str)) (name : Str) :
    (name, fieldName names name) ∈ names ∨ (fieldName names name = name ∧ name ∉ Dict.keys names) := by
  cases hl : names.lookup name with
  | none =>
    refine .inr ⟨by rw [fieldName, hl]; rfl, fun hmem => ?_⟩
    obtain ⟨p, hp, rfl⟩ := List.mem_map.1 hmem
    exact absurd (List.lookup_eq_none_iff.1 hl p hp) (by simp)
  | some new =>
    refine .inl ?_
    rw [fieldName, hl]
    exact Dict.mem_of_lookup hl

theorem fieldName_mem (names : List (Str × Str)) (name : Str) :
    fieldName names name ∈ names.map (·.2) ∨ (fieldName names name = name ∧ name ∉ Dict.keys names) :=
  (fieldName_cases names name).imp_left fun h => List.mem_map.2 ⟨_, h, rfl⟩

/-- **Renaming removes every key of a map whose new names are not keys.** -/
theorem fieldName_notMem {names : List (Str × Str)} (hfresh : ∀ p ∈ names, p.2 ∉ Dict.keys names) (name : Str) :
    fieldName names name ∉ Dict.keys names := by
  rcases fieldName_cases names name with hmem | ⟨hsame, hnot⟩
  · exact hfresh _ hmem
  · rwa [hsame]

/-- A name the map does not speak of is the new name of itself only. -/
theorem fieldName_eq_iff {k : Str} (hk : k ∉ Dict.keys fieldNames) (hv : k ∉ fieldNames.map (·.2)) (name : Str) :
    fieldName fieldNames name = k ↔ name = k := by
  constructor
  · rintro rfl
    rcases fieldName_mem fieldNames name with hnew | ⟨hsame, -⟩
    · exact absurd hnew hv
    · exact hsame.symm
  · rintro rfl
    exact fieldName_eq_self hk

/-- **The keys of a decoded object are distinct.** -/
theorem decode_object {lim : Limits} {message : Str} {payload : List (Str × Value)}
    (h : loads strictHooks lim message = .ok (.object payload)) : (Dict.keys payload).Nodup := by
  rcases loads_object h with ⟨members, hb⟩ | ⟨raw, hb⟩ | ⟨raw, hb⟩
  · simp only [strictHooks, pairsWithoutDuplicates] at hb
    split at hb
    · rename_i result hr
      obtain ⟨rfl, hn⟩ := Dict.collect_eq_ok.1 hr
      cases hb
      simpa using hn
    · cases hb
  · cases hb
  · cases hb

/-- What a decoded object becomes. -/
theorem normalizeMessage_object {lim : Limits} {message : Str} {payload : List (Str × Value)}
    (h : loads strictHooks lim message = .ok (.object payload)) :
    normalizeMessage lim (.text message) = .ok (
      match renameFields payload fieldNames with
      | .error _ => rawTextMessage message (str "field_name_collision")
      | .ok normalized => ⟨normalized, none⟩) := by
  simp only [normalizeMessage, h]
  split <;> rfl

/-- A message accepted without warning is the text of an object, under the names of `FIELD_NAMES`. -/
theorem normalizeMessage_accepted {lim : Limits} {m : WireMessage} {event : Event}
    (h : normalizeMessage lim m = .ok ⟨event, none⟩) : ∃ text payload, m = .text text ∧
      loads strictHooks lim text = .ok (.object payload) ∧ renameFields payload fieldNames = .ok event := by
  cases m with
  | binary bytes => simp [normalizeMessage, rawBinaryMessage] at h
  | text text =>
    cases hl : loads strictHooks lim text with
    | error e => simp only [normalizeMessage, hl] at h; split at h <;> simp_all [rawTextMessage]
    | ok v =>
      cases v with
      | object payload =>
        rw [normalizeMessage_object hl] at h
        cases hr : renameFields payload fieldNames with
        | error e => rw [hr] at h; simp [rawTextMessage] at h
        | ok normalized =>
          rw [hr] at h
          simp only [Except.ok.injEq, NormalizedMessage.mk.injEq, and_true] at h
          exact ⟨text, payload, rfl, hl, h ▸ hr⟩
      | _ => simp [normalizeMessage, hl, rawTextMessage] at h

end BinanceCollector
