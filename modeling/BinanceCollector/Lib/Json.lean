import Mathlib.Data.List.DropRight
import Mathlib.Tactic.Common
import BinanceCollector.Lib.Text

/-!
# A one-pass JSON decoder with hooks

The decoder reads a text from left to right and builds each value as soon as it has read it. Objects, numbers that are
not integers, and the constants that are not JSON go to hooks, which may refuse them: the text after the refused value
is then not looked at. The nesting of containers and the digits of an integer are limited.

- `scan_shorter`: reading a value uses up text, so the loops over the members of a container never run out
  (`loads_ne_exhausted`).
- `loads_object`: an object that has been read is one a hook has built.
-/

namespace Json

open Text

/-- A decoded value. A number that is not an integer keeps its literal. -/
inductive Value where
  | null
  | bool (b : Bool)
  | int (n : ℤ)
  | float (literal : Str)
  | str (s : Str)
  | array (items : List Value)
  | object (members : List (Str × Value))

mutual

/-- Values are compared from the leaves up. -/
def Value.decEq : (v w : Value) → Decidable (v = w)
  | .null, .null => isTrue rfl
  | .bool b, .bool c => decidable_of_iff (b = c) (by simp)
  | .int m, .int n => decidable_of_iff (m = n) (by simp)
  | .float s, .float t => decidable_of_iff (s = t) (by simp)
  | .str s, .str t => decidable_of_iff (s = t) (by simp)
  | .array vs, .array ws => match decEqItems vs ws with
    | isTrue h => isTrue (h ▸ rfl)
    | isFalse h => isFalse fun heq => h (Value.array.inj heq)
  | .object ms, .object ns => match decEqMembers ms ns with
    | isTrue h => isTrue (h ▸ rfl)
    | isFalse h => isFalse fun heq => h (Value.object.inj heq)
  | .null, .bool _ | .null, .int _ | .null, .float _ | .null, .str _ | .null, .array _ | .null, .object _
  | .bool _, .null | .bool _, .int _ | .bool _, .float _ | .bool _, .str _ | .bool _, .array _ | .bool _, .object _
  | .int _, .null | .int _, .bool _ | .int _, .float _ | .int _, .str _ | .int _, .array _ | .int _, .object _
  | .float _, .null | .float _, .bool _ | .float _, .int _ | .float _, .str _ | .float _, .array _ | .float _, .object _
  | .str _, .null | .str _, .bool _ | .str _, .int _ | .str _, .float _ | .str _, .array _ | .str _, .object _
  | .array _, .null | .array _, .bool _ | .array _, .int _ | .array _, .float _ | .array _, .str _ | .array _, .object _
  | .object _, .null | .object _, .bool _ | .object _, .int _ | .object _, .float _ | .object _, .str _
  | .object _, .array _ => isFalse fun h => by cases h

def decEqItems : (vs ws : List Value) → Decidable (vs = ws)
  | [], [] => isTrue rfl
  | [], _ :: _ | _ :: _, [] => isFalse fun h => by cases h
  | v :: vs, w :: ws => match v.decEq w, decEqItems vs ws with
    | isTrue h, isTrue h' => isTrue (h ▸ h' ▸ rfl)
    | isFalse h, _ => isFalse fun heq => h (List.cons.inj heq).1
    | _, isFalse h => isFalse fun heq => h (List.cons.inj heq).2

def decEqMembers : (ms ns : List (Str × Value)) → Decidable (ms = ns)
  | [], [] => isTrue rfl
  | [], _ :: _ | _ :: _, [] => isFalse fun h => by cases h
  | (k, v) :: ms, (l, w) :: ns => match decEq k l, v.decEq w, decEqMembers ms ns with
    | isTrue h, isTrue h', isTrue h'' => isTrue (h ▸ h' ▸ h'' ▸ rfl)
    | isFalse h, _, _ => isFalse fun heq => h (Prod.mk.inj (List.cons.inj heq).1).1
    | _, isFalse h, _ => isFalse fun heq => h (Prod.mk.inj (List.cons.inj heq).1).2
    | _, _, isFalse h => isFalse fun heq => h (List.cons.inj heq).2

end

instance : DecidableEq Value := Value.decEq

/-- What the decoder can be asked to do. -/
structure Limits where
  /-- how deep containers nest -/
  depth : ℕ
  /-- how many digits an integer has -/
  digits : ℕ
  deriving DecidableEq

/-- What objects, other numbers and other constants become; an `ω` where they are refused. -/
structure Hooks (ω : Type*) where
  object : List (Str × Value) → Except ω Value
  float : Str → Except ω Value
  constant : Str → Except ω Value

/-- Why a text is not decoded. -/
inductive Error (ω : Type*) where
  | malformed
  | refused (e : ω)
  | tooDeep
  | tooLong
  /-- a loop has run out; never returned (`loads_ne_exhausted`) -/
  | exhausted
  deriving DecidableEq

variable {ω : Type*}

/-- A value and the text after it. -/
abbrev Scanned (ω α : Type*) := Except (Error ω) (α × Str)

/-! ## Tokens -/

/-- White space between tokens. -/
def isSpace (c : CodePoint) : Bool := c = code ' ' || c = code '\t' || c = code '\n' || c = code '\r'

def skipSpace : Str → Str
  | [] => []
  | c :: s => if isSpace c then skipSpace s else c :: s

def isDigit (c : CodePoint) : Bool := decide ((code '0').val ≤ c.val ∧ c.val ≤ (code '9').val)

/-- The digits at the head of a text, and the rest. -/
def takeDigits : Str → Str × Str
  | [] => ([], [])
  | c :: s => if isDigit c then (c :: (takeDigits s).1, (takeDigits s).2) else ([], c :: s)

/-- The number a sequence of digits stands for. -/
def natOfDigits (ds : Str) : ℕ := ds.foldl (fun n c => 10 * n + (c.val - (code '0').val)) 0

def hexDigit (c : CodePoint) : Option ℕ :=
  if isDigit c then some (c.val - (code '0').val)
  else if (code 'a').val ≤ c.val ∧ c.val ≤ (code 'f').val then some (c.val - (code 'a').val + 10)
  else if (code 'A').val ≤ c.val ∧ c.val ≤ (code 'F').val then some (c.val - (code 'A').val + 10)
  else none

/-- Four hexadecimal digits. -/
def hexUnit (a b c d : CodePoint) : Option ℕ := do
  let a ← hexDigit a
  let b ← hexDigit b
  let c ← hexDigit c
  let d ← hexDigit d
  return ((a * 16 + b) * 16 + c) * 16 + d

def isHighSurrogate (n : ℕ) : Bool := decide (0xD800 ≤ n ∧ n ≤ 0xDBFF)

def isLowSurrogate (n : ℕ) : Bool := decide (0xDC00 ≤ n ∧ n ≤ 0xDFFF)

/-- The code point with this number. -/
def ofUnit (n : ℕ) : CodePoint := Fin.ofNat 0x110000 n

def joinSurrogates (high low : ℕ) : CodePoint := ofUnit (0x10000 + (high - 0xD800) * 0x400 + (low - 0xDC00))

/-- The character an escape of two characters stands for. -/
def unescape (c : CodePoint) : Option CodePoint :=
  if c = code '"' ∨ c = code '\\' ∨ c = code '/' then some c
  else if c = code 'b' then some (ofUnit 8)
  else if c = code 'f' then some (ofUnit 12)
  else if c = code 'n' then some (code '\n')
  else if c = code 'r' then some (code '\r')
  else if c = code 't' then some (code '\t')
  else none

/-- The rest of a string after its opening quote: its text and what follows the closing quote. -/
def scanString : Str → Option (Str × Str)
  | [] => none
  | [c] => if c = code '"' then some ([], []) else none
  | c :: d :: s =>
    if c = code '"' then some ([], d :: s)
    else if c = code '\\' then
      if d = code 'u' then
        match s with
        | h₁ :: h₂ :: h₃ :: h₄ :: s =>
          match hexUnit h₁ h₂ h₃ h₄ with
          | none => none
          | some n =>
            match s with
            | c' :: d' :: l₁ :: l₂ :: l₃ :: l₄ :: s' =>
              match isHighSurrogate n && c' = code '\\' && d' = code 'u', hexUnit l₁ l₂ l₃ l₄ with
              | true, some m =>
                if isLowSurrogate m then (scanString s').map fun (t, r) => (joinSurrogates n m :: t, r)
                else (scanString (c' :: d' :: l₁ :: l₂ :: l₃ :: l₄ :: s')).map fun (t, r) => (ofUnit n :: t, r)
              | _, _ => (scanString (c' :: d' :: l₁ :: l₂ :: l₃ :: l₄ :: s')).map fun (t, r) => (ofUnit n :: t, r)
            | s => (scanString s).map fun (t, r) => (ofUnit n :: t, r)
        | _ => none
      else
        match unescape d with
        | none => none
        | some e => (scanString s).map fun (t, r) => (e :: t, r)
    else if c.val < 0x20 then none
    else (scanString (d :: s)).map fun (t, r) => (c :: t, r)

/-- A sign at the head of a text, and the rest. -/
def takeSign (isSign : CodePoint → Bool) : Str → Str × Str
  | [] => ([], [])
  | c :: s => if isSign c then ([c], s) else ([], c :: s)

/-- The digits of an integer, which starts with `0` only when it is `0`. -/
def takeInteger : Str → Option (Str × Str)
  | [] => none
  | c :: s =>
    if c = code '0' then some ([c], s)
    else if isDigit c then some (c :: (takeDigits s).1, (takeDigits s).2)
    else none

/-- A point with digits after it, if there is one. -/
def takeFraction : Str → Str × Str
  | [] => ([], [])
  | c :: s =>
    if c = code '.' ∧ (takeDigits s).1 ≠ [] then (c :: (takeDigits s).1, (takeDigits s).2) else ([], c :: s)

/-- An exponent with digits, if there is one. -/
def takeExponent : Str → Str × Str
  | [] => ([], [])
  | c :: s =>
    let (sign, t) := takeSign (fun g => g = code '+' || g = code '-') s
    if (c = code 'e' ∨ c = code 'E') ∧ (takeDigits t).1 ≠ [] then
      (c :: sign ++ (takeDigits t).1, (takeDigits t).2)
    else ([], c :: s)

/-- A number literal: its integer part with the sign, the rest of the literal, and the text after it. -/
def scanNumber (s : Str) : Option (Str × Str × Str) :=
  let (sign, s) := takeSign (· = code '-') s
  match takeInteger s with
  | none => none
  | some (digits, s) =>
    let (fraction, s) := takeFraction s
    let (exponent, s) := takeExponent s
    some (sign ++ digits, fraction ++ exponent, s)

/-- The integer a literal stands for. -/
def intOfLiteral : Str → ℤ
  | [] => 0
  | c :: s => if c = code '-' then -(natOfDigits s : ℤ) else natOfDigits (c :: s)

/-- What follows a word at the head of a text. -/
def dropWord (w : String) (s : Str) : Option Str := s.dropPrefix? (str w)

/-! ## Values -/

/-- A refusal of a hook. -/
def hooked (r : Except ω Value) (s : Str) : Scanned ω Value :=
  match r with
  | .ok v => .ok (v, s)
  | .error e => .error (.refused e)

/-- The members of an object after `{` or `,`, up to `}`. -/
def scanMembers (value : Str → Scanned ω Value) : ℕ → List (Str × Value) → Str → Scanned ω (List (Str × Value))
  | 0, _, _ => .error .exhausted
  | n + 1, members, s =>
    match s with
    | [] => .error .malformed
    | q :: s =>
      if q = code '"' then
        match scanString s with
        | none => .error .malformed
        | some (key, s) =>
          match skipSpace s with
          | [] => .error .malformed
          | c :: s =>
            if c = code ':' then
              match value (skipSpace s) with
              | .error e => .error e
              | .ok (v, s) =>
                match skipSpace s with
                | [] => .error .malformed
                | c :: s =>
                  if c = code '}' then .ok (members ++ [(key, v)], s)
                  else if c = code ',' then scanMembers value n (members ++ [(key, v)]) (skipSpace s)
                  else .error .malformed
            else .error .malformed
      else .error .malformed

/-- The items of an array after `[` or `,`, up to `]`. -/
def scanItems (value : Str → Scanned ω Value) : ℕ → List Value → Str → Scanned ω (List Value)
  | 0, _, _ => .error .exhausted
  | n + 1, items, s =>
    match value s with
    | .error e => .error e
    | .ok (v, s) =>
      match skipSpace s with
      | [] => .error .malformed
      | c :: s =>
        if c = code ']' then .ok (items ++ [v], s)
        else if c = code ',' then scanItems value n (items ++ [v]) (skipSpace s)
        else .error .malformed

/-- An object after `{`. -/
def scanObject (h : Hooks ω) (value : Str → Scanned ω Value) (s : Str) : Scanned ω Value :=
  match skipSpace s with
  | [] => .error .malformed
  | c :: s =>
    if c = code '}' then hooked (h.object []) s
    else
      match scanMembers value (s.length + 2) [] (c :: s) with
      | .error e => .error e
      | .ok (members, s) => hooked (h.object members) s

/-- An array after `[`. -/
def scanArray (value : Str → Scanned ω Value) (s : Str) : Scanned ω Value :=
  match skipSpace s with
  | [] => .error .malformed
  | c :: s =>
    if c = code ']' then .ok (.array [], s)
    else
      match scanItems value (s.length + 2) [] (c :: s) with
      | .error e => .error e
      | .ok (items, s) => .ok (.array items, s)

/-- The words that are values, with what they become. -/
def words (h : Hooks ω) : List (String × Except ω Value) :=
  [("null", .ok .null), ("true", .ok (.bool true)), ("false", .ok (.bool false)), ("NaN", h.constant (str "NaN")),
    ("Infinity", h.constant (str "Infinity")), ("-Infinity", h.constant (str "-Infinity"))]

def scanWord : List (String × Except ω Value) → Str → Option (Scanned ω Value)
  | [], _ => none
  | (w, v) :: ws, s =>
    match dropWord w s with
    | some t => some (hooked v t)
    | none => scanWord ws s

/-- A value that is no string and no container. -/
def scanScalar (h : Hooks ω) (lim : Limits) (s : Str) : Scanned ω Value :=
  match scanWord (words h) s with
  | some r => r
  | none =>
    match scanNumber s with
    | none => .error .malformed
    | some (int, [], s) =>
      if lim.digits < (int.filter isDigit).length then .error .tooLong else .ok (.int (intOfLiteral int), s)
    | some (int, rest, s) => hooked (h.float (int ++ rest)) s

/-- A value, with the readers of the containers. -/
def scanToken (h : Hooks ω) (lim : Limits) (object array : Str → Scanned ω Value) (s : Str) : Scanned ω Value :=
  match s with
  | [] => .error .malformed
  | c :: t =>
    if c = code '"' then
      match scanString t with
      | none => .error .malformed
      | some (x, r) => .ok (.str x, r)
    else if c = code '{' then object t
    else if c = code '[' then array t
    else scanScalar h lim s

/-- A value whose containers nest at most this deep. -/
def scanOnce (h : Hooks ω) (lim : Limits) : ℕ → Str → Scanned ω Value
  | 0 => scanToken h lim (fun _ => .error .tooDeep) fun _ => .error .tooDeep
  | d + 1 => scanToken h lim (scanObject h (scanOnce h lim d)) (scanArray (scanOnce h lim d))

/-- A text that is one value. -/
def loads (h : Hooks ω) (lim : Limits) (s : Str) : Except (Error ω) Value :=
  if s.head? = some (ofUnit 0xFEFF) then .error .malformed
  else
    match scanOnce h lim lim.depth (skipSpace s) with
    | .error e => .error e
    | .ok (v, s) => if skipSpace s = [] then .ok v else .error .malformed

/-! ## Reading uses up text -/

/-- The reader returns less text than it was given, and never runs out of rounds. -/
structure Reads {α : Type*} (read : Str → Scanned ω α) : Prop where
  shorter : ∀ {s x r}, read s = .ok (x, r) → r.length < s.length
  total : ∀ s, read s ≠ .error .exhausted

theorem length_skipSpace (s : Str) : (skipSpace s).length ≤ s.length := by
  induction s with
  | nil => exact Nat.le_refl _
  | cons c s ih =>
    rw [skipSpace]
    split
    · exact Nat.le_succ_of_le ih
    · exact Nat.le_refl _

theorem length_takeDigits (s : Str) : (takeDigits s).2.length ≤ s.length := by
  induction s with
  | nil => exact Nat.le_refl _
  | cons c s ih =>
    rw [takeDigits]
    split
    · exact Nat.le_succ_of_le ih
    · exact Nat.le_refl _

theorem length_takeSign (isSign : CodePoint → Bool) (s : Str) : (takeSign isSign s).2.length ≤ s.length := by
  cases s with
  | nil => exact Nat.le_refl _
  | cons c s =>
    rw [takeSign]
    split
    · exact Nat.le_succ _
    · exact Nat.le_refl _

theorem takeInteger_shorter {s ds r : Str} (h : takeInteger s = some (ds, r)) : r.length < s.length := by
  cases s with
  | nil => cases h
  | cons c s =>
    rw [takeInteger] at h
    split at h
    · cases h; exact Nat.lt_succ_self _
    · split at h
      · cases h; exact Nat.lt_succ_of_le (length_takeDigits s)
      · cases h

theorem length_takeFraction (s : Str) : (takeFraction s).2.length ≤ s.length := by
  cases s with
  | nil => exact Nat.le_refl _
  | cons c s =>
    rw [takeFraction]
    split
    · exact Nat.le_succ_of_le (length_takeDigits s)
    · exact Nat.le_refl _

theorem length_takeExponent (s : Str) : (takeExponent s).2.length ≤ s.length := by
  cases s with
  | nil => exact Nat.le_refl _
  | cons c s =>
    have hsign := length_takeSign (fun g => g = code '+' || g = code '-') s
    rw [takeExponent]
    dsimp only
    split
    · exact Nat.le_succ_of_le ((length_takeDigits _).trans hsign)
    · exact Nat.le_refl _

theorem scanNumber_shorter {s i f r : Str} (h : scanNumber s = some (i, f, r)) : r.length < s.length := by
  unfold scanNumber at h
  dsimp only at h
  split at h
  · cases h
  · rename_i digits t ht
    cases h
    calc _ ≤ (takeFraction t).2.length := length_takeExponent _
      _ ≤ t.length := length_takeFraction t
      _ < _ := takeInteger_shorter ht
      _ ≤ s.length := length_takeSign _ s

theorem scanString_shorter {s t r : Str} (h : scanString s = some (t, r)) : r.length < s.length := by
  fun_induction scanString s generalizing t r <;> simp_all
  all_goals grind

theorem dropWord_shorter {w : String} {s r : Str} (hw : str w ≠ []) (h : dropWord w s = some r) :
    r.length < s.length := by
  obtain ⟨p, rfl, hp⟩ := List.dropPrefix?_eq_some_iff.1 h
  rw [beq_iff_eq.1 hp]
  have := List.length_pos_iff.2 hw
  rw [List.length_append]
  omega

/-! ## The readers -/

theorem hooked_shorter {r : Except ω Value} {s t : Str} {v : Value} (h : hooked r s = .ok (v, t)) : t = s := by
  unfold hooked at h
  split at h
  · cases h; rfl
  · cases h

theorem hooked_total (r : Except ω Value) (s : Str) : hooked r s ≠ .error .exhausted := by
  unfold hooked
  split <;> simp

theorem scanWord_reads {s : Str} {r : Scanned ω Value} : ∀ ws : List (String × Except ω Value),
    (∀ p ∈ ws, str p.1 ≠ []) → scanWord ws s = some r →
      (∀ {v t}, r = .ok (v, t) → t.length < s.length) ∧ r ≠ .error .exhausted
  | [], _, h => by cases h
  | (w, v) :: ws, hws, h => by
    rw [scanWord] at h
    split at h
    · rename_i t ht
      cases h
      exact ⟨fun h => hooked_shorter h ▸ dropWord_shorter (hws _ (List.mem_cons_self ..)) ht, hooked_total v t⟩
    · exact scanWord_reads ws (fun p hp => hws p (List.mem_cons_of_mem _ hp)) h

theorem scanScalar_reads (h : Hooks ω) (lim : Limits) : Reads (scanScalar h lim) where
  shorter {s v r} hs := by
    unfold scanScalar at hs
    split at hs
    · rename_i w hw
      exact (scanWord_reads (words h) (by simp [words, str]) hw).1 hs
    · split at hs
      · cases hs
      · rename_i hn
        split at hs
        · cases hs
        · cases hs; exact scanNumber_shorter hn
      · rename_i hn
        exact hooked_shorter hs ▸ scanNumber_shorter hn
  total s := by
    unfold scanScalar
    split
    · rename_i w hw
      exact (scanWord_reads (words h) (by simp [words, str]) hw).2
    · split
      · simp
      · split <;> simp
      · exact hooked_total _ _

/-- A loop over members that uses up text runs for at most as many rounds as there is text. -/
theorem scanMembers_reads {value : Str → Scanned ω Value} (hv : Reads value) :
    ∀ (n : ℕ) (members : List (Str × Value)) (s : Str), s.length < n →
      (∀ {x r}, scanMembers value n members s = .ok (x, r) → r.length < s.length) ∧
        scanMembers value n members s ≠ .error .exhausted
  | 0, _, _, h => absurd h (Nat.not_lt_zero _)
  | n + 1, members, s, hn => by
    unfold scanMembers
    split
    · simp
    · rename_i q s
      split
      · split
        · simp
        · rename_i key s₁ hkey
          have h₁ := scanString_shorter hkey
          have h₁' := length_skipSpace s₁
          split
          · simp
          · rename_i c s₂ hs₂
            rw [hs₂, List.length_cons] at h₁'
            split
            · have h₂ := length_skipSpace s₂
              split
              · rename_i e he
                exact ⟨by simp, fun heq => by cases heq; exact hv.total _ he⟩
              · rename_i v s₃ hs₃
                have h₃ := hv.shorter hs₃
                have h₃' := length_skipSpace s₃
                split
                · simp
                · rename_i c' s₄ hs₄
                  rw [hs₄, List.length_cons] at h₃'
                  rw [List.length_cons] at hn ⊢
                  split
                  · exact ⟨fun heq => by cases heq; omega, by simp⟩
                  · split
                    · have h₄ := length_skipSpace s₄
                      obtain ⟨hshort, htotal⟩ :=
                        scanMembers_reads hv n (members ++ [(key, v)]) (skipSpace s₄) (by omega)
                      exact ⟨fun heq => by have := hshort heq; omega, htotal⟩
                    · simp
            · simp
      · simp

theorem scanItems_reads {value : Str → Scanned ω Value} (hv : Reads value) :
    ∀ (n : ℕ) (items : List Value) (s : Str), s.length < n →
      (∀ {x r}, scanItems value n items s = .ok (x, r) → r.length < s.length) ∧
        scanItems value n items s ≠ .error .exhausted
  | 0, _, _, h => absurd h (Nat.not_lt_zero _)
  | n + 1, items, s, hn => by
    rw [scanItems]
    split
    · rename_i e he
      exact ⟨by simp, fun heq => by cases heq; exact hv.total s he⟩
    · rename_i v s₁ hs₁
      have h₁ := hv.shorter hs₁
      have h₁' := length_skipSpace s₁
      split
      · simp
      · rename_i c s₂ hs₂
        rw [hs₂, List.length_cons] at h₁'
        split
        · exact ⟨fun heq => by cases heq; omega, by simp⟩
        · split
          · have h₂ := length_skipSpace s₂
            obtain ⟨hshort, htotal⟩ := scanItems_reads hv n (items ++ [v]) (skipSpace s₂) (by omega)
            exact ⟨fun heq => by have := hshort heq; omega, htotal⟩
          · simp

theorem scanObject_reads (h : Hooks ω) {value : Str → Scanned ω Value} (hv : Reads value) :
    Reads (scanObject h value) := by
  have hloop : ∀ c (s : Str), (∀ {x r}, scanMembers value (s.length + 2) [] (c :: s) = .ok (x, r) →
      r.length < (c :: s).length) ∧ scanMembers value (s.length + 2) [] (c :: s) ≠ .error .exhausted := fun c s =>
    scanMembers_reads hv _ [] (c :: s) (by simp)
  constructor
  · intro s x r hs
    unfold scanObject at hs
    have hsp := length_skipSpace s
    split at hs
    · cases hs
    · rename_i c t ht
      rw [ht, List.length_cons] at hsp
      split at hs
      · rw [hooked_shorter hs]; omega
      · split at hs
        · cases hs
        · rename_i members t' hm
          have := (hloop c t).1 hm
          rw [hooked_shorter hs]
          rw [List.length_cons] at this
          omega
  · intro s
    unfold scanObject
    split
    · simp
    · rename_i c t ht
      split
      · exact hooked_total _ _
      · split
        · rename_i e he
          exact fun heq => by cases heq; exact (hloop c t).2 he
        · exact hooked_total _ _

theorem scanArray_reads {value : Str → Scanned ω Value} (hv : Reads value) : Reads (scanArray value) := by
  have hloop : ∀ c (s : Str), (∀ {x r}, scanItems value (s.length + 2) [] (c :: s) = .ok (x, r) →
      r.length < (c :: s).length) ∧ scanItems value (s.length + 2) [] (c :: s) ≠ .error .exhausted := fun c s =>
    scanItems_reads hv _ [] (c :: s) (by simp)
  constructor
  · intro s x r hs
    unfold scanArray at hs
    have hsp := length_skipSpace s
    split at hs
    · cases hs
    · rename_i c t ht
      rw [ht, List.length_cons] at hsp
      split at hs
      · cases hs; omega
      · split at hs
        · cases hs
        · rename_i items t' hm
          have := (hloop c t).1 hm
          cases hs
          rw [List.length_cons] at this
          omega
  · intro s
    unfold scanArray
    split
    · simp
    · rename_i c t ht
      split
      · simp
      · split
        · rename_i e he
          exact fun heq => by cases heq; exact (hloop c t).2 he
        · simp

theorem scanToken_reads (h : Hooks ω) (lim : Limits) {object array : Str → Scanned ω Value} (ho : Reads object)
    (ha : Reads array) : Reads (scanToken h lim object array) := by
  constructor
  · intro s x r hs
    unfold scanToken at hs
    split at hs
    · cases hs
    · split at hs
      · split at hs
        · cases hs
        · rename_i hstr
          cases hs
          exact Nat.lt_succ_of_lt (scanString_shorter hstr)
      · split at hs
        · exact Nat.lt_succ_of_lt (ho.shorter hs)
        · split at hs
          · exact Nat.lt_succ_of_lt (ha.shorter hs)
          · exact (scanScalar_reads h lim).shorter hs
  · intro s
    unfold scanToken
    split
    · simp
    · split
      · split <;> simp
      · split
        · exact ho.total _
        · split
          · exact ha.total _
          · exact (scanScalar_reads h lim).total _

theorem tooDeep_reads : Reads fun _ : Str => (.error .tooDeep : Scanned ω Value) where
  shorter h := by cases h
  total _ h := by cases h

/-- **Reading a value uses up text.** -/
theorem scan_shorter (h : Hooks ω) (lim : Limits) : ∀ d, Reads (scanOnce h lim d)
  | 0 => scanToken_reads h lim tooDeep_reads tooDeep_reads
  | d + 1 => scanToken_reads h lim (scanObject_reads h (scan_shorter h lim d)) (scanArray_reads (scan_shorter h lim d))

/-- **The decoder never runs out of rounds.** -/
theorem loads_ne_exhausted (h : Hooks ω) (lim : Limits) (s : Str) : loads h lim s ≠ .error .exhausted := by
  unfold loads
  split
  · simp
  · split
    · rename_i e he
      exact fun heq => (scan_shorter h lim lim.depth).total _ (by rw [he]; simpa using heq)
    · split <;> simp

/-! ## Objects -/

/-- The value comes from a hook. -/
def Hooks.Built (h : Hooks ω) (v : Value) : Prop :=
  (∃ members, h.object members = .ok v) ∨ (∃ raw, h.float raw = .ok v) ∨ ∃ raw, h.constant raw = .ok v

theorem hooked_ok {r : Except ω Value} {s t : Str} {v : Value} (h : hooked r s = .ok (v, t)) : r = .ok v := by
  unfold hooked at h
  split at h
  · cases h; rfl
  · cases h

theorem scanWord_object {s : Str} {r : Scanned ω Value} {ms : List (Str × Value)} {t : Str} :
    ∀ ws : List (String × Except ω Value), scanWord ws s = some r → r = .ok (.object ms, t) →
      ∃ w, (w, .ok (.object ms)) ∈ ws
  | [], h, _ => by cases h
  | (w, v) :: ws, h, hr => by
    rw [scanWord] at h
    split at h
    · cases h
      exact ⟨w, by rw [hooked_ok hr]; exact List.mem_cons_self ..⟩
    · obtain ⟨w', hw⟩ := scanWord_object ws h hr
      exact ⟨w', List.mem_cons_of_mem _ hw⟩

theorem scanScalar_object {h : Hooks ω} {lim : Limits} {s t : Str} {ms : List (Str × Value)}
    (hs : scanScalar h lim s = .ok (.object ms, t)) : h.Built (.object ms) := by
  unfold scanScalar at hs
  split at hs
  · rename_i hw
    obtain ⟨w, hmem⟩ := scanWord_object _ hw hs
    simp only [words, List.mem_cons, Prod.mk.injEq, Except.ok.injEq, reduceCtorEq, and_false, false_or,
      List.not_mem_nil, or_false] at hmem
    rcases hmem with ⟨-, hc⟩ | ⟨-, hc⟩ | ⟨-, hc⟩ <;> exact .inr (.inr ⟨_, hc.symm⟩)
  · split at hs
    · cases hs
    · split at hs <;> cases hs
    · exact .inr (.inl ⟨_, hooked_ok hs⟩)

/-- **An object that has been read is one a hook has built.** -/
theorem scanOnce_object {h : Hooks ω} {lim : Limits} {d : ℕ} {s t : Str} {ms : List (Str × Value)}
    (hs : scanOnce h lim d s = .ok (.object ms, t)) : h.Built (.object ms) := by
  have hobject : ∀ {value : Str → Scanned ω Value} {s}, scanObject h value s = .ok (.object ms, t) →
      h.Built (.object ms) := by
    intro value s hs
    unfold scanObject at hs
    split at hs
    · cases hs
    · split at hs
      · exact .inl ⟨_, hooked_ok hs⟩
      · split at hs
        · cases hs
        · exact .inl ⟨_, hooked_ok hs⟩
  have harray : ∀ {value : Str → Scanned ω Value} {s}, scanArray value s ≠ .ok (.object ms, t) := by
    intro value s hs
    unfold scanArray at hs
    split at hs
    · cases hs
    · split at hs
      · cases hs
      · split at hs <;> cases hs
  cases d with
  | zero | succ d =>
    simp only [scanOnce, scanToken] at hs
    split at hs
    · cases hs
    · split at hs
      · split at hs <;> cases hs
      · split at hs
        · first | cases hs | exact hobject hs
        · split at hs
          · first | cases hs | exact absurd hs harray
          · exact scanScalar_object hs

theorem loads_object {h : Hooks ω} {lim : Limits} {s : Str} {ms : List (Str × Value)}
    (hs : loads h lim s = .ok (.object ms)) : h.Built (.object ms) := by
  unfold loads at hs
  split at hs
  · cases hs
  · split at hs
    · cases hs
    · rename_i hv
      split at hs
      · cases hs; exact scanOnce_object hv
      · cases hs

end Json
