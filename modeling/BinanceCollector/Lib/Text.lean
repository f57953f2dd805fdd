import Mathlib.Algebra.GroupWithZero.Nat
import Mathlib.Data.List.DropRight

/-!
# Text as code points

A text is a list of code points, lone surrogates included, so that a decoded `\ud800` is a text like any other.
-/

namespace Text

/-- A code point, surrogates included. -/
abbrev CodePoint := Fin 0x110000

/-- Numerals are code points. -/
instance codePoints : NeZero (0x110000 : ℕ) := ⟨by decide⟩

/-- A text. -/
abbrev Str := List CodePoint

instance strings : LawfulBEq Str := inferInstance

/-- The code point of a character. -/
def code (c : Char) : CodePoint := ⟨c.toNat, by
  rcases c.valid with h | h
  · exact Nat.lt_trans h (by decide)
  · exact h.2⟩

/-- The text of a literal. -/
def str (s : String) : Str := s.toList.map code

/-- A natural number in decimal. -/
def decimal (n : Nat) : Str := (Nat.toDigits 10 n).map code

theorem code_injective : Function.Injective code := fun c d h =>
  Char.toNat_inj.1 (show c.toNat = d.toNat from congrArg (fun p : CodePoint => p.val) h)

theorem str_injective : Function.Injective str := fun _ _ h =>
  String.toList_inj.1 (List.map_injective_iff.2 code_injective h)

/-- Distinct numbers have distinct decimal texts. -/
theorem decimal_injective : Function.Injective decimal := fun m n h => by
  have hd : Nat.toDigits 10 m = Nat.toDigits 10 n := List.map_injective_iff.2 code_injective h
  rw [← Nat.ofDigitChars_ten_toDigits (n := m), hd, Nat.ofDigitChars_ten_toDigits]

/-- A text is split in one way at the first occurrence of a separator. -/
theorem split_inj {sep : CodePoint} {s s' t t' : Str} (hs : sep ∉ s) (hs' : sep ∉ s')
    (h : s ++ sep :: t = s' ++ sep :: t') : s = s' ∧ t = t' := by
  induction s generalizing s' with
  | nil =>
    cases s' with
    | nil => exact ⟨rfl, (List.cons.inj h).2⟩
    | cons d s' => exact absurd (List.cons.inj h).1 (List.ne_of_not_mem_cons hs')
  | cons c s ih =>
    cases s' with
    | nil => exact absurd (List.cons.inj h).1.symm (List.ne_of_not_mem_cons hs)
    | cons d s' =>
      obtain ⟨hcd, htail⟩ := List.cons.inj h
      obtain ⟨hst, ht⟩ := ih (List.not_mem_of_not_mem_cons hs) (List.not_mem_of_not_mem_cons hs') htail
      exact ⟨by rw [hcd, hst], ht⟩

/-- `sep.join(texts)`. -/
def joined (sep : Str) (texts : List Str) : Str := (texts.intersperse sep).flatten

/-! ## White space -/

/-- The white space of `str.isspace`. -/
def isWhitespace (c : CodePoint) : Bool :=
  let n := c.val
  (0x09 ≤ n && n ≤ 0x0D) || (0x1C ≤ n && n ≤ 0x20) || n == 0x85 || n == 0xA0 || n == 0x1680 ||
    (0x2000 ≤ n && n ≤ 0x200A) || n == 0x2028 || n == 0x2029 || n == 0x202F || n == 0x205F || n == 0x3000

/-- `str.strip`. -/
def strip (s : Str) : Str := (s.dropWhile isWhitespace).rdropWhile isWhitespace

/-- A text that begins and ends with no white space is left as it is. -/
theorem strip_eq_self {s : Str} (hfirst : ∀ c ∈ s.head?, isWhitespace c = false)
    (hlast : ∀ c ∈ s.getLast?, isWhitespace c = false) : strip s = s := by
  have hdrop : s.dropWhile isWhitespace = s := by
    cases s with
    | nil => rfl
    | cons c s => rw [List.dropWhile_cons_of_neg (by simp [hfirst c rfl])]
  rw [strip, hdrop, List.rdropWhile_eq_self_iff]
  intro hne
  simp [hlast _ (List.getLast?_eq_some_getLast hne)]

theorem strip_of_all {s : Str} (h : ∀ c ∈ s, isWhitespace c = false) : strip s = s :=
  strip_eq_self (fun c hc => h c (List.mem_of_mem_head? hc)) fun c hc => h c (List.mem_of_mem_getLast? hc)

/-- What is stripped begins with no white space. -/
theorem head_strip (s : Str) : ∀ c ∈ (strip s).head?, isWhitespace c = false := by
  intro c hc
  have hpre : strip s <+: s.dropWhile isWhitespace := List.rdropWhile_prefix _ _
  obtain ⟨rest, hrest⟩ := hpre
  have hhead : c ∈ (s.dropWhile isWhitespace).head? := by
    rw [← hrest]
    exact List.mem_head?_append_of_mem_head? hc
  have hnot := List.head?_dropWhile_not isWhitespace s
  rw [Option.mem_def.1 hhead] at hnot
  exact hnot

/-- What is stripped ends with no white space. -/
theorem getLast_strip (s : Str) : ∀ c ∈ (strip s).getLast?, isWhitespace c = false := by
  intro c hc
  have hne : strip s ≠ [] := by
    intro hnil
    rw [hnil] at hc
    cases hc
  have hnot := List.rdropWhile_last_not isWhitespace _ hne
  rw [Option.mem_def, List.getLast?_eq_some_getLast hne] at hc
  rw [← Option.some.inj hc]
  exact Bool.eq_false_iff.2 hnot

@[simp] theorem strip_strip (s : Str) : strip (strip s) = strip s := strip_eq_self (head_strip s) (getLast_strip s)

/-! ## Separators -/

/-- `s.partition(sep)`; no second part where the separator does not occur. -/
def cut (sep : CodePoint) : Str → Str × Option Str
  | [] => ([], none)
  | c :: s => if c = sep then ([], some s) else ((cut sep s).map (c :: ·) id)

/-- A text joined by a separator has only what its parts have. -/
theorem notMem_joined {sep c : CodePoint} {s t : Str} (hs : c ∉ s) (hne : c ≠ sep) (ht : c ∉ t) : c ∉ s ++ sep :: t := by
  rw [List.mem_append, List.mem_cons, not_or, not_or]
  exact ⟨hs, hne, ht⟩

theorem cut_append {sep : CodePoint} {s : Str} (h : sep ∉ s) (t : Str) : cut sep (s ++ sep :: t) = (s, some t) := by
  induction s with
  | nil => rw [List.nil_append, cut, if_pos rfl]
  | cons c s ih =>
    obtain ⟨hc, hs⟩ := List.ne_and_not_mem_of_not_mem_cons h
    rw [List.cons_append, cut, if_neg (Ne.symm hc), ih hs]
    rfl

theorem cut_of_notMem {sep : CodePoint} {s : Str} (h : sep ∉ s) : cut sep s = (s, none) := by
  induction s with
  | nil => rfl
  | cons c s ih =>
    obtain ⟨hc, hs⟩ := List.ne_and_not_mem_of_not_mem_cons h
    rw [cut, if_neg (Ne.symm hc), ih hs]
    rfl

/-- `s.rpartition(sep)`; no second part where the separator does not occur. -/
def cutLast (sep : CodePoint) (s : Str) : Str × Option Str :=
  match cut sep s.reverse with
  | (t, some u) => (u.reverse, some t.reverse)
  | (t, none) => (t.reverse, none)

theorem cutLast_append {sep : CodePoint} {t : Str} (h : sep ∉ t) (s : Str) :
    cutLast sep (s ++ sep :: t) = (s, some t) := by
  have hrev : (s ++ sep :: t).reverse = t.reverse ++ sep :: s.reverse := by simp
  rw [cutLast, hrev, cut_append (by rwa [List.mem_reverse])]
  simp

end Text
