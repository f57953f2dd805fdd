import Mathlib.Algebra.BigOperators.Group.Finset.Piecewise
import Mathlib.Tactic.Abel
import BinanceCollector.Lib.Machine

/-!
# A ledger of accepted and confirmed items

Items are accepted on lanes and confirmed lane by lane, oldest first. What is accepted and not confirmed stays within
two capacities over all lanes together: a number of items and a total weight.

- `accepted` and `confirmed` only grow at their ends (`path_grows`), and `confirmed` is always a prefix of `accepted`.
- The capacities hold along every path (`path_within`).
-/

open Steps

namespace Ledger

universe u v

/-- The items of each lane: confirmed ones, then those still pending, each in order of acceptance. -/
@[ext] structure Book (ρ : Type u) (δ : Type v) where
  confirmed : ρ → List δ
  pending : ρ → List δ

/-- What may be pending over all lanes together. -/
structure Capacity where
  items : ℕ
  weight : ℕ

/-- A lane accepts an item, or confirms its oldest pending items. -/
inductive Entry (ρ : Type u) (δ : Type v)
  | accept (r : ρ) (d : δ)
  | confirm (r : ρ) (n : ℕ)

variable {ρ : Type u} {δ : Type v}

namespace Book

/-- Everything a lane accepted, in order. -/
def accepted (b : Book ρ δ) (r : ρ) : List δ := b.confirmed r ++ b.pending r

/-- Nothing accepted yet. -/
def empty : Book ρ δ := ⟨fun _ => [], fun _ => []⟩

variable [DecidableEq ρ]

/-- The item `d` is accepted on the lane `r`. -/
def accept (b : Book ρ δ) (r : ρ) (d : δ) : Book ρ δ :=
  { b with pending := Function.update b.pending r (b.pending r ++ [d]) }

/-- The `n` oldest pending items of the lane `r` are confirmed. -/
def confirm (b : Book ρ δ) (r : ρ) (n : ℕ) : Book ρ δ where
  confirmed := Function.update b.confirmed r (b.confirmed r ++ (b.pending r).take n)
  pending := Function.update b.pending r ((b.pending r).drop n)

variable [Fintype ρ]

/-- The number of pending items. -/
def count (b : Book ρ δ) : ℕ := ∑ r, (b.pending r).length

/-- The total weight of the pending items. -/
def load (w : δ → ℕ) (b : Book ρ δ) : ℕ := ∑ r, ((b.pending r).map w).sum

/-- Within the capacities. -/
def Within (c : Capacity) (w : δ → ℕ) (b : Book ρ δ) : Prop := b.count ≤ c.items ∧ b.load w ≤ c.weight

end Book

variable [DecidableEq ρ] [Fintype ρ] (c : Capacity) (w : δ → ℕ)

/-- Items are accepted within the capacities, and only pending items are confirmed. -/
def machine : Machine (Book ρ δ) (Entry ρ δ) where
  step b
    | .accept r d =>
      if b.count < c.items ∧ b.load w + w d ≤ c.weight then some (b.accept r d) else none
    | .confirm r n => if n ≤ (b.pending r).length then some (b.confirm r n) else none

/-! ## One entry -/

/-- A sum over the lanes after one lane changed. -/
theorem sum_update {M : Type*} [AddCommMonoid M] (f : ρ → M) (r : ρ) (x : M) :
    (∑ q, Function.update f r x q) + f r = (∑ q, f q) + x := by
  rw [Finset.sum_update_of_mem (Finset.mem_univ r), ← Finset.add_sum_erase _ f (Finset.mem_univ r),
    Finset.sdiff_singleton_eq_erase]
  abel

theorem measure_update (m : List δ → ℕ) (p : ρ → List δ) (r : ρ) (l : List δ) :
    (∑ q, m (Function.update p r l q)) + m (p r) = (∑ q, m (p q)) + m l := by
  rw [← sum_update (fun q => m (p q)) r (m l)]
  congr 1
  refine Finset.sum_congr rfl fun q _ => ?_
  by_cases hq : q = r
  · subst hq; simp
  · simp [hq]

theorem count_accept (b : Book ρ δ) (r : ρ) (d : δ) : (b.accept r d).count = b.count + 1 := by
  have h := measure_update List.length b.pending r (b.pending r ++ [d])
  simp only [List.length_append, List.length_singleton] at h
  simp only [Book.count, Book.accept]
  omega

theorem load_accept (b : Book ρ δ) (r : ρ) (d : δ) : (b.accept r d).load w = b.load w + w d := by
  have h := measure_update (fun l => (l.map w).sum) b.pending r (b.pending r ++ [d])
  simp only [List.map_append, List.sum_append, List.map_cons, List.map_nil, List.sum_singleton] at h
  simp only [Book.load, Book.accept]
  omega

theorem count_confirm (b : Book ρ δ) (r : ρ) (n : ℕ) :
    (b.confirm r n).count + min n (b.pending r).length = b.count := by
  have h := measure_update List.length b.pending r ((b.pending r).drop n)
  simp only [List.length_drop] at h
  simp only [Book.count, Book.confirm]
  omega

theorem load_confirm (b : Book ρ δ) (r : ρ) (n : ℕ) :
    (b.confirm r n).load w + (((b.pending r).take n).map w).sum = b.load w := by
  have h := measure_update (fun l => (l.map w).sum) b.pending r ((b.pending r).drop n)
  have hs : ((b.pending r).map w).sum = (((b.pending r).take n).map w).sum + (((b.pending r).drop n).map w).sum := by
    rw [← List.sum_append, ← List.map_append, List.take_append_drop]
  simp only [Book.load, Book.confirm]
  omega

omit [Fintype ρ] in
@[simp] theorem accepted_confirm (b : Book ρ δ) (r q : ρ) (n : ℕ) : (b.confirm r n).accepted q = b.accepted q := by
  by_cases hq : q = r
  · subst hq; simp [Book.accepted, Book.confirm]
  · simp [Book.accepted, Book.confirm, hq]

omit [Fintype ρ] in
theorem accepted_accept (b : Book ρ δ) (r q : ρ) (d : δ) :
    (b.accept r d).accepted q = if q = r then b.accepted q ++ [d] else b.accepted q := by
  by_cases hq : q = r
  · subst hq; simp [Book.accepted, Book.accept]
  · simp [Book.accepted, Book.accept, hq]

variable {c w}

/-- What an entry does. -/
theorem step_cases {b b' : Book ρ δ} {e : Entry ρ δ} (h : (machine c w).step b e = some b') :
    (∃ r d, e = .accept r d ∧ b.count < c.items ∧ b.load w + w d ≤ c.weight ∧ b' = b.accept r d) ∨
    (∃ r n, e = .confirm r n ∧ n ≤ (b.pending r).length ∧ b' = b.confirm r n) := by
  cases e with
  | accept r d =>
    simp only [machine, Option.ite_none_right_eq_some, Option.some.injEq] at h
    exact .inl ⟨r, d, rfl, h.1.1, h.1.2, h.2.symm⟩
  | confirm r n =>
    simp only [machine, Option.ite_none_right_eq_some, Option.some.injEq] at h
    exact .inr ⟨r, n, rfl, h.1, h.2.symm⟩

/-! ## Paths -/

/-- An entry keeps the capacities. -/
theorem step_within {b b' : Book ρ δ} {e : Entry ρ δ} (hb : b.Within c w)
    (h : (machine c w).step b e = some b') : b'.Within c w := by
  obtain ⟨r, d, -, hc, hl, rfl⟩ | ⟨r, n, -, -, rfl⟩ := step_cases h
  · exact ⟨by rw [count_accept]; omega, by rw [load_accept]; exact hl⟩
  · have hc := count_confirm b r n
    have hl := load_confirm w b r n
    exact ⟨by have := hb.1; omega, by have := hb.2; omega⟩

/-- **The capacities hold along every path.** -/
theorem path_within {P : Book ρ δ → Entry ρ δ → Prop} {b b' : Book ρ δ} {es : List (Entry ρ δ)}
    (h : (machine c w).Path P b es b') (hb : b.Within c w) : b'.Within c w :=
  h.invariant (fun _ _ _ _ hI hs => step_within hI hs) hb

/-- Every lane of `b'` accepted and confirmed at least what it did in `b`, in the same order. -/
def Book.Grows (b b' : Book ρ δ) : Prop :=
  ∀ q, b.accepted q <+: b'.accepted q ∧ b.confirmed q <+: b'.confirmed q

omit [DecidableEq ρ] [Fintype ρ] in
theorem Book.Grows.refl (b : Book ρ δ) : b.Grows b := fun _ => ⟨List.prefix_refl _, List.prefix_refl _⟩

omit [DecidableEq ρ] [Fintype ρ] in
theorem Book.Grows.trans {b₁ b₂ b₃ : Book ρ δ} (h : b₁.Grows b₂) (h' : b₂.Grows b₃) : b₁.Grows b₃ := fun q =>
  ⟨(h q).1.trans (h' q).1, (h q).2.trans (h' q).2⟩

/-- An entry extends what a lane accepted and what it confirmed. -/
theorem step_grows {b b' : Book ρ δ} {e : Entry ρ δ} (h : (machine c w).step b e = some b') : b.Grows b' := by
  intro q
  obtain ⟨r, d, -, -, -, rfl⟩ | ⟨r, n, -, -, rfl⟩ := step_cases h
  · rw [accepted_accept]
    refine ⟨?_, List.prefix_refl _⟩
    split
    · exact List.prefix_append _ _
    · exact List.prefix_refl _
  · rw [accepted_confirm]
    refine ⟨List.prefix_refl _, ?_⟩
    by_cases hq : q = r
    · subst hq; simp [Book.confirm]
    · simp [Book.confirm, hq]

/-- **Histories only grow.** -/
theorem path_grows {P : Book ρ δ → Entry ρ δ → Prop} {b b' : Book ρ δ} {es : List (Entry ρ δ)}
    (h : (machine c w).Path P b es b') : b.Grows b' :=
  h.related (I := fun _ => True) Book.Grows.refl (fun _ _ _ => Book.Grows.trans) (fun _ _ _ _ _ _ => trivial)
    (fun _ _ _ _ _ hs => step_grows hs) trivial

omit [DecidableEq ρ] in
/-- The empty book is within every capacity. -/
theorem empty_within : (Book.empty : Book ρ δ).Within c w := by
  simp [Book.Within, Book.count, Book.load, Book.empty]

end Ledger
