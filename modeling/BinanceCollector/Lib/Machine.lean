import Mathlib.Data.Nat.Notation
import Mathlib.Logic.Relation

/-!
# Machines with a partial step function

A `Machine σ ι` performs an input in a state or refuses it. `Path P s is s'` says that the inputs `is` lead from `s`
to `s'` and that every step on the way meets the condition `P` on the state before it; with the trivial condition
these are the runs (`path_true_iff_run`).

- Rules: a step lemma gives an invariant of whole paths (`Path.invariant`) and a preorder between the ends of a path
  (`Path.related`), and a measure bounds how often inputs occur that lower it (`Path.countP_le`).
- Simulation: if every step of a machine is answered by a path of another one, every path is (`Path.simulate`).
- Paths are computable: `check` performs the inputs and tests the condition (`path_of_check`).
-/

namespace Steps

universe u v w x

/-- A machine: an input leads to the next state, or is not enabled. -/
structure Machine (σ : Type u) (ι : Type v) where
  step : σ → ι → Option σ

namespace Machine

variable {σ : Type u} {ι : Type v} {τ : Type w} {κ : Type x}

/-- Performing inputs in order. -/
def run (M : Machine σ ι) : σ → List ι → Option σ
  | s, [] => some s
  | s, i :: is => (M.step s i).bind fun s' => run M s' is

/-- The inputs lead from one state to another, and every step meets `P`. -/
inductive Path (M : Machine σ ι) (P : σ → ι → Prop) : σ → List ι → σ → Prop
  | nil (s : σ) : Path M P s [] s
  | cons {s s' s'' : σ} {i : ι} {is : List ι} :
      P s i → M.step s i = some s' → Path M P s' is s'' → Path M P s (i :: is) s''

/-- Some run leads from `s` to `s'`. -/
def Reachable (M : Machine σ ι) (s s' : σ) : Prop := ∃ is, M.Path (fun _ _ => True) s is s'

variable {M : Machine σ ι} {P Q : σ → ι → Prop}

/-! ## Paths -/

theorem Path.mono (hPQ : ∀ s i, P s i → Q s i) {s s' : σ} {is : List ι} (h : M.Path P s is s') :
    M.Path Q s is s' := by
  induction h with
  | nil s => exact .nil s
  | cons hp hs _ ih => exact .cons (hPQ _ _ hp) hs ih

theorem Path.append {s s' s'' : σ} {is js : List ι} (h : M.Path P s is s') (h' : M.Path P s' js s'') :
    M.Path P s (is ++ js) s'' := by
  induction h with
  | nil => exact h'
  | cons hp hs _ ih => exact .cons hp hs (ih h')

theorem Path.snoc {s s' s'' : σ} {is : List ι} {i : ι} (h : M.Path P s is s') (hp : P s' i)
    (hs : M.step s' i = some s'') : M.Path P s (is ++ [i]) s'' :=
  h.append (.cons hp hs (.nil _))

/-- A path along `is ++ js` passes through a state between the two parts. -/
theorem Path.split {s s'' : σ} {is js : List ι} (h : M.Path P s (is ++ js) s'') :
    ∃ s', M.Path P s is s' ∧ M.Path P s' js s'' := by
  induction is generalizing s with
  | nil => exact ⟨s, .nil s, h⟩
  | cons i is ih =>
    rw [List.cons_append] at h
    cases h with
    | cons hp hs h =>
      obtain ⟨s', h₁, h₂⟩ := ih h
      exact ⟨s', .cons hp hs h₁, h₂⟩

theorem Path.nil_iff {s s' : σ} : M.Path P s [] s' ↔ s = s' :=
  ⟨fun h => by cases h; rfl, fun h => h ▸ .nil s⟩

theorem Path.cons_iff {s s'' : σ} {i : ι} {is : List ι} :
    M.Path P s (i :: is) s'' ↔ P s i ∧ ∃ s', M.step s i = some s' ∧ M.Path P s' is s'' := by
  constructor
  · rintro (_ | ⟨hp, hs, h⟩)
    exact ⟨hp, _, hs, h⟩
  · rintro ⟨hp, s', hs, h⟩
    exact .cons hp hs h

theorem path_true_iff_run {s s' : σ} {is : List ι} :
    M.Path (fun _ _ => True) s is s' ↔ M.run s is = some s' := by
  induction is generalizing s with
  | nil => simp [Path.nil_iff, run]
  | cons i is ih => simp [Path.cons_iff, run, ih, Option.bind_eq_some_iff]

/-- Inputs lead to one state only. -/
theorem Path.unique {s t t' : σ} {is : List ι} (h : M.Path P s is t) (h' : M.Path Q s is t') : t = t' := by
  have hrun := path_true_iff_run.1 (h.mono fun _ _ _ => trivial)
  have hrun' := path_true_iff_run.1 (h'.mono fun _ _ _ => trivial)
  rw [hrun] at hrun'
  exact Option.some.inj hrun'

/-! ## Rules -/

/-- **Invariants.** What holds at the start and is kept by every step holds at the end. -/
theorem Path.invariant {I : σ → Prop} (hstep : ∀ s i s', P s i → I s → M.step s i = some s' → I s')
    {s s' : σ} {is : List ι} (h : M.Path P s is s') (h₀ : I s) : I s' := by
  induction h with
  | nil => exact h₀
  | cons hp hs _ ih => exact ih (hstep _ _ _ hp h₀ hs)

theorem Reachable.invariant {I : σ → Prop} (hstep : ∀ s i s', I s → M.step s i = some s' → I s') {s s' : σ}
    (h : M.Reachable s s') (h₀ : I s) : I s' := by
  obtain ⟨is, h⟩ := h
  exact h.invariant (fun s i s' _ => hstep s i s') h₀

/-- **Monotone histories.** A preorder that every step from an invariant state respects relates the two ends. -/
theorem Path.related {I : σ → Prop} {R : σ → σ → Prop} (hrefl : ∀ s, R s s)
    (htrans : ∀ s s' s'', R s s' → R s' s'' → R s s'')
    (hkeep : ∀ s i s', P s i → I s → M.step s i = some s' → I s')
    (hstep : ∀ s i s', P s i → I s → M.step s i = some s' → R s s')
    {s s' : σ} {is : List ι} (h : M.Path P s is s') (h₀ : I s) : R s s' := by
  induction h with
  | nil s => exact hrefl s
  | cons hp hs _ ih => exact htrans _ _ _ (hstep _ _ _ hp h₀ hs) (ih (hkeep _ _ _ hp h₀ hs))

/-- **Ranks.** A measure that no step raises and that the counted inputs lower bounds how many of these a path has. -/
theorem Path.countP_le {I : σ → Prop} {m : σ → ℕ} {q : ι → Bool}
    (hkeep : ∀ s i s', P s i → I s → M.step s i = some s' → I s')
    (hstep : ∀ s i s', P s i → I s → M.step s i = some s' → m s' + (if q i then 1 else 0) ≤ m s)
    {s s' : σ} {is : List ι} (h : M.Path P s is s') (h₀ : I s) : is.countP q + m s' ≤ m s := by
  induction h with
  | nil s => exact Nat.le_of_eq (Nat.zero_add _)
  | cons hp hs _ ih =>
    have hfirst := hstep _ _ _ hp h₀ hs
    have hrest := ih (hkeep _ _ _ hp h₀ hs)
    rw [List.countP_cons]
    omega

/-- **Simulation.** If a relation between the states is kept when a step is answered by a path of `N`, every path is
answered by one. -/
theorem Path.simulate {N : Machine τ κ} {Q : τ → κ → Prop} {R : σ → τ → Prop}
    (hstep : ∀ s i s' t, P s i → R s t → M.step s i = some s' → ∃ js t', N.Path Q t js t' ∧ R s' t')
    {s s' : σ} {is : List ι} (h : M.Path P s is s') {t : τ} (h₀ : R s t) : ∃ js t', N.Path Q t js t' ∧ R s' t' := by
  induction h generalizing t with
  | nil s => exact ⟨[], t, .nil t, h₀⟩
  | cons hp hs _ ih =>
    obtain ⟨js, t₁, hj, h₁⟩ := hstep _ _ _ _ hp h₀ hs
    obtain ⟨ks, t₂, hk, h₂⟩ := ih h₁
    exact ⟨js ++ ks, t₂, hj.append hk, h₂⟩

/-! ## Computing paths -/

/-- Performing inputs in order, as long as every step meets `P`. -/
def check (M : Machine σ ι) (P : σ → ι → Prop) [∀ s i, Decidable (P s i)] : σ → List ι → Option σ
  | s, [] => some s
  | s, i :: is => if P s i then (M.step s i).bind fun s' => check M P s' is else none

theorem path_of_check [∀ s i, Decidable (P s i)] {s s' : σ} {is : List ι} (h : M.check P s is = some s') :
    M.Path P s is s' := by
  induction is generalizing s with
  | nil => cases h; exact .nil _
  | cons i is ih =>
    simp only [check, Option.ite_none_right_eq_some, Option.bind_eq_some_iff] at h
    obtain ⟨hp, s₁, hs, h⟩ := h
    exact .cons hp hs (ih h)

/-- A run can be computed, and what its last state shows as well. -/
theorem exists_path_of_check [∀ s i, Decidable (P s i)] {p : σ → Bool} (s : σ) (is : List ι)
    (h : (M.check P s is).any p = true) : ∃ s', M.Path P s is s' ∧ p s' = true := by
  obtain ⟨hsome, hp⟩ := (Option.any_eq_true_iff_get _ _).1 h
  exact ⟨_, path_of_check (Option.some_get hsome).symm, hp⟩

/-- A path whose steps do not all meet `Q` has a first one that does not. -/
theorem Path.exists_violation {s s' : σ} {is : List ι} (h : M.Path P s is s') (hQ : ¬M.Path Q s is s') :
    ∃ pre i post s₁ s₂, is = pre ++ i :: post ∧ M.Path (fun s i => P s i ∧ Q s i) s pre s₁ ∧ P s₁ i ∧ ¬Q s₁ i ∧
      M.step s₁ i = some s₂ ∧ M.Path P s₂ post s' := by
  induction h with
  | nil s => exact absurd (.nil s) hQ
  | @cons s s₁ s' i is hp hs hpath ih =>
    by_cases hq : Q s i
    · obtain ⟨pre, j, post, t₁, t₂, rfl, h₁, h₂⟩ := ih fun hrest => hQ (.cons hq hs hrest)
      exact ⟨i :: pre, j, post, t₁, t₂, rfl, .cons ⟨hp, hq⟩ hs h₁, h₂⟩
    · exact ⟨[], i, is, s, s₁, rfl, .nil s, hp, hq, hs, hpath⟩

end Machine

end Steps
