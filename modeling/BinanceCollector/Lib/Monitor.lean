import Mathlib.Logic.Function.Basic
import BinanceCollector.Lib.Machine

/-!
# Monitors: a resource, callers that wait for it, and `notify_all`

A caller tests the resource and goes on, changing it at once, or waits. Other operations change the resource and notify
all; a notified caller tests again and may have to wait again. A caller that goes on notifies nobody.

- `path_justified`: if going on never lets another caller go on, everyone who waits without having been notified would
  have to wait now, after every run.
-/

namespace Steps

/-- A resource as its callers see it: `enter` is the resource after a caller has gone on, or `none` where the caller has
to wait; `change` is an operation that notifies all, where it is possible. -/
structure Monitor (ρ σ ο : Type) where
  enter : ρ → σ → Option ρ
  change : ρ → ο → Option ρ

namespace Monitor

variable {κ ρ σ ο : Type}

/-- The resource, and what the waiting callers ask for, with `true` for those that have been notified. -/
structure State (κ ρ σ : Type) where
  resource : ρ
  waiting : κ → Option (σ × Bool)

/-- Nobody waits. -/
def State.idle (r : ρ) : State κ ρ σ := ⟨r, fun _ => none⟩

inductive Input (κ σ ο : Type) where
  | enter (k : κ) (x : σ)
  /-- a notified caller tests again -/
  | resume (k : κ)
  /-- a waiting caller is cancelled -/
  | leave (k : κ)
  | change (o : ο)

/-- `notify_all`. -/
def State.notifyAll (s : State κ ρ σ) : State κ ρ σ :=
  { s with waiting := fun k => (s.waiting k).map fun w => (w.1, true) }

variable [DecidableEq κ]

def State.set (s : State κ ρ σ) (k : κ) (w : Option (σ × Bool)) : State κ ρ σ :=
  { s with waiting := Function.update s.waiting k w }

/-- The caller `k`, asking for `x`, at the test. -/
def State.test (M : Monitor ρ σ ο) (s : State κ ρ σ) (k : κ) (x : σ) : State κ ρ σ :=
  match M.enter s.resource x with
  | some r => { s with resource := r }.set k none
  | none => s.set k (some (x, false))

def step (M : Monitor ρ σ ο) (s : State κ ρ σ) : Input κ σ ο → Option (State κ ρ σ)
  | .enter k x => if (s.waiting k).isNone then some (s.test M k x) else none
  | .resume k =>
    match s.waiting k with
    | some (x, true) => some (s.test M k x)
    | _ => none
  | .leave k => if (s.waiting k).isSome then some (s.set k none) else none
  | .change o => (M.change s.resource o).map fun r => { s with resource := r }.notifyAll

def machine (M : Monitor ρ σ ο) : Machine (State κ ρ σ) (Input κ σ ο) := ⟨step M⟩

/-- Going on lets nobody else go on. -/
def NeverEnables (M : Monitor ρ σ ο) : Prop :=
  ∀ r x r' y, M.enter r x = some r' → M.enter r y = none → M.enter r' y = none

/-- Everyone who waits and has not been notified would have to wait now. -/
def State.Justified (M : Monitor ρ σ ο) (s : State κ ρ σ) : Prop :=
  ∀ k x, s.waiting k = some (x, false) → M.enter s.resource x = none

theorem State.notifyAll_set_none (s : State κ ρ σ) (k : κ) : (s.set k none).notifyAll = s.notifyAll.set k none := by
  simp only [State.notifyAll, State.set, State.mk.injEq, true_and]
  funext q
  by_cases hq : q = k
  · subst hq
    simp
  · simp [hq]

theorem State.set_none_eq {s : State κ ρ σ} {k : κ} (h : s.waiting k = none) : s.set k none = s := by
  rw [State.set, ← h, Function.update_eq_self]

variable {M : Monitor ρ σ ο} {s s' : State κ ρ σ}

theorem State.Justified.set_none (hs : s.Justified M) (k : κ) : (s.set k none).Justified M := by
  intro q y hq
  by_cases hk : q = k
  · subst hk
    simp [State.set] at hq
  · exact hs q y (by simpa [State.set, hk] using hq)

theorem State.Justified.test (hM : M.NeverEnables) (hs : s.Justified M) (k : κ) (x : σ) :
    (s.test M k x).Justified M := by
  unfold State.test
  cases he : M.enter s.resource x with
  | some r =>
    have hr : State.Justified M { s with resource := r } := fun q y hq => hM _ _ _ _ he (hs q y hq)
    exact hr.set_none k
  | none =>
    intro q y hq
    by_cases hk : q = k
    · subst hk
      simp only [State.set, Function.update_self, Option.some.injEq, Prod.mk.injEq, and_true] at hq
      subst hq
      exact he
    · exact hs q y (by simpa [State.set, hk] using hq)

omit [DecidableEq κ] in
theorem State.justified_notifyAll (s : State κ ρ σ) : s.notifyAll.Justified M := by
  intro k x hk
  simp [State.notifyAll] at hk

theorem step_justified (hM : M.NeverEnables) {i : Input κ σ ο} (hs : s.Justified M) (h : M.machine.step s i = some s') :
    s'.Justified M := by
  change M.step s i = some s' at h
  cases i with
  | enter k x =>
    simp only [step, Option.ite_none_right_eq_some, Option.some.injEq] at h
    rw [← h.2]
    exact hs.test hM k x
  | resume k =>
    simp only [step] at h
    split at h
    · cases h
      exact hs.test hM k _
    · cases h
  | leave k =>
    simp only [step, Option.ite_none_right_eq_some, Option.some.injEq] at h
    rw [← h.2]
    exact hs.set_none k
  | change o =>
    simp only [step, Option.map_eq_some_iff] at h
    obtain ⟨r, -, rfl⟩ := h
    exact State.justified_notifyAll _

/-- **No wake-up is lost.** -/
theorem path_justified (hM : M.NeverEnables) {is : List (Input κ σ ο)}
    (h : M.machine.Path (fun _ _ => True) s is s') (hs : s.Justified M) : s'.Justified M :=
  h.invariant (fun _ _ _ _ => step_justified hM) hs

omit [DecidableEq κ] in
theorem idle_justified (r : ρ) : (State.idle r : State κ ρ σ).Justified M := by
  intro k x hk
  cases hk

end Monitor

end Steps
