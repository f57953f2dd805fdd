import Mathlib.Data.Rat.Defs
import Mathlib.Algebra.Order.Ring.Rat
import Mathlib.Tactic.NormNum

/-!
# Reconnect policy

`collector/reconnect.py`. `wait_for_reconnect` is a phase of the collectors.
-/

namespace BinanceCollector

/-- `ReconnectPolicy`, with what `__post_init__` checks. -/
structure ReconnectPolicy where
  delays : List ℚ
  /-- `_attempt` -/
  attempt : ℕ := 0
  nonempty : delays ≠ []
  nonneg : ∀ delay ∈ delays, 0 ≤ delay

/-- `ReconnectPolicy()`, with `DEFAULT_DELAYS`. -/
def defaultPolicy : ReconnectPolicy where
  delays := [1, 2, 4, 8, 16, 30]
  nonempty := by simp
  nonneg := by simp

namespace ReconnectPolicy

/-- The index of the entry `next_delay` returns. -/
def index (p : ReconnectPolicy) : ℕ := min p.attempt (p.delays.length - 1)

theorem index_lt (p : ReconnectPolicy) : p.index < p.delays.length := by
  have hpos := List.length_pos_iff.2 p.nonempty
  rw [index]
  omega

/-- `next_delay`. -/
def nextDelay (p : ReconnectPolicy) : ℚ × ReconnectPolicy :=
  (p.delays.get ⟨p.index, p.index_lt⟩, { p with attempt := p.attempt + 1 })

/-- `reset`. -/
def reset (p : ReconnectPolicy) : ReconnectPolicy := { p with attempt := 0 }

@[simp] theorem reset_attempt (p : ReconnectPolicy) : p.reset.attempt = 0 := rfl

@[simp] theorem reset_delays (p : ReconnectPolicy) : p.reset.delays = p.delays := rfl

@[simp] theorem nextDelay_attempt (p : ReconnectPolicy) : p.nextDelay.2.attempt = p.attempt + 1 := rfl

@[simp] theorem nextDelay_delays (p : ReconnectPolicy) : p.nextDelay.2.delays = p.delays := rfl

end ReconnectPolicy

end BinanceCollector
