import BinanceCollector.Lib.Machine
import BinanceCollector.Models.Event

/-!
# Outputs as their callers see them

The protocols `EventOutput` and `FailureAwareEventOutput` of `outputs/base.py`. An output that is open is a machine with
inputs for the calls of its callers; a call of `write()` is named by a number. `Lawful` is what the callers rely on: a
step makes one call, accepts the event of one call, ends one call or leaves them alone, and what has been stored is the
beginning of what has been accepted.

- `Effect`: what a step does to the calls and the events.
- `Lawful`: the contract, with the invariant that carries it.
-/

namespace BinanceCollector

open Steps

/-- A call of `write()`. -/
inductive WriteStatus where
  | idle | waiting | returned | raised
  deriving DecidableEq, Repr

/-- The call of `close()`. -/
inductive CloseStatus where
  | idle | waiting | returned | raised
  deriving DecidableEq, Repr

/-- What the callers of an output ask of it. -/
inductive Request where
  | write (k : ℕ) (event : Event)
  /-- a call of `write()` is cancelled -/
  | cancelWrite (k : ℕ)
  | close
  | cancelClose
  /-- `wait_failed()` raises -/
  | reportFailure
  deriving DecidableEq

/-- `EventOutput`, and `FailureAwareEventOutput` where `failureAware`. -/
structure EventOutput (ο ι : Type) where
  machine : Machine ο ι
  /-- the state when `open()` has returned -/
  opened : ο
  /-- the output has `wait_failed()` -/
  failureAware : Bool
  input : Request → ι
  /-- what the input is to the callers; `none` where no caller takes part in the step -/
  request : ι → Option Request
  call : ο → ℕ → WriteStatus
  closing : ο → CloseStatus
  /-- `wait_failed()` has raised -/
  reported : ο → Bool
  /-- the event that a call still may add to the accepted ones -/
  held : ο → ℕ → Option Event
  /-- the accepted events with the numbers of their calls -/
  accepted : ο → List (ℕ × Event)
  /-- the accepted events that have reached their destination -/
  stored : ο → List (ℕ × Event)

namespace EventOutput

variable {ο ι : Type}

/-- What a step leaves of a call that it does not end with a result. -/
def Stays (c c' : WriteStatus) : Prop := c' = c ∨ c = .waiting ∧ c' = .raised

/-- The other calls are left alone. -/
def Others (out : EventOutput ο ι) (o o' : ο) (k : ℕ) : Prop :=
  ∀ q, q ≠ k → out.call o' q = out.call o q ∧ out.held o' q = out.held o q

/-- What a step does to the calls and the events. -/
inductive Effect (out : EventOutput ο ι) (o : ο) (i : ι) (o' : ο) : Prop
  | quiet : out.accepted o' = out.accepted o → (∀ q, Stays (out.call o q) (out.call o' q)) →
      (∀ q, out.held o' q = out.held o q ∨ out.held o' q = none) → Effect out o i o'
  | writes {k : ℕ} {e : Event} : out.request i = some (.write k e) → out.call o k = .idle →
      out.call o' k = .waiting ∧ out.held o' k = some e ∨ out.call o' k = .raised ∧ out.held o' k = none →
      out.accepted o' = out.accepted o → Others out o o' k → Effect out o i o'
  | accepts {k : ℕ} {e : Event} : out.held o k = some e → out.held o' k = none →
      out.call o' k = out.call o k → out.accepted o' = out.accepted o ++ [(k, e)] → Others out o o' k →
      Effect out o i o'
  | returns {k : ℕ} : out.call o k = .waiting → out.call o' k = .returned → out.held o' k = out.held o k →
      k ∈ (out.accepted o).map (·.1) → out.accepted o' = out.accepted o → Others out o o' k → Effect out o i o'

/-- The contract of an output. `Inv` holds in every state, and `Closed` after a call of `close()` that has found no call
of `write()` waiting. -/
structure Lawful (out : EventOutput ο ι) (Inv Closed : ο → Prop) : Prop where
  request_input : ∀ q, out.request (out.input q) = some q
  opened_inv : Inv out.opened
  opened_call : ∀ k, out.call out.opened k = .idle
  opened_held : ∀ k, out.held out.opened k = none
  opened_accepted : out.accepted out.opened = []
  opened_closing : out.closing out.opened = .idle
  opened_reported : out.reported out.opened = false
  step_inv : ∀ {o i o'}, Inv o → out.machine.step o i = some o' → Inv o'
  effect : ∀ {o i o'}, Inv o → out.machine.step o i = some o' → Effect out o i o'
  stored : ∀ {o}, Inv o → out.stored o <+: out.accepted o
  reports : ∀ {o i o'}, Inv o → out.machine.step o i = some o' → out.reported o' = true →
    out.reported o = true ∨ out.request i = some .reportFailure
  close : ∀ {o o'}, Inv o → (∀ k, out.call o k ≠ .waiting) → out.machine.step o (out.input .close) = some o' →
    Closed o'
  step_closed : ∀ {o i o'}, Inv o → Closed o → out.machine.step o i = some o' → Closed o'
  /-- an output that has closed normally has stored the event of every call that has returned -/
  drained : ∀ {o}, Inv o → Closed o → out.closing o = .returned → out.reported o = false →
    ∀ k, out.call o k = .returned → k ∈ (out.stored o).map (·.1)
  /-- the call of `close()` has ended for good -/
  closing_stays : ∀ {o i o'}, Inv o → out.machine.step o i = some o' → out.closing o = .returned →
    out.closing o' = .returned

end EventOutput

end BinanceCollector
