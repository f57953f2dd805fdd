import BinanceCollector.Outputs.OpenClose

/-!
# One-shot lifecycle

`open()` tests `_state` before its first `await` and leaves `"new"` after its last one, so what an output keeps to
depends on the calls made in between. In a run that meets `Orderly`, the invariant `Inv` says who may hold an open
client and a running worker in each state of the lifecycle.

- `step_inv`: every orderly step keeps the invariant.
- `one_shot`: in an orderly run at most one `open()` returns, at most one worker per route runs, and after a `close()`
  nothing is left behind.
- `overlapping_calls`: two overlapping `open()` calls, and a `close()` during an `open()`.
-/

namespace BinanceCollector.OpenClose

open Steps
open MultiMongo.Output (Callback)

/-- The workers that a `close()` call waits for. -/
def ClosingCall.waits {κ : Type*} : ClosingCall κ → Option κ
  | .gathering w | .reaping w | .regathering w => some w
  | _ => none

namespace State

variable {κ ρ : Type*} {s s' : State κ ρ}

/-- The lifecycle is between the end of `open()` and the end of `close()`. -/
def Up (s : State κ ρ) : Prop := s.lifecycle = .open ∨ s.lifecycle = .closing

/-- The lifecycle when a `close()` call is under way. -/
def Late (s : State κ ρ) : Prop := s.lifecycle = .closing ∨ s.lifecycle = .closed

theorem Up.ne_new (h : s.Up) : s.lifecycle ≠ .new := by
  rcases h with h | h <;> rw [h] <;> decide

theorem Up.ne_closed (h : s.Up) : s.lifecycle ≠ .closed := by
  rcases h with h | h <;> rw [h] <;> decide

/-- What the calls have to keep out of each other's way. -/
def Orderly (s : State κ ρ) : Input κ ρ → Prop
  | .open _ start => s.lifecycle = .new → start = .connects → ∀ q, (s.opens q).pending = false
  | .advance k _ => s.opens k = .connecting 0 → s.lifecycle = .new
  | .interrupt _ _ report => report = .returns
  | .cleaned _ outcome => outcome = .closes
  | .clientClosed _ ok _ => ok = true
  | _ => True

/-- Who may hold what in each state of the lifecycle. -/
structure Inv (s : State κ ρ) : Prop where
  alone : ∀ k q, (s.opens k).pending = true → (s.opens q).pending = true → k = q
  pending : ∀ k, (s.opens k).pending = true → s.lifecycle = .new ∧ s.client = some k ∨ s.lifecycle = .closed
  opened : ∀ k, s.opens k = .returned → s.lifecycle ≠ .new ∧ ∀ q, s.opens q = .returned → q = k
  alive : ∀ k r, (s.workers k r).alive = true → s.current = some k ∧ s.Up
  connected : ∀ k, s.clients k = .connected → (s.opens k).pending = true ∨ s.client = some k ∧ s.Up
  waits : ∀ j w, (s.closes j).waits = some w → s.current = some w ∧ s.Late
  closes : ∀ j c timedOut, s.closes j = .closingClient c timedOut →
    s.Late ∧ (s.lifecycle = .closing → s.client = some c) ∧ ∀ k r, (s.workers k r).alive = false
  returned : ∀ j, s.closes j = .returned → s.lifecycle = .closed

theorem initial_inv : (initial : State κ ρ).Inv := by
  constructor <;> simp [initial, OpenCall.pending, Task.alive, ClosingCall.waits]

/-- Requests and reports that the invariant does not mention. -/
theorem Inv.flags (hs : s.Inv) (closeRequested failed failureReported : Bool) :
    ({ s with
        closeRequested := closeRequested, failed := failed, failureReported := failureReported } : State κ ρ).Inv :=
  { hs with }

/-- A `close()` call of an output that has been opened. -/
theorem Inv.closing (hs : s.Inv) (hup : s.Up) : ({ s with lifecycle := .closing } : State κ ρ).Inv where
  alone := hs.alone
  pending := by
    intro q hq
    rcases hs.pending q hq with ⟨h, -⟩ | h
    · exact absurd h hup.ne_new
    · exact absurd h hup.ne_closed
  opened := fun q hq => ⟨by simp, (hs.opened q hq).2⟩
  alive := fun q r hq => ⟨(hs.alive q r hq).1, .inr rfl⟩
  connected := by
    intro q hq
    rcases hs.connected q hq with hp | ⟨h, -⟩
    · exact .inl hp
    · exact .inr ⟨h, .inr rfl⟩
  waits := fun i w hi => ⟨(hs.waits i w hi).1, .inl rfl⟩
  closes := by
    intro i c b hi
    obtain ⟨hlate, hclient, hdead⟩ := hs.closes i c b hi
    refine ⟨.inl rfl, fun _ => ?_, hdead⟩
    rcases hlate with h | h
    · exact hclient h
    · exact absurd h hup.ne_closed
  returned := fun i hi => absurd (hs.returned i hi) hup.ne_closed

/-- A `close()` call before the output has been opened. -/
theorem Inv.closeNew (hs : s.Inv) (hnew : s.lifecycle = .new) :
    ({ s with lifecycle := .closed } : State κ ρ).Inv := by
  have hup : ¬s.Up := by simp [Up, hnew]
  have hlate : ¬s.Late := by simp [Late, hnew]
  constructor
  case alone => exact hs.alone
  case pending => exact fun _ _ => .inr rfl
  case opened =>
    intro q hq
    exact absurd hnew (hs.opened q hq).1
  case alive =>
    intro q r hq
    exact absurd (hs.alive q r hq).2 hup
  case connected =>
    intro q hq
    rcases hs.connected q hq with hp | ⟨-, hu⟩
    · exact .inl hp
    · exact absurd hu hup
  case waits =>
    intro i w hi
    exact absurd (hs.waits i w hi).2 hlate
  case closes =>
    intro i c b hi
    exact absurd (hs.closes i c b hi).1 hlate
  case returned => exact fun _ _ => rfl

/-- No worker runs before the end of `open()` and after that of `close()`. -/
theorem Inv.down (hs : s.Inv) (hup : ¬s.Up) (k : κ) (r : ρ) : (s.workers k r).alive = false := by
  rw [← Bool.not_eq_true]
  exact fun halive => hup (hs.alive k r halive).2

/-- No worker of an orderly run is alive outside `_workers`. -/
theorem Inv.dead (hs : s.Inv) {w : κ} (hc : s.current = some w) (hd : ∀ r, (s.workers w r).alive = false) (k : κ)
    (r : ρ) : (s.workers k r).alive = false := by
  rw [← Bool.not_eq_true]
  intro halive
  have hcurrent := (hs.alive k r halive).1
  rw [hc, Option.some.injEq] at hcurrent
  subst hcurrent
  rw [hd r] at halive
  cases halive

variable [DecidableEq κ]

theorem returned_of_setOpen {k q : κ} {c : OpenCall} (hc : c ≠ .returned)
    (hq : (s.setOpen k c).opens q = .returned) : s.opens q = .returned := by
  by_cases hqk : q = k
  · subst hqk
    rw [setOpen_self] at hq
    exact absurd hq hc
  · rwa [setOpen_ne s hqk] at hq

/-- When the only call on its way to the end of `open()` has ended, there is none. -/
theorem pending_setOpen {k : κ} {c : OpenCall} (hc : c.pending = false)
    (hsingle : ∀ q, (s.opens q).pending = true → q = k) (q : κ) : ((s.setOpen k c).opens q).pending = false := by
  by_cases hqk : q = k
  · subst hqk
    rw [setOpen_self]
    exact hc
  · rw [setOpen_ne s hqk, ← Bool.not_eq_true]
    exact fun hq => hqk (hsingle q hq)

/-- An `open()` call goes on, or ends without having returned. -/
theorem Inv.setOpen (hs : s.Inv) {k : κ} {c : OpenCall} (hc : c.pending = true → (s.opens k).pending = true)
    (hret : c ≠ .returned) (hclient : s.clients k = .connected → c.pending = true ∨ s.client = some k ∧ s.Up) :
    (s.setOpen k c).Inv := by
  have hkeep : ∀ q, ((s.setOpen k c).opens q).pending = true → (s.opens q).pending = true := by
    intro q hq
    by_cases hqk : q = k
    · subst hqk
      rw [setOpen_self] at hq
      exact hc hq
    · rwa [setOpen_ne s hqk] at hq
  refine { hs with
    alone := fun q q' hq hq' => hs.alone q q' (hkeep q hq) (hkeep q' hq')
    pending := fun q hq => hs.pending q (hkeep q hq)
    opened := ?opened
    connected := ?connected }
  case opened =>
    intro q hq
    obtain ⟨hnew, honly⟩ := hs.opened q (returned_of_setOpen hret hq)
    exact ⟨hnew, fun q' hq' => honly q' (returned_of_setOpen hret hq')⟩
  case connected =>
    intro q hq
    by_cases hqk : q = k
    · subst hqk
      rw [setOpen_self]
      exact hclient hq
    · rw [setOpen_ne s hqk]
      exact hs.connected q hq

/-- A `close()` call goes on or ends. -/
theorem Inv.setClose (hs : s.Inv) {j : κ} {c : ClosingCall κ}
    (hwaits : ∀ w, c.waits = some w → s.current = some w ∧ s.Late)
    (hcloses : ∀ d timedOut, c = .closingClient d timedOut →
      s.Late ∧ (s.lifecycle = .closing → s.client = some d) ∧ ∀ k r, (s.workers k r).alive = false)
    (hret : c = .returned → s.lifecycle = .closed) : (s.setClose j c).Inv := by
  refine { hs with waits := ?waits, closes := ?closes, returned := ?returned }
  case waits =>
    intro q w hq
    by_cases hqj : q = j
    · subst hqj
      rw [setClose_self] at hq
      exact hwaits w hq
    · rw [setClose_ne s hqj] at hq
      exact hs.waits q w hq
  case closes =>
    intro q d b hq
    by_cases hqj : q = j
    · subst hqj
      rw [setClose_self] at hq
      exact hcloses d b hq
    · rw [setClose_ne s hqj] at hq
      exact hs.closes q d b hq
  case returned =>
    intro q hq
    by_cases hqj : q = j
    · subst hqj
      rw [setClose_self] at hq
      exact hret hq
    · rw [setClose_ne s hqj] at hq
      exact hs.returned q hq

/-- A `close()` call fails. -/
theorem Inv.closeRaises (hs : s.Inv) (j : κ) (e : CloseFailure) : (s.setClose j (.raised e)).Inv :=
  hs.setClose (by simp [ClosingCall.waits]) (by simp) (by simp)

/-- Worker tasks are cancelled or end. -/
theorem Inv.setWorkers (hs : s.Inv) {k : κ} {ts : ρ → Task}
    (ht : ∀ r, (ts r).alive = true → (s.workers k r).alive = true) : (s.setWorkers k ts).Inv := by
  have hkeep : ∀ q r, ((s.setWorkers k ts).workers q r).alive = true → (s.workers q r).alive = true := by
    intro q r hq
    by_cases hqk : q = k
    · subst hqk
      rw [setWorkers_self] at hq
      exact ht r hq
    · rwa [setWorkers_ne s hqk] at hq
  refine { hs with
    alive := fun q r hq => hs.alive q r (hkeep q r hq)
    closes := ?closes }
  case closes =>
    intro j c b hj
    obtain ⟨hlate, hclient, hdead⟩ := hs.closes j c b hj
    refine ⟨hlate, hclient, fun q r => ?_⟩
    rw [← Bool.not_eq_true]
    intro hq
    have halive := hkeep q r hq
    rw [hdead q r] at halive
    cases halive

theorem cancel_alive {t : Task} (h : t.cancel.alive = true) : t.alive = true := by
  cases t <;> first | rfl | cases h

theorem Inv.cancelWorkers (hs : s.Inv) (w : κ) : (s.cancelWorkers w).Inv := hs.setWorkers fun _ => cancel_alive

/-! ## `open()` -/

theorem pending_of_connecting (hnone : ∀ q, (s.opens q).pending = false) {t : State κ ρ} (ht : t.opens = s.opens)
    {k q : κ} {n : ℕ} (hq : ((t.setOpen k (.connecting n)).opens q).pending = true) : q = k := by
  by_contra hqk
  rw [setOpen_ne t hqk, ht, hnone q] at hq
  cases hq

theorem startOpen_inv (hs : s.Inv) (p : Profile) {k : κ} {start : Start} (hk : s.opens k = .idle)
    (ho : Orderly s (.open k start)) : (s.startOpen p k start).Inv := by
  have hidle : (s.opens k).pending = false := by rw [hk]; rfl
  have hclient : s.clients k = .connected → s.client = some k ∧ s.Up := by
    intro hc
    rcases hs.connected k hc with hp | h
    · rw [hidle] at hp
      cases hp
    · exact h
  have hraises : ∀ e, (s.setOpen k (.raised e)).Inv := fun e =>
    hs.setOpen (by simp [OpenCall.pending]) (by simp) fun hc => .inr (hclient hc)
  unfold startOpen
  split
  · exact hraises _
  · rename_i hnew
    rw [not_not] at hnew
    cases start with
    | callbackRaises => exact hraises _
    | factoryRaises => exact hraises _
    | connects =>
      have hnone := ho hnew rfl
      have hup : ¬s.Up := by simp [Up, hnew]
      have hlate : ¬s.Late := by simp [Late, hnew]
      constructor
      case alone =>
        intro q q' hq hq'
        rw [pending_of_connecting hnone rfl hq, pending_of_connecting hnone rfl hq']
      case pending =>
        intro q hq
        rw [pending_of_connecting hnone rfl hq]
        exact .inl ⟨hnew, rfl⟩
      case opened =>
        intro q hq
        exact absurd hnew (hs.opened q (returned_of_setOpen (by simp) hq)).1
      case alive =>
        intro q r hq
        exact absurd (hs.alive q r hq).2 hup
      case connected =>
        intro q hq
        by_cases hqk : q = k
        · subst hqk
          rw [setOpen_self]
          exact .inl rfl
        · have hq' : s.clients q = .connected := by
            rw [← setClient_ne { s with client := some k } hqk .connected]
            exact hq
          rcases hs.connected q hq' with hp | ⟨-, hu⟩
          · rw [hnone q] at hp
            cases hp
          · exact absurd hu hup
      case waits =>
        intro j w hj
        exact absurd (hs.waits j w hj).2 hlate
      case closes =>
        intro j c b hj
        exact absurd (hs.closes j c b hj).1 hlate
      case returned =>
        intro j hj
        rw [hs.returned j hj] at hnew
        cases hnew

theorem finishOpen_inv (hs : s.Inv) {k : κ} (report : Callback) (hk : s.opens k = .connecting 0)
    (hnew : s.lifecycle = .new) : (s.finishOpen k report).Inv := by
  have hpending : (s.opens k).pending = true := by rw [hk]; rfl
  have hup : ¬s.Up := by simp [Up, hnew]
  have hlate : ¬s.Late := by simp [Late, hnew]
  have hclient : s.client = some k := by
    rcases hs.pending k hpending with ⟨-, h⟩ | h
    · exact h
    · rw [hnew] at h
      cases h
  -- whatever the callback does, the call is over and its client is the one of the output
  have hfinish : ∀ (c : OpenCall) (current : Option κ) (ts : κ → ρ → Task), c.pending = false →
      (∀ q r, (ts q r).alive = true → current = some q) →
      ({ s with lifecycle := .open, current := current, workers := ts }.setOpen k c).Inv := by
    intro c current ts hc hts
    have hothers : ∀ q, ((s.setOpen k c).opens q).pending = false :=
      pending_setOpen hc fun q hq => hs.alone q k hq hpending
    have hreturned : ∀ q, (s.setOpen k c).opens q = .returned → q = k := by
      intro q hq
      by_contra hqk
      rw [setOpen_ne s hqk] at hq
      exact (hs.opened q hq).1 hnew
    constructor
    case alone =>
      intro q q' hq
      exact absurd hq (by rw [Bool.not_eq_true]; exact hothers q)
    case pending =>
      intro q hq
      exact absurd hq (by rw [Bool.not_eq_true]; exact hothers q)
    case opened =>
      intro q hq
      refine ⟨by simp [State.setOpen], fun q' hq' => ?_⟩
      rw [hreturned q hq, hreturned q' hq']
    case alive =>
      intro q r hq
      exact ⟨hts q r hq, .inl rfl⟩
    case connected =>
      intro q hq
      refine .inr ⟨?_, .inl rfl⟩
      rcases hs.connected q hq with hp | ⟨-, hu⟩
      · rw [hs.alone q k hp hpending]
        exact hclient
      · exact absurd hu hup
    case waits =>
      intro j w hj
      exact absurd (hs.waits j w hj).2 hlate
    case closes =>
      intro j c b hj
      exact absurd (hs.closes j c b hj).1 hlate
    case returned =>
      intro j hj
      have hclosed := hs.returned j hj
      rw [hnew] at hclosed
      cases hclosed
  have hdead := hs.down hup
  cases report with
  | raises =>
    refine hfinish (.raised .callback) s.current s.workers rfl fun q r h => ?_
    rw [hdead q r] at h
    cases h
  | returns =>
    refine hfinish .returned (some k) (s.setWorkers k fun _ => .running).workers rfl fun q r h => ?_
    by_contra hqk
    rw [setWorkers_ne s (fun heq => hqk (congrArg some heq.symm)), hdead q r] at h
    cases h

theorem finishCleaning_inv (hs : s.Inv) {k : κ} {e : OpenError} (hk : s.opens k = .cleaning e) :
    (s.finishCleaning k e .closes).Inv := by
  have hpending : (s.opens k).pending = true := by rw [hk]; rfl
  have hup : ¬s.Up := by
    rcases hs.pending k hpending with ⟨h, -⟩ | h <;> simp [Up, h]
  have hdead := hs.down hup
  have hsingle : ∀ q, (s.opens q).pending = true → q = k := fun q hq => hs.alone q k hq hpending
  have hnone : ∀ q, ((s.setOpen k (.raised e)).opens q).pending = false := pending_setOpen rfl hsingle
  have hreturned : ∀ q, (s.setOpen k (.raised e)).opens q = .returned → s.opens q = .returned :=
    fun _ => returned_of_setOpen (by simp)
  constructor
  case alone =>
    intro q q' hq
    exact absurd hq (by rw [Bool.not_eq_true]; exact hnone q)
  case pending =>
    intro q hq
    exact absurd hq (by rw [Bool.not_eq_true]; exact hnone q)
  case opened =>
    intro q hq
    refine ⟨by simp [finishCleaning, State.setOpen], fun q' hq' => ?_⟩
    exact (hs.opened q (hreturned q hq)).2 q' (hreturned q' hq')
  case alive =>
    intro q r hq
    exact absurd hq (by rw [Bool.not_eq_true]; exact hdead q r)
  case connected =>
    -- the only client that was connected is the one that has just been closed
    intro q hq
    have hqk : q ≠ k := by
      rintro rfl
      have hclosed : (s.setClient q .closed).clients q = .connected := hq
      rw [setClient_self] at hclosed
      cases hclosed
    have hconnected : (s.setClient k .closed).clients q = .connected := hq
    rw [setClient_ne s hqk] at hconnected
    rcases hs.connected q hconnected with hp | ⟨-, hu⟩
    · exact absurd (hsingle q hp) hqk
    · exact absurd hu hup
  case waits =>
    intro j w hj
    exact ⟨(hs.waits j w hj).1, .inr rfl⟩
  case closes =>
    intro j c b hj
    refine ⟨.inr rfl, fun hclosing => ?_, hdead⟩
    cases hclosing
  case returned => exact fun _ _ => rfl

/-! ## `close()` -/

theorem finishClose_inv (hs : s.Inv) (hdead : ∀ k r, (s.workers k r).alive = false)
    (hclosed : ∀ k, s.clients k = .connected → (s.opens k).pending = true) (j : κ) (timedOut clientOk : Bool)
    (report : Callback) : (s.finishClose j timedOut clientOk report).Inv := by
  have hdone : ({ s with client := none, lifecycle := .closed } : State κ ρ).Inv := by
    refine { hs with
      pending := fun _ _ => .inr rfl
      opened := fun q hq => ⟨by simp, (hs.opened q hq).2⟩
      alive := ?alive
      connected := fun q hq => .inl (hclosed q hq)
      waits := fun i w hi => ⟨(hs.waits i w hi).1, .inr rfl⟩
      closes := ?closes
      returned := fun _ _ => rfl }
    case alive =>
      intro q r hq
      exact absurd hq (by rw [Bool.not_eq_true]; exact hdead q r)
    case closes =>
      intro i c b hi
      refine ⟨.inr rfl, fun hclosing => ?_, hdead⟩
      cases hclosing
  unfold finishClose
  cases report with
  | raises => exact hdone.closeRaises j _
  | returns =>
    refine hdone.setClose (fun w h => ?_) (fun c b h => ?_) fun _ => rfl
    · dsimp only at h
      split_ifs at h <;> cases h
    · dsimp only at h
      split_ifs at h

/-- Once no worker runs, a `close()` call goes on to the client. -/
theorem closeClient_inv (hs : s.Inv) (hdead : ∀ k r, (s.workers k r).alive = false) (hlate : s.Late) (j : κ)
    (timedOut : Bool) (report : Callback) : (s.closeClient j timedOut report).Inv := by
  unfold closeClient
  split
  · rename_i c hc
    refine hs.setClose (by simp [ClosingCall.waits]) (fun d b h => ?_) (by simp)
    cases h
    exact ⟨hlate, fun _ => hc, hdead⟩
  · rename_i hc
    refine finishClose_inv hs hdead (fun k hk => ?_) j timedOut true report
    rcases hs.connected k hk with hp | ⟨h, -⟩
    · exact hp
    · rw [hc] at h
      cases h

theorem requestClose_inv (hs : s.Inv) (hup : s.Up) (j : κ) (report final : Callback) :
    (s.requestClose j report final).Inv := by
  have hclosing := hs.closing hup
  unfold requestClose
  cases report with
  | raises => exact hclosing.closeRaises j _
  | returns =>
    have hrequested := hclosing.flags true s.failed s.failureReported
    dsimp only
    split
    · rename_i w hw
      refine hrequested.setClose (fun w' h => ?_) (by simp) (by simp)
      cases h
      exact ⟨hw, .inl rfl⟩
    · rename_i hnone
      refine closeClient_inv hrequested (fun k r => ?_) (.inl rfl) j false final
      rw [← Bool.not_eq_true]
      intro halive
      have hcurrent := (hs.alive k r halive).1
      rw [show s.current = none from hnone] at hcurrent
      cases hcurrent

theorem startClose_inv (hs : s.Inv) (j : κ) (report final : Callback) : (s.startClose j report final).Inv := by
  unfold startClose
  cases hl : s.lifecycle with
  | new => exact (hs.closeNew hl).setClose (by simp [ClosingCall.waits]) (by simp) fun _ => rfl
  | closed => exact hs.setClose (by simp [ClosingCall.waits]) (by simp) fun _ => hl
  | «open» => exact requestClose_inv hs (.inl hl) j report final
  | closing => exact requestClose_inv hs (.inr hl) j report final

/-! ## Steps and runs -/

section

variable [Fintype ρ]

omit [DecidableEq κ] in
theorem alive_of_allDone {w : κ} (h : s.allDone w = true) (r : ρ) : (s.workers w r).alive = false := by
  rw [allDone, decide_eq_true_eq] at h
  have hr := h r
  revert hr
  cases s.workers w r <;> simp [Task.done, Task.alive]

theorem gathered_inv (hs : s.Inv) {j w : κ} {report : Callback} (hj : s.closes j = .gathering w)
    (h : s.gathered j w report = some s') : s'.Inv := by
  obtain ⟨hcurrent, hlate⟩ := hs.waits j w (by rw [hj]; rfl)
  unfold gathered at h
  split_ifs at h with hb hd
  · cases h
    exact hs.closeRaises j _
  · cases h
    exact closeClient_inv hs (hs.dead hcurrent (alive_of_allDone hd)) hlate j false report

theorem reaped_inv {p : Profile} (hs : s.Inv) {j w : κ} {report : Callback} (hj : s.closes j = .reaping w)
    (h : s.reaped p j w report = some s') : s'.Inv := by
  obtain ⟨hcurrent, hlate⟩ := hs.waits j w (by rw [hj]; rfl)
  unfold reaped at h
  split_ifs at h with hb hre hended hd
  · cases h
    exact hs.closeRaises j _
  · rw [hcurrent] at h
    cases h
    refine (hs.cancelWorkers w).setClose (fun w' h => ?_) (by simp) (by simp)
    cases h
    exact ⟨hcurrent, hlate⟩
  · cases h
    exact closeClient_inv hs (hs.dead hcurrent (alive_of_allDone hd)) hlate j _ report

omit [Fintype ρ] in
theorem connected_of_closed {c q : κ} (h : (s.setClient c .closed).clients q = .connected) :
    q ≠ c ∧ s.clients q = .connected := by
  by_cases hqc : q = c
  · subst hqc
    rw [setClient_self] at h
    cases h
  · exact ⟨hqc, by rwa [setClient_ne s hqc] at h⟩

omit [Fintype ρ] in
theorem clientClosed_inv (hs : s.Inv) {j c : κ} {timedOut : Bool} (hj : s.closes j = .closingClient c timedOut)
    (report : Callback) : ((s.setClient c .closed).finishClose j timedOut true report).Inv := by
  obtain ⟨hlate, hclient, hdead⟩ := hs.closes j c timedOut hj
  have hclosed : (s.setClient c .closed).Inv :=
    { hs with connected := fun q hq => hs.connected q (connected_of_closed hq).2 }
  refine finishClose_inv hclosed hdead (fun q hq => ?_) j timedOut true report
  obtain ⟨hqc, hq⟩ := connected_of_closed hq
  rcases hs.connected q hq with hp | ⟨hq, hup⟩
  · exact hp
  · -- the client of the output is the one that has just been closed
    rcases hlate with hl | hl
    · rw [hclient hl, Option.some.injEq] at hq
      exact absurd hq.symm hqc
    · exact absurd hl hup.ne_closed

omit [Fintype ρ] in
theorem ends_inv [DecidableEq ρ] (hs : s.Inv) (k : κ) (r : ρ) {t : Task} (ht : t.alive = false) :
    (s.ends k r t).Inv := by
  have hworkers : (s.setWorkers k (Function.update (s.workers k) r t)).Inv := by
    refine hs.setWorkers fun q hq => ?_
    by_cases hqr : q = r
    · subst hqr
      rw [Function.update_self, ht] at hq
      cases hq
    · rwa [Function.update_of_ne hqr] at hq
  exact { hworkers with }

/-- **An orderly step keeps the invariant.** -/
theorem step_inv [DecidableEq ρ] {p : Profile} (hs : s.Inv) {i : Input κ ρ} (hi : Orderly s i)
    (h : (machine p).step s i = some s') : s'.Inv := by
  change step p s i = some s' at h
  cases i with
  | «open» k start =>
    simp only [step] at h
    split at h
    · cases h
      exact startOpen_inv hs p ‹_› hi
    · cases h
  | advance k report =>
    simp only [step] at h
    split at h
    · rename_i left hk
      cases h
      refine hs.setOpen (fun _ => by rw [hk]; rfl) (by simp) fun _ => .inl rfl
    · rename_i hk
      cases h
      exact finishOpen_inv hs report hk (hi hk)
    · cases h
  | interrupt k cancelled report =>
    cases hi
    simp only [step] at h
    split at h
    · rename_i left hk _
      cases h
      exact hs.setOpen (fun _ => by rw [hk]; rfl) (by simp) fun _ => .inl rfl
    · rename_i hraises
      cases hraises
    · cases h
  | cleaned k outcome =>
    cases hi
    simp only [step] at h
    split at h
    · cases h
      exact finishCleaning_inv hs ‹_›
    · cases h
  | close k report final =>
    simp only [step] at h
    split at h
    · cases h
      exact startClose_inv hs k report final
    · cases h
  | workerEnds k r how =>
    cases how with
    | returns =>
      simp only [step, Option.ite_none_right_eq_some, Option.some.injEq] at h
      obtain ⟨-, rfl⟩ := h
      exact ends_inv hs k r rfl
    | fails =>
      simp only [step, Option.ite_none_right_eq_some, Option.some.injEq] at h
      obtain ⟨-, rfl⟩ := h
      exact (ends_inv hs k r rfl).flags s.closeRequested true s.failureReported
    | raises =>
      simp only [step, Option.ite_none_right_eq_some, Option.some.injEq] at h
      obtain ⟨-, rfl⟩ := h
      exact (ends_inv hs k r rfl).flags s.closeRequested true s.failureReported
    | cancelled =>
      simp only [step, Option.ite_none_right_eq_some, Option.some.injEq] at h
      obtain ⟨-, rfl⟩ := h
      exact ends_inv hs k r rfl
  | gathered k report =>
    simp only [step] at h
    split at h
    · exact gathered_inv hs ‹_› h
    · cases h
  | shutdownTimeout k =>
    simp only [step] at h
    split at h
    · rename_i w hk
      split_ifs at h
      cases h
      refine (hs.cancelWorkers w).setClose (fun w' hw => ?_) (by simp) (by simp)
      cases hw
      exact hs.waits k w (by rw [hk]; rfl)
    · cases h
  | reaped k report =>
    simp only [step] at h
    split at h
    · exact reaped_inv hs ‹_› h
    · cases h
  | regathered k report =>
    simp only [step] at h
    split at h
    · rename_i w hk
      obtain ⟨hcurrent, hlate⟩ := hs.waits k w (by rw [hk]; rfl)
      split_ifs at h with hd
      cases h
      exact closeClient_inv hs (hs.dead hcurrent (alive_of_allDone hd)) hlate k true report
    · cases h
  | clientClosed k ok report =>
    cases hi
    simp only [step] at h
    split at h
    · cases h
      exact clientClosed_inv hs ‹_› report
    · cases h
  | cancelClose k =>
    simp only [step] at h
    split at h
    · cases h
      exact (hs.cancelWorkers _).closeRaises k _
    · cases h
      exact hs.closeRaises k _
    · cases h
      exact hs.closeRaises k _
    · cases h
      exact hs.closeRaises k _
    · cases h
  | reportFailure =>
    simp only [step, Option.ite_none_right_eq_some, Option.some.injEq] at h
    obtain ⟨-, rfl⟩ := h
    exact hs.flags s.closeRequested s.failed true

theorem path_inv [DecidableEq ρ] {p : Profile} {is : List (Input κ ρ)} (h : (machine p).Path Orderly initial is s) :
    s.Inv :=
  h.invariant (I := Inv) (fun _ _ _ hi hs hstep => step_inv hs hi hstep) initial_inv

end

/-! ## Main result -/

/-- What a one-shot lifecycle is. -/
structure OneShot (s : State κ ρ) : Prop where
  opened : ∀ k q, s.opens k = .returned → s.opens q = .returned → k = q
  workers : ∀ r k q, (s.workers k r).alive = true → (s.workers q r).alive = true → k = q
  closed : (∃ j, s.closes j = .returned) → (∀ k, (s.opens k).pending = false) →
    (∀ k r, (s.workers k r).alive = false) ∧ ∀ k, s.clients k ≠ .connected

omit [DecidableEq κ] in
theorem Inv.oneShot (hs : s.Inv) : s.OneShot := by
  constructor
  case opened => exact fun k q hk hq => (hs.opened q hq).2 k hk
  case workers =>
    intro r k q hk hq
    have hcurrent := (hs.alive k r hk).1
    rw [(hs.alive q r hq).1, Option.some.injEq] at hcurrent
    exact hcurrent.symm
  case closed =>
    rintro ⟨j, hj⟩ hended
    have hclosed := hs.returned j hj
    have hup : ¬s.Up := by simp [Up, hclosed]
    refine ⟨hs.down hup, fun k hk => ?_⟩
    rcases hs.connected k hk with hp | ⟨-, hu⟩
    · rw [hended k] at hp
      cases hp
    · exact hup hu

/-- **One-shot lifecycle** of both outputs, in every orderly run. -/
theorem one_shot :
    (∀ createIndexes is (s : State κ StorageRoute), (machine (multiMongo createIndexes)).Path Orderly initial is s →
      s.OneShot) ∧
    ∀ is (s : State κ Unit), (machine mongoBatch).Path Orderly initial is s → s.OneShot :=
  ⟨fun _ _ _ h => (path_inv h).oneShot, fun _ _ h => (path_inv h).oneShot⟩

instance [Fintype κ] (s : State κ ρ) : DecidablePred (Orderly s)
  | .open _ start =>
    inferInstanceAs (Decidable (s.lifecycle = .new → start = .connects → ∀ q, (s.opens q).pending = false))
  | .advance k _ => inferInstanceAs (Decidable (s.opens k = .connecting 0 → s.lifecycle = .new))
  | .interrupt _ _ report => inferInstanceAs (Decidable (report = .returns))
  | .cleaned _ outcome => inferInstanceAs (Decidable (outcome = .closes))
  | .clientClosed _ ok _ => inferInstanceAs (Decidable (ok = true))
  | .close _ _ _ | .workerEnds _ _ _ | .gathered _ _ | .shutdownTimeout _ | .reaped _ _ | .regathered _ _
  | .cancelClose _ | .reportFailure => isTrue trivial

/-- The output is opened and closed, and a second `open()` is refused. -/
def openCloseOpen : List (Input Bool StorageRoute) :=
  [.open false .connects, .advance false .returns, .close false .returns .returns] ++
    storageRoutes.map (fun r => .workerEnds false r .returns) ++
    [.gathered false .returns, .clientClosed false true .returns, .open true .connects]

theorem one_shot_reopened : ∃ s : State Bool StorageRoute,
    (machine (multiMongo false)).Path Orderly initial openCloseOpen s ∧ s.closes false = .returned ∧
    s.clients false = .closed ∧ s.opens true = .raised .state ∧ s.OneShot := by
  obtain ⟨s, hs, hp⟩ := Machine.exists_path_of_check (M := machine (multiMongo false)) (P := Orderly)
    (p := fun s : State Bool StorageRoute => decide (s.closes false = .returned ∧ s.clients false = .closed ∧
      s.opens true = .raised .state)) initial openCloseOpen (by decide)
  obtain ⟨hclosed, hclient, hrefused⟩ := of_decide_eq_true hp
  exact ⟨s, hs, hclosed, hclient, hrefused, one_shot.1 false _ s hs⟩

/-- Two `open()` calls, each of which finds the output new. -/
def twoOpens : List (Input Bool Unit) :=
  [.open false .connects, .open true .connects, .advance false .returns, .advance true .returns]

/-- A `close()` call while `open()` awaits its ping. -/
def closeWhileOpening : List (Input Bool StorageRoute) :=
  [.open false .connects, .close false .returns .returns, .advance false .returns]

/-- **The state is left too late**: two overlapping `open()` calls both return, with a worker each; and an `open()`
starts its workers after a `close()` has returned. -/
theorem overlapping_calls :
    (∃ s : State Bool Unit, (machine mongoBatch).Path (fun _ _ => True) initial twoOpens s ∧
      s.opens false = .returned ∧ s.opens true = .returned ∧ ¬s.OneShot) ∧
    ∃ s : State Bool StorageRoute, (machine (multiMongo false)).Path (fun _ _ => True) initial closeWhileOpening s ∧
      s.closes false = .returned ∧ s.opens false = .returned ∧ ¬s.OneShot := by
  obtain ⟨s, hs, hp⟩ := Machine.exists_path_of_check (M := machine mongoBatch) (P := fun _ _ => True)
    (p := fun s : State Bool Unit => decide (s.opens false = .returned ∧ s.opens true = .returned)) initial twoOpens
    (by decide)
  obtain ⟨t, ht, hq⟩ := Machine.exists_path_of_check (M := machine (multiMongo false)) (P := fun _ _ => True)
    (p := fun s : State Bool StorageRoute => decide (s.closes false = .returned ∧ s.opens false = .returned ∧
      (∀ k, (s.opens k).pending = false) ∧ s.clients false = .connected)) initial closeWhileOpening (by decide)
  obtain ⟨hfirst, hsecond⟩ := of_decide_eq_true hp
  obtain ⟨hclosed, hopened, hended, hclient⟩ := of_decide_eq_true hq
  refine ⟨⟨s, hs, hfirst, hsecond, fun hone => ?_⟩, t, ht, hclosed, hopened, fun hone => ?_⟩
  · cases hone.opened false true hfirst hsecond
  · exact (hone.closed ⟨false, hclosed⟩ hended).2 false hclient

end State

end BinanceCollector.OpenClose
