import BinanceCollector.Collector.OrStop

/-!
# The calls in the collection loop

In `Connection.machine` a call of `_receive_or_stop` or `_handle_message_or_stop` is two phases without any tasks: the
loop waits, and then it has a result that a `gather` may still delay. Here the calls with their tasks are shown to do
nothing else.

- `Hosts`: what a machine has to offer to stand for the calls.
- `step_hosted`, `call_hosted`: such a machine answers every step and every run of a call.
- `receiving_hosts`, `handling_hosts`: the collection loop is one, in both pairs of phases.
- `receive_in_loop`, `handle_in_loop`: the loop goes on with the result of the call.
-/

namespace BinanceCollector.OrStop

open Steps

variable {ω ε : Type*} {both : Bool} {s s' : Call ω ε} {i : Input ω ε}

/-- How far a call is. -/
inductive Point (ω ε : Type*) where
  | waiting
  | settled (result : Except (Failure ε) (Option ω))

def Phase.point : Phase ω ε → Point ω ε
  | .waiting => .waiting
  | .settling result | .cleaning result | .ended result => .settled result

section Hosts

variable {τ ι : Type*}

/-- The machine can go on to this point of a call; `stop` says whether the stop event is set. -/
def Leads (N : Machine τ ι) (At : Bool → Point ω ε → τ → Prop) (u : τ) (stop : Bool) (point : Point ω ε) : Prop :=
  ∃ js u', N.Path (fun _ _ => True) u js u' ∧ At stop point u'

/-- The machine stands for the calls: `At` says at which point of a call it is. -/
structure Hosts (N : Machine τ ι) (timeout : Option ℚ) (At : Bool → Point ω ε → τ → Prop) : Prop where
  setStop : ∀ (u : τ) (stop : Bool) (point : Point ω ε), At stop point u → Leads N At u true point
  completes : ∀ (u : τ) (stop : Bool) (how : Ending ω ε), how ≠ .cancelled → At stop .waiting u →
    Leads N At u stop (.settled how.result)
  stops : ∀ u : τ, At true .waiting u → Leads N At u true (.settled (.ok none))
  expires : ∀ (u : τ) (stop : Bool), timeout.isSome = true → At stop .waiting u →
    Leads N At u stop (.settled (.error .timeout))
  strikes : ∀ (u : τ) (stop : Bool) (point : Point ω ε), At stop point u →
    Leads N At u stop (.settled (.error .cancelled))

variable {N : Machine τ ι} {At : Bool → Point ω ε → τ → Prop} {u : τ}

theorem Leads.stays {stop : Bool} {point : Point ω ε} (h : At stop point u) : Leads N At u stop point :=
  ⟨[], u, .nil u, h⟩

theorem Leads.one {stop : Bool} {point : Point ω ε} {j : ι} {u' : τ} (hstep : N.step u j = some u')
    (h : At stop point u') : Leads N At u stop point :=
  ⟨[j], u', .cons trivial hstep (.nil u'), h⟩

/-! ## The tasks of a call that waits -/

/-- What the tasks of a call are, as long as it waits. -/
structure Sane (timeout : Option ℚ) (s : Call ω ε) : Prop where
  given : s.timeout = timeout
  expired : s.expired = true → timeout.isSome = true
  task : s.phase = .waiting → s.task ≠ .cancelling ∧ s.task ≠ .done .cancelled
  stopTask : s.phase = .waiting → s.stopTask = .running ∨ s.stopTask = .done .returned ∧ s.stop = true

theorem begun_sane (stop : Bool) (timeout : Option ℚ) : Sane timeout (Call.begun stop timeout : Call ω ε) := by
  constructor <;> simp [Call.begun]

theorem step_sane {timeout : Option ℚ} (hs : Sane timeout s) (h : step both s i = some s') : Sane timeout s' := by
  cases (effect_of_step h).2 with
  | setStop => exact { hs with stopTask := fun hp => (hs.stopTask hp).imp_right fun hdone => ⟨hdone.1, rfl⟩ }
  | @taskEnds how hpending hcancelled =>
    refine { hs with task := fun hp => ⟨nofun, fun hdone => ?_⟩ }
    cases hdone
    exact (hs.task hp).1 (hcancelled rfl)
  | stopReturns _ hstop => exact { hs with stopTask := fun _ => .inr ⟨rfl, hstop⟩ }
  | stopCancelled hcancelling =>
    refine { hs with stopTask := fun hp => ?_ }
    rcases hs.stopTask hp with hr | ⟨hr, -⟩ <;> rw [hcancelling] at hr <;> cases hr
  | expires _ htimeout => exact { hs with expired := fun _ => hs.given ▸ htimeout }
  | cancel => exact { hs with }
  | struck | completes | stops | timesOut | settled | ends =>
    exact ⟨hs.given, hs.expired, fun hp => (nomatch hp), fun hp => (nomatch hp)⟩

/-! ## Steps and runs -/

/-- **Every step of a call is answered.** -/
theorem step_hosted {timeout : Option ℚ} (hN : Hosts N timeout At) (hs : Sane timeout s)
    (hu : At s.stop s.phase.point u) (h : step both s i = some s') : Leads N At u s'.stop s'.phase.point := by
  have hgathered : ∀ {result : Except (Failure ε) (Option ω)}, s.phase.point = .settled result →
      Leads N At u s.stop (.settled (s.gathered result)) := by
    intro result hp
    rw [hp] at hu
    cases hcancel : s.cancelRequested with
    | true => simpa [Call.gathered, hcancel] using hN.strikes _ _ _ hu
    | false => simpa [Call.gathered, hcancel] using Leads.stays hu
  cases (effect_of_step h).2 with
  | setStop => exact hN.setStop _ _ _ hu
  | taskEnds | stopReturns | stopCancelled | expires | cancel => exact .stays hu
  | struck hphase => exact hN.strikes _ _ _ hu
  | @completes how hphase _ htask =>
    rw [hphase] at hu
    exact hN.completes _ _ _ (fun hhow => (hs.task hphase).2 (hhow ▸ htask)) hu
  | stops hphase _ _ hstopTask =>
    rw [hphase] at hu
    have hstop : s.stop = true := by
      rcases hs.stopTask hphase with hr | ⟨-, hstop⟩
      · rw [hstopTask] at hr; cases hr
      · exact hstop
    show Leads N At u s.stop _
    rw [hstop] at hu ⊢
    exact hN.stops _ hu
  | timesOut hphase _ _ _ hexpired =>
    rw [hphase] at hu
    exact hN.expires _ _ (hs.expired hexpired) hu
  | settled hphase => exact hgathered (by rw [hphase]; rfl)
  | ends hphase => exact hgathered (by rw [hphase]; rfl)

/-- **Every run of a call is answered.** -/
theorem call_hosted {stop : Bool} {timeout : Option ℚ} (hN : Hosts N timeout At) (hu : At stop .waiting u)
    {is : List (Input ω ε)} (h : (machine both).Path (fun _ _ => True) (.begun stop timeout) is s) :
    Leads N At u s.stop s.phase.point := by
  have hkeep : ∀ (s : Call ω ε) i s' u, True → Sane timeout s ∧ At s.stop s.phase.point u →
      step both s i = some s' → ∃ js u', N.Path (fun _ _ => True) u js u' ∧
        Sane timeout s' ∧ At s'.stop s'.phase.point u' := by
    intro s i s' u _ ⟨hs, hu⟩ hstep
    obtain ⟨js, u', hpath, hu'⟩ := step_hosted hN hs hu hstep
    exact ⟨js, u', hpath, step_sane hs hstep, hu'⟩
  obtain ⟨js, u', hpath, -, hu'⟩ := h.simulate hkeep ⟨begun_sane stop timeout, hu⟩
  exact ⟨js, u', hpath, hu'⟩

end Hosts

/-! ## The collection loop -/

section Loop

open Connection (Exc LinkError Profile)

variable {μ : Type} (p : Profile μ)

/-- What `_receive_or_stop` raises in the loop. -/
def Failure.ofReceiving : Failure LinkError → Exc
  | .cancelled => .cancelled
  | .timeout => .subscription .timeout
  | .raised e => .link e

/-- The loop in `_receive_or_stop`. -/
def Receiving (timeout : Option ℚ) (stop : Bool) (point : Point WireMessage LinkError) (u : Connection.State μ) :
    Prop :=
  u.stop = stop ∧ u.confirmed = timeout.isNone ∧ u.phase =
    match point with
    | .waiting => .receiving
    | .settled result => .settling (result.mapError Failure.ofReceiving)

/-- An input that leads the loop to the result of `_receive_or_stop`. -/
theorem leads_receiving {timeout : Option ℚ} {stop : Bool} {result : Except (Failure LinkError) (Option WireMessage)}
    {u : Connection.State μ} (u' : Connection.State μ) (j : Connection.Input) (hs : u'.stop = stop)
    (hc : u'.confirmed = timeout.isNone)
    (hstep : Connection.step p u j = some (u'.at_ (.settling (result.mapError Failure.ofReceiving)))) :
    Leads (Connection.machine p) (Receiving timeout) u stop (.settled result) :=
  .one hstep ⟨hs, hc, rfl⟩

theorem receiving_hosts (timeout : Option ℚ) : Hosts (Connection.machine p) timeout (Receiving timeout) where
  setStop := by
    rintro u stop point ⟨-, hc, hp⟩
    exact .one (j := .setStop) rfl ⟨rfl, hc, hp⟩
  completes := by
    rintro u stop how hhow ⟨hs, hc, hp⟩
    cases how with
    | returned payload => exact leads_receiving p u (.receives payload) hs hc (by simp only [Connection.step, hp]; rfl)
    | raised e => exact leads_receiving p u (.recvFails e) hs hc (by simp only [Connection.step, hp]; rfl)
    | cancelled => exact absurd rfl hhow
  stops := by
    rintro u ⟨hs, hc, hp⟩
    exact leads_receiving p u .stopSeen hs hc (by simp only [Connection.step, hs, hp]; rfl)
  expires := by
    rintro u stop htimeout ⟨hs, hc, hp⟩
    have hconfirmed : u.confirmed = false := by
      cases timeout with
      | none => cases htimeout
      | some _ => exact hc
    exact leads_receiving p u .ackTimeout hs hc (by simp only [Connection.step, hp, hconfirmed]; rfl)
  strikes := by
    rintro u stop point ⟨hs, hc, hp⟩
    refine leads_receiving p (u.act .cancelled) .cancel hs hc ?_
    cases point with
    | waiting | settled _ => simp only [Connection.step, Connection.State.cancel, Connection.State.act, hp]; rfl

/-- What `_handle_message_or_stop` raises in the loop. -/
def Failure.ofHandling : Failure Unit → Exc
  | .cancelled => .cancelled
  | .timeout => .subscription .timeout
  | .raised () => .messageHandler

/-- What `_handle_message_or_stop` returns. -/
def handledOf (result : Except (Failure Unit) (Option Unit)) : Except Exc Bool :=
  (result.mapError Failure.ofHandling).map Option.isSome

/-- The loop in `_handle_message_or_stop`. -/
def Handling (payload : WireMessage) (stop : Bool) (point : Point Unit Unit) (u : Connection.State μ) : Prop :=
  u.stop = stop ∧ u.phase =
    match point with
    | .waiting => .handling payload
    | .settled result => .settlingDelivery payload (handledOf result)

theorem leads_handling {payload : WireMessage} {stop : Bool} {result : Except (Failure Unit) (Option Unit)}
    {u : Connection.State μ} (u' : Connection.State μ) (j : Connection.Input) (hs : u'.stop = stop)
    (hstep : Connection.step p u j = some (u'.at_ (.settlingDelivery payload (handledOf result)))) :
    Leads (Connection.machine p) (Handling payload) u stop (.settled result) :=
  .one hstep ⟨hs, rfl⟩

theorem handling_hosts (hp : p.watchesStop = true) (payload : WireMessage) :
    Hosts (Connection.machine p) none (Handling payload) where
  setStop := by
    rintro u stop point ⟨-, hphase⟩
    exact .one (j := .setStop) rfl ⟨rfl, hphase⟩
  completes := by
    rintro u stop how hhow ⟨hs, hphase⟩
    cases how with
    | returned value =>
      refine leads_handling p u .handlerReturns hs ?_
      simp only [Connection.step, hphase, Connection.State.handlerEnds, hp]
      rfl
    | raised e =>
      refine leads_handling p (u.act .handlerFails) .handlerRaises hs ?_
      simp only [Connection.step, hphase, Connection.State.handlerEnds, hp]
      rfl
    | cancelled => exact absurd rfl hhow
  stops := by
    rintro u ⟨hs, hphase⟩
    refine leads_handling p u .stopSeen hs ?_
    simp only [Connection.step, hs, hphase, hp]
    rfl
  expires := by
    rintro u stop htimeout
    cases htimeout
  strikes := by
    rintro u stop point ⟨hs, hphase⟩
    refine leads_handling p (u.act .cancelled) .cancel hs ?_
    cases point with
    | waiting =>
      simp only [Connection.step, Connection.State.cancel, Connection.State.act, hphase, Connection.State.handlerEnds,
        hp]
      rfl
    | settled _ =>
      simp only [Connection.step, Connection.State.cancel, Connection.State.act, hphase]
      rfl

/-- **The loop goes on with what `_receive_or_stop` returns or raises**, for every run of the call. -/
theorem receive_in_loop {timeout : Option ℚ} {u : Connection.State μ} (hphase : u.phase = .receiving)
    (hconfirmed : u.confirmed = timeout.isNone) {is : List (Input WireMessage LinkError)}
    {s : Call WireMessage LinkError} {result : Except (Failure LinkError) (Option WireMessage)}
    (h : receiveOrStop.Path (fun _ _ => True) (.begun u.stop timeout) is s) (hended : s.phase = .ended result)
    (now : ℤ) : ∃ (js : List Connection.Input) (u' : Connection.State μ), u'.stop = s.stop ∧
      (Connection.machine p).Path (fun _ _ => True) u (js ++ [.settled now])
        (u'.received p now (result.mapError Failure.ofReceiving)) := by
  obtain ⟨js, u', hpath, hstop, -, hsettling⟩ := call_hosted (receiving_hosts p timeout) ⟨rfl, hconfirmed, hphase⟩ h
  rw [hended] at hsettling
  refine ⟨js, u', hstop, hpath.snoc trivial ?_⟩
  simp only [Connection.machine, Connection.step, hsettling]
  rfl

/-- **The loop goes on with what `_handle_message_or_stop` returns or raises**, for every run of the call. -/
theorem handle_in_loop (hp : p.watchesStop = true) {payload : WireMessage} {u : Connection.State μ}
    (hphase : u.phase = .handling payload) {is : List (Input Unit Unit)} {s : Call Unit Unit}
    {result : Except (Failure Unit) (Option Unit)}
    (h : handleMessageOrStop.Path (fun _ _ => True) (.begun u.stop none) is s) (hended : s.phase = .ended result)
    (now : ℤ) : ∃ (js : List Connection.Input) (u' : Connection.State μ), u'.stop = s.stop ∧
      (Connection.machine p).Path (fun _ _ => True) u (js ++ [.settled now])
        (u'.deliveryEnds p payload (handledOf result)) := by
  obtain ⟨js, u', hpath, hstop, hsettling⟩ := call_hosted (handling_hosts p hp payload) ⟨rfl, hphase⟩ h
  rw [hended] at hsettling
  refine ⟨js, u', hstop, hpath.snoc trivial ?_⟩
  simp only [Connection.machine, Connection.step, hsettling]
  rfl

end Loop

end BinanceCollector.OrStop
