import BinanceCollector.Collector.HandoverOrStop
import BinanceCollector.Outputs.EventOutput
import BinanceCollector.RuntimeTurns

/-!
# The legacy profile as one system

`run_collector` with `BinanceCollector`, `EventDispatcher` and an output: the runner and its tasks as in `Runtime`, and
the output as a machine of its own. A call `write()` is named by the number of the message that the collector has handed
on; `dispatcher.handle` runs in the task of `_handle_message`.

- Every step of the runner is a step of `Runtime`; the output says when a call has ended, and is told when one begins or
  is cancelled.
- The handler returns when its `write()` has returned, and it may raise whenever it is not waiting in `write()`: the
  statistics and the log are not modelled. `_handle_message_or_stop` may give a delivery up although its task has just
  ended: more schedules are covered than occur.
- `Custody`: what has become of the messages that the collector has handed on.
-/

namespace BinanceCollector.LegacyRuntime

open Steps Text Json BinanceCollector.Runtime

/-- What the system is built from. -/
structure Setup (ο ι : Type) where
  symbols : List Str
  limits : Limits
  policy : ReconnectPolicy
  mode : Mode
  /-- `manage_signals` -/
  managesSignals : Bool
  output : EventOutput ο ι

/-- The runner and the output. -/
structure State (ο : Type) where
  runner : Runtime.State (Connection.State WireMessage) Connection.Exc
  output : ο

/-- What the event loop does next. -/
inductive Input (ι : Type) where
  | runner (i : Runtime.Input Connection.Input Connection.Exc)
  /-- a step of the output on its own -/
  | output (i : ι)
  deriving DecidableEq

variable {ο ι : Type}

/-- `run_collector` with the output. -/
def Setup.runner (setup : Setup ο ι) : Runner (Connection.State WireMessage) Connection.Input Connection.Exc :=
  runCollector setup.symbols setup.limits setup.policy setup.mode (some setup.output.failureAware) setup.managesSignals

/-- `normalize_message` of `dispatcher.handle`. -/
def Setup.normalize (setup : Setup ο ι) (message : WireMessage) : Except DecodeFailure NormalizedMessage :=
  normalizeMessage setup.limits message

namespace State

/-- The collector, or the one that will be created. -/
def connection (setup : Setup ο ι) (s : State ο) : Connection.State WireMessage := s.runner.current setup.runner

/-- The messages that the collector has handed on. -/
def handed (setup : Setup ο ι) (s : State ο) : List WireMessage :=
  Connection.handledMessages (s.connection setup).history

/-- The call `write()` for the last message handed on. -/
def lastCall (setup : Setup ο ι) (s : State ο) : ℕ := (s.handed setup).length - 1

/-- `output.close()` has been called, and the runner waits for it. -/
def closing (s : State ο) : Bool :=
  match s.runner.main with
  | .closing _ => true
  | _ => false

/-- What the runner waits for in the output. -/
def admits (setup : Setup ο ι) (s : State ο) : Runtime.Input Connection.Input Connection.Exc → Bool
  | .collector .handlerReturns => decide (setup.output.call s.output (s.lastCall setup) = .returned)
  | .collector .handlerRaises => decide (setup.output.call s.output (s.lastCall setup) ≠ .waiting)
  | .collector (.settled _) => match (s.connection setup).phase with
    | .settlingDelivery _ _ => decide (setup.output.call s.output (s.lastCall setup) ≠ .waiting)
    | _ => true
  | .closed none => decide (setup.output.closing s.output = .returned)
  | .closed (some _) => decide (setup.output.closing s.output = .raised)
  | .cancelMain => !s.closing || decide (setup.output.closing s.output = .waiting)
  | _ => true

/-- `dispatcher.handle`, up to the first suspension point of `write()`. -/
def handle (setup : Setup ο ι) (s : State ο) : Option ο :=
  match (s.connection setup).phase, (s.handed setup).getLast? with
  | .handling _, some message => match setup.normalize message with
    | .ok normalized =>
      setup.output.machine.step s.output (setup.output.input (.write (s.lastCall setup) normalized.event))
    | .error _ => none
  | _, _ => none

end State

/-- The step of the collector cancels the task of `_handle_message`. -/
def abandons (c c' : Connection.State WireMessage) : Bool :=
  match c.phase, c'.phase with
  | .handling _, .settlingDelivery _ (.ok false) | .handling _, .settlingDelivery _ (.error .cancelled) => true
  -- only a cancellation leaves the collector there and is an act
  | .settlingDelivery _ _, .settlingDelivery _ _ => decide (c.history.length < c'.history.length)
  | _, _ => false

namespace State

/-- The output after a step of the runner that leads to `t`. -/
def outputAfter (setup : Setup ο ι) (s : State ο) (i : Runtime.Input Connection.Input Connection.Exc)
    (t : Runtime.State (Connection.State WireMessage) Connection.Exc) : Option ο :=
  match i with
  | .write => s.handle setup
  | .failure => setup.output.machine.step s.output (setup.output.input .reportFailure)
  | i =>
    if OutputCall.closes ∈ t.calls ∧ OutputCall.closes ∉ s.runner.calls then
      setup.output.machine.step s.output (setup.output.input .close)
    else if i = .cancelMain ∧ s.closing = true then
      setup.output.machine.step s.output (setup.output.input .cancelClose)
    else if abandons (s.connection setup) (t.current setup.runner) then
      -- a `write()` that has ended is not cancelled
      some ((setup.output.machine.step s.output (setup.output.input (.cancelWrite (s.lastCall setup)))).getD s.output)
    else some s.output

end State

/-- One step of the event loop. -/
def step (setup : Setup ο ι) (s : State ο) : Input ι → Option (State ο)
  | .runner i =>
    if s.admits setup i then
      (Runtime.step setup.runner s.runner i).bind fun t => (s.outputAfter setup i t).map fun o => ⟨t, o⟩
    else none
  | .output i =>
    if OutputCall.opened ∈ s.runner.calls ∧ setup.output.request i = none then
      (setup.output.machine.step s.output i).map fun o => { s with output := o }
    else none

/-- The system. -/
def machine (setup : Setup ο ι) : Machine (State ο) (Input ι) := ⟨step setup⟩

/-- The system at the first wait of the runner. -/
def begun (setup : Setup ο ι) (stop : Bool) : State ο := ⟨Runtime.begun setup.runner stop, setup.output.opened⟩

/-- The collector does not raise out of `__aexit__` in the place of an exception on its way out. -/
def State.closesQuietly (setup : Setup ο ι) (s : State ο) : Input ι → Bool
  | .runner (.collector (.closeFails _)) => match (s.connection setup).phase with
    | .closing (some _) => false
    | _ => true
  | _ => true

/-- What is assumed of the code outside the repository: closing the connection raises nothing in the place of an
exception on its way out. -/
def Assumed (setup : Setup ο ι) (s : State ο) (i : Input ι) : Prop := s.closesQuietly setup i = true

instance Assumed.decidable (setup : Setup ο ι) (s : State ο) : DecidablePred (Assumed setup s) := fun _ =>
  inferInstanceAs (Decidable (_ = true))

/-! ## Events that are due -/

/-- The event of a message with its number. -/
def document (setup : Setup ο ι) (entry : WireMessage × ℕ) : Option (ℕ × Event) :=
  match setup.normalize entry.1 with
  | .ok normalized => some (entry.2, normalized.event)
  | .error _ => none

/-- The events that are due for these messages: the number of each message and its event. -/
def due (setup : Setup ο ι) (messages : List WireMessage) : List (ℕ × Event) :=
  messages.zipIdx.filterMap (document setup)

variable {setup : Setup ο ι}

theorem due_snoc (messages : List WireMessage) (m : WireMessage) :
    due setup (messages ++ [m]) = due setup messages ++ (document setup (m, messages.length)).toList := by
  simp only [due, List.zipIdx_append, List.filterMap_append, List.zipIdx_singleton, Nat.zero_add]
  cases hd : document setup (m, messages.length) <;> simp [hd]

theorem document_ok {m : WireMessage} {n : NormalizedMessage} (h : setup.normalize m = .ok n) (j : ℕ) :
    document setup (m, j) = some (j, n.event) := by
  simp only [document, h]

/-- The numbers of the events that are due. -/
theorem lt_of_mem_due {messages : List WireMessage} {j : ℕ} (h : j ∈ (due setup messages).map (·.1)) :
    j < messages.length := by
  obtain ⟨⟨j', event⟩, hmem, rfl⟩ := List.mem_map.1 h
  obtain ⟨⟨m, k⟩, hk, hd⟩ := List.mem_filterMap.1 hmem
  have hlt := List.snd_lt_of_mem_zipIdx hk
  unfold document at hd
  dsimp only at hd
  split at hd <;> cases hd
  simpa using hlt

/-- Where every message has an event, all numbers are due. -/
theorem due_keys {messages : List WireMessage} (h : ∀ m ∈ messages, ∃ n, setup.normalize m = .ok n) :
    (due setup messages).map (·.1) = List.range messages.length := by
  induction messages using List.reverseRecOn with
  | nil => rfl
  | append_singleton messages m ih =>
    obtain ⟨n, hn⟩ := h m (List.mem_append_right _ (List.mem_singleton_self m))
    rw [due_snoc, document_ok hn, List.map_append, ih fun m hm => h m (List.mem_append_left _ hm), List.length_append,
      List.length_singleton, List.range_succ]
    rfl

/-! ## Custody -/

/-- The messages that the collector has handed on are the ones whose `write()` has returned and at most one more. The
event of that one is not accepted yet, or it is the last one accepted. -/
structure Custody (setup : Setup ο ι) (c : Connection.State WireMessage) (o : ο) (served : List WireMessage)
    (waiting : Option WireMessage) : Prop where
  handed : Connection.handledMessages c.history = served ++ waiting.toList
  free : c.free = true → waiting = none
  returned : ∀ j < served.length, setup.output.call o j = .returned
  waits : waiting ≠ none → setup.output.call o served.length ≠ .returned
  fresh : ∀ j, (served ++ waiting.toList).length ≤ j → setup.output.call o j = .idle ∧ setup.output.held o j = none
  unmade : setup.output.call o served.length = .idle →
    setup.output.accepted o = due setup served ∧ setup.output.held o served.length = none
  held : ∀ j event, setup.output.held o j = some event →
    j = served.length ∧ ∃ m ∈ waiting, ∃ n, setup.normalize m = .ok n ∧ event = n.event
  decoded : ∀ m ∈ served, ∃ n, setup.normalize m = .ok n
  accepted : setup.output.accepted o = due setup served ∨
    setup.output.held o served.length = none ∧ ∃ m ∈ waiting, ∃ n, setup.normalize m = .ok n ∧
      setup.output.accepted o = due setup served ++ [(served.length, n.event)]
  busy : ∀ j, setup.output.call o j = .waiting → handlingPhase c.phase = true

variable {c c' : Connection.State WireMessage} {o o' : ο} {served : List WireMessage} {waiting : Option WireMessage}
  {Inv Closed : ο → Prop}

theorem opened_custody (hl : setup.output.Lawful Inv Closed) (policy : ReconnectPolicy) :
    Custody setup (Connection.initial policy) setup.output.opened [] none where
  handed := rfl
  free _ := rfl
  returned _ h := by cases h
  waits h := absurd rfl h
  fresh j _ := ⟨hl.opened_call j, hl.opened_held j⟩
  unmade _ := ⟨hl.opened_accepted, hl.opened_held _⟩
  held j event h := by rw [hl.opened_held j] at h; cases h
  decoded _ h := by cases h
  accepted := .inl hl.opened_accepted
  busy j h := by rw [hl.opened_call j] at h; cases h

/-- A call that has neither returned nor been left unmade is the one of the message that waits. -/
theorem Custody.call_waits (h : Custody setup c o served waiting) {j : ℕ} (hr : setup.output.call o j ≠ .returned)
    (hi : setup.output.call o j ≠ .idle) : j = served.length ∧ ∃ m, waiting = some m := by
  have hge : served.length ≤ j := not_lt.1 fun hlt => hr (h.returned j hlt)
  have hlt : j < (served ++ waiting.toList).length := not_le.1 fun hle => hi (h.fresh j hle).1
  cases waiting with
  | none =>
    rw [Option.toList_none, List.append_nil] at hlt
    omega
  | some m =>
    rw [Option.toList_some, List.length_append, List.length_singleton] at hlt
    exact ⟨by omega, m, rfl⟩

/-- The last message handed on is the one that waits, unless its `write()` has returned. -/
theorem Custody.last_call (h : Custody setup c o served waiting) {m : WireMessage} (hw : waiting = some m) :
    (Connection.handledMessages c.history).length - 1 = served.length := by
  rw [h.handed, hw, Option.toList_some, List.length_append, List.length_singleton]
  omega

/-- The last message handed on waits, unless its `write()` has returned. -/
theorem Custody.unserved (h : Custody setup c o served waiting) {m : WireMessage}
    (hlast : (Connection.handledMessages c.history).getLast? = some m)
    (hcall : setup.output.call o ((Connection.handledMessages c.history).length - 1) ≠ .returned) :
    waiting = some m ∧ (Connection.handledMessages c.history).length - 1 = served.length := by
  have hhanded := h.handed
  cases hw : waiting with
  | none =>
    rw [hw, Option.toList_none, List.append_nil] at hhanded
    have hpos := List.length_pos_of_mem (List.mem_of_getLast? hlast)
    rw [hhanded] at hcall hpos
    exact absurd (h.returned _ (by omega)) hcall
  | some m' =>
    rw [hhanded, hw, Option.toList_some, List.getLast?_concat, Option.some.injEq] at hlast
    exact ⟨by rw [hlast], h.last_call hw⟩

/-- The calls that have returned are those of the messages served. -/
theorem Custody.returned_iff (h : Custody setup c o served waiting) (j : ℕ) :
    setup.output.call o j = .returned ↔ j < served.length := by
  refine ⟨fun hj => not_le.1 fun hle => ?_, h.returned j⟩
  by_cases hw : waiting = none
  · rw [(h.fresh j (by simpa [hw] using hle)).1] at hj
    cases hj
  rcases hle.eq_or_lt with rfl | hlt
  · exact h.waits hw hj
  obtain ⟨m, hm⟩ := Option.ne_none_iff_exists'.1 hw
  rw [(h.fresh j (by simpa [hm] using Nat.succ_le_of_lt hlt)).1] at hj
  cases hj

/-! ### Steps of the collector -/

/-- **A step of the collector** hands on the next message once the `write()` for the last one has returned. -/
theorem Custody.connection (h : Custody setup c o served waiting) {i : Connection.Input}
    (hstep : (Connection.machine (Connection.binanceCollector setup.symbols setup.limits)).step c i = some c')
    (hclose : ∀ e, i = .closeFails e → ∀ exc, c.phase ≠ .closing (some exc))
    (hreturns : i = .handlerReturns →
      setup.output.call o ((Connection.handledMessages c.history).length - 1) = .returned)
    (hbusy : ∀ j, setup.output.call o j = .waiting → handlingPhase c.phase = true → handlingPhase c'.phase = true) :
    ∃ waiting', Custody setup c' o served waiting' := by
  have hbusy' : ∀ j, setup.output.call o j = .waiting → handlingPhase c'.phase = true := fun j hj =>
    hbusy j hj (h.busy j hj)
  cases Connection.passes_of_step rfl hclose hstep with
  | quiet hh hfree =>
    exact ⟨waiting, hh.trans h.handed, fun hf => h.free (hfree hf), h.returned, h.waits, h.fresh, h.unmade, h.held,
      h.decoded, h.accepted, hbusy'⟩
  | hands m hfree hfree' hh =>
    obtain rfl := h.free hfree
    obtain ⟨hidle, hnone⟩ := h.fresh served.length (by simp)
    have haccepted := (h.unmade hidle).1
    refine ⟨some m, ?_, fun hf => (by rw [hfree'] at hf; cases hf), h.returned, fun _ => by rw [hidle]; exact nofun,
      fun j hj => h.fresh j ?_, h.unmade, fun j event hheld => ?_, h.decoded, .inl haccepted, hbusy'⟩
    · rw [hh, h.handed]
      simp
    · simp at hj ⊢
      omega
    · obtain ⟨-, m', hm', -⟩ := h.held j event hheld
      cases hm'
  | served hi hh =>
    have hnone : waiting = none := by
      by_contra hw
      obtain ⟨m, hm⟩ := Option.ne_none_iff_exists'.1 hw
      have hret := hreturns hi
      rw [h.last_call hm] at hret
      exact h.waits hw hret
    exact ⟨waiting, hh.trans h.handed, fun _ => hnone, h.returned, h.waits, h.fresh, h.unmade, h.held, h.decoded,
      h.accepted, hbusy'⟩

/-! ### Steps of the output -/

/-- A step that ends no call with a result and accepts nothing. -/
theorem Custody.quiet (h : Custody setup c o served waiting) (ha : setup.output.accepted o' = setup.output.accepted o)
    (hcalls : ∀ q, EventOutput.Stays (setup.output.call o q) (setup.output.call o' q))
    (hhelds : ∀ q, setup.output.held o' q = setup.output.held o q ∨ setup.output.held o' q = none) :
    Custody setup c o' served waiting := by
  have hnone : ∀ {q}, setup.output.held o q = none → setup.output.held o' q = none := fun {q} hq =>
    (hhelds q).elim (fun heq => heq.trans hq) id
  have hidle : ∀ {q}, setup.output.call o q = .idle → setup.output.call o' q = .idle := fun {q} hq => by
    rcases hcalls q with heq | ⟨hw, -⟩
    · exact heq.trans hq
    · rw [hq] at hw; cases hw
  have hback : ∀ {q} {status : WriteStatus}, status ≠ .raised → setup.output.call o' q = status →
      setup.output.call o q = status := fun {q status} hne hq => by
    rcases hcalls q with heq | ⟨-, hraised⟩
    · exact heq.symm.trans hq
    · exact absurd (hq.symm.trans hraised) hne
  refine ⟨h.handed, h.free, fun j hj => ?_, fun hw hr => h.waits hw (hback nofun hr),
    fun j hj => ⟨hidle (h.fresh j hj).1, hnone (h.fresh j hj).2⟩, fun hi => ?_, fun j event hheld => ?_, h.decoded, ?_,
    fun j hj => h.busy j (hback nofun hj)⟩
  · rcases hcalls j with heq | ⟨hw, -⟩
    · exact heq.trans (h.returned j hj)
    · rw [h.returned j hj] at hw; cases hw
  · obtain ⟨hacc, hheld⟩ := h.unmade (hback nofun hi)
    exact ⟨ha.trans hacc, hnone hheld⟩
  · rcases hhelds j with heq | hno
    · exact h.held j event (heq.symm.trans hheld)
    · rw [hno] at hheld; cases hheld
  · rw [ha]
    exact h.accepted.imp_right fun ⟨hheld, hrest⟩ => ⟨hnone hheld, hrest⟩

/-- `write()` is called for the message that waits. -/
theorem Custody.writes (h : Custody setup c o served waiting) {m : WireMessage} {n : NormalizedMessage}
    (hm : waiting = some m) (hn : setup.normalize m = .ok n) (hidle : setup.output.call o served.length = .idle)
    (hcall : setup.output.call o' served.length = .waiting ∧ setup.output.held o' served.length = some n.event ∨
      setup.output.call o' served.length = .raised ∧ setup.output.held o' served.length = none)
    (ha : setup.output.accepted o' = setup.output.accepted o)
    (hothers : EventOutput.Others setup.output o o' served.length) (hphase : handlingPhase c.phase = true) :
    Custody setup c o' served waiting := by
  obtain ⟨hacc, -⟩ := h.unmade hidle
  have hmade : setup.output.call o' served.length ≠ .idle ∧ setup.output.call o' served.length ≠ .returned := by
    rcases hcall with ⟨hw, -⟩ | ⟨hw, -⟩ <;> rw [hw] <;> exact ⟨nofun, nofun⟩
  refine ⟨h.handed, h.free, fun j hj => ?_, fun _ => hmade.2, fun j hj => ?_, fun hi => absurd hi hmade.1,
    fun j event hheld => ?_, h.decoded, .inl (ha.trans hacc), fun _ _ => hphase⟩
  · rw [(hothers j (by omega)).1]
    exact h.returned j hj
  · have hne : j ≠ served.length := fun heq => by simp [heq, hm] at hj
    rw [(hothers j hne).1, (hothers j hne).2]
    exact h.fresh j hj
  · by_cases hj : j = served.length
    · subst hj
      rcases hcall with ⟨-, hsome⟩ | ⟨-, hno⟩
      · rw [hsome] at hheld
        exact ⟨rfl, m, hm, n, hn, (Option.some.inj hheld).symm⟩
      · rw [hno] at hheld; cases hheld
    · rw [(hothers j hj).2] at hheld
      exact h.held j event hheld

/-- The event of the message that waits is accepted. -/
theorem Custody.accepts (h : Custody setup c o served waiting) {k : ℕ} {event : Event}
    (hheld : setup.output.held o k = some event) (hnone : setup.output.held o' k = none)
    (hcall : setup.output.call o' k = setup.output.call o k)
    (ha : setup.output.accepted o' = setup.output.accepted o ++ [(k, event)])
    (hothers : EventOutput.Others setup.output o o' k) : Custody setup c o' served waiting := by
  obtain ⟨rfl, m, hm, n, hn, rfl⟩ := h.held k event hheld
  have hcalls : ∀ q, setup.output.call o' q = setup.output.call o q := fun q => by
    by_cases hq : q = served.length
    · rw [hq, hcall]
    · exact (hothers q hq).1
  have hacc : setup.output.accepted o = due setup served := by
    rcases h.accepted with hacc | ⟨hno, -⟩
    · exact hacc
    · rw [hno] at hheld; cases hheld
  refine ⟨h.handed, h.free, fun j hj => (hcalls j).trans (h.returned j hj), fun hw => by rw [hcalls]; exact h.waits hw,
    fun j hj => ?_, fun hi => ?_, fun j event hheld' => ?_, h.decoded, .inr ⟨hnone, m, hm, n, hn, by rw [ha, hacc]⟩,
    fun j hj => h.busy j ((hcalls j).symm.trans hj)⟩
  · have hne : j ≠ served.length := fun heq => by
      rw [heq] at hj
      rw [(h.fresh _ hj).2] at hheld
      cases hheld
    exact ⟨(hcalls j).trans (h.fresh j hj).1, by rw [(hothers j hne).2]; exact (h.fresh j hj).2⟩
  · rw [hcalls] at hi
    rw [(h.unmade hi).2] at hheld
    cases hheld
  · by_cases hj : j = served.length
    · rw [hj, hnone] at hheld'; cases hheld'
    · rw [(hothers j hj).2] at hheld'
      exact h.held j event hheld'

/-- The `write()` for the message that waits returns: the message is served. -/
theorem Custody.returns (h : Custody setup c o served waiting) {k : ℕ} (hcall : setup.output.call o k = .waiting)
    (hret : setup.output.call o' k = .returned) (hheld : setup.output.held o' k = setup.output.held o k)
    (hmem : k ∈ (setup.output.accepted o).map (·.1)) (ha : setup.output.accepted o' = setup.output.accepted o)
    (hothers : EventOutput.Others setup.output o o' k) : ∃ served', Custody setup c o' served' none := by
  obtain ⟨rfl, m, rfl⟩ := h.call_waits (by rw [hcall]; exact nofun) (by rw [hcall]; exact nofun)
  have hlast : ∃ n, setup.normalize m = .ok n ∧ setup.output.held o served.length = none ∧
      setup.output.accepted o = due setup served ++ [(served.length, n.event)] := by
    rcases h.accepted with hacc | ⟨hno, m', hm', n, hn, hacc⟩
    · rw [hacc] at hmem
      exact absurd (lt_of_mem_due hmem) (Nat.lt_irrefl _)
    · cases hm'
      exact ⟨n, hn, hno, hacc⟩
  obtain ⟨n, hn, hno, hacc⟩ := hlast
  have hdue : setup.output.accepted o' = due setup (served ++ [m]) := by
    rw [ha, hacc, due_snoc, document_ok hn]
    rfl
  have hlen : (served ++ [m]).length = served.length + 1 := by simp
  have hfresh : ∀ j, (served ++ [m]).length ≤ j →
      setup.output.call o' j = .idle ∧ setup.output.held o' j = none := fun j hj => by
    have hne : j ≠ served.length := by omega
    rw [(hothers j hne).1, (hothers j hne).2]
    exact h.fresh j hj
  refine ⟨served ++ [m], by rw [h.handed]; simp, fun _ => rfl, fun j hj => ?_, fun hno => absurd rfl hno,
    fun j hj => hfresh j (by simpa using hj), fun _ => ⟨hdue, (hfresh _ (Nat.le_refl _)).2⟩, fun j event hsome => ?_,
    fun m' hm' => ?_, .inl hdue, fun j hj => ?_⟩
  · by_cases heq : j = served.length
    · subst heq; exact hret
    · rw [(hothers j heq).1]
      exact h.returned j (by omega)
  · by_cases heq : j = served.length
    · subst heq
      rw [hheld, hno] at hsome
      cases hsome
    · rw [(hothers j heq).2] at hsome
      exact absurd (h.held j event hsome).1 heq
  · rcases List.mem_append.1 hm' with hm' | hm'
    · exact h.decoded m' hm'
    · rw [List.mem_singleton.1 hm']
      exact ⟨n, hn⟩
  · by_cases heq : j = served.length
    · subst heq; rw [hret] at hj; cases hj
    · rw [(hothers j heq).1] at hj
      exact h.busy j hj

/-- **A step of the output** accepts the event of the message that waits, ends its call, or leaves custody alone. A
`write()` is called for that message only. -/
theorem Custody.output (h : Custody setup c o served waiting) {i : ι}
    (hwrite : ∀ k event, setup.output.request i = some (.write k event) → setup.output.call o k = .idle →
      handlingPhase c.phase = true ∧ k = served.length ∧ ∃ m n, waiting = some m ∧ setup.normalize m = .ok n ∧
        event = n.event)
    (heffect : EventOutput.Effect setup.output o i o') : ∃ served' waiting', Custody setup c o' served' waiting' := by
  cases heffect with
  | quiet ha hcalls hhelds => exact ⟨served, waiting, h.quiet ha hcalls hhelds⟩
  | writes hi hidle hcall ha hothers =>
    obtain ⟨hphase, rfl, m, n, hm, hn, rfl⟩ := hwrite _ _ hi hidle
    exact ⟨served, waiting, h.writes hm hn hidle hcall ha hothers hphase⟩
  | accepts hheld hnone hcall ha hothers => exact ⟨served, waiting, h.accepts hheld hnone hcall ha hothers⟩
  | returns hcall hret hheld hmem ha hothers =>
    obtain ⟨served', h'⟩ := h.returns hcall hret hheld hmem ha hothers
    exact ⟨served', none, h'⟩

end BinanceCollector.LegacyRuntime
