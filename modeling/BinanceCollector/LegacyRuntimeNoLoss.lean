import BinanceCollector.LegacyRuntime
import BinanceCollector.Outputs.MongoEventOutput
import BinanceCollector.Outputs.StdoutEventOutput

/-!
# What the legacy profile delivers

When `output.close()` is called, the collector has ended and no `write()` waits; a runner that returns has waited for
`close()` and has not been told of a failure of the output.

- `Accounted`, `step_accounted`: custody of the messages in every state, and in which order the tasks end.
- **`mongo_delivered`**: what the collection holds, in every state and after a run that returns.
- **`stdout_delivered`**: what has been written to the stream.
-/

namespace BinanceCollector.LegacyRuntime

open Steps Text Json BinanceCollector.Runtime

variable {ο ι : Type} {setup : Setup ο ι} {s s' : State ο} {o o' : ο} {Inv Closed : ο → Prop}
  {i : Runtime.Input Connection.Input Connection.Exc}
  {t : Runtime.State (Connection.State WireMessage) Connection.Exc}

/-! ## What has been stored -/

theorem stored_of_served {served : List WireMessage} {accepted stored : List (ℕ × Event)}
    (hdecoded : ∀ m ∈ served, ∃ n, setup.normalize m = .ok n) (hserved : due setup served <+: accepted)
    (hstored : stored <+: accepted) (hall : ∀ j < served.length, j ∈ stored.map (·.1)) :
    due setup served <+: stored := by
  rcases List.prefix_or_prefix_of_prefix hserved hstored with h | h
  · exact h
  -- the numbers of the stored ones are the first ones
  have hkeys := due_keys hdecoded
  have hlen : (due setup served).length = served.length := by
    simpa using congrArg List.length hkeys
  have htake : stored.map (·.1) = List.range (min stored.length served.length) := by
    have hmap := h.map (·.1)
    rw [hkeys, List.prefix_iff_eq_take, List.length_map, List.take_range] at hmap
    exact hmap
  have hge : served.length ≤ stored.length := by
    by_contra hlt
    have hmem := hall stored.length (by omega)
    rw [htake, List.mem_range] at hmem
    omega
  rw [h.eq_of_length (Nat.le_antisymm h.length_le (by omega))]

/-- All messages handed on have been stored, unless the `write()` for the last one has not returned. -/
theorem Custody.stored {c : Connection.State WireMessage} {served : List WireMessage} {waiting : Option WireMessage}
    (h : Custody setup c o served waiting) (hstored : setup.output.stored o <+: setup.output.accepted o)
    (hall : ∀ k, setup.output.call o k = .returned → k ∈ (setup.output.stored o).map (·.1)) :
    setup.output.stored o = due setup (Connection.handledMessages c.history) ∨
      setup.output.call o ((Connection.handledMessages c.history).length - 1) ≠ .returned ∧
      setup.output.stored o = due setup (Connection.handledMessages c.history).dropLast := by
  have hserved : due setup served <+: setup.output.accepted o := by
    rcases h.accepted with ha | ⟨-, m, -, n, -, ha⟩
    · rw [ha]
    · rw [ha]; exact List.prefix_append _ _
  have hbegins := stored_of_served h.decoded hserved hstored fun j hj => hall j (h.returned j hj)
  have hserves : setup.output.stored o = due setup served →
      setup.output.stored o = due setup (Connection.handledMessages c.history) ∨
      setup.output.call o ((Connection.handledMessages c.history).length - 1) ≠ .returned ∧
      setup.output.stored o = due setup (Connection.handledMessages c.history).dropLast := fun heq => by
    cases hw : waiting with
    | none => exact .inl (by rw [h.handed, hw, Option.toList_none, List.append_nil, heq])
    | some m =>
      refine .inr ⟨?_, ?_⟩
      · rw [h.last_call hw]
        exact h.waits (by rw [hw]; exact nofun)
      · rw [h.handed, hw, Option.toList_some, List.dropLast_concat, heq]
  rcases h.accepted with ha | ⟨-, m, hm, n, hn, ha⟩
  · rw [ha] at hstored
    exact hserves (hstored.eq_of_length (Nat.le_antisymm hstored.length_le hbegins.length_le))
  · rw [ha] at hstored
    rcases List.prefix_concat_iff.1 hstored with heq | hpre
    · refine .inl ?_
      rw [heq, h.handed, Option.mem_def.1 hm, Option.toList_some, due_snoc, document_ok hn]
      rfl
    · exact hserves (hpre.eq_of_length (Nat.le_antisymm hpre.length_le hbegins.length_le))

/-- The accepted events are due, in order, and at most one message is behind. -/
theorem Custody.accepted_due {c : Connection.State WireMessage} {served : List WireMessage}
    {waiting : Option WireMessage} (h : Custody setup c o served waiting) :
    setup.output.accepted o <+: due setup (Connection.handledMessages c.history) ∧
      (Connection.handledMessages c.history).length ≤ (setup.output.accepted o).length + 1 := by
  have hlen : (due setup served).length = served.length := by
    simpa using congrArg List.length (due_keys h.decoded)
  have hcount : (Connection.handledMessages c.history).length ≤ served.length + 1 := by
    rw [h.handed]
    cases waiting <;> simp
  rcases h.accepted with ha | ⟨-, m, hm, n, hn, ha⟩
  · refine ⟨?_, by rw [ha, hlen]; exact hcount⟩
    rw [ha, h.handed]
    cases waiting with
    | none => simp
    | some m => rw [Option.toList_some, due_snoc]; exact List.prefix_append _ _
  · refine ⟨?_, ?_⟩
    · rw [ha, h.handed, Option.mem_def.1 hm, Option.toList_some, due_snoc, document_ok hn]
      exact List.prefix_refl _
    · rw [ha, List.length_append, hlen]
      simp only [List.length_singleton]
      omega

/-! ## Steps -/

/-- A delivery is over only when the task of `_handle_message` is. -/
theorem delivery_settled {p : Connection.Profile WireMessage} {c c' : Connection.State WireMessage}
    {j : Connection.Input} (hw : p.watchesStop = true) (hstep : (Connection.machine p).step c j = some c')
    (h : handlingPhase c.phase = true) : handlingPhase c'.phase = true ∨
      ∃ now payload result, j = .settled now ∧ c.phase = .settlingDelivery payload result := by
  cases Connection.effect_of_step hstep with
  | setStop => exact .inl h
  | stopHandling => exact .inl rfl
  | deliverySettled hphase => exact .inr ⟨_, _, _, rfl, hphase⟩
  | handlerReturns | handlerRaises =>
    rw [Connection.State.handlerEnds, if_pos hw]
    exact .inl rfl
  | cancel hc =>
    refine .inl ?_
    simp only [Connection.State.cancel, show (c.act .cancelled).phase = c.phase from rfl] at hc
    cases hphase : c.phase with
    | handling payload =>
      rw [hphase] at hc
      obtain rfl := Option.some.inj hc
      rw [Connection.State.handlerEnds, if_pos hw]
      rfl
    | settlingDelivery payload result =>
      rw [hphase] at hc
      obtain rfl := Option.some.inj hc
      rfl
    | _ => rw [hphase] at h; cases h
  | start hphase | connected hphase | connectFails hphase | sent hphase | sendFails hphase | receives hphase
  | recvFails hphase | ackTimeout hphase | stopReceiving hphase | stopWaiting hphase | settled hphase | closed hphase
  | closeFails hphase | elapsed hphase => rw [hphase] at h; cases h

/-- What a step of the runner asks of the output. -/
inductive Asks (setup : Setup ο ι) (s : State ο) (i : Runtime.Input Connection.Input Connection.Exc)
    (t : Runtime.State (Connection.State WireMessage) Connection.Exc) (o' : ο) : Prop
  | rests : o' = s.output → (.closes ∈ t.calls → .closes ∈ s.runner.calls) → Asks setup s i t o'
  | writes {m : WireMessage} {n : NormalizedMessage} : i = .write → t.collector = s.runner.collector →
      handlingPhase (s.connection setup).phase = true → (s.handed setup).getLast? = some m →
      setup.normalize m = .ok n → (.closes ∈ t.calls → .closes ∈ s.runner.calls) →
      setup.output.machine.step s.output (setup.output.input (.write (s.lastCall setup) n.event)) = some o' →
      Asks setup s i t o'
  | reports : t.failure = .done (.error .outputFailed) → (.closes ∈ t.calls → .closes ∈ s.runner.calls) →
      setup.output.machine.step s.output (setup.output.input .reportFailure) = some o' → Asks setup s i t o'
  | closes : .closes ∈ t.calls → .closes ∉ s.runner.calls →
      setup.output.machine.step s.output (setup.output.input .close) = some o' → Asks setup s i t o'
  | cancels {q : Request} : q = .cancelClose ∨ q = .cancelWrite (s.lastCall setup) →
      (.closes ∈ t.calls → .closes ∈ s.runner.calls) →
      setup.output.machine.step s.output (setup.output.input q) = some o' → Asks setup s i t o'

theorem asks_of_step (ht : Runtime.step setup.runner s.runner i = some t) (ho : s.outputAfter setup i t = some o') :
    Asks setup s i t o' := by
  have hrest : (if OutputCall.closes ∈ t.calls ∧ OutputCall.closes ∉ s.runner.calls then
        setup.output.machine.step s.output (setup.output.input .close)
      else if i = .cancelMain ∧ s.closing = true then
        setup.output.machine.step s.output (setup.output.input .cancelClose)
      else if abandons (s.connection setup) (t.current setup.runner) then
        some ((setup.output.machine.step s.output
          (setup.output.input (.cancelWrite (s.lastCall setup)))).getD s.output)
      else some s.output) = some o' → Asks setup s i t o' := fun h => by
    split at h
    · rename_i hcloses
      exact .closes hcloses.1 hcloses.2 h
    rename_i hcloses
    have hold : .closes ∈ t.calls → .closes ∈ s.runner.calls := fun hmem => by
      by_contra hno
      exact hcloses ⟨hmem, hno⟩
    split at h
    · exact .cancels (.inl rfl) hold h
    split at h
    · cases hstep : setup.output.machine.step s.output (setup.output.input (.cancelWrite (s.lastCall setup))) with
      | none =>
        rw [hstep, Option.getD_none, Option.some.injEq] at h
        exact .rests h.symm hold
      | some o =>
        rw [hstep, Option.getD_some, Option.some.injEq] at h
        exact .cancels (.inr rfl) hold (h ▸ hstep)
    · exact .rests (Option.some.inj h).symm hold
  cases i with
  | write =>
    simp only [Runtime.step] at ht
    split at ht
    · simp only [Option.ite_none_right_eq_some, Option.some.injEq] at ht
      obtain ⟨-, rfl⟩ := ht
      simp only [State.outputAfter, State.handle] at ho
      split at ho
      · rename_i payload m hphase hlast
        split at ho
        · rename_i n hn
          exact .writes rfl rfl (by rw [hphase]; rfl) hlast hn (fun hmem => by simpa using hmem) ho
        · cases ho
      · cases ho
    · cases ht
  | failure =>
    simp only [Runtime.step] at ht
    split at ht <;> cases ht
    exact .reports rfl id ho
  | setStop | validated ok | opened ok | main | cancelMain | tuiEnds result | startMonitor | monitor | cancelMonitor
  | cancelFailure | collector j | closed e => exact hrest ho

/-- What holds in every state. -/
structure Accounted (setup : Setup ο ι) (Inv Closed : ο → Prop) (s : State ο) : Prop where
  runner : s.runner.Inv setup.runner
  succeeds : Succeeds setup.runner s.runner
  output : Inv s.output
  custody : ∃ served waiting, Custody setup (s.connection setup) s.output served waiting
  reported : setup.output.reported s.output = true → s.runner.failure = .done (.error .outputFailed)
  closed : .closes ∈ s.runner.calls → Closed s.output
  done : s.runner.main = .done (.ok ()) → setup.output.closing s.output = .returned ∧ Closed s.output

theorem begun_accounted (hl : setup.output.Lawful Inv Closed) (stop : Bool) :
    Accounted setup Inv Closed (begun setup stop) := by
  have hbegun : Runtime.begun setup.runner stop = (Runtime.State.prepare setup.runner
      { main := .validating, stop := stop } : Runtime.State (Connection.State WireMessage) Connection.Exc) := rfl
  refine ⟨begun_inv _ _, begun_succeeds _ _, hl.opened_inv, ⟨[], none, opened_custody hl setup.policy⟩, fun h => ?_,
    fun h => ?_, fun h => ?_⟩
  · rw [show (begun setup stop).output = setup.output.opened from rfl, hl.opened_reported] at h
    cases h
  · rw [show (begun setup stop).runner = Runtime.begun setup.runner stop from rfl, hbegun] at h
    simp [Runtime.State.prepare, Setup.runner, runCollector] at h
  · rw [show (begun setup stop).runner = Runtime.begun setup.runner stop from rfl, hbegun] at h
    cases h

/-- A step of the output on its own. -/
theorem step_output (hl : setup.output.Lawful Inv Closed) (h : Accounted setup Inv Closed s) {i : ι}
    (hown : setup.output.request i = none) (hstep : setup.output.machine.step s.output i = some o') :
    Accounted setup Inv Closed { s with output := o' } := by
  obtain ⟨served, waiting, hc⟩ := h.custody
  refine ⟨h.runner, h.succeeds, hl.step_inv h.output hstep, ?_, fun hr => ?_, fun hmem => ?_, fun hm => ?_⟩
  · refine hc.output (fun k event hi => ?_) (hl.effect h.output hstep)
    rw [hown] at hi
    cases hi
  · rcases hl.reports h.output hstep hr with hr | hi
    · exact h.reported hr
    · rw [hown] at hi; cases hi
  · exact hl.step_closed h.output (h.closed hmem) hstep
  · obtain ⟨hclosing, hclosed⟩ := h.done hm
    exact ⟨hl.closing_stays h.output hstep hclosing, hl.step_closed h.output hclosed hstep⟩

/-- **Custody is kept by the collector's part of a step.** -/
theorem connection_custody (h : Accounted setup Inv Closed s) (hassumed : Assumed setup s (.runner i))
    (hadmits : s.admits setup i = true) (hadv : Advances setup.runner i (s.connection setup) (t.current setup.runner)) :
    ∃ served waiting, Custody setup (t.current setup.runner) s.output served waiting := by
  obtain ⟨served, waiting, hc⟩ := h.custody
  rcases hadv with heq | ⟨j, hj, hstep⟩
  · exact ⟨served, waiting, heq ▸ hc⟩
  -- an input that waits for somebody else comes from the event loop
  have hcollector : j ≠ .setStop → j ≠ .cancel → i = .collector j := fun hstop hcancel =>
    (hj.resolve_left hstop).resolve_left hcancel
  obtain ⟨waiting', hc'⟩ := hc.connection hstep
    (fun e he exc hphase => by
      obtain rfl := hcollector (by rw [he]; exact nofun) (by rw [he]; exact nofun)
      subst he
      simp [Assumed, State.closesQuietly, hphase] at hassumed)
    (fun he => by
      obtain rfl := hcollector (by rw [he]; exact nofun) (by rw [he]; exact nofun)
      subst he
      exact of_decide_eq_true hadmits)
    (fun k hk hphase => by
      rcases delivery_settled rfl hstep hphase with hphase | ⟨now, payload, result, rfl, hsettling⟩
      · exact hphase
      · obtain rfl := hcollector nofun nofun
        simp only [State.admits, hsettling] at hadmits
        obtain ⟨rfl, m, hm⟩ := hc.call_waits (by rw [hk]; exact nofun) (by rw [hk]; exact nofun)
        refine absurd hk ?_
        rw [← hc.last_call hm]
        exact of_decide_eq_true hadmits)
  exact ⟨served, waiting', hc'⟩

/-- When `close()` is called, the collector has ended, and no `write()` waits. -/
theorem not_waiting {served : List WireMessage} {waiting : Option WireMessage} (ht : t.Inv setup.runner)
    {result : Result Connection.Exc} (hm : t.main = .closing result)
    (hc : Custody setup (t.current setup.runner) o served waiting) (k : ℕ) : setup.output.call o k ≠ .waiting := by
  intro hk
  have hst := ht.stage
  rw [hm] at hst
  have hended := hst.1.collector
  have hphase := hc.busy k hk
  unfold Runtime.State.collectorDone at hended
  unfold Runtime.State.current at hphase
  cases hcollector : t.collector with
  | none =>
    rw [hcollector] at hphase
    cases hphase
  | some c =>
    rw [hcollector] at hphase hended
    obtain ⟨r, hr⟩ := Option.isSome_iff_exists.1 hended
    rw [Option.getD_some, handlingPhase_ended (ended_of_binanceResult hr)] at hphase
    cases hphase

/-- The runner leaves after `close()`. -/
theorem closes_of_closed (hs : s.runner.Inv setup.runner)
    (ht : Runtime.step setup.runner s.runner (.closed none) = some t) : .closes ∈ s.runner.calls := by
  have hmem : ∀ result, s.runner.main = .closing result → .closes ∈ s.runner.calls := fun result hm => by
    have hst := hs.stage
    rw [hm] at hst
    exact hst.2.2.2
  simp only [Runtime.step] at ht
  split at ht <;> first | exact hmem _ ‹_› | cases ht

/-- A step of the runner. -/
theorem step_runner (hl : setup.output.Lawful Inv Closed) (h : Accounted setup Inv Closed s)
    (hassumed : Assumed setup s (.runner i)) (hadmits : s.admits setup i = true)
    (ht : Runtime.step setup.runner s.runner i = some t) (ho : s.outputAfter setup i t = some o') :
    Accounted setup Inv Closed ⟨t, o'⟩ := by
  have hinv : t.Inv setup.runner := step_inv h.runner ht
  have hturn := turn_of_step h.runner h.succeeds.awaiting ht
  obtain ⟨served, waiting, hc⟩ := connection_custody h hassumed hadmits hturn.current
  have hreported : setup.output.reported s.output = true → t.failure = .done (.error .outputFailed) := fun hr =>
    hturn.failure _ (h.reported hr)
  have hdone : t.main = .done (.ok ()) → setup.output.closing s.output = .returned ∧ Closed s.output := fun hm => by
    rcases hturn.done hm with hm | rfl | hnone
    · exact h.done hm
    · exact ⟨of_decide_eq_true hadmits, h.closed (closes_of_closed h.runner ht)⟩
    · cases hnone
  -- what a step of the output for a request keeps
  have hkeep : ∀ q, setup.output.machine.step s.output (setup.output.input q) = some o' →
      (q = .reportFailure → t.failure = .done (.error .outputFailed)) →
      (∃ served waiting, Custody setup (t.current setup.runner) o' served waiting) →
      (.closes ∈ t.calls → Closed o') → Accounted setup Inv Closed ⟨t, o'⟩ := fun q hstep hfails hcust hclosed => by
    refine ⟨hinv, h.succeeds.turn hturn, hl.step_inv h.output hstep, hcust, fun hr => ?_, hclosed, fun hm => ?_⟩
    · rcases hl.reports h.output hstep hr with hr | hq
      · exact hreported hr
      · rw [hl.request_input] at hq
        exact hfails (Option.some.inj hq)
    · obtain ⟨hclosing, hclosed⟩ := hdone hm
      exact ⟨hl.closing_stays h.output hstep hclosing, hl.step_closed h.output hclosed hstep⟩
  have hquiet : ∀ q, (∀ k event, q ≠ .write k event) →
      setup.output.machine.step s.output (setup.output.input q) = some o' →
      ∃ served waiting, Custody setup (t.current setup.runner) o' served waiting := fun q hq hstep =>
    hc.output (fun k event hi => absurd (Option.some.inj ((hl.request_input q).symm.trans hi)) (hq k event))
      (hl.effect h.output hstep)
  cases asks_of_step ht ho with
  | rests heq hcloses =>
    subst heq
    exact ⟨hinv, h.succeeds.turn hturn, h.output, ⟨served, waiting, hc⟩, hreported, fun hmem => h.closed (hcloses hmem),
      hdone⟩
  | @writes m n _ hcollector hphase hlast hn hcloses hstep =>
    have hsame : t.current setup.runner = s.connection setup := by
      rw [Runtime.State.current, hcollector, State.connection, Runtime.State.current]
    obtain ⟨served, waiting, hc⟩ := h.custody
    refine hkeep _ hstep (by simp) ?_ fun hmem => hl.step_closed h.output (h.closed (hcloses hmem)) hstep
    rw [hsame]
    refine hc.output (fun k event hi hidle => ?_) (hl.effect h.output hstep)
    rw [hl.request_input, Option.some.injEq, Request.write.injEq] at hi
    obtain ⟨rfl, rfl⟩ := hi
    obtain ⟨hw, hcall⟩ := hc.unserved hlast (show setup.output.call s.output (s.lastCall setup) ≠ .returned by
      simp [hidle])
    exact ⟨hphase, hcall, m, n, hw, hn, rfl⟩
  | reports hfailed hcloses hstep =>
    exact hkeep _ hstep (fun _ => hfailed) (hquiet .reportFailure (by simp) hstep) fun hmem =>
      hl.step_closed h.output (h.closed (hcloses hmem)) hstep
  | closes hmem hno hstep =>
    obtain ⟨result, hm⟩ := (hturn.closes hmem).resolve_left hno
    exact hkeep _ hstep (by simp) (hquiet .close (by simp) hstep) fun _ => hl.close h.output (not_waiting hinv hm hc) hstep
  | @cancels q hq hcloses hstep =>
    have hnot : q ≠ .reportFailure ∧ ∀ k event, q ≠ .write k event := by
      rcases hq with rfl | rfl <;> simp
    exact hkeep _ hstep (fun hr => absurd hr hnot.1) (hquiet _ hnot.2 hstep) fun hmem =>
      hl.step_closed h.output (h.closed (hcloses hmem)) hstep

/-- **A step keeps the account.** -/
theorem step_accounted (hl : setup.output.Lawful Inv Closed) {i : Input ι} (hassumed : Assumed setup s i)
    (h : Accounted setup Inv Closed s) (hstep : (machine setup).step s i = some s') : Accounted setup Inv Closed s' := by
  change step setup s i = some s' at hstep
  cases i with
  | runner i =>
    simp only [step, Option.ite_none_right_eq_some, Option.bind_eq_some_iff, Option.map_eq_some_iff] at hstep
    obtain ⟨hadmits, t, ht, o', ho, rfl⟩ := hstep
    exact step_runner hl h hassumed hadmits ht ho
  | output i =>
    simp only [step, Option.ite_none_right_eq_some, Option.map_eq_some_iff] at hstep
    obtain ⟨⟨-, hown⟩, o', ho, rfl⟩ := hstep
    exact step_output hl h hown ho

/-- The runs of the system. -/
def Run (setup : Setup ο ι) (stop : Bool) (is : List (Input ι)) (s : State ο) : Prop :=
  (machine setup).Path (Assumed setup) (begun setup stop) is s

theorem Run.accounted {stop : Bool} {is : List (Input ι)} (h : Run setup stop is s)
    (hl : setup.output.Lawful Inv Closed) : Accounted setup Inv Closed s :=
  Machine.Path.invariant (fun _ _ _ hassumed hs hstep => step_accounted hl hassumed hs hstep) h (begun_accounted hl stop)

/-! ## What has been delivered -/

section

variable {stop : Bool} {is : List (Input ι)} (h : Run setup stop is s) (hl : setup.output.Lawful Inv Closed)
include h hl

/-- What has been stored is due, in order. -/
theorem Run.stored_due : setup.output.stored s.output <+: due setup (s.handed setup) := by
  have hs := h.accounted hl
  obtain ⟨served, waiting, hc⟩ := hs.custody
  exact (hl.stored hs.output).trans hc.accepted_due.1

/-- A runner that returns has delivered every message, unless the `write()` for the last one has not returned. -/
theorem Run.returned (hdone : s.runner.main = .done (.ok ())) :
    setup.output.stored s.output = due setup (s.handed setup) ∨
      setup.output.call s.output (s.lastCall setup) ≠ .returned ∧
      setup.output.stored s.output = due setup (s.handed setup).dropLast := by
  have hs := h.accounted hl
  obtain ⟨served, waiting, hc⟩ := hs.custody
  have hreported : setup.output.reported s.output = false := by
    refine Bool.eq_false_iff.2 fun hr => hs.succeeds.unfailed ?_ (hs.reported hr)
    rw [hs.succeeds.main (by rw [hdone]; rfl)]
    trivial
  obtain ⟨hclosing, hclosed⟩ := hs.done hdone
  exact hc.stored (hl.stored hs.output) (hl.drained hs.output hclosed hclosing hreported)

end

/-! ## The two outputs -/

/-- The legacy profile with `MongoBatchOutput`. -/
def mongoSetup (symbols : List Str) (limits : Limits) (policy : ReconnectPolicy) (mode : Mode) (managesSignals : Bool)
    (cfg : Mongo.Settings) : Setup (Mongo.Output ℕ Event) (Mongo.Output.Input ℕ Event) :=
  ⟨symbols, limits, policy, mode, managesSignals, Mongo.Output.eventOutput cfg⟩

/-- **What the collection holds.** In every state the confirmed documents are the events of the first messages handed
on, each once and in order, and what they lack fits into the queue and a batch, apart from one message. When the runner
returns, only the event of the last message may be missing, and then its `write()` has not returned. -/
theorem mongo_delivered {symbols : List Str} {limits : Limits} {policy : ReconnectPolicy} {mode : Mode}
    {managesSignals : Bool} {cfg : Mongo.Settings} {stop : Bool} {is : List (Input (Mongo.Output.Input ℕ Event))}
    {s : State (Mongo.Output ℕ Event)} (h : Run (mongoSetup symbols limits policy mode managesSignals cfg) stop is s) :
    let setup := mongoSetup symbols limits policy mode managesSignals cfg
    s.output.confirmed.map Mongo.Output.entry <+: due setup (s.handed setup) ∧
      (s.handed setup).length ≤ s.output.confirmed.length + cfg.batchMaxsize + cfg.queueMaxsize + 1 ∧
      (s.runner.main = .done (.ok ()) →
        s.output.confirmed.map Mongo.Output.entry = due setup (s.handed setup) ∨
          s.output.calls (s.lastCall setup) ≠ .returned ∧
          s.output.confirmed.map Mongo.Output.entry = due setup (s.handed setup).dropLast) := by
  intro setup
  have hl := Mongo.Output.eventOutput_lawful cfg
  have hs : Accounted setup _ _ s := h.accounted hl
  refine ⟨h.stored_due hl, ?_, fun hdone => (h.returned hl hdone).imp_right fun ⟨hcall, hstored⟩ =>
    ⟨fun hr => hcall (Mongo.Output.status_returned.2 hr), hstored⟩⟩
  obtain ⟨served, waiting, hc⟩ := hs.custody
  have hbehind : (s.handed setup).length ≤ (s.output.accepted.map Mongo.Output.entry).length + 1 := hc.accepted_due.2
  have hbounded := hs.output.bounded
  rw [List.length_map] at hbehind
  omega

/-- `BTCUSDT`, in batches of two documents. -/
def btcusdtMongo : Setup (Mongo.Output ℕ Event) (Mongo.Output.Input ℕ Event) :=
  mongoSetup [str "BTCUSDT"] ⟨1000, 4300⟩ defaultPolicy .json true ⟨2, 2, by decide, by decide, by decide⟩

/-- A message is stored; the next one is given up for a stop request before its put task has run. -/
def givenUp : List (Input (Mongo.Output.Input ℕ Event)) :=
  [.runner (.opened true), .runner (.collector .start), .runner (.collector .connected), .runner (.collector .sent),
    .runner (.collector (.receives (.text (str "x")))), .runner (.collector (.settled 0)), .runner .write,
    .output (.putTask 0), .output (.resumeWrite 0), .output (.resumeWrite 0), .runner (.collector .handlerReturns),
    .runner (.collector (.settled 1)), .runner (.collector (.receives (.text (str "y")))),
    .runner (.collector (.settled 2)), .runner .write, .runner .setStop, .runner (.collector .stopSeen),
    .output (.resumeWrite 1), .runner (.collector (.settled 3)), .runner (.collector .closed), .runner .monitor,
    .runner .cancelFailure, .runner .monitor, .output .worker, .output (.insertDone true), .output .workerDone,
    .output (.clientClosed true), .runner (.closed none)]

theorem mongo_delivered_givenUp : ∃ s, Run btcusdtMongo false givenUp s ∧ (s.handed btcusdtMongo).length = 2 ∧
    s.output.calls (s.lastCall btcusdtMongo) ≠ .returned ∧
    s.output.confirmed.map Mongo.Output.entry = due btcusdtMongo (s.handed btcusdtMongo).dropLast := by
  obtain ⟨s, hs, hp⟩ := Machine.exists_path_of_check (M := machine btcusdtMongo) (P := Assumed btcusdtMongo)
    (p := fun s => decide (s.runner.main = .done (.ok ()) ∧ (s.handed btcusdtMongo).length = 2 ∧
      (due btcusdtMongo (s.handed btcusdtMongo)).length = 2 ∧ s.output.confirmed.length = 1))
    (begun btcusdtMongo false) givenUp (by decide +kernel)
  obtain ⟨hdone, hhanded, hdue, hconfirmed⟩ := of_decide_eq_true hp
  refine ⟨s, hs, hhanded, ((mongo_delivered hs).2.2 hdone).resolve_left fun heq => ?_⟩
  -- only one of two documents has been stored
  have hlen := congrArg List.length heq
  rw [List.length_map, hconfirmed] at hlen
  exact absurd (hlen.trans hdue) (by decide)

/-- The legacy profile with `StdoutOutput`. -/
def stdoutSetup (symbols : List Str) (limits : Limits) (policy : ReconnectPolicy) (mode : Mode) (managesSignals : Bool)
    (cfg : StdoutOutput.Settings) : Setup StdoutOutput.State StdoutOutput.Input :=
  ⟨symbols, limits, policy, mode, managesSignals, StdoutOutput.eventOutput cfg⟩

/-- An event that is due is normalised again to itself from its line. -/
theorem due_line {messages : List WireMessage} {entry : ℕ × Event} (h : entry ∈ due setup messages)
    {repr : Str → Option Str} {w : Limits} {line : Str}
    (hline : dumps (stdoutStyle repr) w (.object entry.2) = .ok line) :
    code '\n' ∉ line ∧ ∀ r : Limits, w.depth ≤ r.depth → w.digits ≤ r.digits →
      normalizeMessage r (.text line) = .ok ⟨entry.2, none⟩ := by
  obtain ⟨⟨m, j⟩, -, hd⟩ := List.mem_filterMap.1 h
  unfold document at hd
  split at hd <;> cases hd
  rename_i n hn
  have hrecoded : Recoded repr { setup.limits with depth := setup.limits.depth + 1 } n.event :=
    normalized_recoded (Nat.le_succ _) (Nat.le_refl _) (Nat.succ_pos _) hn
  have hl : LineOf repr w n.event line := lineOf_dumps hrecoded.exact hline
  exact ⟨hl.no_lineFeed, fun r hd hr => hl.normalized hrecoded.renamed hd hr⟩

/-- Lines for events: without line feeds, and normalised to the events without a warning. -/
def LinesOf (w : Limits) (ls : List Str) (events : List (ℕ × Event)) : Prop :=
  (lines ls).splitOn (code '\n') = ls ++ [[]] ∧ ∀ r : Limits, w.depth ≤ r.depth → w.digits ≤ r.digits →
    ls.map (fun line => normalizeMessage r (.text line)) = events.map fun entry => .ok ⟨entry.2, none⟩

theorem linesOf_accepted {cfg : StdoutOutput.Settings} {messages : List WireMessage} {accepted : List (ℕ × Event)}
    {ls : List Str} (hdue : ∀ entry ∈ accepted, entry ∈ due setup messages)
    (hall : List.Forall₂ (fun (entry : ℕ × Event) line =>
      dumps (stdoutStyle cfg.repr) cfg.limits (.object entry.2) = .ok line) accepted ls) :
    LinesOf cfg.limits ls accepted := by
  have hlines : (∀ line ∈ ls, code '\n' ∉ line) ∧ ∀ r : Limits, cfg.limits.depth ≤ r.depth →
      cfg.limits.digits ≤ r.digits →
      ls.map (fun line => normalizeMessage r (.text line)) = accepted.map fun entry => .ok ⟨entry.2, none⟩ := by
    induction hall with
    | nil => exact ⟨nofun, fun _ _ _ => rfl⟩
    | cons hd _ ih =>
      obtain ⟨hfeed, hread⟩ := due_line (hdue _ List.mem_cons_self) hd
      obtain ⟨hfeeds, hreads⟩ := ih fun entry hmem => hdue entry (List.mem_cons_of_mem _ hmem)
      refine ⟨List.forall_mem_cons.2 ⟨hfeed, hfeeds⟩, fun r hdepth hdigits => ?_⟩
      rw [List.map_cons, List.map_cons, hreads r hdepth hdigits, hread r hdepth hdigits]
  exact ⟨splitOn_lines hlines.1, hlines.2⟩

/-- **What is written to stdout.** In every state the stream has one line for each of the first messages handed on, in
order, and a reader of the lines has the events again; only the last message may be missing, and then its `write()` has
not returned. -/
theorem stdout_delivered {symbols : List Str} {limits : Limits} {policy : ReconnectPolicy} {mode : Mode}
    {managesSignals : Bool} {cfg : StdoutOutput.Settings} {stop : Bool} {is : List (Input StdoutOutput.Input)}
    {s : State StdoutOutput.State} (h : Run (stdoutSetup symbols limits policy mode managesSignals cfg) stop is s) :
    let setup := stdoutSetup symbols limits policy mode managesSignals cfg
    ∃ ls, s.output.stream.written = cfg.stream.written ++ lines ls ∧
      (LinesOf cfg.limits ls (due setup (s.handed setup)) ∨
        s.output.calls (s.lastCall setup) ≠ .returned ∧
        LinesOf cfg.limits ls (due setup (s.handed setup).dropLast)) := by
  intro setup
  have hl := StdoutOutput.eventOutput_lawful cfg
  have hs : Accounted setup _ _ s := h.accounted hl
  obtain ⟨served, waiting, hc⟩ := hs.custody
  obtain ⟨-, ls, hwritten, hall⟩ := hs.output.written
  have hlines : LinesOf cfg.limits ls s.output.accepted :=
    linesOf_accepted (fun entry hmem => hc.accepted_due.1.subset hmem) hall
  have hreturned : ∀ k, setup.output.call s.output k = .returned → k ∈ (setup.output.stored s.output).map (·.1) :=
    fun k hk => hs.output.done k (hs.output.returned k (StdoutOutput.status_returned.1 hk))
  refine ⟨ls, hwritten, ?_⟩
  rcases hc.stored List.prefix_rfl hreturned with heq | ⟨hcall, heq⟩
  · exact .inl (heq ▸ hlines)
  · exact .inr ⟨fun hr => hcall (StdoutOutput.status_returned.2 hr), heq ▸ hlines⟩

/-- `BTCUSDT`, to a stream with UTF-8. -/
def btcusdtStdout : Setup StdoutOutput.State StdoutOutput.Input :=
  stdoutSetup [str "BTCUSDT"] ⟨1000, 4300⟩ defaultPolicy .json true ⟨fun _ => none, ⟨1000, 4300⟩, utf8Stream⟩

/-- Of two messages the second one has a surrogate, which UTF-8 does not have. -/
def surrogateRaises : List (Input StdoutOutput.Input) :=
  [.runner (.opened true), .runner (.collector .start), .runner (.collector .connected), .runner (.collector .sent),
    .runner (.collector (.receives (.text (str "x")))), .runner (.collector (.settled 0)), .runner .write,
    .output (.start 0), .output (.finish 0), .output (.resumeWrite 0), .runner (.collector .handlerReturns),
    .runner (.collector (.settled 1)), .runner (.collector (.receives (.text (str "\x7b\"s\":\"\\ud800\"\x7d")))),
    .runner (.collector (.settled 2)), .runner .write, .output (.start 1), .output (.finish 1),
    .output (.resumeWrite 1), .runner (.collector .handlerRaises)]

/-- The first one is written, and the `write()` for the second one raises. -/
theorem stdout_delivered_surrogate : ∃ s, Run btcusdtStdout false surrogateRaises s ∧
    s.output.calls (s.lastCall btcusdtStdout) ≠ .returned ∧ ∃ line, s.output.stream.written = lines [line] ∧
      LinesOf ⟨1000, 4300⟩ [line] (due btcusdtStdout (s.handed btcusdtStdout).dropLast) := by
  obtain ⟨s, hs, hp⟩ := Machine.exists_path_of_check (M := machine btcusdtStdout) (P := Assumed btcusdtStdout)
    (p := fun s => decide ((s.output.stream.written.splitOn (code '\n')).length = 2 ∧
      (due btcusdtStdout (s.handed btcusdtStdout)).length = 2))
    (begun btcusdtStdout false) surrogateRaises (by decide +kernel)
  obtain ⟨hsplit, hdue⟩ := of_decide_eq_true hp
  obtain ⟨ls, hwritten, hlines⟩ := stdout_delivered hs
  have hone : ls.length = 1 := by
    have hfeeds : (lines ls).splitOn (code '\n') = ls ++ [[]] := hlines.elim (fun h => h.1) fun h => h.2.1
    have htext : s.output.stream.written = lines ls := hwritten
    rw [htext, hfeeds, List.length_append] at hsplit
    exact Nat.succ.inj hsplit
  obtain ⟨line, rfl⟩ := List.length_eq_one_iff.1 hone
  have hnot : ¬LinesOf ⟨1000, 4300⟩ [line] (due btcusdtStdout (s.handed btcusdtStdout)) := fun h => by
    have hlen := congrArg List.length (h.2 ⟨1000, 4300⟩ (Nat.le_refl _) (Nat.le_refl _))
    rw [List.length_map, List.length_map, hdue] at hlen
    cases hlen
  obtain ⟨hcall, hline⟩ := hlines.resolve_left hnot
  exact ⟨s, hs, hcall, line, hwritten, hline⟩

end BinanceCollector.LegacyRuntime
