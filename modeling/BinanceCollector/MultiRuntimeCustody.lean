import BinanceCollector.Collector.ConnectionHandover
import BinanceCollector.MultiRuntime

/-!
# Custody of the messages handed on

A message that a connection hands on is waiting in `write()` or served, and the served ones are the accepted documents
of the connection, each on the route of its event and in order.

- `Custody`: the served messages of a connection and the one that waits.
- `Custody.connection`, `Custody.output`: what a step of the connection and a step of the output do to it.
-/

namespace BinanceCollector.MultiRuntime

open MultiMongo (Output BufferedDocument WriteCall)
open MultiMongo.Output (Sound Accepts CallMoves CallStep)

variable {setup : Setup} {g : Group} {c c' : Connection.State ReceivedMessage} {o o' : Output (Group × ℕ) Event}
  {served : List ReceivedMessage} {waiting : Option ReceivedMessage}

/-! ## Documents that are due -/

/-- The document of a message on a route. -/
def document (setup : Setup) (r : StorageRoute) (entry : ReceivedMessage × ℕ) : Option (ℕ × Event) :=
  match setup.normalize entry.1 with
  | .ok normalized => if eventRoute normalized.event = r then some (entry.2, normalized.event) else none
  | .error _ => none

/-- The documents that are due on a route for these messages: the number of each message and its event. -/
def due (setup : Setup) (r : StorageRoute) (messages : List ReceivedMessage) : List (ℕ × Event) :=
  messages.zipIdx.filterMap (document setup r)

/-- The documents of a connection among these: the number of the call and the event. -/
def ofGroup (g : Group) (ds : List (BufferedDocument (Group × ℕ) Event)) : List (ℕ × Event) :=
  (ds.filter fun d => d.call.1 = g).map fun d => (d.call.2, d.event)

theorem due_snoc (r : StorageRoute) (messages : List ReceivedMessage) (m : ReceivedMessage) :
    due setup r (messages ++ [m]) = due setup r messages ++ (document setup r (m, messages.length)).toList := by
  simp only [due, List.zipIdx_append, List.filterMap_append, List.zipIdx_singleton, Nat.zero_add]
  cases hd : document setup r (m, messages.length) <;> simp [hd]

theorem document_ok {r : StorageRoute} {m : ReceivedMessage} {n : NormalizedMessage} (h : setup.normalize m = .ok n)
    (j : ℕ) : document setup r (m, j) = if eventRoute n.event = r then some (j, n.event) else none := by
  simp only [document, h]

theorem ofGroup_snoc (ds : List (BufferedDocument (Group × ℕ) Event)) (d : BufferedDocument (Group × ℕ) Event) :
    ofGroup g (ds ++ [d]) = ofGroup g ds ++ if d.call.1 = g then [(d.call.2, d.event)] else [] := by
  by_cases hd : d.call.1 = g <;> simp [ofGroup, hd]

/-! ## Custody -/

/-- The messages a connection has handed on are the served ones and at most one that waits in `write()`. -/
structure Custody (setup : Setup) (g : Group) (c : Connection.State ReceivedMessage)
    (o : Output (Group × ℕ) Event) (served : List ReceivedMessage) (waiting : Option ReceivedMessage) : Prop where
  handed : Connection.handledMessages c.history = served ++ waiting.toList
  direct : c.phase.direct = true
  idle : c.phase.served = true → waiting = none
  returned : ∀ j < served.length, o.calls (g, j) = .returned
  waits : waiting ≠ none → o.calls (g, served.length) ≠ .returned
  fresh : ∀ j, (served ++ waiting.toList).length ≤ j → o.calls (g, j) = .idle
  event : ∀ m ∈ waiting, ∀ d b, o.calls (g, served.length) = .parked d b →
    ∃ n, setup.normalize m = .ok n ∧ d.event = n.event
  decoded : ∀ m ∈ served, ∃ n, setup.normalize m = .ok n
  stored : ∀ r, ofGroup g (o.lanes r).accepted = due setup r served

theorem initial_custody (setup : Setup) (g : Group) (policy : ReconnectPolicy) :
    Custody setup g (Connection.initial policy) .opened [] none where
  handed := rfl
  direct := rfl
  idle _ := rfl
  returned _ h := by cases h
  waits h := absurd rfl h
  fresh _ _ := rfl
  event _ h := by cases h
  decoded _ h := by cases h
  stored _ := rfl

/-- Custody looks at the phase and the history of the connection only. -/
theorem Custody.congr (h : Custody setup g c o served waiting) (hp : c'.phase = c.phase) (hh : c'.history = c.history) :
    Custody setup g c' o served waiting :=
  ⟨hh ▸ h.handed, hp ▸ h.direct, hp ▸ h.idle, h.returned, h.waits, h.fresh, h.event, h.decoded, h.stored⟩

/-- A call of the connection that has neither been made nor returned is the one that waits. -/
theorem Custody.call_waits (h : Custody setup g c o served waiting) {j : ℕ} (hr : o.calls (g, j) ≠ .returned)
    (hi : o.calls (g, j) ≠ .idle) : j = served.length ∧ ∃ m, waiting = some m := by
  have hge : served.length ≤ j := not_lt.1 fun hlt => hr (h.returned j hlt)
  have hlt : j < (served ++ waiting.toList).length := not_le.1 fun hle => hi (h.fresh j hle)
  cases waiting with
  | none =>
    simp at hlt
    omega
  | some m =>
    simp at hlt
    exact ⟨by omega, m, rfl⟩

/-- When every message has been served, no call of the connection waits. -/
theorem Custody.not_parked (h : Custody setup g c o served waiting) (hs : c.phase.served = true) (j : ℕ)
    (d : BufferedDocument (Group × ℕ) Event) (b : Bool) : o.calls (g, j) ≠ .parked d b := by
  intro hp
  obtain ⟨-, m, hm⟩ := h.call_waits (by rw [hp]; simp) (by rw [hp]; simp)
  rw [h.idle hs] at hm
  cases hm

/-! ## Steps of the connection -/

/-- **A step of the connection** hands on the next message once the last one has been served, and goes on from the
handler once its `write()` has returned. -/
theorem Custody.connection (h : Custody setup g c o served waiting) {i : Connection.Input}
    (hclose : ∀ e, i = .closeFails e → ∀ exc, c.phase ≠ .closing (some exc))
    (hreturns : i = .handlerReturns → o.calls (g, (served ++ waiting.toList).length - 1) = .returned)
    (hstep : (Connection.machine (setup.collector.connection g).profile).step c i = some c') :
    ∃ waiting', Custody setup g c' o served waiting' := by
  obtain ⟨hhands, hdirect⟩ := Connection.hands_of_step rfl h.direct hclose hstep
  cases hhands with
  | quiet hh hs =>
    exact ⟨waiting, hh.trans h.handed, hdirect, fun hs' => h.idle (hs hs'), h.returned, h.waits, h.fresh, h.event,
      h.decoded, h.stored⟩
  | hands m hs hs' hh =>
    obtain rfl := h.idle hs
    have hidle : o.calls (g, served.length) = .idle := h.fresh _ (by simp)
    refine ⟨some m, ?_, hdirect, fun h => (by rw [hs'] at h; cases h), h.returned, fun _ => by rw [hidle]; simp,
      fun j hj => h.fresh j ?_, fun m' _ d b hp => (by rw [hidle] at hp; cases hp), h.decoded, h.stored⟩
    · rw [hh, h.handed]
      simp
    · simp at hj ⊢
      omega
  | served hi hh =>
    cases waiting with
    | none =>
      exact ⟨none, hh.trans h.handed, hdirect, fun _ => rfl, h.returned, h.waits, h.fresh, h.event, h.decoded, h.stored⟩
    | some m =>
      -- the handler returns after its `write()`, so that the message is served
      exact absurd (by simpa using hreturns hi) (h.waits (by simp))

/-! ## Steps of the output -/

/-- The message that waits is served when its document is accepted. -/
theorem Custody.accepts {m : ReceivedMessage} {n : NormalizedMessage} (h : Custody setup g c o served (some m))
    (hn : setup.normalize m = .ok n) {r : StorageRoute} {size : ℕ}
    (ha : Accepts setup.reading o o' r ⟨(g, served.length), n.event, size⟩) :
    Custody setup g c o' (served ++ [m]) none := by
  have hroute : eventRoute n.event = r := ha.route
  constructor
  case handed =>
    rw [h.handed]
    simp
  case direct => exact h.direct
  case idle => exact fun _ => rfl
  case returned =>
    intro j hj
    rcases Nat.lt_or_ge j served.length with hlt | hge
    · rw [ha.call (g, j) (by simp; omega)]
      exact h.returned j hlt
    · obtain rfl : j = served.length := by simp at hj; omega
      exact ha.returned
  case waits => exact fun hno => absurd rfl hno
  case fresh =>
    intro j hj
    rw [ha.call (g, j) (by simp at hj ⊢; omega)]
    exact h.fresh j (by simpa using hj)
  case event =>
    intro m' hm'
    cases hm'
  case decoded =>
    intro m' hm'
    rcases List.mem_append.1 hm' with hm' | hm'
    · exact h.decoded m' hm'
    · rw [List.mem_singleton.1 hm']
      exact ⟨n, hn⟩
  case stored =>
    intro q
    rw [due_snoc, document_ok hn]
    by_cases hq : q = r
    · subst hq
      rw [ha.lane, ofGroup_snoc, h.stored, if_pos rfl, if_pos hroute]
      rfl
    · rw [ha.others q hq, h.stored, if_neg (fun heq => hq (heq.symm.trans hroute))]
      simp

/-- A document of another connection is accepted. -/
theorem Custody.others (h : Custody setup g c o served waiting) {r : StorageRoute}
    {d : BufferedDocument (Group × ℕ) Event} (hd : d.call.1 ≠ g) (ha : Accepts setup.reading o o' r d) :
    Custody setup g c o' served waiting := by
  have hcall : ∀ j, o'.calls (g, j) = o.calls (g, j) := fun j => ha.call _ fun heq => hd (by rw [← heq])
  refine { h with
    returned := fun j hj => (hcall j).trans (h.returned j hj)
    waits := ?waits
    fresh := fun j hj => (hcall j).trans (h.fresh j hj)
    event := fun m hm d b hp => h.event m hm d b ((hcall _).symm.trans hp)
    stored := ?stored }
  case waits =>
    intro hw
    rw [hcall]
    exact h.waits hw
  case stored =>
    intro q
    rw [← h.stored q]
    by_cases hq : q = r
    · subst hq
      rw [ha.lane, ofGroup_snoc, if_neg hd, List.append_nil]
    · rw [ha.others q hq]

/-- **A step of the output** leaves custody alone, or serves the message that waits. A `write()` is called for that
message only. -/
theorem Custody.output (h : Custody setup g c o served waiting) (hs : Sound setup.reading o)
    {i : MultiMongo.Output.Input (Group × ℕ) Event} (hi : i.CallbacksReturn)
    (hwrite : ∀ j event report, i = .write (g, j) event report →
      j = served.length ∧ ∃ m n, waiting = some m ∧ setup.normalize m = .ok n ∧ event = n.event)
    (hstep : (MultiMongo.Output.machine setup.settings setup.reading).step o i = some o') :
    ∃ served' waiting', Custody setup g c o' served' waiting' := by
  have hparked := fun k d n hk => (hs.tracked.parked k d n hk).1
  cases MultiMongo.Output.step_calls hs.inv hparked hi hstep with
  | @written r k event size report hk hsize ha =>
    obtain ⟨g', j⟩ := k
    by_cases hg : g' = g
    · subst hg
      obtain ⟨rfl, m, n, rfl, hn, rfl⟩ := hwrite j event report rfl
      exact ⟨_, _, h.accepts hn ha⟩
    · exact ⟨_, _, h.others hg ha⟩
  | @resumed r k d report hk ha =>
    obtain ⟨g', j⟩ := k
    by_cases hg : g' = g
    · subst hg
      obtain ⟨rfl, m, rfl⟩ := h.call_waits (by rw [hk]; simp) (by rw [hk]; simp)
      obtain ⟨n, hn, hevent⟩ := h.event m rfl d true hk
      obtain ⟨call, event, size⟩ := d
      obtain rfl : call = (g', served.length) := hparked _ _ _ hk
      obtain rfl : event = n.event := hevent
      exact ⟨_, _, h.accepts hn ha⟩
    · exact ⟨_, _, h.others (by rw [hparked _ _ _ hk]; exact hg) ha⟩
  | quiet hl hm =>
    have hevent : ∀ m ∈ waiting, ∀ d b, o'.calls (g, served.length) = .parked d b →
        ∃ n, setup.normalize m = .ok n ∧ d.event = n.event := by
      intro m hmem d b hp
      rcases (hm _).parked hp with ⟨b', hb⟩ | ⟨hidle, -, -⟩
      · exact h.event m hmem d b' hb
      · -- the call has been made by this step
        by_cases hw : ∃ event report, i = .write (g, served.length) event report
        · obtain ⟨event, report, rfl⟩ := hw
          obtain ⟨-, m', n, rfl, hn, rfl⟩ := hwrite _ _ _ rfl
          cases hmem
          cases MultiMongo.Output.effect_of_step hstep with
          | write =>
            cases hi
            obtain ⟨-, hwritten, -⟩ := MultiMongo.Output.write_written hs.inv hs.tracked hidle
            exact ⟨n, hn, hwritten d b hp⟩
        · have := MultiMongo.Output.step_idle hs.inv hparked hi hstep hidle fun event report heq =>
            hw ⟨event, report, heq⟩
          rw [this] at hp
          cases hp
    refine ⟨served, waiting, h.handed, h.direct, h.idle, fun j hj => (hm _).returned_iff.2 (h.returned j hj),
      fun hw hr => h.waits hw ((hm _).returned_iff.1 hr), fun j hj => ?_, hevent, h.decoded, fun r => ?_⟩
    · refine MultiMongo.Output.step_idle hs.inv hparked hi hstep (h.fresh j hj) fun event report heq => ?_
      obtain ⟨rfl, m, n, rfl, -⟩ := hwrite j event report heq
      simp at hj
    · rw [hl r]
      exact h.stored r

end BinanceCollector.MultiRuntime
