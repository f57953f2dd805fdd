import BinanceCollector.MultiRuntimeNoLoss

/-!
# What the store lacks at any moment

A run of the multi-stream profile may fail, be cancelled or be killed in any state. What the store holds of a connection
by then is an unbroken beginning of what the connection has handed on, route by route, and what it lacks of all of it
is bounded by the buffer.

- `OutputMoves`, `outputMoves_of_step`: what a step of the system does to the output.
- `length_due`: a message that is decoded is due on one route.
- **`backlog_bounded`**: prefixes in every state, and at most a full buffer and one message for each connection beside
  them.
-/

namespace BinanceCollector.MultiRuntime

open Text
open MultiMongo (Output BufferedDocument Settings)

variable {setup : Setup} {s s' : State} {o o' : Output (Group × ℕ) Event}

/-! ## Steps of the output -/

/-- The output stays as it is, or takes a step. -/
def OutputMoves (setup : Setup) (o o' : Output (Group × ℕ) Event) : Prop :=
  o' = o ∨ ∃ i : MultiMongo.Output.Input (Group × ℕ) Event, i.CallbacksReturn ∧
    (MultiMongo.Output.machine setup.settings setup.reading).step o i = some o'

theorem outputMoves_resumeMain (h : s.resumeMain setup = some s') : OutputMoves setup s.output s'.output := by
  unfold State.resumeMain at h
  split at h
  case h_6 =>
    split at h
    · obtain ⟨o, ho, rfl⟩ := Option.map_eq_some_iff.1 h
      exact .inr ⟨.close, trivial, ho⟩
    · cases h
  case h_1 =>
    cases h
    exact .inl rfl
  all_goals first
    | cases h
    | (split at h <;> cases h <;> exact .inl rfl)

theorem outputMoves_cancelMain (h : s.cancelMain setup = some s') : OutputMoves setup s.output s'.output := by
  unfold State.cancelMain at h
  split at h
  case h_9 =>
    obtain ⟨o, ho, rfl⟩ := Option.map_eq_some_iff.1 h
    exact .inr ⟨.cancelClose, trivial, ho⟩
  case h_7 | h_8 =>
    split at h <;> cases h
    exact .inl rfl
  case h_10 => cases h
  all_goals
    cases h
    exact .inl rfl

theorem outputMoves_resumeMonitor {phase : Monitor} (h : s.resumeMonitor phase = some s') : s'.output = s.output := by
  unfold State.resumeMonitor at h
  split at h <;> split at h <;> cases h <;> rfl

theorem outputMoves_cancelWrite (s : State) (g : Group) : OutputMoves setup s.output (s.cancelWrite setup g) := by
  unfold State.cancelWrite
  cases ho : s.outputStep setup (.cancelWrite (s.lastCall g)) with
  | none => exact .inl rfl
  | some o => exact .inr ⟨.cancelWrite (s.lastCall g), trivial, ho⟩

/-- **A step of the system is at most one step of the output.** -/
theorem outputMoves_of_step {i : Input} (hi : Assumed s i) (h : (machine setup).step s i = some s') :
    OutputMoves setup s.output s'.output := by
  change step setup s i = some s' at h
  cases i with
  | setStop =>
    cases h
    exact .inl rfl
  | main => exact outputMoves_resumeMain h
  | cancelMain => exact outputMoves_cancelMain h
  | monitor =>
    simp only [step] at h
    split at h
    · exact .inl (outputMoves_resumeMonitor h)
    · cases h
  | failure =>
    simp only [step] at h
    split at h
    · split at h
      · cases h
      · obtain ⟨o, ho, rfl⟩ := Option.map_eq_some_iff.1 h
        exact .inr ⟨.reportFailure, trivial, ho⟩
    · cases h
  | collector i =>
    cases i with
    | setStop => cases h
    | cancel =>
      simp only [step, Option.ite_none_right_eq_some, Option.map_eq_some_iff] at h
      obtain ⟨-, c, -, rfl⟩ := h
      exact .inl rfl
    | connection g i =>
      simp only [step, Option.ite_none_right_eq_some, Option.map_eq_some_iff] at h
      obtain ⟨-, c, -, rfl⟩ := h
      show OutputMoves setup s.output (if i = .cancel then s.cancelWrite setup g else s.output)
      split
      · exact outputMoves_cancelWrite s g
      · exact .inl rfl
    | start | resume =>
      obtain ⟨c, -, rfl⟩ := Option.map_eq_some_iff.1 h
      exact .inl rfl
  | write g report =>
    obtain rfl : report = .returns := hi
    simp only [step] at h
    split at h
    · split at h
      · obtain ⟨o, ho, rfl⟩ := Option.map_eq_some_iff.1 h
        exact .inr ⟨.write (s.lastCall g) _ .returns, rfl, ho⟩
      · cases h
    · cases h
  | output i =>
    simp only [step, Option.ite_none_right_eq_some, Option.map_eq_some_iff] at h
    obtain ⟨-, o, ho, rfl⟩ := h
    exact .inr ⟨i, hi, ho⟩
  | validated | opened | tuiEnds | startMonitor | cancelMonitor | startFailure | cancelFailure =>
    simp only [step] at h
    repeat' split at h
    all_goals cases h
    all_goals exact .inl rfl

/-- What the buffer holds stays within it. -/
theorem step_within (hs : Accounted setup s) {i : Input} (hi : Assumed s i)
    (hw : s.output.book.Within (Output.capacity setup.settings) (·.bsonSize))
    (h : (machine setup).step s i = some s') :
    s'.output.book.Within (Output.capacity setup.settings) (·.bsonSize) := by
  rcases outputMoves_of_step hi h with hsame | ⟨j, hj, hstep⟩
  · rwa [hsame]
  · obtain ⟨-, es, hes⟩ := Output.step_sound hs.safe.output.inv hj hstep
    exact Ledger.path_within hes hw

/-! ## Counting -/

/-- Every document belongs to one connection. -/
theorem sum_length_ofGroup (ds : List (BufferedDocument (Group × ℕ) Event)) :
    (groups.map fun g => (ofGroup g ds).length).sum = ds.length := by
  induction ds with
  | nil => rfl
  | cons d ds ih =>
    obtain ⟨⟨g, j⟩, event, size⟩ := d
    cases g <;> simp_all [groups, ofGroup] <;> omega

/-- **A message that is decoded is due on one route.** -/
theorem length_due {messages : List ReceivedMessage} (h : ∀ m ∈ messages, ∃ n, setup.normalize m = .ok n) :
    ∑ r, (due setup r messages).length = messages.length := by
  induction messages using List.reverseRecOn with
  | nil => simp [due]
  | append_singleton messages m ih =>
    obtain ⟨n, hn⟩ := h m (by simp)
    have hone : ∑ r, (document setup r (m, messages.length)).toList.length = 1 := by
      simp only [document_ok hn]
      rw [Finset.sum_eq_single (eventRoute n.event)]
      · simp
      · intro r _ hr
        rw [if_neg hr.symm]
        rfl
      · exact fun hno => absurd (Finset.mem_univ _) hno
    simp only [due_snoc, List.length_append, Finset.sum_add_distrib, hone,
      ih fun m hm => h m (List.mem_append_left _ hm), List.length_singleton]

/-- More messages, more that is due. -/
theorem due_prefix (r : StorageRoute) {messages messages' : List ReceivedMessage} (h : messages <+: messages') :
    due setup r messages <+: due setup r messages' := by
  obtain ⟨rest, rfl⟩ := h
  rw [due, due, List.zipIdx_append, List.filterMap_append]
  exact List.prefix_append _ _

theorem ofGroup_mono (g : Group) {ds ds' : List (BufferedDocument (Group × ℕ) Event)} (h : ds <+: ds') :
    ofGroup g ds <+: ofGroup g ds' :=
  (h.filter _).map _

/-! ## The backlog -/

/-- The messages of a connection that have been served, apart from at most one. -/
structure Served (setup : Setup) (s : State) (g : Group) (served : List ReceivedMessage) : Prop where
  handed : served <+: s.handed g
  behind : (s.handed g).length ≤ served.length + 1
  decoded : ∀ m ∈ served, ∃ n, setup.normalize m = .ok n
  stored : ∀ r, ofGroup g (s.output.lanes r).accepted = due setup r served

theorem Accounted.served (hs : Accounted setup s) (g : Group) : ∃ served, Served setup s g served := by
  obtain ⟨served, waiting, hc⟩ := hs.safe.custody g
  have hhanded : s.handed g = served ++ waiting.toList := hc.handed
  refine ⟨served, ?_, ?_, hc.decoded, hc.stored⟩
  · rw [hhanded]
    exact List.prefix_append _ _
  · rw [hhanded, List.length_append]
    cases waiting <;> simp

/-- What a route has accepted for all connections. -/
theorem sum_accepted {served : Group → List ReceivedMessage} (h : ∀ g, Served setup s g (served g)) :
    ∑ r, (s.output.lanes r).accepted.length = (groups.map fun g => (served g).length).sum := by
  calc ∑ r, (s.output.lanes r).accepted.length
      = ∑ r, (groups.map fun g => (due setup r (served g)).length).sum := by
        refine Finset.sum_congr rfl fun r _ => ?_
        rw [← sum_length_ofGroup]
        simp only [(h _).stored]
    _ = (groups.map fun g => ∑ r, (due setup r (served g)).length).sum := by
        simp [groups, Finset.sum_add_distrib]
    _ = (groups.map fun g => (served g).length).sum := by
        simp only [length_due (h _).decoded]

/-- **What the store lacks at any moment**, whatever has failed or been cancelled. What `insert_many` has been called
with, and what it has confirmed, are for each connection and route a beginning of what is due, each document once and in
order; and of all messages handed on, at most a full buffer and one for each connection are not confirmed. -/
theorem backlog_bounded (setup : Setup) {is : List Input} (h : (machine setup).Path Assumed initial is s) :
    (∀ g r, ofGroup g (s.output.lanes r).insertCalls.flatten <+: due setup r (s.handed g) ∧
      ofGroup g (s.output.lanes r).confirmed <+: due setup r (s.handed g)) ∧
    (groups.map fun g => (s.handed g).length).sum ≤
      (∑ r, (s.output.lanes r).confirmed.length) + setup.settings.bufferMaxDocuments + groups.length := by
  obtain ⟨hs, hwithin⟩ := h.invariant
    (I := fun s => Accounted setup s ∧ s.output.book.Within (Output.capacity setup.settings) (·.bsonSize))
    (fun _ _ _ hi hI hstep => ⟨step_accounted hI.1 hi hstep, step_within hI.1 hi hI.2 hstep⟩)
    ⟨⟨initial_safe setup, initial_supervised⟩, Ledger.empty_within⟩
  choose served hserved using hs.served
  constructor
  · intro g r
    have hdue : ofGroup g (s.output.lanes r).accepted <+: due setup r (s.handed g) := by
      rw [(hserved g).stored r]
      exact due_prefix r (hserved g).handed
    have hconfirmed : (s.output.lanes r).confirmed <+: (s.output.lanes r).accepted := by
      rw [(hs.safe.output.inv.lanes r).accepted]
      exact List.prefix_append _ _
    exact ⟨(ofGroup_mono g (hs.safe.output.inv.inserted_prefix r)).trans hdue,
      (ofGroup_mono g hconfirmed).trans hdue⟩
  · have hheld : ∑ r, (s.output.lanes r).held.length ≤ setup.settings.bufferMaxDocuments := hwithin.1
    have haccepted : ∑ r, (s.output.lanes r).accepted.length =
        (∑ r, (s.output.lanes r).confirmed.length) + ∑ r, (s.output.lanes r).held.length := by
      rw [← Finset.sum_add_distrib]
      refine Finset.sum_congr rfl fun r _ => ?_
      rw [(hs.safe.output.inv.lanes r).accepted, List.length_append]
    have hbehind := fun g => (hserved g).behind
    have hsum := sum_accepted hserved
    have h₁ := hbehind .spotMarket
    have h₂ := hbehind .spotDepth
    have h₃ := hbehind .usdmMark
    simp only [groups, List.map_cons, List.map_nil, List.sum_cons, List.sum_nil, List.length_cons,
      List.length_nil] at hsum ⊢
    omega

/-- The system for `BTCUSDT` with a buffer for one document. -/
def narrowBuffer : Setup := { btcusdt with settings := (Settings.ofArguments 1 1000 1 1000 1).get (by decide) }

/-- A connection subscribes and hands on an acknowledgement. -/
def handsOnFirst (g : Group) : List Input :=
  [.collector (.connection g .start), .collector (.connection g .connected), .collector (.connection g .sent),
    .collector (.connection g (.receives (.text (str "\x7b\"result\":null,\"id\":1\x7d")))),
    .collector (.connection g (.settled 1000)), .write g .returns]

/-- One document fills the buffer, and every connection waits in `write()`. -/
def allWait : List Input :=
  [.validated true, .opened true, .main, .startMonitor, .startFailure, .collector .start] ++
  handsOnFirst .spotMarket ++
  [.collector (.connection .spotMarket .handlerReturns), .collector (.connection .spotMarket (.receives (.text (str "x")))),
    .collector (.connection .spotMarket (.settled 1001)), .write .spotMarket .returns] ++
  handsOnFirst .spotDepth ++ handsOnFirst .usdmMark

/-- The bound is reached. -/
theorem backlog_bounded_allWait : ∃ s, (machine narrowBuffer).Path Assumed initial allWait s ∧
    (groups.map fun g => (s.handed g).length).sum = narrowBuffer.settings.bufferMaxDocuments + groups.length ∧
    (groups.map fun g => (s.handed g).length).sum ≤
      (∑ r, (s.output.lanes r).confirmed.length) + narrowBuffer.settings.bufferMaxDocuments + groups.length := by
  obtain ⟨s, hs, hp⟩ := Steps.Machine.exists_path_of_check (M := machine narrowBuffer) (P := Assumed)
    (p := fun s => decide ((groups.map fun g => (s.handed g).length).sum =
      narrowBuffer.settings.bufferMaxDocuments + groups.length)) initial allWait (by decide +kernel)
  exact ⟨s, hs, of_decide_eq_true hp, (backlog_bounded narrowBuffer hs).2⟩

end BinanceCollector.MultiRuntime
