import Mathlib.Algebra.BigOperators.Ring.Finset
import BinanceCollector.Outputs.MultiMongoConservation

/-!
# The calls of `write()` and what they accepted

Every accepted document belongs to one `write()` call that has returned, and every call that has returned has its
document accepted (`Tracked`). A step accepts the document of one call, or moves the calls without accepting
(`step_calls`).

- `conservation`: order, exact accounting and no second insert, over every run.
- `buffer_bounded`: the memory bound over every run.
-/

namespace BinanceCollector.MultiMongo.Output

open Steps

variable {κ ε : Type*} {cfg : Settings} {rd : Reading ε} {s s' : Output κ ε}

/-! ## What a step does to the calls -/

/-- How a step that accepts nothing moves the call `k`. -/
inductive CallMoves (rd : Reading ε) (k : κ) : WriteCall κ ε → WriteCall κ ε → Prop
  | same (c : WriteCall κ ε) : CallMoves rd k c c
  | notified (c : WriteCall κ ε) : CallMoves rd k c c.notify
  | parks {event : ε} {size : ℕ} :
      rd.bsonSize event = some size → CallMoves rd k .idle (.parked ⟨k, event, size⟩ false)
  | waits {d : BufferedDocument κ ε} {notified : Bool} : CallMoves rd k (.parked d notified) (.parked d false)
  | raises {c : WriteCall κ ε} {e : WriteError} :
      c ≠ .returned → e ≠ .budgetNegative → CallMoves rd k c (.raised e)

theorem CallMoves.returned_iff {k : κ} {c c' : WriteCall κ ε} (h : CallMoves rd k c c') :
    c' = .returned ↔ c = .returned := by
  cases h with
  | same => rfl
  | notified => cases c <;> simp [WriteCall.notify]
  | parks => simp
  | waits => simp
  | raises hne => simp [hne]

theorem CallMoves.parked {k : κ} {c c' : WriteCall κ ε} {d : BufferedDocument κ ε} {n : Bool}
    (h : CallMoves rd k c c') (hc' : c' = .parked d n) :
    (∃ m, c = .parked d m) ∨ c = .idle ∧ d.call = k ∧ rd.bsonSize d.event = some d.bsonSize := by
  cases h with
  | same => exact .inl ⟨n, hc'⟩
  | notified => cases c <;> simp_all [WriteCall.notify]
  | parks hsize => cases hc'; exact .inr ⟨rfl, rfl, hsize⟩
  | waits => cases hc'; exact .inl ⟨_, rfl⟩
  | raises => cases hc'

theorem CallMoves.not_idle {k : κ} {c c' : WriteCall κ ε} (h : CallMoves rd k c c') (hc : c ≠ .idle) : c' ≠ .idle := by
  cases h with
  | same => exact hc
  | notified => cases c <;> simp_all [WriteCall.notify]
  | parks => simp
  | waits => simp
  | raises => simp

theorem CallMoves.sound {k : κ} {c c' : WriteCall κ ε} (h : CallMoves rd k c c') (hc : c ≠ .raised .budgetNegative) :
    c' ≠ .raised .budgetNegative := by
  cases h with
  | same => exact hc
  | notified => cases c <;> simp_all [WriteCall.notify]
  | parks => simp
  | waits => simp
  | raises _ he => simpa using he

/-- The lane `r` accepts `d`, whose call returns. -/
structure Accepts (rd : Reading ε) (s s' : Output κ ε) (r : StorageRoute) (d : BufferedDocument κ ε) : Prop where
  call : ∀ k, k ≠ d.call → s'.calls k = s.calls k
  returned : s'.calls d.call = .returned
  route : rd.route d.event = r
  lane : (s'.lanes r).accepted = (s.lanes r).accepted ++ [d]
  others : ∀ q, q ≠ r → (s'.lanes q).accepted = (s.lanes q).accepted

/-- What a step does to the calls and to the accepted documents. -/
inductive CallStep (rd : Reading ε) (s s' : Output κ ε) : Input κ ε → Prop
  | written {r : StorageRoute} {k : κ} {event : ε} {size : ℕ} {report : Callback} :
      s.calls k = .idle → rd.bsonSize event = some size → Accepts rd s s' r ⟨k, event, size⟩ →
      CallStep rd s s' (.write k event report)
  | resumed {r : StorageRoute} {k : κ} {d : BufferedDocument κ ε} {report : Callback} :
      s.calls k = .parked d true → Accepts rd s s' r d → CallStep rd s s' (.resumeWrite k report)
  | quiet {i : Input κ ε} :
      (∀ r, (s'.lanes r).accepted = (s.lanes r).accepted) → (∀ k, CallMoves rd k (s.calls k) (s'.calls k)) →
      CallStep rd s s' i

/-- A step that leaves calls and acceptances alone. -/
theorem CallStep.still {i : Input κ ε} (hl : ∀ r, (s'.lanes r).accepted = (s.lanes r).accepted)
    (hc : s'.calls = s.calls) : CallStep rd s s' i :=
  .quiet hl fun k => by rw [hc]; exact .same _

theorem setLane_accepted {r : StorageRoute} {l : Lane κ ε} (h : l.accepted = (s.lanes r).accepted) (q : StorageRoute) :
    ((s.setLane r l).lanes q).accepted = (s.lanes q).accepted := by
  by_cases hq : q = r
  · subst hq; simpa [setLane] using h
  · simp [setLane, hq]

/-- The step at most wakes waiting calls. -/
def Woken (s s' : Output κ ε) : Prop := ∀ k, s'.calls k = s.calls k ∨ s'.calls k = (s.calls k).notify

theorem Woken.moves (h : Woken s s') (k : κ) : CallMoves rd k (s.calls k) (s'.calls k) := by
  rcases h k with h | h
  · rw [h]; exact .same _
  · rw [h]; exact .notified _

theorem proceed_calls {r : StorageRoute} {p : Progress κ ε} (h : p.lane.accepted = (s.lanes r).accepted) :
    (∀ q, ((s.proceed r p).lanes q).accepted = (s.lanes q).accepted) ∧ Woken s (s.proceed r p) := by
  cases p with
  | goes l => exact ⟨setLane_accepted h, fun k => .inl rfl⟩
  | fails l e => exact ⟨setLane_accepted h, fun k => .inr rfl⟩

variable [DecidableEq κ]

/-- One call is moved, and nothing is accepted. -/
theorem setCall_moves {k : κ} {c : WriteCall κ ε} (h : CallMoves rd k (s.calls k) c) (q : κ) :
    CallMoves rd q (s.calls q) ((s.setCall k c).calls q) := by
  by_cases hq : q = k
  · subst hq; simpa [setCall] using h
  · simpa [setCall, hq] using .same _

theorem accepted_accepts (rd : Reading ε) {r : StorageRoute} {d : BufferedDocument κ ε} (hr : rd.route d.event = r) :
    Accepts rd s (s.accepted r d) r d where
  call k hk := by simp [accepted, setCall, hk, reportBuffer, setLane, setBudget]
  returned := by simp [accepted, setCall]
  route := hr
  lane := by simp [accepted, setCall, reportBuffer, setLane, setBudget, Lane.accept]
  others q hq := by simp [accepted, setCall, reportBuffer, setLane, setBudget, hq]

omit [DecidableEq κ] in
theorem notify_notify (c : WriteCall κ ε) : c.notify.notify = c.notify := by cases c <;> rfl

omit [DecidableEq κ] in
theorem settled_accepted (s : Output κ ε) (r : StorageRoute) (ds : List (BufferedDocument κ ε)) (q : StorageRoute) :
    ((s.settled r ds).lanes q).accepted = (s.lanes q).accepted :=
  setLane_accepted (s := s) (l := (s.lanes r).settle ds) rfl q

omit [DecidableEq κ] in
/-- A worker that raises accepts nothing, and wakes every waiting call. -/
theorem insertFails_calls {t : Output κ ε} (r : StorageRoute) (passed inflight : List (BufferedDocument κ ε))
    (carry : Option (BufferedDocument κ ε)) (e : WorkerError) (ht : ∀ q, (t.lanes q).accepted = (s.lanes q).accepted)
    (hc : Woken s t) :
    (∀ q, (((t.setLane r { t.lanes r with inflight := inflight }).insertFails r passed carry e).lanes q).accepted =
      (s.lanes q).accepted) ∧
      Woken s ((t.setLane r { t.lanes r with inflight := inflight }).insertFails r passed carry e) := by
  refine ⟨fun q => ?_, fun k => ?_⟩
  · rw [← ht q]
    by_cases hq : q = r
    · subst hq; simp [insertFails, workerFails, notifyAll, setLane]
    · simp [insertFails, workerFails, notifyAll, setLane, hq]
  · refine .inr ?_
    show (t.calls k).notify = (s.calls k).notify
    rcases hc k with h | h
    · rw [h]
    · rw [h, notify_notify]

omit [DecidableEq κ] in
/-- The end of `insert_many` accepts nothing and at most wakes calls. -/
theorem insertDone_calls (hs : s.Inv) {r : StorageRoute} {batch : List (BufferedDocument κ ε)}
    {carry : Option (BufferedDocument κ ε)} (hw : (s.lanes r).worker = .inserting batch carry)
    (outcome : InsertOutcome) (expired : Bool) :
    (∀ q, ((s.insertDone cfg r batch carry outcome expired).lanes q).accepted = (s.lanes q).accepted) ∧
      Woken s (s.insertDone cfg r batch carry outcome expired) := by
  have hends := insertDone_ends cfg hs hw outcome expired
  generalize s.insertDone cfg r batch carry outcome expired = s' at hends ⊢
  cases hends with
  | goesOn =>
    have hlane : (s.settled r batch).lanes r = (s.lanes r).settle batch := Function.update_self ..
    have hm := (runWorker_moves cfg s.connected s.closeRequested expired
      { (s.lanes r).settle batch with inflight := [] } carry).accepted
    generalize Lane.runWorker cfg _ _ expired _ carry = p at hm
    replace hm : p.lane.accepted = ((s.settled r batch).lanes r).accepted := by rw [hlane]; exact hm
    obtain ⟨hl, hk⟩ := proceed_calls (s := s.settled r batch) hm
    refine ⟨fun q => (hl q).trans (settled_accepted s r batch q), fun k => .inr ?_⟩
    cases p with
    | goes l => rfl
    | fails l e => exact notify_notify _
  | raises => exact insertFails_calls _ _ _ _ _ (fun _ => rfl) fun _ => .inl rfl
  | confirms => exact insertFails_calls _ _ _ _ _ (settled_accepted s r _) fun _ => .inr rfl

/-- What a `write()` call waiting or about to wait does at the predicate of `acquire`. -/
theorem tryWrite_calls (rd : Reading ε) (hs : s.Inv) {r : StorageRoute} {d : BufferedDocument κ ε}
    (hr : rd.route d.event = r) (hw : CallMoves rd d.call (s.calls d.call) (.parked d false))
    (hc : s.calls d.call ≠ .returned) :
    Accepts rd s (s.tryWrite cfg r d .returns) r d ∨
      (∀ q, ((s.tryWrite cfg r d .returns).lanes q).accepted = (s.lanes q).accepted) ∧
        ∀ k, CallMoves rd k (s.calls k) ((s.tryWrite cfg r d .returns).calls k) := by
  rcases tryWrite_cases hs.failed r d with ⟨-, -, he⟩ | ⟨-, he⟩ | ⟨-, -, he⟩
  · rw [he]
    exact .inl (accepted_accepts rd hr)
  · rw [he]
    exact .inr ⟨fun _ => rfl, setCall_moves (.raises hc (by decide))⟩
  · rw [he]
    exact .inr ⟨fun _ => rfl, setCall_moves hw⟩

/-- **A step accepts the document of one call, or accepts nothing.** -/
theorem step_calls (hs : s.Inv) (hd : ∀ k d n, s.calls k = .parked d n → d.call = k) {i : Input κ ε}
    (hi : i.CallbacksReturn) (h : (machine cfg rd).step s i = some s') :
    CallStep rd s s' i := by
  cases effect_of_step h with
  | @write k event report hk =>
    cases hi
    have hraise : ∀ e, e ≠ .budgetNegative → CallStep rd s (s.setCall k (.raised e)) (.write k event .returns) :=
      fun e he => .quiet (fun _ => rfl) (setCall_moves (.raises (by rw [hk]; simp) he))
    unfold write
    split
    · refine hraise _ ?_
      split <;> decide
    · split
      · exact hraise _ (by decide)
      · split
        · exact hraise _ (by decide)
        · rename_i size hsize
          split
          · exact hraise _ (by decide)
          · rcases tryWrite_calls rd hs (d := ⟨k, event, size⟩) rfl
              (by simp only [hk]; exact .parks hsize) (by simp [hk]) with ha | ⟨hl, hc⟩
            · exact .written hk hsize ha
            · exact .quiet hl hc
  | @resumeWrite k d report hk =>
    cases hi
    cases hd k d true hk
    rcases tryWrite_calls rd hs (d := d) rfl (by rw [hk]; exact .waits) (by simp [hk]) with
      ha | ⟨hl, hc⟩
    · exact .resumed hk ha
    · exact .quiet hl hc
  | @cancelWrite k d n hk =>
    exact .quiet (fun _ => rfl) (setCall_moves (.raises (by rw [hk]; simp) (by decide)))
  | getTask hl => exact .still (setLane_accepted (getTask_moves hl).accepted) rfl
  | @worker r expired p hp =>
    have hacc : p.lane.accepted = (s.lanes r).accepted := by
      rcases resume_moves hp with ⟨-, hm⟩ | ⟨batch, carry, -, rfl⟩
      · exact hm.accepted
      · rfl
    exact .quiet (proceed_calls hacc).1 (proceed_calls hacc).2.moves
  | insertDone hw => exact .quiet (insertDone_calls hs hw _ _).1 (insertDone_calls hs hw _ _).2.moves
  | cancelWorker _ _ => exact .still (setLane_accepted rfl) rfl
  | close _ _ => exact .still (fun _ => rfl) rfl
  | workersDone _ _ => exact .still (fun _ => rfl) rfl
  | shutdownTimeout _ => exact .still (fun _ => rfl) rfl
  | clientClosed _ => exact .still (fun _ => rfl) rfl
  | cancelClose _ => exact .still (fun _ => rfl) rfl
  | reportFailure _ => exact .still (fun _ => rfl) rfl

/-- A call that has not been made is made by its own `write()` only. -/
theorem step_idle (hs : s.Inv) (hd : ∀ k d n, s.calls k = .parked d n → d.call = k) {i : Input κ ε}
    (hi : i.CallbacksReturn) (h : (machine cfg rd).step s i = some s') {k : κ} (hk : s.calls k = .idle)
    (hne : ∀ event report, i ≠ .write k event report) : s'.calls k = .idle := by
  have hwoken : Woken s s' → s'.calls k = .idle := fun hw => by
    rcases hw k with h | h
    · rw [h, hk]
    · rw [h, hk]; rfl
  have hset : ∀ q c, q ≠ k → (s.setCall q c).calls k = .idle := fun q c hq => by simp [setCall, hq.symm, hk]
  have htry : ∀ r d, d.call ≠ k → (s.tryWrite cfg r d .returns).calls k = .idle := fun r d hq => by
    rcases tryWrite_cases hs.failed r d with ⟨-, -, he⟩ | ⟨-, he⟩ | ⟨-, -, he⟩
    · rw [he]
      exact hset d.call .returned hq
    · rw [he]; exact hset _ _ hq
    · rw [he]; exact hset _ _ hq
  cases effect_of_step h with
  | @write q event report =>
    cases hi
    have hq : q ≠ k := by rintro rfl; exact hne event .returns rfl
    unfold write
    split
    · exact hset _ _ hq
    · split
      · exact hset _ _ hq
      · split
        · exact hset _ _ hq
        · split
          · exact hset _ _ hq
          · exact htry _ _ hq
  | @resumeWrite q d report hq =>
    cases hi
    obtain rfl := hd q d true hq
    exact htry _ _ fun heq => by rw [heq, hk] at hq; cases hq
  | cancelWrite hq => exact hset _ _ fun heq => by rw [heq, hk] at hq; cases hq
  | @worker r expired p hp =>
    have hacc : p.lane.accepted = (s.lanes r).accepted := by
      rcases resume_moves hp with ⟨-, hm⟩ | ⟨batch, carry, -, rfl⟩
      · exact hm.accepted
      · rfl
    exact hwoken (proceed_calls hacc).2
  | insertDone hw => exact hwoken (insertDone_calls hs hw _ _).2
  | _ => exact hk

/-! ## Calls and accepted documents agree -/

/-- Waiting calls carry their own document; accepted documents are those of the calls that have returned. -/
structure Tracked (rd : Reading ε) (s : Output κ ε) : Prop where
  parked : ∀ k d n, s.calls k = .parked d n → d.call = k ∧ rd.bsonSize d.event = some d.bsonSize
  accepted : ∀ r, ∀ d ∈ (s.lanes r).accepted,
    s.calls d.call = .returned ∧ rd.route d.event = r ∧ rd.bsonSize d.event = some d.bsonSize
  nodup : ∀ r, (s.lanes r).accepted.Nodup
  same : ∀ r q, ∀ d ∈ (s.lanes r).accepted, ∀ d' ∈ (s.lanes q).accepted, d.call = d'.call → d = d'
  returned : ∀ k, s.calls k = .returned → ∃ r, ∃ d ∈ (s.lanes r).accepted, d.call = k
  sound : ∀ k, s.calls k ≠ .raised .budgetNegative

omit [DecidableEq κ] in
theorem opened_tracked : Tracked rd (opened : Output κ ε) where
  parked _ _ _ h := nomatch h
  accepted _ _ h := nomatch h
  nodup _ := List.nodup_nil
  same _ _ _ h := nomatch h
  returned _ h := nomatch h
  sound _ h := nomatch h

omit [DecidableEq κ] in
/-- Every accepted document is an old one or the new one. -/
theorem Accepts.mem {r q : StorageRoute} {d e : BufferedDocument κ ε} (h : Accepts rd s s' r d)
    (he : e ∈ (s'.lanes q).accepted) : e ∈ (s.lanes q).accepted ∨ q = r ∧ e = d := by
  by_cases hq : q = r
  · subst hq
    rw [h.lane] at he
    simpa using he
  · rw [h.others q hq] at he
    exact .inl he

omit [DecidableEq κ] in
/-- Accepting the document of a call that has not returned. -/
theorem Tracked.accepts (ht : Tracked rd s) {r : StorageRoute} {d : BufferedDocument κ ε} (h : Accepts rd s s' r d)
    (hc : s.calls d.call ≠ .returned) (hsize : rd.bsonSize d.event = some d.bsonSize) : Tracked rd s' := by
  have hold : ∀ q, ∀ e ∈ (s.lanes q).accepted, e.call ≠ d.call := fun q e he heq =>
    hc (heq ▸ (ht.accepted q e he).1)
  have hkeep : ∀ q, (s.lanes q).accepted ⊆ (s'.lanes q).accepted := by
    intro q e he
    by_cases hq : q = r
    · subst hq; rw [h.lane]; exact List.mem_append_left _ he
    · rwa [h.others q hq]
  constructor
  case parked =>
    intro k e n hk
    have hne : k ≠ d.call := by rintro rfl; rw [h.returned] at hk; cases hk
    exact ht.parked k e n (h.call k hne ▸ hk)
  case accepted =>
    intro q e he
    rcases h.mem he with he | ⟨rfl, rfl⟩
    · rw [h.call _ (hold q e he)]
      exact ht.accepted q e he
    · exact ⟨h.returned, h.route, hsize⟩
  case nodup =>
    intro q
    by_cases hq : q = r
    · subst hq
      rw [h.lane, List.nodup_append]
      refine ⟨ht.nodup q, List.nodup_singleton d, fun e he e' he' heq => ?_⟩
      cases List.mem_singleton.1 he'
      exact hold q e he (congrArg _ heq)
    · rw [h.others q hq]
      exact ht.nodup q
  case same =>
    intro q q' e he e' he' heq
    rcases h.mem he with he | ⟨-, rfl⟩
    · rcases h.mem he' with he' | ⟨-, rfl⟩
      · exact ht.same q q' e he e' he' heq
      · exact absurd heq (hold q e he)
    · rcases h.mem he' with he' | ⟨-, rfl⟩
      · exact absurd heq.symm (hold q' e' he')
      · rfl
  case returned =>
    intro k hk
    by_cases hne : k = d.call
    · exact ⟨r, d, by rw [h.lane]; simp, hne.symm⟩
    · obtain ⟨q, e, he, heq⟩ := ht.returned k (h.call k hne ▸ hk)
      exact ⟨q, e, hkeep q he, heq⟩
  case sound =>
    intro k hk
    have hne : k ≠ d.call := by rintro rfl; rw [h.returned] at hk; cases hk
    exact ht.sound k (h.call k hne ▸ hk)

omit [DecidableEq κ] in
/-- Moving calls without accepting. -/
theorem Tracked.moves (ht : Tracked rd s) (hl : ∀ r, (s'.lanes r).accepted = (s.lanes r).accepted)
    (hc : ∀ k, CallMoves rd k (s.calls k) (s'.calls k)) : Tracked rd s' := by
  constructor
  case parked =>
    intro k d n hk
    rcases (hc k).parked hk with ⟨m, hm⟩ | ⟨-, h⟩
    · exact ht.parked k d m hm
    · exact h
  case accepted =>
    intro r d hd
    rw [hl] at hd
    obtain ⟨h, h'⟩ := ht.accepted r d hd
    exact ⟨(hc _).returned_iff.2 h, h'⟩
  case nodup =>
    intro r
    rw [hl]
    exact ht.nodup r
  case same =>
    intro r q d hd d' hd' heq
    rw [hl] at hd hd'
    exact ht.same r q d hd d' hd' heq
  case returned =>
    intro k hk
    obtain ⟨r, d, hd, heq⟩ := ht.returned k ((hc k).returned_iff.1 hk)
    exact ⟨r, d, by rwa [hl], heq⟩
  case sound =>
    intro k
    exact (hc k).sound (ht.sound k)

/-- **A step keeps calls and acceptances in agreement.** -/
theorem step_tracked (hs : s.Inv) (ht : Tracked rd s) {i : Input κ ε} (hi : i.CallbacksReturn)
    (h : (machine cfg rd).step s i = some s') : Tracked rd s' := by
  cases step_calls hs (fun k d n hk => (ht.parked k d n hk).1) hi h with
  | written hk hsize ha => exact ht.accepts ha (by simp [hk]) hsize
  | @resumed r k d report hk ha =>
    obtain ⟨rfl, hsize⟩ := ht.parked k d true hk
    exact ht.accepts ha (by simp [hk]) hsize
  | quiet hl hc => exact ht.moves hl hc

theorem path_tracked {is : List (Input κ ε)} (h : (machine cfg rd).Path Quiet s is s') (hs : s.Inv)
    (ht : Tracked rd s) : s'.Inv ∧ Tracked rd s' :=
  h.invariant (I := fun s => s.Inv ∧ Tracked rd s)
    (fun _ _ _ hi hI hstep => ⟨(step_sound hI.1 hi hstep).1, step_tracked hI.1 hI.2 hi hstep⟩) ⟨hs, ht⟩

/-! ## The document of one call -/

/-- `write(event)` has been called as `k`: a document that waits or is accepted for `k` carries `event`. -/
def Written (k : κ) (event : ε) (s : Output κ ε) : Prop :=
  s.calls k ≠ .idle ∧ (∀ d n, s.calls k = .parked d n → d.event = event) ∧
    ∀ r, ∀ d ∈ (s.lanes r).accepted, d.call = k → d.event = event

omit [DecidableEq κ] in
/-- An acceptance that is not for another event of the call `k`. -/
theorem Written.accepts {k : κ} {event : ε} (hw : Written k event s) {r : StorageRoute} {d : BufferedDocument κ ε}
    (h : Accepts rd s s' r d) (hd : d.call = k → d.event = event) : Written k event s' := by
  obtain ⟨hidle, hpark, hacc⟩ := hw
  refine ⟨?_, fun e n hk => ?_, fun q e he hk => ?_⟩
  · by_cases hk : k = d.call
    · rw [hk, h.returned]; simp
    · rwa [h.call k hk]
  · have hne : k ≠ d.call := by rintro rfl; rw [h.returned] at hk; cases hk
    exact hpark e n (h.call k hne ▸ hk)
  · rcases h.mem he with he | ⟨-, rfl⟩
    · exact hacc q e he hk
    · exact hd hk

theorem Written.step {k : κ} {event : ε} (hs : s.Inv) (ht : Tracked rd s) (hw : Written k event s) {i : Input κ ε}
    (hi : i.CallbacksReturn) (h : (machine cfg rd).step s i = some s') : Written k event s' := by
  cases step_calls hs (fun k d n hk => (ht.parked k d n hk).1) hi h with
  | written hk hsize ha => exact hw.accepts ha fun heq => absurd (heq ▸ hk) hw.1
  | @resumed r q d report hk ha =>
    obtain ⟨rfl, -⟩ := ht.parked q d true hk
    exact hw.accepts ha fun heq => hw.2.1 d true (heq ▸ hk)
  | quiet hl hc =>
    refine ⟨(hc k).not_idle hw.1, fun d n hk => ?_, fun r d hd heq => hw.2.2 r d (hl r ▸ hd) heq⟩
    rcases (hc k).parked hk with ⟨m, hm⟩ | ⟨hidle, -⟩
    · exact hw.2.1 d m hm
    · exact absurd hidle hw.1

/-- After `write(event)` has been called as `k`. -/
theorem write_written {k : κ} {event : ε} (hs : s.Inv) (ht : Tracked rd s) (hk : s.calls k = .idle) :
    Written k event (s.write cfg rd k event .returns) := by
  have hnone : ∀ r, ∀ d ∈ (s.lanes r).accepted, d.call ≠ k := fun r d hd heq => by
    have := (ht.accepted r d hd).1
    rw [heq, hk] at this
    cases this
  have hset : ∀ c, c ≠ .idle → (∀ d n, c = .parked d n → d.event = event) → Written k event (s.setCall k c) :=
    fun c hc hd => ⟨by simpa [setCall] using hc, by simpa [setCall] using hd, fun r d hd' heq =>
      absurd heq (hnone r d hd')⟩
  have hraise : ∀ e, Written k event (s.setCall k (.raised e)) := fun e => hset _ (by simp) (by simp)
  unfold write
  split
  · exact hraise _
  · split
    · exact hraise _
    · split
      · exact hraise _
      · split
        · exact hraise _
        · rename_i size _ _
          rcases tryWrite_cases hs.failed (rd.route event) ⟨k, event, size⟩ with
            ⟨-, -, he⟩ | ⟨-, he⟩ | ⟨-, -, he⟩
          · rw [he]
            have ha := accepted_accepts rd (s := s) (d := ⟨k, event, size⟩) rfl
            refine ⟨by rw [ha.returned]; simp, fun d n hd => ?_, fun r d hd heq => ?_⟩
            · rw [ha.returned] at hd; cases hd
            · rcases ha.mem hd with hd | ⟨-, rfl⟩
              · exact absurd heq (hnone r d hd)
              · rfl
          · rw [he]; exact hraise _
          · rw [he]
            exact hset _ (by simp) fun d n hd => by cases hd; rfl

/-- In a run in which `write(event)` has been called as `k`, the documents of `k` carry `event`. -/
theorem path_written {is : List (Input κ ε)} {k : κ} {event : ε} {report : Callback}
    (h : (machine cfg rd).Path Quiet s is s') (hs : s.Inv) (ht : Tracked rd s) (hmem : .write k event report ∈ is) :
    Written k event s' := by
  obtain ⟨pre, post, rfl⟩ := List.append_of_mem hmem
  obtain ⟨s₁, h₁, h₂⟩ := h.split
  obtain ⟨hi, s₂, hstep, h₃⟩ := Machine.Path.cons_iff.1 h₂
  obtain ⟨hs₁, ht₁⟩ := path_tracked h₁ hs ht
  have hs₂ : s₂.Inv ∧ Tracked rd s₂ := ⟨(step_sound hs₁ hi hstep).1, step_tracked hs₁ ht₁ hi hstep⟩
  have hw : Written k event s₂ := by
    cases effect_of_step hstep with
    | write hk => cases hi; exact write_written hs₁ ht₁ hk
  exact (h₃.invariant (I := fun s => (s.Inv ∧ Tracked rd s) ∧ Written k event s)
    (fun _ _ _ hi hI hstep => ⟨⟨(step_sound hI.1.1 hi hstep).1, step_tracked hI.1.1 hI.1.2 hi hstep⟩,
      hI.2.step hI.1.1 hI.1.2 hi hstep⟩) ⟨hs₂, hw⟩).2

/-- A call that the run does not make stays idle. -/
theorem path_idle {is : List (Input κ ε)} {k : κ} (h : (machine cfg rd).Path Quiet s is s') (hs : s.Inv)
    (ht : Tracked rd s) (hk : s.calls k = .idle) (hnot : ∀ event report, .write k event report ∉ is) :
    s'.calls k = .idle := by
  induction h with
  | nil => exact hk
  | @cons s s₁ s' i is hi hstep _ ih =>
    have hparked : ∀ k d n, s.calls k = .parked d n → d.call = k := fun k d n hk => (ht.parked k d n hk).1
    refine ih (step_sound hs hi hstep).1 (step_tracked hs ht hi hstep) ?_ fun event report hmem =>
      hnot event report (List.mem_cons_of_mem _ hmem)
    refine step_idle hs hparked hi hstep hk fun event report heq => hnot event report ?_
    rw [heq]
    exact List.mem_cons_self

/-- A call that is not idle any more has been made in the run. -/
theorem path_called {is : List (Input κ ε)} {k : κ} (h : (machine cfg rd).Path Quiet opened is s)
    (hk : s.calls k ≠ .idle) : ∃ event report, .write k event report ∈ is := by
  by_contra hnone
  push Not at hnone
  exact hk (path_idle h opened_inv opened_tracked rfl hnone)

/-- **What has been accepted**: the documents of the calls of the run that have returned. -/
theorem path_accepted {is : List (Input κ ε)} (h : (machine cfg rd).Path Quiet opened is s) {r : StorageRoute}
    {d : BufferedDocument κ ε} : d ∈ (s.lanes r).accepted ↔
      s.calls d.call = .returned ∧ (∃ report, .write d.call d.event report ∈ is) ∧ rd.route d.event = r ∧
        rd.bsonSize d.event = some d.bsonSize := by
  obtain ⟨-, ht⟩ := path_tracked h opened_inv opened_tracked
  constructor
  · intro hd
    obtain ⟨hcall, hroute⟩ := ht.accepted r d hd
    obtain ⟨event, report, hmem⟩ := path_called h (k := d.call) (by rw [hcall]; simp)
    obtain rfl : d.event = event := (path_written h opened_inv opened_tracked hmem).2.2 r d hd rfl
    exact ⟨hcall, ⟨report, hmem⟩, hroute⟩
  · rintro ⟨hcall, ⟨report, hmem⟩, rfl, hsize⟩
    obtain ⟨q, d', hd', heq⟩ := ht.returned _ hcall
    obtain ⟨-, rfl, hsize'⟩ := ht.accepted q d' hd'
    have hevent : d'.event = d.event := (path_written h opened_inv opened_tracked hmem).2.2 _ d' hd' heq
    have hbson : d'.bsonSize = d.bsonSize := Option.some.inj (hsize'.symm.trans (hevent ▸ hsize))
    obtain rfl : d' = d := by
      cases d
      cases d'
      exact (BufferedDocument.mk.injEq ..).mpr ⟨heq, hevent, hbson⟩
    exact hd'

/-! ## Main results -/

omit [DecidableEq κ] in
/-- The documents passed to `insert_many` are among the accepted ones, in order. -/
theorem Inv.inserted_prefix (hs : s.Inv) (r : StorageRoute) :
    (s.lanes r).insertCalls.flatten <+: (s.lanes r).accepted := by
  rw [(hs.lanes r).inserted, (hs.lanes r).accepted, Lane.held, List.append_assoc, ← List.append_assoc]
  exact List.prefix_append _ _

/-- **Conservation, order and exact accounting** over every run. The accepted documents are those of the `write()`
calls that have returned. -/
theorem conservation {is : List (Input κ ε)} (h : (machine cfg rd).Path Quiet opened is s) :
    (∀ r d, d ∈ (s.lanes r).accepted ↔ s.calls d.call = .returned ∧
      (∃ report, .write d.call d.event report ∈ is) ∧ rd.route d.event = r ∧
        rd.bsonSize d.event = some d.bsonSize) ∧
    (∀ r, (s.lanes r).accepted = (s.lanes r).confirmed ++ (s.lanes r).held ∧
      (s.lanes r).insertCalls.flatten <+: (s.lanes r).accepted ∧
      (s.lanes r).insertCalls.flatten = (s.lanes r).confirmed ++ (s.lanes r).worker.passed ∧
      (s.lanes r).insertCalls.flatten.Nodup ∧
      (s.lanes r).pendingDocuments = (s.lanes r).held.length ∧
      (s.lanes r).pendingBytes = byteCount (s.lanes r).held) ∧
    (∀ r q, ∀ d ∈ (s.lanes r).insertCalls.flatten, ∀ d' ∈ (s.lanes q).insertCalls.flatten,
      d.call = d'.call → r = q ∧ d = d') ∧
    s.budget.documents = ∑ r, (s.lanes r).pendingDocuments ∧ s.budget.bytes = ∑ r, (s.lanes r).pendingBytes := by
  obtain ⟨hs, ht⟩ := path_tracked h opened_inv opened_tracked
  refine ⟨fun r d => path_accepted h, fun r => ⟨(hs.lanes r).accepted, hs.inserted_prefix r, (hs.lanes r).inserted,
    (ht.nodup r).sublist (hs.inserted_prefix r).sublist, (hs.lanes r).pendingDocuments, (hs.lanes r).pendingBytes⟩,
    fun r q d hd d' hd' heq => ?_, ?_, ?_⟩
  · have hr := (hs.inserted_prefix r).subset hd
    have hq := (hs.inserted_prefix q).subset hd'
    have heq := ht.same r q d hr d' hq heq
    exact ⟨(ht.accepted r d hr).2.1.symm.trans (heq ▸ (ht.accepted q d' hq).2.1), heq⟩
  · rw [hs.documents, Ledger.Book.count, Nat.cast_sum]
    exact Finset.sum_congr rfl fun r _ => (hs.lanes r).pendingDocuments.symm
  · rw [hs.bytes, Ledger.Book.load, Nat.cast_sum]
    exact Finset.sum_congr rfl fun r _ => (hs.lanes r).pendingBytes.symm

/-- A buffer for one document of at most a hundred bytes. -/
def singleBuffer : Settings := (Settings.ofArguments 1 100 1 100 1).get (by decide)

/-- A buffer for three documents, inserted in batches of two. -/
def tripleBuffer : Settings := (Settings.ofArguments 3 100 2 100 1).get (by decide)

/-- Events that name their route, of ten bytes each. -/
def routeEvents : Reading StorageRoute := ⟨fun _ => some 10, id⟩

instance : DecidablePred (Input.CallbacksReturn (κ := κ) (ε := ε))
  | .write _ _ report | .resumeWrite _ report => decEq report .returns
  | .cancelWrite _ | .getTask _ | .worker _ _ | .insertDone _ _ _ | .cancelWorker _ | .close | .workersDone
  | .shutdownTimeout | .clientClosed _ | .cancelClose | .reportFailure => isTrue trivial

/-- Three documents are accepted, the first batch of two is confirmed by half, and the third one stays with the
worker that failed. -/
theorem conservation_partialBulk : ∃ is, ∃ s : Output ℕ StorageRoute,
    (machine tripleBuffer routeEvents).Path Quiet opened is s ∧
    (s.lanes .aggTrade).confirmed.map (·.call) = [0] ∧ (s.lanes .aggTrade).held.map (·.call) = [1, 2] ∧
      (s.lanes .aggTrade).accepted = (s.lanes .aggTrade).confirmed ++ (s.lanes .aggTrade).held ∧
      s.budget.documents = ∑ r, (s.lanes r).pendingDocuments ∧
      (∀ d, d ∈ (s.lanes .aggTrade).accepted → s.calls d.call = .returned) := by
  obtain ⟨s, hs, hp⟩ := Machine.exists_path_of_check (M := machine tripleBuffer routeEvents) (P := Quiet)
    (p := fun s : Output ℕ StorageRoute => decide ((s.lanes .aggTrade).confirmed.map (·.call) = [0] ∧
      (s.lanes .aggTrade).held.map (·.call) = [1, 2])) opened
    [.write 0 .aggTrade .returns, .write 1 .aggTrade .returns, .write 2 .aggTrade .returns,
      .worker .aggTrade false, .worker .aggTrade false, .insertDone .aggTrade (.bulkWriteError 1) false] (by decide)
  obtain ⟨h, h'⟩ := of_decide_eq_true hp
  have hc := conservation hs
  exact ⟨_, s, hs, h, h', (hc.2.1 .aggTrade).1, hc.2.2.2.1, fun d hd => ((hc.1 .aggTrade d).1 hd).1⟩

/-- **The memory bound** over every run: what is accepted and not confirmed stays within the buffer, no release makes
a counter negative, and a document larger than the buffer changes nothing but the outcome of its own call. -/
theorem buffer_bounded {is : List (Input κ ε)} (h : (machine cfg rd).Path Quiet opened is s) :
    (∑ r, (s.lanes r).held.length) ≤ cfg.bufferMaxDocuments ∧
    (∑ r, byteCount (s.lanes r).held) ≤ cfg.bufferMaxBytes ∧
    0 ≤ s.budget.documents ∧ 0 ≤ s.budget.bytes ∧
    (∀ p ∈ s.workerErrors, p.2 ≠ .budgetNegative) ∧ (∀ k, s.calls k ≠ .raised .budgetNegative) ∧
    ∀ k event size report s', rd.bsonSize event = some size → cfg.bufferMaxBytes < size →
      (machine cfg rd).step s (.write k event report) = some s' →
      ∃ e, s' = s.setCall k (.raised e) ∧ (s.lifecycle = .open → s.workerErrors = [] → e = .capacity) := by
  obtain ⟨hs, ht⟩ := path_tracked h opened_inv opened_tracked
  obtain ⟨es, hes⟩ := path_refines h opened_inv
  obtain ⟨hcount, hload⟩ := Ledger.path_within hes (by rw [opened_book]; exact Ledger.empty_within)
  refine ⟨hcount, hload, by rw [hs.documents]; omega, by rw [hs.bytes]; omega, fun p hp => (hs.errors p hp).2, ht.sound,
    fun k event size report s' hsize hlt hstep => ?_⟩
  cases effect_of_step hstep
  unfold write
  by_cases ho : s.lifecycle = .open
  · by_cases he : s.workerErrors = []
    · exact ⟨.capacity, by simp [ho, he, hsize, hlt], fun _ _ => rfl⟩
    · exact ⟨.workerFailed, by simp [ho, he], fun _ h => absurd h he⟩
  · exact ⟨if s.workerErrors ≠ [] then .workerFailed else .state, by simp [ho], fun h => absurd h ho⟩

/-- The buffer is full: the second document waits. -/
theorem buffer_bounded_full : ∃ is, ∃ s : Output ℕ StorageRoute,
    (machine singleBuffer routeEvents).Path Quiet opened is s ∧ s.budget.documents = 1 ∧
    s.calls 1 = .parked ⟨1, .kline, 10⟩ false ∧ (∑ r, (s.lanes r).held.length) ≤ 1 := by
  obtain ⟨s, hs, hp⟩ := Machine.exists_path_of_check (M := machine singleBuffer routeEvents) (P := Quiet)
    (p := fun s : Output ℕ StorageRoute => decide (s.budget.documents = 1 ∧
      s.calls 1 = .parked ⟨1, .kline, 10⟩ false)) opened [.write 0 .aggTrade .returns, .write 1 .kline .returns]
    (by decide)
  obtain ⟨hb, hc⟩ := of_decide_eq_true hp
  exact ⟨_, s, hs, hb, hc, (buffer_bounded hs).1⟩

end BinanceCollector.MultiMongo.Output
