import BinanceCollector.Outputs.EventOutput
import BinanceCollector.Outputs.QueueWaits

/-!
# `MongoBatchOutput` keeps the contract of an output

The machine of the single-collection output as a `FailureAwareEventOutput`: accepted are the documents that have been
put into the queue, and stored the confirmed ones.

- `done_of_step`: a put task is done by its own step only, which puts its document.
- **`eventOutput_lawful`**: the contract.
-/

namespace BinanceCollector.Mongo

open Steps

/-- The caller's view of a `write()`. -/
def WriteCall.status : WriteCall → WriteStatus
  | .idle => .idle
  | .racing | .abandoning _ | .leaving _ => .waiting
  | .returned => .returned
  | .raised _ => .raised

/-- The caller's view of `close()`. -/
def closeStatus : CloseCall → CloseStatus
  | .idle => .idle
  | .gathering | .reaping | .closingClient _ => .waiting
  | .returned => .returned
  | .raised _ => .raised

namespace Output

/-- A document with the number of its call. -/
def entry (d : Document ℕ Event) : ℕ × Event := (d.call, d.event)

/-- `MongoBatchOutput` with these settings. -/
def eventOutput (cfg : Settings) : EventOutput (Output ℕ Event) (Input ℕ Event) where
  machine := machine cfg
  opened := opened
  failureAware := true
  input
    | .write k event => .write k event
    | .cancelWrite k => .cancelWrite k
    | .close => .close
    | .cancelClose => .cancelClose
    | .reportFailure => .reportFailure
  request
    | .write k event => some (.write k event)
    | .cancelWrite k => some (.cancelWrite k)
    | .close => some .close
    | .cancelClose => some .cancelClose
    | .reportFailure => some .reportFailure
    | _ => none
  call o k := (o.calls k).status
  closing o := closeStatus o.closeCall
  reported o := o.failureReported
  held o k := (o.puts k).document.map (·.event)
  accepted o := o.accepted.map entry
  stored o := o.confirmed.map entry

section

variable {κ ε : Type*} [DecidableEq κ] {cfg : Settings} {s s' : Output κ ε}

/-! ## Put tasks -/

theorem setPut_done {k q : κ} {p : PutTask κ ε} (hp : p = .done → s.puts k = .done)
    (hd : (s.setPut k p).puts q = .done) : s.puts q = .done := by
  change Function.update s.puts k p q = .done at hd
  by_cases hq : q = k
  · subst hq
    rw [Function.update_self] at hd
    exact hp hd
  · rwa [Function.update_of_ne hq] at hd

theorem wakeup_done {n : ℕ} {q : κ} (hd : (s.wakeup n).puts q = .done) : s.puts q = .done := by
  obtain ⟨putters, puts, heq, hsame⟩ := wakeup_spec s n
  rw [heq] at hd
  exact (hsame q).done_iff.1 hd

theorem drain_done {q : κ} (hd : (s.drain cfg).puts q = .done) : s.puts q = .done := by
  have hputs : (s.drain cfg).puts =
      ({ s with queue := s.queue.drop cfg.batchMaxsize }.wakeup (s.queue.take cfg.batchMaxsize).length).puts := by
    unfold drain
    dsimp only
    split
    · rfl
    · split <;> rfl
  rw [hputs] at hd
  exact wakeup_done (s := { s with queue := s.queue.drop cfg.batchMaxsize }) hd

/-- **A put task is done by its own step**, which puts its document. -/
theorem done_of_step {i : Input κ ε} (h : (machine cfg).step s i = some s') {q : κ} (hd : s'.puts q = .done) :
    s.puts q = .done ∨ i = .putTask q ∧ ∃ d, (s.puts q).document = some d ∧ s'.accepted = s.accepted ++ [d] := by
  change step cfg s i = some s' at h
  cases i with
  | write k event =>
    simp only [step] at h
    split at h <;> cases h
    unfold write at hd
    split at hd
    · exact .inl hd
    split at hd
    · exact .inl hd
    · exact .inl (setPut_done (by rintro ⟨⟩) hd)
  | putTask k =>
    have htry : ∀ d, (s.puts k).document = some d → s' = s.tryPut cfg k d →
        s.puts q = .done ∨ Input.putTask k = (.putTask q : Input κ ε) ∧
          ∃ d, (s.puts q).document = some d ∧ s'.accepted = s.accepted ++ [d] := by
      rintro d hdoc rfl
      unfold tryPut at hd ⊢
      split at hd
      · exact .inl (setPut_done (by rintro ⟨⟩) hd)
      · rename_i hfull
        by_cases hq : q = k
        · subst hq
          exact .inr ⟨rfl, d, hdoc, by rw [if_neg hfull]⟩
        · refine .inl ?_
          rwa [show ({ s.setPut k .done with
            queue := s.queue ++ [d], unfinishedTasks := s.unfinishedTasks + 1, accepted := s.accepted ++ [d] } :
              Output κ ε).puts q = Function.update s.puts k .done q from rfl, Function.update_of_ne hq] at hd
    simp only [step, runPut] at h
    split at h
    · exact htry _ (by rw [‹s.puts k = _›]; rfl) (Option.some.inj h).symm
    · exact htry _ (by rw [‹s.puts k = _›]; rfl) (Option.some.inj h).symm
    · cases h
      refine .inl (setPut_done (k := k) (p := .cancelled) (by rintro ⟨⟩) ?_)
      split at hd
      · exact wakeup_done hd
      · exact hd
    · cases h
  | resumeWrite k =>
    simp only [step, resumeWrite] at h
    have hcancel : ∀ {p : PutTask κ ε}, p.cancel = .done → p = .done := by
      intro p hp
      cases p <;> first | rfl | cases hp
    split at h
    · split at h <;> cases h
      · exact .inl hd
      · exact .inl (setPut_done (s := s) hcancel hd)
    · split at h <;> cases h
      exact .inl hd
    all_goals cases h <;> exact .inl hd
  | cancelWrite k =>
    simp only [step, cancelWrite] at h
    split at h <;> cases h <;> exact .inl hd
  | worker =>
    simp only [step, runWorker] at h
    split at h
    · cases h
      split at hd
      · exact .inl (drain_done hd)
      · exact .inl hd
    · cases h; exact .inl (drain_done hd)
    · cases h
  | insertDone ok =>
    simp only [step] at h
    split at h <;> cases h
    rename_i batch _
    unfold insertDone at hd
    cases ok with
    | false => exact .inl hd
    | true =>
      simp only [if_true] at hd
      split at hd
      · exact .inl hd
      split at hd
      · split at hd
        · exact .inl hd
        · exact .inl (drain_done (s := { s with
            inflightBatch := [], unfinishedTasks := s.unfinishedTasks - batch.length
            confirmed := s.confirmed ++ batch }) hd)
      · exact .inl hd
  | failureTask k | cancelWorker | reportFailure =>
    simp only [step, Option.ite_none_right_eq_some, Option.some.injEq] at h
    obtain ⟨-, rfl⟩ := h
    exact .inl hd
  | close | workerDone | shutdownTimeout | clientClosed ok | cancelClose =>
    simp only [step] at h
    split at h <;> cases h <;> exact .inl hd

end

variable {cfg : Settings} {s s' : Output ℕ Event} {i : Input ℕ Event}

/-! ## The effect of a step -/

theorem document_of_same {p q : PutTask ℕ Event} (h : p.Same q) : q.document.map (·.event) = p.document.map (·.event) :=
  congrArg _ h.document

theorem document_cancel (p : PutTask ℕ Event) : p.cancel.document = p.document ∨ p.cancel.document = none := by
  cases p <;> first | exact .inl rfl | exact .inr rfl

theorem held_of_put {k : ℕ} {p : PutTask ℕ Event} (h : s.puts k = p) :
    (eventOutput cfg).held s k = p.document.map (·.event) := by
  rw [← h]
  rfl

/-- Calls that no caller takes part in and that put nothing are left alone. -/
theorem Move.untouched {q : ℕ} (h : Move s s' i q) (hput : s'.puts q = .done → s.puts q = .done)
    (hw : ∀ event, i ≠ .write q event) (hr : i ≠ .resumeWrite q) (hc : i ≠ .cancelWrite q) :
    s'.calls q = s.calls q ∧ (s.puts q).Same (s'.puts q) := by
  cases h with
  | still hcall hsame => exact ⟨hcall, hsame⟩
  | puts hdoc _ hdone => rw [hput hdone] at hdoc; cases hdoc
  | starts heq | rejects heq => exact absurd heq (hw _)
  | abandons heq | leaves heq | givesUp heq | returns heq | raises heq => exact absurd heq hr
  | cancelled heq => exact absurd heq hc

/-- A call that neither begins nor returns and puts nothing goes on waiting or raises. -/
theorem Move.stays {q : ℕ} (h : Move s s' i q) (hput : s'.puts q = .done → s.puts q = .done)
    (hw : ∀ event, i ≠ .write q event) (hr : i = .resumeWrite q → s.calls q ≠ .leaving none) :
    EventOutput.Stays (s.calls q).status (s'.calls q).status ∧
      ((s'.puts q).document.map (·.event) = (s.puts q).document.map (·.event) ∨
        (s'.puts q).document.map (·.event) = none) := by
  cases h with
  | still hcall hsame => exact ⟨.inl (by rw [hcall]), .inl (document_of_same hsame)⟩
  | puts hdoc _ hdone => rw [hput hdone] at hdoc; cases hdoc
  | starts heq | rejects heq => exact absurd heq (hw _)
  | abandons _ hk _ hk' hp =>
    refine ⟨.inl (by rw [hk, hk']; rfl), ?_⟩
    rw [hp]
    exact (document_cancel (s.puts q)).imp (fun hd => by rw [hd]) fun hd => by rw [hd]; rfl
  | leaves _ hk _ hk' hp | givesUp _ hk hk' hp => exact ⟨.inl (by rw [hk, hk']; rfl), .inl (by rw [hp])⟩
  | returns heq hk => exact absurd hk (hr heq)
  | raises _ hk hk' hp => exact ⟨.inr ⟨by rw [hk]; rfl, by rw [hk']; rfl⟩, .inl (by rw [hp])⟩
  | cancelled _ hk hp hcase =>
    refine ⟨.inl ?_, .inl (by rw [hp])⟩
    rcases hcase with ⟨rfl, hk'⟩ | ⟨⟨b, rfl⟩, hk'⟩ | ⟨⟨e, rfl⟩, hk'⟩ <;> rw [hk, hk'] <;> rfl

/-- What every run keeps: `Sound`, put tasks that are done have put their document, and the queue and the batch stay
within their sizes. -/
structure Contract (cfg : Settings) (s : Output ℕ Event) : Prop where
  sound : Sound cfg s
  done : ∀ k, s.puts k = .done → k ∈ s.accepted.map (·.call)
  waits : Waits cfg s
  batch : s.worker.batch.length ≤ cfg.batchMaxsize

theorem accepted_of_flow (h : Flow s s') : s'.accepted = s.accepted ∨ ∃ d, s'.accepted = s.accepted ++ [d] := by
  cases h with
  | put _ _ ha => exact .inr ⟨_, ha⟩
  | work _ ha => exact .inl ha

theorem step_contract (h : Contract cfg s) (hstep : (machine cfg).step s i = some s') : Contract cfg s' where
  sound := step_sound h.sound hstep
  waits := step_waits h.sound.inv h.waits hstep
  batch := (step_turn h.sound.inv h.sound.closing.ready h.sound.ordered.held hstep).1.batch_le h.batch
  done k hk := by
    rcases done_of_step hstep hk with hdone | ⟨-, d, hd, ha⟩
    · have hmem := h.done k hdone
      rcases accepted_of_flow (step_spec hstep).2 with ha | ⟨d, ha⟩
      · rwa [ha]
      · rw [ha, List.map_append]
        exact List.mem_append_left _ hmem
    · rw [ha, List.map_append, List.map_singleton, h.sound.inv.pending k d hd]
      exact List.mem_append_right _ (List.mem_singleton_self _)

/-- What is accepted and not confirmed fits into the queue and a batch. -/
theorem Contract.bounded (h : Contract cfg s) :
    s.accepted.length ≤ s.confirmed.length + cfg.batchMaxsize + cfg.queueMaxsize := by
  rw [h.sound.inv.conserved, List.length_append, List.length_append]
  have hqueue := h.waits.bound
  have hbatch := h.batch
  omega

theorem map_entry_fst (ds : List (Document ℕ Event)) : (ds.map entry).map (·.1) = ds.map (·.call) := by
  rw [List.map_map]
  rfl

/-- **What a step does**, as the callers see it. -/
theorem effect_of_step (h : Contract cfg s) (hstep : (machine cfg).step s i = some s') :
    EventOutput.Effect (eventOutput cfg) s i s' := by
  obtain ⟨hmove, hflow⟩ := step_spec hstep
  have hdone := fun q hq => done_of_step hstep (q := q) hq
  have hagrees := h.sound.inv.agrees
  -- only the step of a put task puts
  have hput : ∀ q, i ≠ .putTask q → s'.puts q = .done → s.puts q = .done := fun q hi hq =>
    (hdone q hq).resolve_right fun hp => hi hp.1
  -- a step of the call `k` leaves the other calls alone
  have hothers : ∀ k, (i = .putTask k ∨ (∃ event, i = .write k event) ∨ i = .resumeWrite k) →
      EventOutput.Others (eventOutput cfg) s s' k := fun k hi q hq => by
    have hne : i ≠ .putTask q ∧ (∀ event, i ≠ .write q event) ∧ i ≠ .resumeWrite q ∧ i ≠ .cancelWrite q := by
      rcases hi with rfl | ⟨_, rfl⟩ | rfl <;> simp [hq.symm]
    obtain ⟨hp, hw, hr, hc⟩ := hne
    obtain ⟨hcall, hsame⟩ := (hmove q).untouched (hput q hp) hw hr hc
    exact ⟨congrArg WriteCall.status hcall, document_of_same hsame⟩
  cases hflow with
  | @put k d hd hk ha =>
    have hcall := h.sound.inv.pending k d hd
    obtain ⟨rfl, -⟩ := (hdone k hk).resolve_left fun hdone => by rw [hdone] at hd; cases hd
    have hsame : s'.calls k = s.calls k := by
      cases hmove k with
      | still hc | puts _ hc => exact hc
      | starts heq | rejects heq | abandons heq | leaves heq | givesUp heq | returns heq | raises heq
      | cancelled heq => cases heq
    refine .accepts (k := k) (e := d.event) (congrArg (Option.map _) hd) ?_ (congrArg WriteCall.status hsame) ?_
      (hothers k (.inl rfl))
    · exact held_of_put hk
    · change s'.accepted.map entry = s.accepted.map entry ++ [(k, d.event)]
      rw [ha, List.map_append, List.map_singleton, entry, hcall]
  | work taken ha =>
    have haccepted : (eventOutput cfg).accepted s' = (eventOutput cfg).accepted s := congrArg (List.map entry) ha
    have hquiet : (∀ q event, i ≠ .write q event) → (∀ q, i = .resumeWrite q → s.calls q ≠ .leaving none) →
        EventOutput.Effect (eventOutput cfg) s i s' := fun hw hr => by
      -- a put task whose document is not put does not end
      have hp : ∀ q, s'.puts q = .done → s.puts q = .done := fun q hq =>
        (hdone q hq).resolve_right fun hp => by
          obtain ⟨-, d, -, hsnoc⟩ := hp
          rw [ha] at hsnoc
          simp at hsnoc
      exact .quiet haccepted (fun q => ((hmove q).stays (hp q) (hw q) (hr q)).1)
        fun q => ((hmove q).stays (hp q) (hw q) (hr q)).2
    cases i with
    | write k event =>
      have hsides := hothers k (.inr (.inl ⟨event, rfl⟩))
      cases hmove k with
      | still hcall hsame =>
        have hall : ∀ q, (eventOutput cfg).call s' q = (eventOutput cfg).call s q ∧
            (eventOutput cfg).held s' q = (eventOutput cfg).held s q := fun q => by
          by_cases hq : q = k
          · subst hq
            exact ⟨congrArg WriteCall.status hcall, document_of_same hsame⟩
          · exact hsides q hq
        exact .quiet haccepted (fun q => .inl (hall q).1) fun q => .inl (hall q).2
      | starts heq hidle hcall hp =>
        cases heq
        exact .writes rfl (congrArg WriteCall.status hidle)
          (.inl ⟨congrArg WriteCall.status hcall, held_of_put hp⟩) haccepted hsides
      | rejects heq hidle hcall hp =>
        cases heq
        have hnone : s.puts k = .none := by
          have hk := hagrees k
          rwa [hidle] at hk
        exact .writes rfl (congrArg WriteCall.status hidle)
          (.inr ⟨congrArg WriteCall.status hcall, held_of_put (hp.trans hnone)⟩) haccepted hsides
      | puts hd _ hk => rw [hput k (by simp) hk] at hd; cases hd
      | abandons heq | leaves heq | givesUp heq | returns heq | raises heq | cancelled heq => cases heq
    | resumeWrite k =>
      by_cases hleaves : s.calls k = .leaving none
      · have hsides := hothers k (.inr (.inr rfl))
        have hend : s'.calls k = .returned ∧ s'.puts k = s.puts k := by
          change step cfg s (.resumeWrite k) = some s' at hstep
          simp only [step, resumeWrite, hleaves, Option.some.injEq] at hstep
          rw [← hstep]
          exact ⟨Function.update_self .., rfl⟩
        have hmem : k ∈ s.accepted.map (·.call) := by
          have hk := hagrees k
          rw [hleaves] at hk
          exact h.done k hk
        exact .returns (congrArg WriteCall.status hleaves) (congrArg WriteCall.status hend.1)
          (held_of_put hend.2)
          (by rw [show (eventOutput cfg).accepted s = s.accepted.map entry from rfl, map_entry_fst]; exact hmem)
          haccepted hsides
      · exact hquiet (by simp) fun q heq => by cases heq; exact hleaves
    | putTask k | failureTask k | cancelWrite k | worker | insertDone ok | cancelWorker | close | workerDone
    | shutdownTimeout | clientClosed ok | cancelClose | reportFailure => exact hquiet (by simp) (by simp)

/-! ## After `close()` -/

/-- No call waits any more, and what the worker has left behind belongs to calls that have not returned. -/
structure Closed (s : Output ℕ Event) : Prop where
  shut : s.lifecycle ≠ .open
  calls : ∀ k, (s.calls k).status ≠ .waiting
  left : s.worker = .returned → ∀ d ∈ s.queue, s.calls d.call ≠ .returned

theorem status_returned {c : WriteCall} : c.status = .returned ↔ c = .returned := by
  cases c <;> simp [WriteCall.status]

theorem closeStatus_returned {c : CloseCall} : closeStatus c = .returned ↔ c = .returned := by
  cases c <;> simp [closeStatus]

/-- A call that has not returned does not, once no call waits. -/
theorem Closed.returned (hc : Closed s) (he : EventOutput.Effect (eventOutput cfg) s i s') {k : ℕ}
    (hk : s'.calls k = .returned) : s.calls k = .returned := by
  have hk' : (eventOutput cfg).call s' k = .returned := status_returned.2 hk
  refine status_returned.1 (?_ : (eventOutput cfg).call s k = .returned)
  cases he with
  | quiet _ hcalls =>
    rcases hcalls k with hsame | ⟨hwait, -⟩
    · exact hsame ▸ hk'
    · exact absurd hwait (hc.calls k)
  | @writes q _ _ _ hcase _ hothers =>
    by_cases hq : k = q
    · subst hq
      rcases hcase with ⟨hcall, -⟩ | ⟨hcall, -⟩ <;> rw [hcall] at hk' <;> cases hk'
    · exact (hothers k hq).1 ▸ hk'
  | @accepts q _ _ _ hsame _ hothers =>
    by_cases hq : k = q
    · subst hq; exact hsame ▸ hk'
    · exact (hothers k hq).1 ▸ hk'
  | returns hwait => exact absurd hwait (hc.calls _)

theorem eq_write_of_request {k : ℕ} {event : Event} (h : (eventOutput cfg).request i = some (.write k event)) :
    i = .write k event := by
  cases i <;> cases h
  rfl

/-- A `write()` on an output that is not open does not wait. -/
theorem write_closed {k : ℕ} {event : Event} (hl : s.lifecycle ≠ .open)
    (hstep : (machine cfg).step s (.write k event) = some s') : (s'.calls k).status ≠ .waiting := by
  change step cfg s (.write k event) = some s' at hstep
  simp only [step] at hstep
  split at hstep
  · rw [write, if_pos hl, Option.some.injEq] at hstep
    have hraised : s'.calls k = .raised (if s.workerError.isSome then .workerFailed else .state) := by
      rw [← hstep]
      exact Function.update_self ..
    rw [hraised]
    exact fun h => by cases h
  · cases hstep

theorem step_closedOutput (h : Contract cfg s) (hc : Closed s) (hstep : (machine cfg).step s i = some s') :
    Closed s' := by
  have heffect := effect_of_step h hstep
  have hs := h.sound
  obtain ⟨hturn, -⟩ := step_turn hs.inv hs.closing.ready hs.ordered.held hstep
  constructor
  case shut => exact step_closed hc.shut hs.inv hs.ordered hs.closing hstep
  case calls =>
    intro k
    cases heffect with
    | quiet _ hcalls =>
      rcases hcalls k with hsame | ⟨-, hraised⟩
      · exact fun hw => hc.calls k (hsame.symm.trans hw)
      · exact fun hw => by cases hraised.symm.trans hw
    | @writes q event heq _ _ _ hothers =>
      by_cases hq : k = q
      · subst hq
        obtain rfl := eq_write_of_request heq
        exact write_closed hc.shut hstep
      · exact fun hw => hc.calls k ((hothers k hq).1.symm.trans hw)
    | @accepts q event _ _ hsame _ hothers =>
      by_cases hq : k = q
      · subst hq; exact fun hw => hc.calls k (hsame.symm.trans hw)
      · exact fun hw => hc.calls k ((hothers k hq).1.symm.trans hw)
    | returns hwait => exact absurd hwait (hc.calls _)
  case left =>
    intro hw d hd hret
    have hold := hc.returned heffect hret
    cases hturn with
    | rests hsame =>
      cases (step_spec hstep).2 with
      | @put k e he _ _ hq =>
        rw [hq, List.mem_append, List.mem_singleton] at hd
        rcases hd with hd | rfl
        · exact hc.left (hsame ▸ hw) d hd hold
        · -- the document of a call that has returned has been put before
          have hdone := hs.inv.agrees d.call
          rw [hold] at hdone
          rw [← hs.inv.pending k d he, show s.puts d.call = .done from hdone] at he
          cases he
      | work taken _ hq =>
        exact hc.left (hsame ▸ hw) d (by rw [hq]; exact List.mem_append_right _ hd) hold
    | ends _ _ _ hne => exact hne hw
    | idles _ hidle =>
      rcases hidle with hidle | ⟨-, -, hempty⟩
      · rw [hidle] at hw; cases hw
      · rw [hempty] at hd; cases hd
    | inserts _ _ _ _ hinserting => rw [hinserting] at hw; cases hw

theorem close_closed (h : Contract cfg s) (hn : ∀ k, (s.calls k).status ≠ .waiting)
    (hstep : (machine cfg).step s .close = some s') : Closed s' := by
  change step cfg s .close = some s' at hstep
  simp only [step] at hstep
  split at hstep <;> cases hstep
  rename_i hl
  refine ⟨by simp, hn, fun hw => ?_⟩
  have hrequested := h.sound.closing.requested hw
  rw [h.sound.closing.fresh hl] at hrequested
  cases hrequested

theorem reports_of_step (h : Contract cfg s) (hstep : (machine cfg).step s i = some s')
    (hr : s'.failureReported = true) : s.failureReported = true ∨ i = .reportFailure := by
  have hs := h.sound
  obtain ⟨-, hapart | hi⟩ := step_turn hs.inv hs.closing.ready hs.ordered.held hstep
  · exact .inl (hapart.failureReported ▸ hr)
  change step cfg s i = some s' at hstep
  cases i with
  | write | putTask | failureTask | resumeWrite | cancelWrite | worker | insertDone | cancelWorker => cases hi
  | close | workerDone | shutdownTimeout | clientClosed | cancelClose =>
    simp only [step] at hstep
    split at hstep <;> cases hstep <;> exact .inl hr
  | reportFailure => exact .inr rfl

theorem closeCall_stays (h : Contract cfg s) (hstep : (machine cfg).step s i = some s')
    (hc : s.closeCall = .returned) : s'.closeCall = .returned := by
  have hs := h.sound
  obtain ⟨-, hapart | hi⟩ := step_turn hs.inv hs.closing.ready hs.ordered.held hstep
  · exact hapart.closeCall.trans hc
  change step cfg s i = some s' at hstep
  cases i with
  | write | putTask | failureTask | resumeWrite | cancelWrite | worker | insertDone | cancelWorker => cases hi
  | close | workerDone | shutdownTimeout | clientClosed | cancelClose => simp [step, hc] at hstep
  | reportFailure =>
    simp only [step, Option.ite_none_right_eq_some, Option.some.injEq] at hstep
    obtain ⟨-, rfl⟩ := hstep
    exact hc

/-- **`MongoBatchOutput` keeps the contract.** -/
theorem eventOutput_lawful (cfg : Settings) : (eventOutput cfg).Lawful (Contract cfg) Closed where
  request_input q := by cases q <;> rfl
  opened_inv := ⟨opened_sound, fun k hk => (by cases hk), opened_waits cfg, Nat.zero_le _⟩
  opened_call _ := rfl
  opened_held _ := rfl
  opened_accepted := rfl
  opened_closing := rfl
  opened_reported := rfl
  step_inv h hstep := step_contract h hstep
  effect h hstep := effect_of_step h hstep
  stored {s} h := by
    refine ⟨(s.worker.batch ++ s.queue).map entry, ?_⟩
    rw [show (eventOutput cfg).stored s = s.confirmed.map entry from rfl, ← List.map_append, ← List.append_assoc,
      ← h.sound.inv.conserved]
    rfl
  reports h hstep hr := (reports_of_step h hstep hr).imp_right fun hi => by rw [hi]; rfl
  close h hn hstep := close_closed h hn hstep
  step_closed h hc hstep := step_closedOutput h hc hstep
  drained {s} h hc hclosing hreported k hk := by
    have hk : s.calls k = .returned := status_returned.1 hk
    have hdone := h.sound.inv.agrees k
    rw [hk] at hdone
    have hw : s.worker = .returned := by
      rcases (h.sound.closing.returned (closeStatus_returned.1 hclosing)).2 with hr | hw
      · rw [show s.failureReported = false from hreported] at hr; cases hr
      · exact hw
    have hmem := h.done k hdone
    rw [h.sound.inv.conserved, hw, show Worker.batch .returned = ([] : List (Document ℕ Event)) from rfl,
      List.append_nil, List.map_append, List.mem_append] at hmem
    rw [show (eventOutput cfg).stored s = s.confirmed.map entry from rfl, map_entry_fst]
    refine hmem.resolve_right fun hq => ?_
    obtain ⟨d, hd, rfl⟩ := List.mem_map.1 hq
    exact hc.left hw d hd hk
  closing_stays h hstep hc := closeStatus_returned.2 (closeCall_stays h hstep (closeStatus_returned.1 hc))

end Output

end BinanceCollector.Mongo
