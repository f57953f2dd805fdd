import BinanceCollector.Collector.ConnectionHandover
import BinanceCollector.Collector.Supervision

/-!
# After a stop request

What a collector that is running still does once the stop event is set.

- `Stops`, `stops_of_step`: the attempt under way ends at most once, and at most one message is handed on.
- **`stops_promptly`**: it takes at most nine more steps, and never stands still before its end.
-/

namespace BinanceCollector

open Steps

namespace Connection

variable {μ : Type} {p : Profile μ} {s s' t : State μ} {i : Input}

/-- At most how many messages are handed on once the stop event is set: the one that `recv` has, or may have, returned. -/
def Phase.left : Phase → ℕ
  | .receiving | .settling (.ok (some _)) => 1
  | _ => 0

/-- What happens from `s` to `t` after a stop request. -/
structure Stops (s t : State μ) : Prop where
  /-- no attempt begins, the one under way ends at most once, and no wait follows -/
  turns : (turns t.history = turns s.history ∧ (t.phase.inAttempt = true → s.phase.inAttempt = true)) ∨
    ∃ outcome, turns t.history = turns s.history ++ [.ends outcome] ∧ s.phase.inAttempt = true ∧
      t.phase.inAttempt = false
  handed : ∃ messages, handledMessages t.history = handledMessages s.history ++ messages ∧
    messages.length + t.phase.left ≤ s.phase.left

theorem Stops.refl (s : State μ) : Stops s s := ⟨.inl ⟨rfl, id⟩, [], by simp, by simp⟩

theorem Stops.trans (h : Stops s s') (h' : Stops s' t) : Stops s t := by
  obtain ⟨messages, hm, hl⟩ := h.handed
  obtain ⟨messages', hm', hl'⟩ := h'.handed
  refine ⟨?_, messages ++ messages', by rw [hm', hm, List.append_assoc], by rw [List.length_append]; omega⟩
  rcases h.turns with ⟨ht, hin⟩ | ⟨outcome, ht, hin, hout⟩
  · rcases h'.turns with ⟨ht', hin'⟩ | ⟨outcome, ht', hin', hout'⟩
    · exact .inl ⟨ht'.trans ht, hin ∘ hin'⟩
    · exact .inr ⟨outcome, by rw [ht', ht], hin hin', hout'⟩
  · rcases h'.turns with ⟨ht', hin'⟩ | ⟨-, -, hin', -⟩
    · exact .inr ⟨outcome, ht'.trans ht, hin, Bool.eq_false_iff.2 fun h => by rw [hin' h] at hout; cases hout⟩
    · rw [hout] at hin'
      cases hin'

/-! ## The turns of the loop -/

theorem loop_stopped (hs : s.stop = true) : turns s.loop.history = turns s.history ∧ s.loop.phase.inAttempt = false := by
  rw [State.loop, if_pos hs]
  exact ⟨turns_inner s.history [.reports .terminated] (by simp [Act.inner]), rfl⟩

theorem attemptEnds_stopped (hs : s.stop = true) (outcome : Option Exc) :
    turns (s.attemptEnds outcome).history = turns s.history ++ [.ends outcome] ∧
      (s.attemptEnds outcome).phase.inAttempt = false := by
  have hfinish : ∀ (t : State μ) q, turns (t.finish q).history = turns t.history := fun t q =>
    turns_inner t.history [.reports .terminated] (by simp [Act.inner])
  rcases attemptEnds_cases s outcome with ⟨-, t, acts, he, hh, ha, hstop, -⟩ | ⟨e, rfl, -, he⟩
  · rw [he, State.retry, if_pos (hstop.trans hs), hfinish, hh, turns_inner _ _ ha]
    exact ⟨turns_turn s.history rfl, rfl⟩
  · rw [he, hfinish]
    exact ⟨turns_turn s.history rfl, rfl⟩

theorem turns_of_step (hs : s.stop = true) (h : (machine p).step s i = some s') :
    (turns s'.history = turns s.history ∧ (s'.phase.inAttempt = true → s.phase.inAttempt = true)) ∨
      ∃ outcome, turns s'.history = turns s.history ++ [.ends outcome] ∧ s.phase.inAttempt = true ∧
        s'.phase.inAttempt = false := by
  cases stage_of_step h with
  | stops => exact .inl ⟨rfl, id⟩
  | starts =>
    obtain ⟨ht, hout⟩ := loop_stopped (s := { s with policy := s.policy.reset }) hs
    exact .inl ⟨ht, fun h => by rw [hout] at h; cases h⟩
  | elapses =>
    obtain ⟨ht, hout⟩ := loop_stopped hs
    exact .inl ⟨ht, fun h => by rw [hout] at h; cases h⟩
  | inside hin _ hinside =>
    obtain ⟨acts, hh, ha⟩ := hinside.history
    exact .inl ⟨by rw [hh, turns_inner _ _ ha], fun _ => hin⟩
  | @ends u outcome hin _ hu =>
    have hsame : turns u.history = turns s.history ∧ u.stop = true := by
      obtain rfl | rfl := hu
      · exact ⟨rfl, hs⟩
      · exact ⟨turns_inner s.history [.cancelled] (by simp [Act.inner]), hs⟩
    obtain ⟨ht, hout⟩ := attemptEnds_stopped hsame.2 outcome
    exact .inr ⟨outcome, by rw [ht, hsame.1], hin, hout⟩
  | leaves _ hacts _ _ hq =>
    obtain ⟨acts, hh, ha⟩ := hacts
    refine .inl ⟨by rw [hh, turns_inner _ _ ha], fun hin => ?_⟩
    obtain ⟨hq, -⟩ | ⟨hq, -⟩ := hq <;> rw [hq] at hin <;> cases hin

/-! ## The messages handed on -/

theorem left_of_rank {phase : Phase} (h : phase.rank = 2) : phase.left = 0 := by
  cases phase <;> first | rfl | cases h

theorem attemptEnds_left (hs : s.stop = true) (outcome : Option Exc) : (s.attemptEnds outcome).phase.left = 0 := by
  have hrank := attemptEnds_rank hs outcome
  revert hrank
  cases (s.attemptEnds outcome).phase <;> first | exact fun _ => rfl | exact nofun

theorem handlerEnds_handed (hs : s.stop = true) (payload : WireMessage) (result : Except Exc Bool) :
    handledMessages (s.handlerEnds p payload result).history = handledMessages s.history ∧
      (s.handlerEnds p payload result).phase.left = 0 := by
  unfold State.handlerEnds
  split
  · exact ⟨rfl, rfl⟩
  · split
    · exact ⟨(handled_handed _ _).1, left_of_rank (handled_rank hs payload)⟩
    · exact ⟨rfl, rfl⟩

theorem deliveryEnds_handed (hs : s.stop = true) (payload : WireMessage) (result : Except Exc Bool) :
    handledMessages (s.deliveryEnds p payload result).history = handledMessages s.history ∧
      (s.deliveryEnds p payload result).phase.left = 0 := by
  refine ⟨?_, left_of_rank (deliveryEnds_rank hs payload result)⟩
  unfold State.deliveryEnds
  split
  · exact (handled_handed _ _).1
  · rfl
  · rfl

theorem cancel_left (hs : s.stop = true) (h : s.cancel p = some s') :
    handledMessages s'.history = handledMessages s.history ∧ s'.phase.left = 0 := by
  have hact : (s.act .cancelled).stop = true := hs
  have hsame : handledMessages (s.act .cancelled).history = handledMessages s.history := handledMessages_act s rfl
  unfold State.cancel at h
  dsimp only at h
  split at h <;> cases h
  case h_2 => exact ⟨(attemptEnds_handed _ _).trans hsame, attemptEnds_left hact _⟩
  case h_6 payload _ =>
    obtain ⟨hh, hl⟩ := handlerEnds_handed (p := p) hact payload (.error .cancelled)
    exact ⟨hh.trans hsame, hl⟩
  case h_8 => exact ⟨(attemptEnds_handed _ _).trans hsame, attemptEnds_left hact _⟩
  case h_9 => exact ⟨(handledMessages_finish _ _).trans hsame, rfl⟩
  all_goals exact ⟨hsame, rfl⟩

/-- **At most one message**: the one that the attempt is receiving. -/
theorem handed_of_step (hs : s.stop = true) (h : (machine p).step s i = some s') :
    ∃ messages, handledMessages s'.history = handledMessages s.history ++ messages ∧
      messages.length + s'.phase.left ≤ s.phase.left := by
  have hquiet : handledMessages s'.history = handledMessages s.history → s'.phase.left ≤ s.phase.left →
      ∃ messages, handledMessages s'.history = handledMessages s.history ++ messages ∧
        messages.length + s'.phase.left ≤ s.phase.left := fun hh hl => ⟨[], by simpa using hh, by simpa using hl⟩
  have hends : ∀ outcome, (s.attemptEnds outcome).phase.left ≤ s.phase.left := fun outcome => by
    rw [attemptEnds_left hs]
    exact Nat.zero_le _
  cases effect_of_step h with
  | setStop => exact hquiet rfl le_rfl
  | start =>
    refine hquiet (loop_handed _) ?_
    rw [State.loop, if_pos hs]
    exact Nat.zero_le _
  | elapsed =>
    refine hquiet (loop_handed _) ?_
    rw [State.loop, if_pos hs]
    exact Nat.zero_le _
  | connected => exact hquiet (by simp) (Nat.zero_le _)
  | connectFails | closed | closeFails => exact hquiet (attemptEnds_handed _ _) (hends _)
  | sent =>
    refine hquiet (receive_handed _).1 ?_
    rw [State.receive, if_pos hs]
    exact Nat.zero_le _
  | sendFails | recvFails | ackTimeout | stopReceiving | stopHandling => exact hquiet rfl (Nat.zero_le _)
  | receives hphase => exact hquiet rfl (by rw [hphase]; exact le_rfl)
  | stopWaiting => exact hquiet (handledMessages_finish _ _) (Nat.zero_le _)
  | @settled now result hphase =>
    rcases result with e | _ | payload
    · exact hquiet rfl (Nat.zero_le _)
    · exact hquiet rfl (Nat.zero_le _)
    · refine ⟨[p.message s.attempt (s.sequence + 1) payload now], ?_, by rw [hphase]; exact le_rfl⟩
      simp [State.received, State.act, State.at_, handledMessages]
  | deliverySettled =>
    obtain ⟨hh, hl⟩ := deliveryEnds_handed hs _ _
    exact hquiet hh (by rw [hl]; exact Nat.zero_le _)
  | handlerReturns =>
    obtain ⟨hh, hl⟩ := handlerEnds_handed hs _ _
    exact hquiet hh (by rw [hl]; exact Nat.zero_le _)
  | handlerRaises =>
    obtain ⟨hh, hl⟩ := handlerEnds_handed (p := p) (s := s.act .handlerFails) hs _ (.error .messageHandler)
    exact hquiet (hh.trans (handledMessages_act s rfl)) (by rw [hl]; exact Nat.zero_le _)
  | cancel hc =>
    obtain ⟨hh, hl⟩ := cancel_left hs hc
    exact hquiet hh (by rw [hl]; exact Nat.zero_le _)

/-- **A step after a stop request.** -/
theorem stops_of_step (hs : s.stop = true) (h : (machine p).step s i = some s') : Stops s s' :=
  ⟨turns_of_step hs h, handed_of_step hs h⟩

/-! ## Main results -/

/-- The stop event stays set. -/
theorem stop_stays (hs : s.stop = true) (h : (machine p).step s i = some s') : s'.stop = true := by
  by_cases hi : i = .setStop
  · subst hi
    cases h
    rfl
  · rw [stop_of_step h hi, hs]

theorem left_le (phase : Phase) : phase.left ≤ 1 := by
  unfold Phase.left
  split <;> decide

/-- At most one message. -/
theorem Stops.atMostOne (h : Stops s t) : ∃ messages, handledMessages t.history = handledMessages s.history ++ messages ∧
    messages.length ≤ 1 := by
  obtain ⟨messages, hh, hl⟩ := h.handed
  have := left_le s.phase
  exact ⟨messages, hh, by omega⟩

/-- **A stop request is obeyed promptly.** Whatever a collector is doing when the stop event is set, and whatever
happens from then on: it begins no attempt and no wait, the attempt under way ends at most once, it hands on at most one
more message, the one it was receiving; it takes at most nine more steps of its own, and until it has ended there is
always one it can take, which is that it sees the stop event where it waits for it. -/
theorem stops_promptly {is : List Input} (hs : s.stop = true) (h : (machine p).Path (fun _ _ => True) s is t) :
    (turns t.history = turns s.history ∨ ∃ outcome, turns t.history = turns s.history ++ [.ends outcome]) ∧
    (∃ messages, handledMessages t.history = handledMessages s.history ++ messages ∧ messages.length ≤ 1) ∧
    is.countP Input.own ≤ 9 ∧
    (t.phase.ended = false → ∃ i, i.own = true ∧ (t.phase.heedsStop p = true → i = .stopSeen) ∧
      ((machine p).step t i).isSome = true) := by
  have hstops := h.related (I := fun s : State μ => s.stop = true) (R := Stops) .refl (fun _ _ _ => .trans)
    (fun _ _ _ _ => stop_stays) (fun _ _ _ _ => stops_of_step) hs
  have hcount := h.countP_le (I := fun s : State μ => s.stop = true) (m := fun s => s.phase.rank) (q := Input.own)
    (fun _ _ _ _ => stop_stays) (fun _ _ _ _ => rank_of_step) hs
  have hstop : t.stop = true :=
    h.invariant (I := fun s : State μ => s.stop = true) (fun _ _ _ _ ht hstep => stop_stays ht hstep) hs
  refine ⟨hstops.turns.imp And.left fun ⟨outcome, ht, _⟩ => ⟨outcome, ht⟩, hstops.atMostOne, ?_, can_go_on p hstop⟩
  have := MultiCollector.rank_le s.phase
  omega

/-- The stop event is set while the legacy collector waits for a message. -/
def stopRequested : List Input := [.start, .connected, .sent, .setStop]

/-- The message arrives all the same: it is handed on, and the collector ends. -/
def lastMessage : List Input :=
  [.receives (.text (Text.str "\x7b\x7d")), .settled 0, .handlerReturns, .settled 0, .closed]

theorem stops_promptly_lastMessage : ∃ s t : State WireMessage,
    (machine (binanceCollector [Text.str "BTCUSDT"] ⟨1000, 4300⟩)).Path (fun _ _ => True) (initial defaultPolicy)
      stopRequested s ∧ s.stop = true ∧
    (machine (binanceCollector [Text.str "BTCUSDT"] ⟨1000, 4300⟩)).Path (fun _ _ => True) s lastMessage t ∧
    t.phase = .returned ∧ (handledMessages t.history).length = 1 ∧
    ∃ messages, handledMessages t.history = handledMessages s.history ++ messages ∧ messages.length ≤ 1 := by
  obtain ⟨s, hs, hp⟩ := Machine.exists_path_of_check
    (M := machine (binanceCollector [Text.str "BTCUSDT"] ⟨1000, 4300⟩)) (P := fun _ _ => True)
    (p := fun s : State WireMessage => decide (s.stop = true ∧
      (((machine (binanceCollector [Text.str "BTCUSDT"] ⟨1000, 4300⟩)).check (fun _ _ => True) s lastMessage).any
        fun t => decide (t.phase = .returned ∧ (handledMessages t.history).length = 1)) = true))
    (initial defaultPolicy) stopRequested (by decide +kernel)
  obtain ⟨hstop, hlast⟩ := of_decide_eq_true hp
  obtain ⟨t, ht, hq⟩ := Machine.exists_path_of_check s lastMessage hlast
  obtain ⟨hend, hone⟩ := of_decide_eq_true hq
  exact ⟨s, t, hs, hstop, ht, hend, hone, (stops_promptly hstop ht).2.1⟩

end Connection

end BinanceCollector
