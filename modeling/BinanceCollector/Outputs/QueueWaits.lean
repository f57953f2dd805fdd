import Mathlib.Data.List.Nodup
import BinanceCollector.Outputs.MongoDrain

/-!
# Waiting for room in the queue

`Queue.put` of `MongoBatchOutput`: a put task that finds the queue full waits, and each document taken wakes the task
that has waited longest. A task that has been woken may find the queue full again, or be cancelled, and then passes the
wake-up on.

- `Waits`, `step_waits`: while put tasks wait, there are as many on their way as there is room in the queue.
- **`no_lost_put`**: whoever waits without having been woken waits behind a full queue or somebody on his way, and the
  documents that are not confirmed are bounded.
-/

namespace BinanceCollector.Mongo

open Steps

variable {κ ε : Type*}

/-- The task has been woken and has not run since. -/
def PutTask.woken : PutTask κ ε → Bool
  | .parked _ true | .cancelling true => true
  | _ => false

namespace Output

/-- So many put tasks are on their way. -/
def OnTheirWay (puts : κ → PutTask κ ε) (room : ℕ) : Prop :=
  ∃ tasks : List κ, tasks.Nodup ∧ (∀ k ∈ tasks, (puts k).woken = true) ∧ room ≤ tasks.length

theorem OnTheirWay.mono {puts : κ → PutTask κ ε} {m n : ℕ} (h : OnTheirWay puts n) (hle : m ≤ n) :
    OnTheirWay puts m := by
  obtain ⟨tasks, hnodup, hwoken, hn⟩ := h
  exact ⟨tasks, hnodup, hwoken, Nat.le_trans hle hn⟩

theorem OnTheirWay.zero (puts : κ → PutTask κ ε) : OnTheirWay puts 0 := ⟨[], .nil, nofun, Nat.le_refl _⟩

/-- What every run keeps about the put tasks that wait. -/
structure Waits (cfg : Settings) (s : Output κ ε) : Prop where
  nodup : s.putters.Nodup
  parked : ∀ k ∈ s.putters, ∃ d, s.puts k = .parked d false
  waiting : ∀ k d, s.puts k = .parked d false → k ∈ s.putters
  bound : s.queue.length ≤ cfg.queueMaxsize
  room : s.putters ≠ [] → OnTheirWay s.puts (cfg.queueMaxsize - s.queue.length)

variable [DecidableEq κ] {cfg : Settings} {s s' : Output κ ε}

/-! ## Put tasks -/

/-- A task that is not on its way changes. -/
theorem OnTheirWay.update {puts : κ → PutTask κ ε} {n : ℕ} (h : OnTheirWay puts n) {k : κ} {p : PutTask κ ε}
    (hk : (puts k).woken = true → p.woken = true) : OnTheirWay (Function.update puts k p) n := by
  obtain ⟨tasks, hnodup, hwoken, hn⟩ := h
  refine ⟨tasks, hnodup, fun q hq => ?_, hn⟩
  by_cases hqk : q = k
  · subst hqk
    rw [Function.update_self]
    exact hk (hwoken q hq)
  · rw [Function.update_of_ne hqk]
    exact hwoken q hq

/-- A task that was on its way runs. -/
theorem OnTheirWay.runs {puts : κ → PutTask κ ε} {n : ℕ} (h : OnTheirWay puts (n + 1)) (k : κ) (p : PutTask κ ε) :
    OnTheirWay (Function.update puts k p) n := by
  obtain ⟨tasks, hnodup, hwoken, hn⟩ := h
  refine ⟨tasks.erase k, hnodup.erase k, fun q hq => ?_, ?_⟩
  · have hne := (hnodup.mem_erase_iff.1 hq).1
    rw [Function.update_of_ne hne]
    exact hwoken q (List.mem_of_mem_erase hq)
  · have := List.le_length_erase (a := k) (l := tasks)
    omega

/-- One more task is woken. -/
theorem OnTheirWay.wakes {puts : κ → PutTask κ ε} {n : ℕ} (h : OnTheirWay puts n) {k : κ} {p : PutTask κ ε}
    (hk : (puts k).woken = false) (hp : p.woken = true) : OnTheirWay (Function.update puts k p) (n + 1) := by
  obtain ⟨tasks, hnodup, hwoken, hn⟩ := h
  have hnot : k ∉ tasks := fun hmem => by rw [hwoken k hmem] at hk; cases hk
  refine ⟨k :: tasks, List.nodup_cons.2 ⟨hnot, hnodup⟩, fun q hq => ?_, Nat.succ_le_succ hn⟩
  rcases List.mem_cons.1 hq with rfl | hq
  · rwa [Function.update_self]
  · have hne : q ≠ k := fun heq => hnot (by rw [← heq]; exact hq)
    rw [Function.update_of_ne hne]
    exact hwoken q hq

/-! ## Wake-ups -/

/-- A task that neither waits nor is woken changes to another one. -/
theorem Waits.task (h : Waits cfg s) {k : κ} {p : PutTask κ ε} (hold : ∀ d, s.puts k ≠ .parked d false)
    (hnew : ∀ d, p ≠ .parked d false) (hwoken : (s.puts k).woken = true → p.woken = true) :
    Waits cfg (s.setPut k p) where
  nodup := h.nodup
  parked q hq := by
    obtain ⟨d, hd⟩ := h.parked q hq
    have hne : q ≠ k := fun heq => hold d (heq ▸ hd)
    exact ⟨d, (Function.update_of_ne hne ..).trans hd⟩
  waiting q d hq := by
    change Function.update s.puts k p q = _ at hq
    by_cases hqk : q = k
    · subst hqk
      rw [Function.update_self] at hq
      exact absurd hq (hnew d)
    · rw [Function.update_of_ne hqk] at hq
      exact h.waiting q d hq
  bound := h.bound
  room hne := (h.room hne).update hwoken

/-- **Each wake-up brings a task on its way**, as long as there is one that waits. -/
theorem wakeup_waits {m : ℕ} (n : ℕ) (hnodup : s.putters.Nodup)
    (hparked : ∀ k ∈ s.putters, ∃ d, s.puts k = .parked d false)
    (hwaiting : ∀ k d, s.puts k = .parked d false → k ∈ s.putters) (hbound : s.queue.length ≤ cfg.queueMaxsize)
    (hroom : s.putters ≠ [] → OnTheirWay s.puts m) (hq : cfg.queueMaxsize - s.queue.length ≤ m + n) :
    Waits cfg (s.wakeup n) := by
  induction n generalizing s m with
  | zero => exact ⟨hnodup, hparked, hwaiting, hbound, fun hne => (hroom hne).mono hq⟩
  | succ n ih =>
    unfold wakeup
    cases hp : s.putters with
    | nil => exact ⟨hnodup, hparked, hwaiting, hbound, fun hne => absurd hp hne⟩
    | cons k putters =>
      obtain ⟨d, hd⟩ := hparked k (hp ▸ List.mem_cons_self)
      rw [hp] at hnodup
      obtain ⟨hk, hrest⟩ := List.nodup_cons.1 hnodup
      refine ih (m := m + 1) hrest (fun q hmem => ?_) (fun q e hq' => ?_) hbound (fun _ => ?_) (by dsimp only; omega)
      · obtain ⟨e, he⟩ := hparked q (hp ▸ List.mem_cons_of_mem _ hmem)
        have hne : q ≠ k := fun heq => hk (heq ▸ hmem)
        exact ⟨e, (Function.update_of_ne hne ..).trans he⟩
      · dsimp only at hq'
        by_cases hqk : q = k
        · subst hqk
          rw [Function.update_self, hd] at hq'
          cases hq'
        · rw [Function.update_of_ne hqk] at hq'
          have hmem := hwaiting q e hq'
          rw [hp] at hmem
          exact (List.mem_cons.1 hmem).resolve_left hqk
      · exact (hroom (by rw [hp]; exact List.cons_ne_nil _ _)).wakes (by rw [hd]; rfl) (by rw [hd]; rfl)

/-! ## Steps -/

omit [DecidableEq κ] in
theorem Waits.congr (h : Waits cfg s) (hp : s'.putters = s.putters) (ht : s'.puts = s.puts) (hq : s'.queue = s.queue) :
    Waits cfg s' :=
  ⟨hp ▸ h.nodup, hp ▸ ht ▸ h.parked, hp ▸ ht ▸ h.waiting, hq ▸ h.bound, hp ▸ ht ▸ hq ▸ h.room⟩

omit [DecidableEq κ] in
theorem opened_waits (cfg : Settings) : Waits cfg (opened : Output κ ε) :=
  ⟨.nil, nofun, nofun, Nat.zero_le _, fun h => absurd rfl h⟩

theorem drain_waits (h : Waits cfg s) : Waits cfg (s.drain cfg) := by
  have hwake : Waits cfg ({ s with queue := s.queue.drop cfg.batchMaxsize }.wakeup
      (s.queue.take cfg.batchMaxsize).length) := by
    have hlen := congrArg List.length (List.take_append_drop cfg.batchMaxsize s.queue)
    rw [List.length_append] at hlen
    have hbound := h.bound
    refine wakeup_waits (s := { s with queue := s.queue.drop cfg.batchMaxsize })
      (m := cfg.queueMaxsize - s.queue.length) _ h.nodup h.parked h.waiting ?_ h.room ?_
    · dsimp only
      omega
    · dsimp only
      omega
  unfold drain
  dsimp only
  split
  · exact hwake.congr rfl rfl rfl
  · split <;> exact hwake.congr rfl rfl rfl

/-- A put task tests whether the queue is full. -/
theorem tryPut_waits (h : Waits cfg s) {k : κ} {d : Document κ ε} (hk : ∀ e, s.puts k ≠ .parked e false) :
    Waits cfg (s.tryPut cfg k d) := by
  have hnot : k ∉ s.putters := fun hmem => by
    obtain ⟨e, he⟩ := h.parked k hmem
    exact hk e he
  unfold tryPut
  split
  · rename_i hfull
    have hfull : cfg.queueMaxsize ≤ s.queue.length := of_decide_eq_true hfull
    refine ⟨?_, fun q hq => ?_, fun q e hq => ?_, h.bound, fun _ => ?_⟩
    · exact List.nodup_append.2 ⟨h.nodup, List.nodup_singleton k, fun a ha b hb => by
        rintro rfl
        rw [List.mem_singleton.1 hb] at ha
        exact hnot ha⟩
    · rcases List.mem_append.1 hq with hq | hq
      · obtain ⟨e, he⟩ := h.parked q hq
        have hne : q ≠ k := fun heq => hnot (by rw [← heq]; exact hq)
        exact ⟨e, (Function.update_of_ne hne ..).trans he⟩
      · rw [List.mem_singleton.1 hq]
        exact ⟨d, Function.update_self ..⟩
    · by_cases hqk : q = k
      · exact List.mem_append_right _ (List.mem_singleton.2 hqk)
      · change Function.update s.puts k (.parked d false) q = _ at hq
        rw [Function.update_of_ne hqk] at hq
        exact List.mem_append_left _ (h.waiting q e hq)
    · exact (OnTheirWay.zero _).mono (by change cfg.queueMaxsize - s.queue.length ≤ 0; omega)
  · rename_i hfull
    have hfree : s.queue.length < cfg.queueMaxsize := by simpa [full] using hfull
    refine ⟨h.nodup, fun q hq => ?_, fun q e hq => ?_, ?_, fun hne => ?_⟩
    · obtain ⟨e, he⟩ := h.parked q hq
      have hne : q ≠ k := fun heq => hnot (by rw [← heq]; exact hq)
      exact ⟨e, (Function.update_of_ne hne ..).trans he⟩
    · change Function.update s.puts k .done q = _ at hq
      by_cases hqk : q = k
      · subst hqk
        rw [Function.update_self] at hq
        cases hq
      · rw [Function.update_of_ne hqk] at hq
        exact h.waiting q e hq
    · change (s.queue ++ [d]).length ≤ cfg.queueMaxsize
      rw [List.length_append, List.length_singleton]
      omega
    · refine ((h.room hne).mono ?_).runs k .done
      change cfg.queueMaxsize - (s.queue ++ [d]).length + 1 ≤ cfg.queueMaxsize - s.queue.length
      rw [List.length_append, List.length_singleton]
      omega

theorem runPut_waits (h : Waits cfg s) {k : κ} (hstep : s.runPut cfg k = some s') : Waits cfg s' := by
  unfold runPut at hstep
  split at hstep
  · rename_i d hk
    cases hstep
    exact tryPut_waits h (by rw [hk]; exact nofun)
  · rename_i d hk
    cases hstep
    exact tryPut_waits h (by rw [hk]; exact nofun)
  · rename_i notified hk
    cases hstep
    cases notified with
    | false => exact h.task (by rw [hk]; exact nofun) nofun (by rw [hk]; exact nofun)
    | true =>
      -- the wake-up of a cancelled task is passed on
      have hparked : ∀ q ∈ s.putters, ∃ d, (s.setPut k .cancelled).puts q = .parked d false := fun q hq => by
        obtain ⟨d, hd⟩ := h.parked q hq
        have hne : q ≠ k := fun heq => by rw [heq, hk] at hd; cases hd
        exact ⟨d, (Function.update_of_ne hne ..).trans hd⟩
      have hwaiting : ∀ q d, (s.setPut k .cancelled).puts q = .parked d false → q ∈ s.putters := fun q d hq => by
        change Function.update s.puts k .cancelled q = _ at hq
        by_cases hqk : q = k
        · subst hqk
          rw [Function.update_self] at hq
          cases hq
        · rw [Function.update_of_ne hqk] at hq
          exact h.waiting q d hq
      split
      · rename_i hfree
        have hfree : s.queue.length < cfg.queueMaxsize := by
          simpa [full] using (show (true && !s.full cfg) = true from hfree)
        refine wakeup_waits (s := s.setPut k .cancelled) (m := cfg.queueMaxsize - s.queue.length - 1) 1 h.nodup
          hparked hwaiting h.bound (fun hne => ((h.room hne).mono (by omega)).runs k .cancelled) ?_
        change cfg.queueMaxsize - s.queue.length ≤ _
        omega
      · rename_i hfull
        have hfull : cfg.queueMaxsize ≤ s.queue.length := by
          simpa [full] using (show ¬(true && !s.full cfg) = true from hfull)
        refine ⟨h.nodup, hparked, hwaiting, h.bound, fun _ => (OnTheirWay.zero _).mono ?_⟩
        change cfg.queueMaxsize - s.queue.length ≤ 0
        omega
  · cases hstep

theorem cancelPut_waits (h : Waits cfg s) (k : κ) : Waits cfg (s.cancelPut k) := by
  refine ⟨h.nodup.filter _, fun q hq => ?_, fun q d hq => ?_, h.bound, fun hne => ?_⟩
  · obtain ⟨hmem, hne⟩ := List.mem_filter.1 hq
    obtain ⟨d, hd⟩ := h.parked q hmem
    exact ⟨d, (Function.update_of_ne (of_decide_eq_true hne) ..).trans hd⟩
  · change Function.update s.puts k (s.puts k).cancel q = _ at hq
    by_cases hqk : q = k
    · subst hqk
      rw [Function.update_self] at hq
      cases hp : s.puts q <;> rw [hp] at hq <;> cases hq
    · rw [Function.update_of_ne hqk] at hq
      exact List.mem_filter.2 ⟨h.waiting q d hq, decide_eq_true hqk⟩
  · have hputters : s.putters ≠ [] := fun hnil => hne (by
      change s.putters.filter _ = []
      rw [hnil]
      rfl)
    refine (h.room hputters).update fun hwoken => ?_
    cases hp : s.puts k with
    | parked d notified => rw [hp] at hwoken; cases notified <;> first | rfl | cases hwoken
    | _ => rw [hp] at hwoken; exact hwoken

/-- **A step keeps it.** -/
theorem step_waits (hs : s.Inv) (h : Waits cfg s) {i : Input κ ε} (hstep : (machine cfg).step s i = some s') :
    Waits cfg s' := by
  change step cfg s i = some s' at hstep
  cases i with
  | write k event =>
    simp only [step] at hstep
    split at hstep <;> cases hstep
    rename_i hk
    have hnone : s.puts k = .none := by
      have := hs.agrees k
      rwa [hk] at this
    unfold write
    split
    · exact h.congr rfl rfl rfl
    split
    · exact h.congr rfl rfl rfl
    · have htask : Waits cfg (s.setPut k (.created ⟨k, event⟩)) :=
        h.task (by simp [hnone]) (by simp) (by simp [hnone, PutTask.woken])
      exact htask.congr rfl rfl rfl
  | putTask k => exact runPut_waits h hstep
  | resumeWrite k =>
    simp only [step, resumeWrite] at hstep
    split at hstep
    · split at hstep <;> cases hstep
      · exact h.congr rfl rfl rfl
      · exact (cancelPut_waits h k).congr rfl rfl rfl
    · split at hstep <;> cases hstep
      exact h.congr rfl rfl rfl
    all_goals cases hstep <;> exact h.congr rfl rfl rfl
  | cancelWrite k =>
    simp only [step, cancelWrite] at hstep
    split at hstep <;> cases hstep <;> exact h.congr rfl rfl rfl
  | worker =>
    simp only [step, runWorker] at hstep
    split at hstep
    · cases hstep
      split
      · exact drain_waits h
      · exact h.congr rfl rfl rfl
    · cases hstep; exact drain_waits h
    · cases hstep
  | insertDone ok =>
    simp only [step] at hstep
    split at hstep <;> cases hstep
    rename_i batch _
    unfold insertDone
    cases ok with
    | false => exact h.congr rfl rfl rfl
    | true =>
      simp only [if_true]
      split
      · exact h.congr rfl rfl rfl
      split
      · split
        · exact h.congr rfl rfl rfl
        · exact drain_waits (h.congr rfl rfl rfl)
      · exact h.congr rfl rfl rfl
  | failureTask k | cancelWorker | reportFailure =>
    simp only [step, Option.ite_none_right_eq_some, Option.some.injEq] at hstep
    obtain ⟨-, rfl⟩ := hstep
    exact h.congr rfl rfl rfl
  | close | workerDone | shutdownTimeout | clientClosed ok | cancelClose =>
    simp only [step] at hstep
    split at hstep <;> cases hstep <;> exact h.congr rfl rfl rfl

omit [DecidableEq κ] in
/-- The worker holds one batch. -/
theorem Turn.batch_le {i : Input κ ε} (h : Turn cfg s s' i) (hb : s.worker.batch.length ≤ cfg.batchMaxsize) :
    s'.worker.batch.length ≤ cfg.batchMaxsize := by
  cases h with
  | rests hw => rwa [hw]
  | ends _ _ hbatch => rwa [hbatch]
  | idles _ hw => rcases hw with hw | ⟨hw, -⟩ <;> rw [hw] <;> exact Nat.zero_le _
  | inserts batch _ _ hlen hw => rwa [hw]

/-! ## Main result -/

/-- What holds in every state, however the calls, the put tasks and the worker interleave: a put task waits without
having been woken only behind a full queue or a task on its way, there are as many of these as there is room, and the
documents that are accepted and not confirmed are bounded. -/
def NoLostPut (cfg : Settings) (s : Output κ ε) : Prop :=
  (∀ k d, s.puts k = .parked d false → OnTheirWay s.puts (cfg.queueMaxsize - s.queue.length) ∧
    (s.full cfg = true ∨ ∃ q, (s.puts q).woken = true)) ∧
  s.queue.length ≤ cfg.queueMaxsize ∧ s.accepted.length ≤ s.confirmed.length + cfg.batchMaxsize + cfg.queueMaxsize

/-- **No put is lost.** -/
theorem no_lost_put (h : (machine cfg).Reachable (opened : Output κ ε) s) : NoLostPut cfg s := by
  obtain ⟨hs, hw, hbatch⟩ := h.invariant
    (I := fun s => Sound cfg s ∧ Waits cfg s ∧ s.worker.batch.length ≤ cfg.batchMaxsize)
    (fun _ _ _ ⟨hs, hw, hbatch⟩ hstep => ⟨step_sound hs hstep, step_waits hs.inv hw hstep,
      (step_turn hs.inv hs.closing.ready hs.ordered.held hstep).1.batch_le hbatch⟩)
    ⟨opened_sound, opened_waits cfg, Nat.zero_le _⟩
  refine ⟨fun k d hk => ?_, hw.bound, ?_⟩
  · have hroom := hw.room (List.ne_nil_of_mem (hw.waiting k d hk))
    refine ⟨hroom, ?_⟩
    by_cases hfull : s.full cfg = true
    · exact .inl hfull
    · have hfree : s.queue.length < cfg.queueMaxsize := by simpa [full] using hfull
      obtain ⟨tasks, -, hwoken, hn⟩ := hroom
      obtain ⟨q, hq⟩ := List.exists_mem_of_length_pos (l := tasks) (by omega)
      exact .inr ⟨q, hwoken q hq⟩
  · rw [hs.inv.conserved, List.length_append, List.length_append]
    have := hw.bound
    omega

/-- The second document waits behind the first one. -/
theorem no_lost_put_full : ∃ is, ∃ s : Output ℕ Unit,
    (machine singleQueue).Path (fun _ _ => True) opened is s ∧ s.puts 1 = .parked ⟨1, ()⟩ false ∧
    (s.full singleQueue = true ∨ ∃ q, (s.puts q).woken = true) := by
  obtain ⟨s, hs, hp⟩ := Machine.exists_path_of_check (M := machine singleQueue) (P := fun _ _ => True)
    (p := fun s : Output ℕ Unit => decide (s.puts 1 = .parked ⟨1, ()⟩ false)) opened
    [.write 0 (), .putTask 0, .write 1 (), .putTask 1] (by decide +kernel)
  have hparked := of_decide_eq_true hp
  exact ⟨_, s, hs, hparked, ((no_lost_put ⟨_, hs⟩).1 1 _ hparked).2⟩

end Output

end BinanceCollector.Mongo
