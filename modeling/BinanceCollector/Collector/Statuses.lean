import BinanceCollector.Collector.ConnectionRuns

/-!
# The reported statuses

What `_report_status` has last said in each category, at every point of a run of either collector.

- `Posts`, `posts_of_step`: what a step adds to the history, as far as the statuses are concerned.
- `step_posting`: the last statuses tell where the task waits, what has been confirmed and what has been received.
- `statuses_coherent_iff`: no status stays behind when the connection is gone, exactly if no attempt ends after data or,
  other than by a `SubscriptionError`, after a confirmation. A confirmation always follows a success response on the
  same connection.
-/

namespace BinanceCollector.Connection

open Text

variable {μ : Type}

/-! ## The last statuses -/

/-- The categories of `_report_status`. -/
inductive Category where
  | connection | subscription | data | error
  deriving DecidableEq, Repr

def Status.category : Status → Category
  | .connecting | .connected | .disconnected | .waiting _ | .terminated => .connection
  | .awaitingSubscription | .subscribing | .subscribed _ | .subscriptionFailed => .subscription
  | .receivingData => .data
  | .error _ => .error

/-- The value of a category after an act. -/
def post (c : Category) (last : Option Status) : Act μ → Option Status
  | .reports status => if status.category = c then some status else last
  | _ => last

/-- The most recently reported value of a category. -/
def latest (c : Category) (h : List (Act μ)) : Option Status := h.foldl (post c) none

/-- The connection status is the connected value. -/
def Connected (h : List (Act μ)) : Prop := latest .connection h = some .connected

/-- The subscription status is a confirmed value. -/
def Confirmed (h : List (Act μ)) : Prop := ∃ n, latest .subscription h = some (.subscribed n)

/-- The data status is the receiving value. -/
def Receiving (h : List (Act μ)) : Prop := latest .data h = some .receivingData

/-- The subscription status is no confirmed value, and the data status is not the receiving value. -/
def Clear (h : List (Act μ)) : Prop := ¬Confirmed h ∧ ¬Receiving h

/-- While the connection status is not the connected value, the other two are clear. -/
def Coherent (h : List (Act μ)) : Prop := ¬Connected h → Clear h

/-- The confirmed value may be reported next: on this connection, `SUBSCRIBE` has been sent, and the last message is a
success response that has been handled. -/
def Acknowledged (p : Profile μ) (h : List (Act μ)) : Prop :=
  ∃ before during payload message, h = before ++ .begins :: (during ++
      [.receives payload, .handles payload message, .delivers, .controls .confirms payload]) ∧
    (∀ a ∈ during, a.inner = true) ∧ .reports .connected ∈ during ∧ .reports .subscribing ∈ during ∧
    parseSubscriptionResponse p.limits subscriptionRequestId payload = .ok (some .success)

/-! ## Reading the statuses -/

theorem latest_append (c : Category) (h acts : List (Act μ)) :
    latest c (h ++ acts) = acts.foldl (post c) (latest c h) := List.foldl_append

/-- An act that reports nothing in this category. -/
def Act.quietIn (c : Category) : Act μ → Bool
  | .reports status => status.category ≠ c
  | _ => true

theorem latest_quiet {c : Category} {acts : List (Act μ)} (ha : ∀ a ∈ acts, a.quietIn c = true) (h : List (Act μ)) :
    latest c (h ++ acts) = latest c h := by
  induction acts generalizing h with
  | nil => rw [List.append_nil]
  | cons a acts ih =>
    have hhead : latest c (h ++ [a]) = latest c h := by
      have hq := ha a List.mem_cons_self
      rw [latest_append]
      cases a <;> first | rfl | simp_all [post, Act.quietIn]
    rw [List.append_cons, ih (fun b hb => ha b (List.mem_cons_of_mem a hb)), hhead]

/-- Coherent at every point of the history. -/
def CoherentThroughout (h : List (Act μ)) : Prop := ∀ pre, pre <+: h → Coherent pre

theorem CoherentThroughout.snoc {h : List (Act μ)} {a : Act μ} (hc : CoherentThroughout h) (ha : Coherent (h ++ [a])) :
    CoherentThroughout (h ++ [a]) := by
  intro pre hpre
  rcases List.prefix_concat_iff.1 hpre with rfl | hpre
  · exact ha
  · exact hc pre hpre

/-- An invariant that implies coherence and is kept by every act that follows. -/
theorem CoherentThroughout.append {I : List (Act μ) → Prop} {q : Act μ → Prop} (hI : ∀ h, I h → Coherent h)
    (hkeep : ∀ h a, q a → I h → I (h ++ [a])) {h acts : List (Act μ)} (hc : CoherentThroughout h) (h₀ : I h)
    (ha : ∀ a ∈ acts, q a) : CoherentThroughout (h ++ acts) ∧ I (h ++ acts) := by
  induction acts generalizing h with
  | nil => rw [List.append_nil]; exact ⟨hc, h₀⟩
  | cons a acts ih =>
    have hnext := hkeep h a (ha a List.mem_cons_self) h₀
    rw [List.append_cons]
    exact ih (hc.snoc (hI _ hnext)) hnext fun b hb => ha b (List.mem_cons_of_mem a hb)

/-- As long as the connection status stays connected, the others may change. -/
theorem CoherentThroughout.connected {h acts : List (Act μ)} (hc : CoherentThroughout h) (hconn : Connected h)
    (ha : ∀ a ∈ acts, a.quietIn .connection = true) : CoherentThroughout (h ++ acts) ∧ Connected (h ++ acts) := by
  refine hc.append (q := fun a => a.quietIn .connection = true) (fun h hconn hno => absurd hconn hno)
    (fun h a hq hconn => ?_) hconn ha
  rw [Connected, latest_quiet fun b hb => List.mem_singleton.1 hb ▸ hq]
  exact hconn

/-- The act reports neither a confirmation nor data. -/
def Act.modest : Act μ → Bool
  | .reports (.subscribed _) | .reports .receivingData => false
  | _ => true

theorem clear_nil : Clear ([] : List (Act μ)) := by
  constructor
  · rintro ⟨_, hn⟩
    cases hn
  · intro h
    cases h

theorem Clear.snoc {h : List (Act μ)} (hc : Clear h) {a : Act μ} (ha : a.modest = true) : Clear (h ++ [a]) := by
  obtain ⟨hsub, hdata⟩ := hc
  constructor
  · rintro ⟨n, hn⟩
    rw [latest_append] at hn
    cases a with
    | reports status => cases status <;> first | cases ha; done | exact hsub ⟨n, hn⟩ | cases hn
    | _ => exact hsub ⟨n, hn⟩
  · intro hr
    rw [Receiving, latest_append] at hr
    cases a with
    | reports status => cases status <;> first | cases ha; done | exact hdata hr
    | _ => exact hdata hr

/-- As long as nothing is confirmed and no data comes in, the connection status may change. -/
theorem CoherentThroughout.clear {h acts : List (Act μ)} (hc : CoherentThroughout h) (hclear : Clear h)
    (ha : ∀ a ∈ acts, a.modest = true) : CoherentThroughout (h ++ acts) ∧ Clear (h ++ acts) :=
  hc.append (q := fun a => a.modest = true) (fun _ hclear _ => hclear) (fun _ _ hq hc => Clear.snoc hc hq) hclear ha

/-! ## What has been handled -/

/-- The handler has returned for this payload, and the client has gone on. -/
def Delivered (h : List (Act μ)) (payload : WireMessage) : Prop :=
  ∃ message, [.handles payload message, .delivers] <:+: h

/-- The payload is a success response. -/
def Profile.confirms (p : Profile μ) (payload : WireMessage) : Bool :=
  match parseSubscriptionResponse p.limits subscriptionRequestId payload with
  | .ok (some .success) => true
  | _ => false

/-- The payload is a message of a subscribed stream. -/
def Profile.knows (p : Profile μ) (payload : WireMessage) : Bool :=
  match p.isKnownStream payload with
  | .ok known => known
  | .error _ => false

/-- The payload is a message of a subscribed stream, and no error response. -/
def Profile.brings (p : Profile μ) (payload : WireMessage) : Bool :=
  match parseSubscriptionResponse p.limits subscriptionRequestId payload with
  | .ok none | .ok (some .success) => p.knows payload
  | .ok (some (.error _)) | .error _ => false

/-- A message of a subscribed stream has been handled. -/
def Fed (p : Profile μ) (h : List (Act μ)) : Prop := ∃ payload, Delivered h payload ∧ p.brings payload = true

theorem delivered_snoc {h : List (Act μ)} {a : Act μ} {payload : WireMessage} :
    Delivered (h ++ [a]) payload ↔ Delivered h payload ∨
      a = .delivers ∧ ∃ message, [.handles payload message] <:+ h := by
  constructor
  · rintro ⟨message, hm⟩
    rcases List.infix_concat_iff.1 hm with hm | hm
    · rcases List.suffix_concat_iff.1 hm with hm | ⟨t, ht, hsuffix⟩
      · cases hm
      · have hsplit : [Act.handles payload message] ++ [.delivers] = t ++ [a] := ht
        obtain ⟨rfl, hlast⟩ := List.append_inj' hsplit rfl
        cases hlast
        exact .inr ⟨rfl, message, hsuffix⟩
    · exact .inl ⟨message, hm⟩
  · rintro (⟨message, hm⟩ | ⟨rfl, message, pre, rfl⟩)
    · exact ⟨message, List.infix_concat_iff.2 (.inr hm)⟩
    · exact ⟨message, List.infix_concat_iff.2 (.inl ⟨pre, by simp⟩)⟩

/-- An act other than the return of the handler delivers nothing. -/
theorem delivered_append {acts : List (Act μ)} (ha : ∀ a ∈ acts, a ≠ .delivers) {h : List (Act μ)}
    {payload : WireMessage} : Delivered (h ++ acts) payload ↔ Delivered h payload := by
  induction acts generalizing h with
  | nil => rw [List.append_nil]
  | cons a acts ih =>
    rw [List.append_cons, ih fun b hb => ha b (List.mem_cons_of_mem a hb), delivered_snoc,
      or_iff_left fun hd => ha a List.mem_cons_self hd.1]

/-! ## What a step posts -/

/-- The connection has been made, and is not yet closed. -/
def Phase.isOpen : Phase → Bool
  | .sending | .receiving | .settling _ | .handling _ | .settlingDelivery _ _ | .closing _ => true
  | _ => false

/-- The payload whose handling may still succeed. -/
def Phase.serving : Phase → Option WireMessage
  | .handling payload | .settlingDelivery payload (.ok true) => some payload
  | _ => none

/-- An act inside an attempt that reports and delivers nothing. -/
def Act.silent : Act μ → Bool
  | .cancelled | .handlerFails | .controls _ _ | .receives _ | .handles _ _ => true
  | _ => false

/-- What is said about a payload that has been handled. -/
def Profile.said (p : Profile μ) (payload : WireMessage) : List (Act μ) :=
  (if p.confirms payload then [.controls .confirms payload, .reports (.subscribed p.streams)] else []) ++
    if p.brings payload then [.reports .receivingData] else []

/-- The end of the loop leaves the statuses alone, and the connection open. -/
structure Rested (s : State μ) (tail : List (Act μ)) (s' : State μ) : Prop where
  history : s'.history = s.history ++ tail
  silent : ∀ a ∈ tail, a.silent = true
  isOpen : s'.phase.isOpen = true
  serving : s'.phase.serving = none
  confirmed : s'.confirmed = s.confirmed

/-- What is reported about an exception that ends an attempt. -/
def notice : Option Exc → List (Act μ)
  | some (.subscription reason) => [.reports .subscriptionFailed, .reports (.error (.subscription reason))]
  | some (.link e) => [.reports .disconnected, .reports (.error (.link e))]
  | _ => []

/-- What is reported before the next attempt, or at the end of the run. -/
inductive Parting : List (Act μ) → Prop
  | terminates : Parting [.reports .terminated]
  | waits (attempt : Attempt) (index : ℕ) (delay : ℚ) :
      Parting [.reports (.waiting delay), .waits attempt index delay]

/-- What the end of an attempt adds to the history. -/
structure Parted (outcome : Option Exc) (s s' : State μ) (last : List (Act μ)) : Prop where
  history : s'.history = s.history ++ .ends outcome :: (notice outcome ++ last)
  parting : Parting last
  out : s'.phase.inAttempt = false

/-- What a step adds to the history. -/
inductive Posts (p : Profile μ) (s : State μ) (i : Input) : State μ → Prop
  /-- nothing about the statuses -/
  | stays {s' : State μ} (acts : List (Act μ)) : s'.history = s.history ++ acts → (∀ a ∈ acts, a.silent = true) →
      attemptOutcome s i = none → s'.phase.isOpen = s.phase.isOpen → s'.phase.inAttempt = s.phase.inAttempt →
      s'.confirmed = s.confirmed →
      (∀ payload, s'.phase.serving = some payload → acts = [] ∧ s.phase.serving = some payload) → Posts p s i s'
  /-- a message is handed on -/
  | takes {s' : State μ} (payload : WireMessage) (message : μ) :
      s'.history = s.history ++ [.receives payload, .handles payload message] → attemptOutcome s i = none →
      s.phase.isOpen = true → s'.phase = .handling payload → s'.confirmed = s.confirmed → Posts p s i s'
  /-- a message has been handled -/
  | serves {s' : State μ} (payload : WireMessage) (tail : List (Act μ)) : s.phase.serving = some payload →
      attemptOutcome s i = none → s'.history = s.history ++ (.delivers :: (p.said payload ++ tail)) →
      (∀ a ∈ tail, a.silent = true) → s'.phase.isOpen = true → s'.phase.serving = none →
      s'.confirmed = (p.confirms payload || s.confirmed) → Posts p s i s'
  | opens {s' : State μ} : s.phase = .connecting → attemptOutcome s i = none →
      s'.history = s.history ++ [.reports .connected, .reports .subscribing] → s'.phase = .sending →
      s'.confirmed = s.confirmed → Posts p s i s'
  | begins {s' : State μ} : s.phase.inAttempt = false → attemptOutcome s i = none →
      s'.history = s.history ++ [.reports .connecting, .reports .awaitingSubscription, .begins] →
      s'.phase = .connecting → s'.confirmed = false → Posts p s i s'
  /-- an attempt ends -/
  | ends {s' : State μ} (t : State μ) (outcome : Option Exc) (last : List (Act μ)) : s.phase.inAttempt = true →
      attemptOutcome s i = some outcome → (t.history = s.history ∨ t.history = s.history ++ [.cancelled]) →
      Parted outcome t s' last → Posts p s i s'
  /-- the run ends between two attempts -/
  | finishes {s' : State μ} (acts : List (Act μ)) : s.phase.inAttempt = false → attemptOutcome s i = none →
      s'.history = s.history ++ acts ++ [.reports .terminated] → (∀ a ∈ acts, a.silent = true) →
      s'.phase.inAttempt = false → Posts p s i s'

section

variable {p : Profile μ} {s : State μ}

theorem receive_rested (s : State μ) : Rested s [] s.receive := by
  rw [State.receive]
  split <;> exact ⟨(List.append_nil _).symm, List.forall_mem_nil _, rfl, rfl, rfl⟩

/-- The end of the loop body reports data, and then rests. -/
theorem watch_rested (s : State μ) (payload : WireMessage) :
    ∃ t tail, t.history = s.history ++ (if p.knows payload then [.reports .receivingData] else []) ∧
      t.confirmed = s.confirmed ∧ Rested t tail (s.watch p payload) := by
  unfold State.watch Profile.knows
  cases p.isKnownStream payload with
  | error failure =>
    exact ⟨s, [], (List.append_nil _).symm, rfl, (List.append_nil _).symm, List.forall_mem_nil _, rfl, rfl, rfl⟩
  | ok known =>
    have hhistory : (if known then s.report .receivingData else s).history =
        s.history ++ (if known then [.reports .receivingData] else []) := by
      cases known
      · exact (List.append_nil _).symm
      · rfl
    have hconfirmed : (if known then s.report .receivingData else s).confirmed = s.confirmed := by cases known <;> rfl
    refine ⟨if known then s.report .receivingData else s, ?_⟩
    cases p.isServerShutdown payload with
    | error failure => exact ⟨[], hhistory, hconfirmed, (List.append_nil _).symm, List.forall_mem_nil _, rfl, rfl, rfl⟩
    | ok shuts =>
      cases shuts with
      | false => exact ⟨[], hhistory, hconfirmed, receive_rested _⟩
      | true => exact ⟨[.controls .shutsDown payload], hhistory, hconfirmed, rfl, by simp [Act.silent], rfl, rfl, rfl⟩

/-- What is said about a message that is no error response. -/
theorem watch_posts {i : Input} (hno : attemptOutcome s i = none) {payload : WireMessage}
    (hs : s.phase.serving = some payload) {t : State μ} (hbrings : p.brings payload = p.knows payload)
    (ht : t.history = s.history ++ .delivers ::
      if p.confirms payload then [.controls .confirms payload, .reports (.subscribed p.streams)] else [])
    (hc : t.confirmed = (p.confirms payload || s.confirmed)) : Posts p s i (t.watch p payload) := by
  obtain ⟨u, tail, hu, huc, hrest⟩ := watch_rested (p := p) t payload
  refine .serves payload tail hs hno ?_ hrest.silent hrest.isOpen hrest.serving (hrest.confirmed.trans (huc.trans hc))
  rw [hrest.history, hu, ht, Profile.said, hbrings]
  simp

/-- A message that has been handled is spoken about. -/
theorem handled_posts (i : Input) (hno : attemptOutcome s i = none) {payload : WireMessage}
    (hs : s.phase.serving = some payload) : Posts p s i (s.handled p payload) := by
  unfold State.handled
  cases hresponse : parseSubscriptionResponse p.limits subscriptionRequestId payload with
  | error failure =>
    refine .serves payload [] hs hno ?_ (List.forall_mem_nil _) rfl rfl ?_
    · simp [Profile.said, Profile.confirms, Profile.brings, hresponse, State.act, State.at_]
    · simp [Profile.confirms, hresponse, State.act, State.at_]
  | ok response =>
    cases response with
    | none =>
      refine watch_posts hno hs ?_ ?_ ?_
      · simp [Profile.brings, hresponse]
      · simp [Profile.confirms, hresponse, State.act]
      · simp [Profile.confirms, hresponse, State.act]
    | some response =>
      cases response with
      | error detail =>
        refine .serves payload [.controls .rejects payload] hs hno ?_ (by simp [Act.silent]) rfl rfl ?_
        · simp [Profile.said, Profile.confirms, Profile.brings, hresponse, State.act, State.at_]
        · simp [Profile.confirms, hresponse, State.act, State.at_]
      | success =>
        refine watch_posts hno hs ?_ ?_ ?_
        · simp [Profile.brings, hresponse]
        · simp [Profile.confirms, hresponse, State.act, State.report]
        · simp [Profile.confirms, hresponse, State.act, State.report]

theorem Parted.retry {t : State μ} {outcome : Option Exc}
    (ht : t.history = s.history ++ .ends outcome :: notice outcome) :
    ∃ last, Parted outcome s (t.retry outcome) last := by
  unfold State.retry
  split
  · exact ⟨_, by simp [State.finish, State.report, State.act, State.at_, ht], .terminates, rfl⟩
  · exact ⟨_, by simp [State.report, State.act, State.at_, ht],
      .waits ⟨outcome, t.confirmed, t.delivered⟩ t.policy.index t.policy.nextDelay.1, rfl⟩

theorem Parted.finish {outcome : Option Exc} (hn : notice (μ := μ) outcome = []) (e : Exc) :
    ∃ last, Parted outcome s ((s.act (.ends outcome)).finish (.raised e)) last :=
  ⟨_, by simp [State.finish, State.report, State.act, State.at_, hn], .terminates, rfl⟩

theorem attemptEnds_parted (s : State μ) (outcome : Option Exc) :
    ∃ last, Parted outcome s (s.attemptEnds outcome) last := by
  match outcome with
  | none => exact Parted.retry rfl
  | some (.subscription reason) => exact Parted.retry (by simp [notice, State.report, State.act])
  | some (.link e) => exact Parted.retry (by simp [notice, State.report, State.act])
  | some .cancelled => exact Parted.finish rfl _
  | some .messageHandler => exact Parted.finish rfl _
  | some .invalidHandshake => exact Parted.finish rfl _
  | some (.decoding failure) => exact Parted.finish rfl _

theorem attemptEnds_posts {i : Input} {t : State μ} {outcome : Option Exc} (hin : s.phase.inAttempt = true)
    (ho : attemptOutcome s i = some outcome) (ht : t.history = s.history ∨ t.history = s.history ++ [.cancelled]) :
    Posts p s i (t.attemptEnds outcome) := by
  obtain ⟨last, hparted⟩ := attemptEnds_parted t outcome
  exact .ends t outcome last hin ho ht hparted

/-- The task waits at another place of an open connection. -/
theorem Posts.moves {i : Input} {t : State μ} {q : Phase} (acts : List (Act μ)) (hno : attemptOutcome s i = none)
    (hh : t.history = s.history ++ acts) (ha : ∀ a ∈ acts, a.silent = true) (hopen : s.phase.isOpen = true)
    (hq : q.isOpen = true) (hc : t.confirmed = s.confirmed) (hserving : q.serving = none) : Posts p s i (t.at_ q) := by
  have hin : ∀ q : Phase, q.isOpen = true → q.inAttempt = true := fun q h => by cases q <;> first | rfl | cases h
  refine .stays acts hh ha hno (hq.trans hopen.symm) ((hin q hq).trans (hin _ hopen).symm) hc fun payload hp => ?_
  rw [State.at_, hserving] at hp
  cases hp

theorem receive_posts {i : Input} (hno : attemptOutcome s i = none) (hopen : s.phase.isOpen = true) :
    Posts p s i s.receive := by
  unfold State.receive
  split <;> exact .moves [] hno (List.append_nil _).symm (List.forall_mem_nil _) hopen rfl rfl rfl

theorem received_posts {i : Input} (hno : attemptOutcome s i = none) (hopen : s.phase.isOpen = true) (now : ℤ)
    (result : Except Exc (Option WireMessage)) : Posts p s i (s.received p now result) := by
  match result with
  | .error e => exact .moves [] hno (List.append_nil _).symm (List.forall_mem_nil _) hopen rfl rfl rfl
  | .ok none => exact .moves [] hno (List.append_nil _).symm (List.forall_mem_nil _) hopen rfl rfl rfl
  | .ok (some payload) =>
    exact .takes payload (p.message s.attempt (s.sequence + 1) payload now)
      (by simp [State.received, State.act, State.at_]) hno hopen rfl rfl

/-- The handler has not returned normally. -/
theorem handlerFails_posts {i : Input} {t : State μ} (acts : List (Act μ)) (hno : attemptOutcome s i = none)
    (hh : t.history = s.history ++ acts) (ha : ∀ a ∈ acts, a.silent = true) (hopen : s.phase.isOpen = true)
    (hc : t.confirmed = s.confirmed) (payload : WireMessage) (e : Exc) :
    Posts p s i (t.handlerEnds p payload (.error e)) := by
  unfold State.handlerEnds
  split
  · exact .moves acts hno hh ha hopen rfl hc rfl
  · exact .moves acts hno hh ha hopen rfl hc rfl

theorem handlerReturns_posts {payload : WireMessage} (hphase : s.phase = .handling payload)
    (hno : attemptOutcome s .handlerReturns = none) :
    Posts p s .handlerReturns (s.handlerEnds p payload (.ok true)) := by
  unfold State.handlerEnds
  split
  · refine .stays [] (List.append_nil _).symm (List.forall_mem_nil _) hno ?_ ?_ rfl fun payload' hp => ⟨rfl, ?_⟩
    · rw [hphase]; rfl
    · rw [hphase]; rfl
    · rw [hphase]; exact hp
  · exact handled_posts _ hno (by rw [hphase]; rfl)

theorem deliveryEnds_posts {i : Input} {payload : WireMessage} {result : Except Exc Bool}
    (hphase : s.phase = .settlingDelivery payload result) (hno : attemptOutcome s i = none) :
    Posts p s i (s.deliveryEnds p payload result) := by
  have hopen : s.phase.isOpen = true := by rw [hphase]; rfl
  match result with
  | .ok true => exact handled_posts _ hno (by rw [hphase]; rfl)
  | .ok false => exact .moves [] hno (List.append_nil _).symm (List.forall_mem_nil _) hopen rfl rfl rfl
  | .error e => exact .moves [] hno (List.append_nil _).symm (List.forall_mem_nil _) hopen rfl rfl rfl

theorem loop_posts {i : Input} (hout : s.phase.inAttempt = false) (hno : attemptOutcome s i = none) {t : State μ}
    (ht : t.history = s.history) : Posts p s i t.loop := by
  unfold State.loop
  split
  · exact .finishes [] hout hno (by simp [State.finish, State.report, State.act, State.at_, ht])
      (List.forall_mem_nil _) rfl
  · exact .begins hout hno (by simp [State.report, State.act, State.at_, ht]) rfl rfl

theorem cancel_posts {s' : State μ} (h : s.cancel p = some s') : Posts p s .cancel s' := by
  have hh : (s.act .cancelled).history = s.history ++ [.cancelled] := rfl
  have ha : ∀ a ∈ [Act.cancelled (μ := μ)], a.silent = true := by simp [Act.silent]
  simp only [State.cancel, show (s.act .cancelled).phase = s.phase from rfl] at h
  split at h <;> rename_i hphase <;> cases h
  · refine .stays [.cancelled] rfl ha (by simp [attemptOutcome, hphase]) ?_ ?_ rfl fun payload hp => by cases hp
    · rw [hphase]; rfl
    · rw [hphase]; rfl
  · exact attemptEnds_posts (by rw [hphase]; rfl) (by simp [attemptOutcome, hphase]) (.inr rfl)
  · exact .moves [.cancelled] (by simp [attemptOutcome, hphase]) hh ha (by rw [hphase]; rfl) rfl rfl rfl
  · exact .moves [.cancelled] (by simp [attemptOutcome, hphase]) hh ha (by rw [hphase]; rfl) rfl rfl rfl
  · exact .moves [.cancelled] (by simp [attemptOutcome, hphase]) hh ha (by rw [hphase]; rfl) rfl rfl rfl
  · exact handlerFails_posts [.cancelled] (by simp [attemptOutcome, hphase]) hh ha (by rw [hphase]; rfl) rfl _ _
  · exact .moves [.cancelled] (by simp [attemptOutcome, hphase]) hh ha (by rw [hphase]; rfl) rfl rfl rfl
  · exact attemptEnds_posts (by rw [hphase]; rfl) (by simp [attemptOutcome, hphase]) (.inr rfl)
  · exact .finishes [.cancelled] (by rw [hphase]; rfl) (by simp [attemptOutcome, hphase]) rfl ha rfl

theorem posts_of_step {s' : State μ} {i : Input} (h : (machine p).step s i = some s') : Posts p s i s' := by
  have hnil : s.history = s.history ++ [] := (List.append_nil _).symm
  cases effect_of_step h with
  | setStop =>
    exact .stays [] hnil (List.forall_mem_nil _) (by simp [attemptOutcome]) rfl rfl rfl
      fun payload hp => ⟨rfl, hp⟩
  | start hphase => exact loop_posts (by rw [hphase]; rfl) (by simp [attemptOutcome, hphase]) rfl
  | elapsed hphase => exact loop_posts (by rw [hphase]; rfl) (by simp [attemptOutcome, hphase]) rfl
  | connected hphase =>
    exact .opens hphase (by simp [attemptOutcome, hphase]) (by simp [State.report, State.act, State.at_]) rfl rfl
  | connectFails hphase => exact attemptEnds_posts (by rw [hphase]; rfl) (by simp [attemptOutcome, hphase]) (.inl rfl)
  | closed hphase => exact attemptEnds_posts (by rw [hphase]; rfl) (by simp [attemptOutcome, hphase]) (.inl rfl)
  | closeFails hphase => exact attemptEnds_posts (by rw [hphase]; rfl) (by simp [attemptOutcome, hphase]) (.inl rfl)
  | sent hphase => exact receive_posts (by simp [attemptOutcome, hphase]) (by rw [hphase]; rfl)
  | sendFails hphase =>
    exact .moves [] (by simp [attemptOutcome, hphase]) hnil (List.forall_mem_nil _) (by rw [hphase]; rfl) rfl rfl rfl
  | receives hphase | recvFails hphase | ackTimeout hphase | stopReceiving hphase | stopHandling hphase =>
    exact .moves [] (by simp [attemptOutcome, hphase]) hnil (List.forall_mem_nil _) (by rw [hphase]; rfl) rfl rfl rfl
  | stopWaiting hphase =>
    exact .finishes [] (by rw [hphase]; rfl) (by simp [attemptOutcome, hphase])
      (by simp [State.finish, State.report, State.act, State.at_]) (List.forall_mem_nil _) rfl
  | settled hphase => exact received_posts (by simp [attemptOutcome, hphase]) (by rw [hphase]; rfl) _ _
  | deliverySettled hphase => exact deliveryEnds_posts hphase (by simp [attemptOutcome, hphase])
  | handlerReturns hphase => exact handlerReturns_posts hphase (by simp [attemptOutcome, hphase])
  | handlerRaises hphase =>
    have hno : attemptOutcome s .handlerRaises = none := by simp [attemptOutcome, hphase]
    exact handlerFails_posts (t := s.act .handlerFails) [.handlerFails] hno rfl (by simp [Act.silent])
      (by rw [hphase]; rfl) rfl _ _
  | cancel hc => exact cancel_posts hc

/-! ## What the last statuses tell -/

/-- What the last statuses tell about the state. -/
structure Posting (p : Profile μ) (s : State μ) : Prop where
  connected : Connected s.history ↔ s.phase.isOpen = true
  confirmed : s.phase.inAttempt = true → (Confirmed s.history ↔ s.confirmed = true)
  connecting : s.phase.inAttempt = true → s.phase.isOpen = false → s.confirmed = false
  receiving : Receiving s.history ↔ Fed p s.history
  serving : ∀ payload, s.phase.serving = some payload →
    ∃ message, [.receives payload, .handles payload message] <:+ s.history

theorem Act.silent_quiet {a : Act μ} (ha : a.silent = true) (c : Category) : a.quietIn c = true := by
  cases a <;> first | rfl | cases ha

theorem Act.silent_ne {a : Act μ} (ha : a.silent = true) : a ≠ .delivers := by
  rintro rfl
  cases ha

theorem latest_silent {acts : List (Act μ)} (ha : ∀ a ∈ acts, a.silent = true) (c : Category) (h : List (Act μ)) :
    latest c (h ++ acts) = latest c h := latest_quiet (fun a hmem => Act.silent_quiet (ha a hmem) c) h

theorem fed_append {acts : List (Act μ)} (ha : ∀ a ∈ acts, a ≠ .delivers) {h : List (Act μ)} :
    Fed p (h ++ acts) ↔ Fed p h := by simp only [Fed, delivered_append ha]

/-- The return of the handler delivers the last payload. -/
theorem fed_delivers {h : List (Act μ)} {payload : WireMessage} {message : μ}
    (hlast : [.handles payload message] <:+ h) : Fed p (h ++ [.delivers]) ↔ Fed p h ∨ p.brings payload = true := by
  constructor
  · rintro ⟨payload', hd, hb⟩
    rcases delivered_snoc.1 hd with hd | ⟨-, message', hlast'⟩
    · exact .inl ⟨payload', hd, hb⟩
    · have heq := (List.suffix_of_suffix_length_le hlast' hlast (Nat.le_refl 1)).eq_of_length rfl
      cases heq
      exact .inr hb
  · rintro (⟨payload', hd, hb⟩ | hb)
    · exact ⟨payload', delivered_snoc.2 (.inl hd), hb⟩
    · exact ⟨payload, delivered_snoc.2 (.inr ⟨rfl, message, hlast⟩), hb⟩

theorem Phase.inAttempt_of_isOpen {q : Phase} (hq : q.isOpen = true) : q.inAttempt = true := by
  cases q <;> first | rfl | cases hq

theorem Phase.isOpen_of_out {q : Phase} (hq : q.inAttempt = false) : q.isOpen = false :=
  Bool.eq_false_iff.2 fun h => by rw [Phase.inAttempt_of_isOpen h] at hq; cases hq

theorem notice_quiet {outcome : Option Exc} (ho : ∀ reason, outcome ≠ some (.subscription reason)) :
    ∀ a ∈ notice (μ := μ) outcome, a.quietIn .subscription = true := by
  match outcome with
  | none | some .cancelled | some .messageHandler | some .invalidHandshake | some (.decoding _) =>
    exact List.forall_mem_nil _
  | some (.link e) => simp [notice, Act.quietIn, Status.category]
  | some (.subscription reason) => exact absurd rfl (ho reason)

theorem notice_modest (outcome : Option Exc) :
    ∀ a ∈ notice (μ := μ) outcome, a.modest = true ∧ a.quietIn .data = true ∧ a ≠ .delivers := by
  match outcome with
  | none | some .cancelled | some .messageHandler | some .invalidHandshake | some (.decoding _) =>
    exact List.forall_mem_nil _
  | some (.link e) | some (.subscription reason) => simp [notice, Act.modest, Act.quietIn, Status.category]

/-- The acts at the end of an attempt, up to the parting report. -/
structure Ending (outcome : Option Exc) (acts : List (Act μ)) : Prop where
  modest : ∀ a ∈ acts, a.modest = true ∧ a.quietIn .data = true ∧ a ≠ .delivers
  other : (∀ reason, outcome ≠ some (.subscription reason)) → ∀ a ∈ acts, a.quietIn .subscription = true
  failed : ∀ reason, outcome = some (.subscription reason) →
    (∀ a ∈ acts, a.quietIn .connection = true) ∧ ∀ h, ¬Confirmed (h ++ acts)

theorem ending_notice {outcome : Option Exc} {before : List (Act μ)} (hb : before = [] ∨ before = [.cancelled]) :
    Ending outcome (before ++ .ends outcome :: notice outcome) := by
  have hbefore : ∀ a ∈ before, a = .cancelled := by rcases hb with rfl | rfl <;> simp
  constructor
  · intro a ha
    rcases List.mem_append.1 ha with ha | ha
    · rw [hbefore a ha]; exact ⟨rfl, rfl, fun h => by cases h⟩
    rcases List.mem_cons.1 ha with rfl | ha
    · exact ⟨rfl, rfl, fun h => by cases h⟩
    · exact notice_modest outcome a ha
  · intro ho a ha
    rcases List.mem_append.1 ha with ha | ha
    · rw [hbefore a ha]; rfl
    rcases List.mem_cons.1 ha with rfl | ha
    · rfl
    · exact notice_quiet ho a ha
  · rintro reason rfl
    constructor
    · have hquiet : ∀ a ∈ Act.ends (μ := μ) (some (.subscription reason)) :: notice (some (.subscription reason)),
          a.quietIn .connection = true := by simp [notice, Act.quietIn, Status.category]
      intro a ha
      rcases List.mem_append.1 ha with ha | ha
      · rw [hbefore a ha]; rfl
      · exact hquiet a ha
    · rintro h ⟨n, hn⟩
      rw [← List.append_assoc, latest_append] at hn
      simp [notice, post, Status.category] at hn

/-- Where an attempt has ended, in what order this has been reported. -/
theorem Parted.acts {outcome : Option Exc} {t s' : State μ} {last : List (Act μ)} (h : Parted outcome t s' last)
    (ht : t.history = s.history ∨ t.history = s.history ++ [.cancelled]) :
    ∃ acts, s'.history = s.history ++ acts ++ last ∧ Ending outcome acts := by
  rcases ht with ht | ht
  · exact ⟨_, by rw [h.history, ht]; simp, ending_notice (.inl rfl)⟩
  · exact ⟨_, by rw [h.history, ht]; simp, ending_notice (.inr rfl)⟩

theorem Parting.modest {last : List (Act μ)} (h : Parting last) :
    ∀ a ∈ last, a.modest = true ∧ a.quietIn .data = true ∧ a ≠ .delivers := by
  cases h <;> simp [Act.modest, Act.quietIn, Status.category]

theorem Parting.quiet {last : List (Act μ)} (h : Parting last) : ∀ a ∈ last, a.quietIn .subscription = true := by
  cases h <;> simp [Act.quietIn, Status.category]

/-- After an attempt and after a run, the connection status is not the connected value. -/
theorem Parting.not_connected {last : List (Act μ)} (hlast : Parting last) (h : List (Act μ)) :
    ¬Connected (h ++ last) := by
  rw [Connected, latest_append]
  cases hlast <;> simp [post, Status.category]

/-- Acts that say nothing about data leave it alone. -/
theorem Posting.receiving_append (hs : Posting p s) {acts : List (Act μ)}
    (ha : ∀ a ∈ acts, a.quietIn .data = true ∧ a ≠ .delivers) :
    Receiving (s.history ++ acts) ↔ Fed p (s.history ++ acts) := by
  rw [Receiving, latest_quiet fun a hmem => (ha a hmem).1, fed_append fun a hmem => (ha a hmem).2]
  exact hs.receiving

/-- What is said about a message that has been handled. -/
theorem latest_said (c : Category) (h : List (Act μ)) (payload : WireMessage) :
    latest c (h ++ .delivers :: p.said payload) =
      match c with
      | .subscription => if p.confirms payload then some (.subscribed p.streams) else latest .subscription h
      | .data => if p.brings payload then some .receivingData else latest .data h
      | c => latest c h := by
  rw [latest_append, Profile.said]
  cases p.confirms payload <;> cases p.brings payload <;> cases c <;> simp [post, Status.category]

theorem said_ne (payload : WireMessage) : ∀ a ∈ p.said payload, a ≠ .delivers ∧ a.inner = true ∧
    a.quietIn .connection = true := by
  rw [Profile.said]
  cases p.confirms payload <;> cases p.brings payload <;> simp [Act.inner, Act.quietIn, Status.category]

theorem Phase.isOpen_of_serving {q : Phase} {payload : WireMessage} (hq : q.serving = some payload) :
    q.isOpen = true := by
  cases q <;> first | rfl | cases hq

theorem step_posting (hs : Posting p s) {s' : State μ} {i : Input} (h : (machine p).step s i = some s') :
    Posting p s' := by
  cases posts_of_step h with
  | stays acts hh ha _ hopen hin hc hserving =>
    refine ⟨?_, fun hin' => ?_, fun hin' hopen' => ?_, ?_, fun payload hp => ?_⟩
    · rw [hh, Connected, latest_silent ha, hopen]
      exact hs.connected
    · rw [hh, Confirmed, latest_silent ha, hc]
      exact hs.confirmed (hin ▸ hin')
    · rw [hc]
      exact hs.connecting (hin ▸ hin') (hopen ▸ hopen')
    · rw [hh]
      exact hs.receiving_append fun a hmem => ⟨Act.silent_quiet (ha a hmem) _, Act.silent_ne (ha a hmem)⟩
    · obtain ⟨rfl, hp⟩ := hserving payload hp
      rw [hh, List.append_nil]
      exact hs.serving payload hp
  | takes payload message hh _ hopen hphase hc =>
    have ha : ∀ a ∈ [Act.receives payload, Act.handles payload message], a.silent = true := by simp [Act.silent]
    refine ⟨?_, fun _ => ?_, fun _ hopen' => ?_, ?_, fun payload' hp => ?_⟩
    · rw [hh, Connected, latest_silent ha, hphase]
      exact hs.connected.trans (iff_of_true hopen rfl)
    · rw [hh, Confirmed, latest_silent ha, hc]
      exact hs.confirmed (Phase.inAttempt_of_isOpen hopen)
    · rw [hphase] at hopen'
      cases hopen'
    · rw [hh]
      exact hs.receiving_append fun a hmem => ⟨Act.silent_quiet (ha a hmem) _, Act.silent_ne (ha a hmem)⟩
    · rw [hphase] at hp
      cases hp
      exact ⟨message, s.history, hh.symm⟩
  | serves payload tail hserving _ hh ha hopen hno hc =>
    have hopen₀ := Phase.isOpen_of_serving hserving
    obtain ⟨message, pre, hlast⟩ := hs.serving payload hserving
    have hhandles : [.handles payload message] <:+ s.history := ⟨pre ++ [.receives payload], by rw [← hlast]; simp⟩
    have hsaid : s'.history = s.history ++ .delivers :: p.said payload ++ tail := by rw [hh]; simp
    refine ⟨?_, fun _ => ?_, fun _ hopen' => ?_, ?_, fun payload' hp => ?_⟩
    · rw [hsaid, Connected, latest_silent ha, latest_said]
      exact hs.connected.trans (iff_of_true hopen₀ hopen)
    · rw [hsaid, Confirmed, latest_silent ha, latest_said, hc]
      have hbefore := hs.confirmed (Phase.inAttempt_of_isOpen hopen₀)
      cases p.confirms payload with
      | true => simp
      | false => exact hbefore
    · rw [hopen] at hopen'
      cases hopen'
    · have hfed : Fed p s'.history ↔ Fed p s.history ∨ p.brings payload = true := by
        rw [hh, List.append_cons, fed_append fun a hmem => ?_]
        · exact fed_delivers hhandles
        · rcases List.mem_append.1 hmem with hmem | hmem
          · exact (said_ne payload a hmem).1
          · exact Act.silent_ne (ha a hmem)
      rw [hfed, hsaid, Receiving, latest_silent ha, latest_said]
      cases p.brings payload with
      | true => simp
      | false => simpa [Receiving] using hs.receiving
    · rw [hno] at hp
      cases hp
  | opens hphase _ hh hphase' hc =>
    have hfalse : s'.confirmed = false := hc.trans (hs.connecting (by rw [hphase]; rfl) (by rw [hphase]; rfl))
    refine ⟨?_, fun _ => ?_, fun _ _ => hfalse, ?_, fun payload hp => ?_⟩
    · rw [hh, hphase', Connected, latest_append]
      exact iff_of_true rfl rfl
    · rw [hh, hfalse, Confirmed, latest_append]
      simp [post, Status.category]
    · rw [hh]
      exact hs.receiving_append (by simp [Act.quietIn, Status.category])
    · rw [hphase'] at hp
      cases hp
  | begins hout _ hh hphase hc =>
    refine ⟨?_, fun _ => ?_, fun _ _ => hc, ?_, fun payload hp => ?_⟩
    · rw [hh, hphase, Connected, latest_append]
      simp [post, Status.category, Phase.isOpen]
    · rw [hh, hc, Confirmed, latest_append]
      simp [post, Status.category]
    · rw [hh]
      exact hs.receiving_append (by simp [Act.quietIn, Status.category])
    · rw [hphase] at hp
      cases hp
  | ends t outcome last hin ho ht hparted =>
    obtain ⟨acts, hh, hending⟩ := hparted.acts ht
    have hopen := Phase.isOpen_of_out hparted.out
    refine ⟨?_, fun hin' => ?_, fun hin' _ => ?_, ?_, fun payload hp => ?_⟩
    · rw [hh, hopen]
      exact iff_of_false (hparted.parting.not_connected _) Bool.false_ne_true
    · rw [hparted.out] at hin'
      cases hin'
    · rw [hparted.out] at hin'
      cases hin'
    · rw [hh, List.append_assoc]
      refine hs.receiving_append fun a hmem => ?_
      rcases List.mem_append.1 hmem with hmem | hmem
      · exact (hending.modest a hmem).2
      · exact (hparted.parting.modest a hmem).2
    · rw [Phase.isOpen_of_serving hp] at hopen
      cases hopen
  | finishes acts hout _ hh ha hout' =>
    have hopen := Phase.isOpen_of_out hout'
    refine ⟨?_, fun hin' => ?_, fun hin' _ => ?_, ?_, fun payload hp => ?_⟩
    · rw [hh, hopen]
      exact iff_of_false (Parting.terminates.not_connected _) Bool.false_ne_true
    · rw [hout'] at hin'
      cases hin'
    · rw [hout'] at hin'
      cases hin'
    · rw [hh, List.append_assoc]
      refine hs.receiving_append fun a hmem => ?_
      rcases List.mem_append.1 hmem with hmem | hmem
      · exact ⟨Act.silent_quiet (ha a hmem) _, Act.silent_ne (ha a hmem)⟩
      · exact (Parting.terminates.modest a hmem).2
    · rw [Phase.isOpen_of_serving hp] at hopen
      cases hopen

theorem initial_posting (p : Profile μ) (policy : ReconnectPolicy) : Posting p (initial policy) where
  connected := iff_of_false (fun h => by cases h) Bool.false_ne_true
  confirmed h := by cases h
  connecting h := by cases h
  receiving := by
    refine iff_of_false (fun h => by cases h) ?_
    rintro ⟨payload, ⟨message, hd⟩, -⟩
    simp [initial] at hd
  serving payload h := by cases h

/-! ## Confirmations -/

/-- What has been confirmed has been acknowledged. -/
structure Grounded (p : Profile μ) (s : State μ) : Prop where
  since : s.phase.inAttempt = true → ∃ before during, s.history = before ++ .begins :: during ∧
    (∀ a ∈ during, a.inner = true) ∧
    (s.phase.isOpen = true → .reports .connected ∈ during ∧ .reports .subscribing ∈ during)
  confirmed : ∀ pre n, pre ++ [.reports (.subscribed n)] <+: s.history → Acknowledged p pre ∧ n = p.streams

/-- Where an act stands in a history that goes on. -/
theorem snoc_prefix_append {h acts pre : List (Act μ)} {a : Act μ} (hpre : pre ++ [a] <+: h ++ acts) :
    pre ++ [a] <+: h ∨ ∃ l r, acts = l ++ a :: r ∧ pre = h ++ l := by
  obtain ⟨r, hr⟩ := hpre
  rcases List.append_eq_append_iff.1 hr with ⟨l, hh, -⟩ | ⟨l, hpre, hacts⟩
  · exact .inl ⟨l, hh.symm⟩
  · rcases List.eq_nil_or_concat l with rfl | ⟨l, b, rfl⟩
    · exact .inl ⟨[], by rw [List.append_nil]; exact hpre.trans (List.append_nil _)⟩
    · rw [List.concat_eq_append, ← List.append_assoc] at hpre
      obtain ⟨rfl, hab⟩ := List.append_inj' hpre rfl
      cases hab
      exact .inr ⟨l, r, by rw [hacts]; simp, rfl⟩

/-- Acts that confirm nothing leave the confirmations alone. -/
theorem Grounded.confirmed_append (hs : Grounded p s) {acts : List (Act μ)} (ha : ∀ a ∈ acts, a.modest = true)
    (pre : List (Act μ)) (n : ℕ) (hpre : pre ++ [.reports (.subscribed n)] <+: s.history ++ acts) :
    Acknowledged p pre ∧ n = p.streams := by
  rcases snoc_prefix_append hpre with hpre | ⟨l, r, rfl, -⟩
  · exact hs.confirmed pre n hpre
  · cases ha (.reports (.subscribed n)) (by simp)

/-- Acts inside an attempt go on with it. -/
theorem Grounded.since_append (hs : Grounded p s) (hin : s.phase.inAttempt = true) {acts : List (Act μ)}
    (ha : ∀ a ∈ acts, a.inner = true) : ∃ before during, s.history ++ acts = before ++ .begins :: during ∧
      (∀ a ∈ during, a.inner = true) ∧
      (s.phase.isOpen = true → .reports .connected ∈ during ∧ .reports .subscribing ∈ during) ∧
      ∀ a ∈ acts, a ∈ during := by
  obtain ⟨before, during, hh, hd, hopen⟩ := hs.since hin
  refine ⟨before, during ++ acts, by rw [hh]; simp, fun a hmem => ?_, fun ho => ?_, fun a hmem => ?_⟩
  · rcases List.mem_append.1 hmem with hmem | hmem
    · exact hd a hmem
    · exact ha a hmem
  · exact ⟨List.mem_append_left _ (hopen ho).1, List.mem_append_left _ (hopen ho).2⟩
  · exact List.mem_append_right _ hmem

theorem Act.silent_inner {a : Act μ} (ha : a.silent = true) : a.inner = true ∧ a.modest = true := by
  cases a <;> first | exact ⟨rfl, rfl⟩ | cases ha

theorem Profile.confirms_iff {payload : WireMessage} : p.confirms payload = true ↔
    parseSubscriptionResponse p.limits subscriptionRequestId payload = .ok (some .success) := by
  unfold Profile.confirms
  constructor
  · intro h
    split at h
    · assumption
    · cases h
  · intro h
    rw [h]

/-- What has been received last in an attempt has been received after it began. -/
theorem during_last {before during h : List (Act μ)} {payload : WireMessage} {message : μ}
    (hh : h = before ++ .begins :: during) (hlast : [.receives payload, .handles payload message] <:+ h) :
    ∃ during', during = during' ++ [.receives payload, .handles payload message] := by
  obtain ⟨pre, hpre⟩ := hlast
  rcases List.append_eq_append_iff.1 (hpre.trans hh) with ⟨as, -, has⟩ | ⟨bs, -, hbs⟩
  · have hmem : Act.begins ∈ [Act.receives payload, .handles payload message] := by rw [has]; simp
    simp at hmem
  · cases bs with
    | nil => cases hbs
    | cons b bs => exact ⟨bs, (List.cons.inj hbs).2⟩

/-- A confirmation follows a success response on this connection. -/
theorem Grounded.serves (hs : Grounded p s) {payload : WireMessage} {message : μ} (hopen : s.phase.isOpen = true)
    (hlast : [.receives payload, .handles payload message] <:+ s.history) {tail : List (Act μ)}
    (ha : ∀ a ∈ tail, a.silent = true) (pre : List (Act μ)) (n : ℕ)
    (hpre : pre ++ [.reports (.subscribed n)] <+: s.history ++ .delivers :: (p.said payload ++ tail)) :
    Acknowledged p pre ∧ n = p.streams := by
  rcases snoc_prefix_append hpre with hpre | ⟨l, r, hacts, rfl⟩
  · exact hs.confirmed pre n hpre
  have htail : ∀ n, Act.reports (.subscribed n) ∉ tail := fun n hmem => by cases ha _ hmem
  cases hconfirms : p.confirms payload with
  | false =>
    have hmem : Act.reports (.subscribed n) ∈ Act.delivers :: (p.said payload ++ tail) := by rw [hacts]; simp
    simp [Profile.said, hconfirms, htail n] at hmem
  | true =>
    simp only [Profile.said, hconfirms, if_true, List.cons_append, List.nil_append] at hacts
    -- the report follows the return of the handler and the decision of the client
    match l, hacts with
    | [a, b], hacts =>
      obtain ⟨rfl, rfl, hn, -⟩ : Act.delivers = a ∧ Act.controls .confirms payload = b ∧ p.streams = n ∧ _ := by
        simpa using hacts
      obtain ⟨before, during, hh, hinner, hafter⟩ := hs.since (Phase.inAttempt_of_isOpen hopen)
      obtain ⟨during, rfl⟩ := during_last hh hlast
      obtain ⟨hconn, hsub⟩ := hafter hopen
      refine ⟨⟨before, during, payload, message, by rw [hh]; simp,
        fun a hmem => hinner a (List.mem_append_left _ hmem), ?_, ?_, Profile.confirms_iff.1 hconfirms⟩, hn.symm⟩
      · simpa using hconn
      · simpa using hsub
    | a :: b :: c :: l, hacts =>
      have hmem : Act.reports (.subscribed n) ∈
          (if p.brings payload then [Act.reports .receivingData] else []) ++ tail := by
        simp only [List.cons_append, List.cons.injEq] at hacts
        rw [hacts.2.2.2]
        simp
      rcases List.mem_append.1 hmem with hmem | hmem
      · cases p.brings payload <;> simp at hmem
      · exact absurd hmem (htail n)

theorem step_grounded (hp : Posting p s) (hs : Grounded p s) {s' : State μ} {i : Input}
    (h : (machine p).step s i = some s') : Grounded p s' := by
  have hclosed : s'.phase.inAttempt = false → ∀ P : Prop, s'.phase.inAttempt = true → P := fun ho P hin => by
    rw [ho] at hin
    cases hin
  cases posts_of_step h with
  | stays acts hh ha _ hopen hin _ _ =>
    refine ⟨fun hin' => ?_, ?_⟩
    · obtain ⟨before, during, hb, hd, ho, -⟩ :=
        hs.since_append (hin ▸ hin') fun a hmem => (Act.silent_inner (ha a hmem)).1
      exact ⟨before, during, hh.trans hb, hd, fun ho' => ho (hopen ▸ ho')⟩
    · rw [hh]
      exact hs.confirmed_append fun a hmem => (Act.silent_inner (ha a hmem)).2
  | takes payload message hh _ hopen hphase hc =>
    have hinner : ∀ a ∈ [Act.receives payload, .handles payload message], a.inner = true := by simp [Act.inner]
    refine ⟨fun _ => ?_, ?_⟩
    · obtain ⟨before, during, hb, hd, ho, -⟩ := hs.since_append (Phase.inAttempt_of_isOpen hopen) hinner
      exact ⟨before, during, hh.trans hb, hd, fun _ => ho hopen⟩
    · rw [hh]
      exact hs.confirmed_append (by simp [Act.modest])
  | serves payload tail hserving _ hh ha _ _ _ =>
    have hopen := Phase.isOpen_of_serving hserving
    obtain ⟨message, hlast⟩ := hp.serving payload hserving
    have hinner : ∀ a ∈ Act.delivers :: (p.said payload ++ tail), a.inner = true := fun a hmem => by
      rcases List.mem_cons.1 hmem with rfl | hmem
      · rfl
      rcases List.mem_append.1 hmem with hmem | hmem
      · exact (said_ne payload a hmem).2.1
      · exact (Act.silent_inner (ha a hmem)).1
    refine ⟨fun _ => ?_, ?_⟩
    · obtain ⟨before, during, hb, hd, ho, -⟩ := hs.since_append (Phase.inAttempt_of_isOpen hopen) hinner
      exact ⟨before, during, hh.trans hb, hd, fun _ => ho hopen⟩
    · rw [hh]
      exact hs.serves hopen hlast ha
  | opens hphase _ hh hphase' _ =>
    have hinner : ∀ a ∈ [Act.reports (μ := μ) .connected, .reports .subscribing], a.inner = true := by simp [Act.inner]
    refine ⟨fun _ => ?_, ?_⟩
    · obtain ⟨before, during, hb, hd, -, hmem⟩ := hs.since_append (by rw [hphase]; rfl) hinner
      exact ⟨before, during, hh.trans hb, hd, fun _ => ⟨hmem _ (by simp), hmem _ (by simp)⟩⟩
    · rw [hh]
      exact hs.confirmed_append (by simp [Act.modest])
  | begins _ _ hh hphase _ =>
    refine ⟨fun _ => ⟨s.history ++ [.reports .connecting, .reports .awaitingSubscription], [], by simp [hh],
      List.forall_mem_nil _, fun ho => ?_⟩, ?_⟩
    · rw [hphase] at ho
      cases ho
    · rw [hh]
      exact hs.confirmed_append (by simp [Act.modest])
  | ends t outcome last hin ho ht hparted =>
    obtain ⟨acts, hh, hending⟩ := hparted.acts ht
    refine ⟨hclosed hparted.out _, ?_⟩
    rw [hh, List.append_assoc]
    refine hs.confirmed_append fun a hmem => ?_
    rcases List.mem_append.1 hmem with hmem | hmem
    · exact (hending.modest a hmem).1
    · exact (hparted.parting.modest a hmem).1
  | finishes acts hout _ hh ha hout' =>
    refine ⟨hclosed hout' _, ?_⟩
    rw [hh, List.append_assoc]
    refine hs.confirmed_append fun a hmem => ?_
    rcases List.mem_append.1 hmem with hmem | hmem
    · exact (Act.silent_inner (ha a hmem)).2
    · exact (Parting.terminates.modest a hmem).1

theorem initial_grounded (p : Profile μ) (policy : ReconnectPolicy) : Grounded p (initial policy) :=
  ⟨fun h => (by cases h), fun pre n hpre => by simp [initial] at hpre⟩

/-! ## Statuses that stay behind -/

/-- The input ends an attempt and leaves a status behind: a message of a subscribed stream has been handled before, or
the subscription is confirmed and the attempt does not end with a `SubscriptionError`. -/
def LeavesBehind (p : Profile μ) (s : State μ) (i : Input) : Prop := ∃ outcome, attemptOutcome s i = some outcome ∧
  (Fed p s.history ∨ s.confirmed = true ∧ ∀ reason, outcome ≠ some (.subscription reason))

/-- At a step that leaves a status behind the statuses contradict each other. -/
theorem incoherent_of_leavesBehind (hs : Posting p s) {s' : State μ} {i : Input} (h : (machine p).step s i = some s')
    (hi : LeavesBehind p s i) : ¬Coherent s'.history := by
  obtain ⟨outcome, ho, hcause⟩ := hi
  have hnone : attemptOutcome s i ≠ none := by rw [ho]; exact Option.some_ne_none outcome
  have hs' := step_posting hs h
  cases posts_of_step h with
  | stays _ _ _ hno | takes _ _ _ hno | serves _ _ _ hno | opens _ hno | begins _ hno | finishes _ _ hno =>
    exact absurd hno hnone
  | ends t outcome' last hin ho' ht hparted =>
    obtain rfl := Option.some.inj (ho.symm.trans ho')
    obtain ⟨acts, hh, hending⟩ := hparted.acts ht
    have hmodest : ∀ a ∈ acts ++ last, a.quietIn .data = true ∧ a ≠ .delivers := fun a hmem => by
      rcases List.mem_append.1 hmem with hmem | hmem
      · exact (hending.modest a hmem).2
      · exact (hparted.parting.modest a hmem).2
    have hno : ¬Connected s'.history := by rw [hh]; exact hparted.parting.not_connected _
    intro hc
    obtain ⟨hconfirmed, hreceiving⟩ := hc hno
    rcases hcause with hfed | ⟨hconf, hother⟩
    · refine hreceiving (hs'.receiving.2 ?_)
      rw [hh, List.append_assoc, fed_append fun a hmem => (hmodest a hmem).2]
      exact hfed
    · refine hconfirmed ?_
      rw [hh, List.append_assoc, Confirmed, latest_quiet fun a hmem => ?_]
      · exact (hs.confirmed hin).2 hconf
      · rcases List.mem_append.1 hmem with hmem | hmem
        · exact hending.other hother a hmem
        · exact hparted.parting.quiet a hmem

/-- The statuses agree so far, and without an open connection they are clear. -/
structure Agreeing (s : State μ) : Prop where
  coherent : CoherentThroughout s.history
  clear : s.phase.isOpen = false → Clear s.history

theorem Agreeing.of_clear {s' : State μ} {acts : List (Act μ)} (hh : s'.history = s.history ++ acts)
    (hc : CoherentThroughout s.history) (hclear : Clear s.history) (ha : ∀ a ∈ acts, a.modest = true) :
    Agreeing s' := by
  obtain ⟨hall, hend⟩ := hc.clear hclear ha
  exact ⟨hh ▸ hall, fun _ => hh ▸ hend⟩

theorem Agreeing.of_connected {s' : State μ} {acts : List (Act μ)} (hh : s'.history = s.history ++ acts)
    (hc : CoherentThroughout s.history) (hconn : Connected s.history) (ha : ∀ a ∈ acts, a.quietIn .connection = true)
    (hopen : s'.phase.isOpen = true) : Agreeing s' := by
  obtain ⟨hall, -⟩ := hc.connected hconn ha
  exact ⟨hh ▸ hall, fun hno => by rw [hopen] at hno; cases hno⟩

theorem step_agreeing (hp : Posting p s) (hs : Agreeing s) {s' : State μ} {i : Input}
    (h : (machine p).step s i = some s') (hi : ¬LeavesBehind p s i) : Agreeing s' := by
  cases posts_of_step h with
  | stays acts hh ha _ hopen =>
    cases ho : s.phase.isOpen with
    | true =>
      exact .of_connected hh hs.coherent (hp.connected.2 ho) (fun a hmem => Act.silent_quiet (ha a hmem) _)
        (hopen.trans ho)
    | false => exact .of_clear hh hs.coherent (hs.clear ho) fun a hmem => (Act.silent_inner (ha a hmem)).2
  | takes payload message hh _ hopen hphase _ =>
    exact .of_connected hh hs.coherent (hp.connected.2 hopen) (by simp [Act.quietIn]) (by rw [hphase]; rfl)
  | serves payload tail hserving _ hh ha hopen _ _ =>
    refine .of_connected hh hs.coherent (hp.connected.2 (Phase.isOpen_of_serving hserving)) (fun a hmem => ?_) hopen
    rcases List.mem_cons.1 hmem with rfl | hmem
    · rfl
    rcases List.mem_append.1 hmem with hmem | hmem
    · exact (said_ne payload a hmem).2.2
    · exact Act.silent_quiet (ha a hmem) _
  | opens hphase _ hh hphase' _ =>
    have hconn : Connected (s.history ++ [.reports .connected]) := by rw [Connected, latest_append]; rfl
    have hhistory : s'.history = (s.report .connected).history ++ [.reports .subscribing] := by
      simp [hh, State.report, State.act]
    exact .of_connected hhistory (hs.coherent.snoc fun hno => absurd hconn hno) hconn
      (by simp [Act.quietIn, Status.category]) (by rw [hphase']; rfl)
  | begins hout _ hh _ _ =>
    exact .of_clear hh hs.coherent (hs.clear (Phase.isOpen_of_out hout)) (by simp [Act.modest])
  | finishes acts hout _ hh ha _ =>
    refine .of_clear (hh.trans (List.append_assoc _ _ _)) hs.coherent (hs.clear (Phase.isOpen_of_out hout))
      fun a hmem => ?_
    rcases List.mem_append.1 hmem with hmem | hmem
    · exact (Act.silent_inner (ha a hmem)).2
    · exact (Parting.terminates.modest a hmem).1
  | ends t outcome last hin ho ht hparted =>
    obtain ⟨acts, hh, hending⟩ := hparted.acts ht
    have hreceiving : ¬Receiving s.history := fun hr => hi ⟨outcome, ho, .inl (hp.receiving.1 hr)⟩
    by_cases hsub : ∃ reason, outcome = some (.subscription reason)
    · obtain ⟨reason, rfl⟩ := hsub
      obtain ⟨hquiet, hfailed⟩ := hending.failed reason rfl
      -- the failed subscription is reported before the connection status changes
      have hall : CoherentThroughout (s.history ++ acts) := by
        cases hopen : s.phase.isOpen with
        | true => exact (hs.coherent.connected (hp.connected.2 hopen) hquiet).1
        | false => exact (hs.coherent.clear (hs.clear hopen) fun a hmem => (hending.modest a hmem).1).1
      have hclear : Clear (s.history ++ acts) := by
        refine ⟨hfailed _, ?_⟩
        rw [Receiving, latest_quiet fun a hmem => (hending.modest a hmem).2.1]
        exact hreceiving
      obtain ⟨hall, hend⟩ := hall.clear hclear fun a hmem => (hparted.parting.modest a hmem).1
      exact ⟨hh ▸ hall, fun _ => hh ▸ hend⟩
    · have hconfirmed : ¬Confirmed s.history := fun hc =>
        hi ⟨outcome, ho, .inr ⟨(hp.confirmed hin).1 hc, fun reason hr => hsub ⟨reason, hr⟩⟩⟩
      refine .of_clear (hh.trans (List.append_assoc _ _ _)) hs.coherent ⟨hconfirmed, hreceiving⟩ fun a hmem => ?_
      rcases List.mem_append.1 hmem with hmem | hmem
      · exact (hending.modest a hmem).1
      · exact (hparted.parting.modest a hmem).1

theorem history_grows {s' : State μ} {i : Input} (h : (machine p).step s i = some s') : s.history <+: s'.history := by
  cases posts_of_step h with
  | stays acts hh => exact ⟨acts, hh.symm⟩
  | takes payload message hh => exact ⟨_, hh.symm⟩
  | serves payload tail _ _ hh => exact ⟨_, hh.symm⟩
  | opens _ _ hh => exact ⟨_, hh.symm⟩
  | begins _ _ hh => exact ⟨_, hh.symm⟩
  | ends t outcome last _ _ ht hparted =>
    obtain ⟨acts, hh, -⟩ := hparted.acts ht
    exact ⟨acts ++ last, by rw [hh, List.append_assoc]⟩
  | finishes acts _ _ hh => exact ⟨acts ++ [.reports .terminated], by rw [hh, List.append_assoc]⟩

/-- In a run whose steps leave nothing behind, the statuses agree at every point. -/
theorem agreeing_of_path {policy : ReconnectPolicy} {is : List Input}
    (h : (machine p).Path (fun s i => ¬LeavesBehind p s i) (initial policy) is s) : Agreeing s := by
  have hinitial : Posting p (initial policy) ∧ Agreeing (initial policy : State μ) :=
    ⟨initial_posting p policy, fun pre hpre _ => List.prefix_nil.1 hpre ▸ clear_nil, fun _ => clear_nil⟩
  have hkeep : ∀ s i s', ¬LeavesBehind p s i → Posting p s ∧ Agreeing s → (machine p).step s i = some s' →
      Posting p s' ∧ Agreeing s' := fun s i s' hi hs hstep =>
    ⟨step_posting hs.1 hstep, step_agreeing hs.1 hs.2 hstep hi⟩
  exact (h.invariant hkeep hinitial).2

/-- **When the reported statuses agree.** In every run of either collector the statuses agree at every point exactly if
no step leaves one behind, and a confirmation is reported only after a success response to the `SUBSCRIBE` of the
connection has been handled on it. -/
theorem statuses_coherent_iff {policy : ReconnectPolicy} {is : List Input}
    (h : (machine p).Path (fun _ _ => True) (initial policy) is s) :
    ((∀ pre, pre <+: s.history → Coherent pre) ↔
      (machine p).Path (fun s i => ¬LeavesBehind p s i) (initial policy) is s) ∧
    ∀ pre n, pre ++ [.reports (.subscribed n)] <+: s.history → Acknowledged p pre ∧ n = p.streams := by
  have hkeep : ∀ s i s', True → Posting p s ∧ Grounded p s → (machine p).step s i = some s' →
      Posting p s' ∧ Grounded p s' := fun s i s' _ hs hstep =>
    ⟨step_posting hs.1 hstep, step_grounded hs.1 hs.2 hstep⟩
  have hinitial : Posting p (initial policy) ∧ Grounded p (initial policy) :=
    ⟨initial_posting p policy, initial_grounded p policy⟩
  refine ⟨⟨fun hall => ?_, fun hpath => (agreeing_of_path hpath).coherent⟩, (h.invariant hkeep hinitial).2.confirmed⟩
  by_contra hno
  obtain ⟨pre, i, post, s₁, s₂, -, hpre, -, hi, hstep, hpost⟩ := h.exists_violation hno
  have hs₁ := ((hpre.mono fun _ _ hi => hi.1).invariant hkeep hinitial).1
  -- the contradiction stays in the history
  have hprefix : s₂.history <+: s.history := hpost.invariant (I := fun u => s₂.history <+: u.history)
    (fun _ _ _ _ hu hstep => hu.trans (history_grows hstep)) (List.prefix_refl _)
  exact incoherent_of_leavesBehind hs₁ hstep (not_not.1 hi) (hall _ hprefix)

end

instance Connected.decidable (h : List (Act μ)) : Decidable (Connected h) :=
  inferInstanceAs (Decidable (_ = _))

instance Confirmed.decidable (h : List (Act μ)) : Decidable (Confirmed h) :=
  match hl : latest .subscription h with
  | some (.subscribed n) => isTrue ⟨n, hl⟩
  | none | some .connecting | some .awaitingSubscription | some .connected | some .subscribing | some .receivingData
  | some .subscriptionFailed | some .disconnected | some (.error _) | some (.waiting _) | some .terminated =>
    isFalse fun ⟨n, hn⟩ => by rw [hl] at hn; cases hn

instance Coherent.decidable (h : List (Act μ)) : Decidable (Coherent h) :=
  inferInstanceAs (Decidable (¬Connected h → ¬Confirmed h ∧ ¬latest .data h = some .receivingData))

/-- A subscription is confirmed, a second response rejects it, and the connection is closed. -/
def rejectedLater : List Input :=
  [.start, .connected, .sent, .receives (.text (str "\x7b\"id\":1,\"result\":null\x7d")), .settled 5, .handlerReturns,
    .receives (.text (str "\x7b\"id\":1,\"code\":2\x7d")), .settled 6, .handlerReturns, .closed]

theorem statuses_coherent_iff_rejectedLater : ∃ s, (machine (spotConnections true).profile).Path
      (fun s i => ¬LeavesBehind (spotConnections true).profile s i) (initial defaultPolicy) rejectedLater s ∧
    s.phase = .waiting 1 ∧ s.confirmed = true := by
  obtain ⟨s, hpath, hp⟩ := Steps.Machine.exists_path_of_check (M := machine (spotConnections true).profile)
    (P := fun _ _ => True) (p := fun s : State ReceivedMessage =>
      decide ((∀ pre ∈ s.history.inits, Coherent pre) ∧ s.phase = .waiting 1 ∧ s.confirmed = true))
    (initial defaultPolicy) rejectedLater (by decide +kernel)
  obtain ⟨hall, hphase, hconfirmed⟩ := of_decide_eq_true hp
  exact ⟨s, (statuses_coherent_iff hpath).1.1 fun pre hpre => hall pre ((List.mem_inits _ _).2 hpre), hphase,
    hconfirmed⟩

/-- A subscription is confirmed, and the connection is lost. -/
def lostLater (stopWatched : Bool) : List Input :=
  [.start, .connected, .sent, .receives (.text (str "\x7b\"id\":1,\"result\":null\x7d")), .settled 5,
    .handlerReturns] ++
    (if stopWatched then [.settled 5] else []) ++ [.recvFails .connectionClosed, .settled 6, .closed]

/-- While either collector waits to connect anew, the subscription is still reported as confirmed. -/
theorem confirmed_after_loss :
    (∃ s, (machine (binanceCollector [str "BTCUSDT"] ⟨1000, 4300⟩)).Path (fun _ _ => True) (initial defaultPolicy)
      (lostLater true) s ∧ latest .connection s.history = some (.waiting 1) ∧
      latest .subscription s.history = some (.subscribed 1) ∧ ¬∀ pre, pre <+: s.history → Coherent pre) ∧
    ∃ s, (machine (spotConnections true).profile).Path (fun _ _ => True) (initial defaultPolicy) (lostLater false) s ∧
      latest .connection s.history = some (.waiting 1) ∧ latest .subscription s.history = some (.subscribed 1) ∧
      ¬∀ pre, pre <+: s.history → Coherent pre := by
  constructor
  · obtain ⟨s, hpath, hp⟩ := Steps.Machine.exists_path_of_check
      (M := machine (binanceCollector [str "BTCUSDT"] ⟨1000, 4300⟩)) (P := fun _ _ => True)
      (p := fun s : State WireMessage => decide (latest .connection s.history = some (.waiting 1) ∧
        latest .subscription s.history = some (.subscribed 1) ∧ ¬Coherent s.history))
      (initial defaultPolicy) (lostLater true) (by decide +kernel)
    obtain ⟨hconn, hsub, hno⟩ := of_decide_eq_true hp
    exact ⟨s, hpath, hconn, hsub, fun hall => hno (hall _ (List.prefix_refl _))⟩
  · obtain ⟨s, hpath, hp⟩ := Steps.Machine.exists_path_of_check (M := machine (spotConnections true).profile)
      (P := fun _ _ => True) (p := fun s : State ReceivedMessage =>
        decide (latest .connection s.history = some (.waiting 1) ∧
          latest .subscription s.history = some (.subscribed 1) ∧ ¬Coherent s.history))
      (initial defaultPolicy) (lostLater false) (by decide +kernel)
    obtain ⟨hconn, hsub, hno⟩ := of_decide_eq_true hp
    exact ⟨s, hpath, hconn, hsub, fun hall => hno (hall _ (List.prefix_refl _))⟩

end BinanceCollector.Connection
