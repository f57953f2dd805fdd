import BinanceCollector.Collector.Reconnect
import BinanceCollector.Collector.Streams
import BinanceCollector.Collector.Subscriptions
import BinanceCollector.Lib.Machine

/-!
# The collection loop

`run()` of `StreamConnection` (`collector/multi_client.py`) and of `BinanceCollector` (`collector/client.py`), with
`_collect_once`, `_receive_or_stop`, `_handle_message` and `_handle_message_or_stop`. The two are one loop with a
different `Profile`. A state is a point where the task waits; an input is what ends the wait, and the step performs the
code up to the next wait. What the loop does is recorded in a history of acts.

- `Effect`, `effect_of_step`: what every step does, one constructor for each suspension point and its way out.
-/

namespace BinanceCollector.Connection

open Text Json

/-! ## Outcomes -/

/-- What sending, receiving and closing raise, and connecting as well. -/
inductive LinkError where
  | connectionClosed | osError | timeoutError
  deriving DecidableEq, Repr

/-- What `connect` raises. -/
inductive ConnectError where
  | link (e : LinkError)
  /-- `InvalidHandshake` and its subclasses: `InvalidStatus`, `InvalidMessage`, … -/
  | invalidHandshake
  deriving DecidableEq, Repr

/-- Why a subscription fails. -/
inductive SubscriptionFailure where
  /-- no response in time -/
  | timeout
  /-- the response in this message is an error -/
  | rejected (payload : WireMessage)
  deriving DecidableEq

/-- The exceptions that travel through `run()`. -/
inductive Exc where
  /-- `CancelledError` -/
  | cancelled
  /-- `MessageHandlerError` -/
  | messageHandler
  /-- `SubscriptionError` -/
  | subscription (reason : SubscriptionFailure)
  | link (e : LinkError)
  | invalidHandshake
  /-- raised by `json.loads` in the code that looks at a handled message -/
  | decoding (failure : DecodeFailure)
  deriving DecidableEq

def ConnectError.exc : ConnectError → Exc
  | .link e => .link e
  | .invalidHandshake => .invalidHandshake

/-- The arguments of `_report_status`. -/
inductive Status where
  /-- connection: 연결 중 -/
  | connecting
  /-- subscription: 구독 대기 -/
  | awaitingSubscription
  /-- connection: 연결됨 -/
  | connected
  /-- subscription: 구독 요청 중 -/
  | subscribing
  /-- subscription: how many streams are confirmed -/
  | subscribed (streams : ℕ)
  /-- data: 수신 중 -/
  | receivingData
  /-- subscription: 구독 실패 -/
  | subscriptionFailed
  /-- connection: 연결 끊김 -/
  | disconnected
  /-- error: the text of a `SubscriptionError`, or the name of the class of another exception -/
  | error (e : Exc)
  /-- connection: 재연결 대기, with the seconds -/
  | waiting (delay : ℚ)
  /-- connection: 종료됨 -/
  | terminated
  deriving DecidableEq

/-- What the client does because of a message. -/
inductive Control where
  /-- `subscription_confirmed = True` -/
  | confirms
  /-- `raise SubscriptionError(...)` -/
  | rejects
  /-- `return`, to connect anew -/
  | shutsDown
  deriving DecidableEq, Repr

/-- How an attempt went. -/
structure Attempt where
  /-- how `_collect_once` ended -/
  outcome : Option Exc
  /-- `subscription_confirmed` -/
  confirmed : Bool
  /-- how many messages have been delivered -/
  delivered : ℕ
  deriving DecidableEq

/-- What a collector does, as far as others see it. Handlers are called with a `μ`. -/
inductive Act (μ : Type) where
  /-- `_collect_once` is entered -/
  | begins
  /-- `_receive_or_stop` returns a payload -/
  | receives (payload : WireMessage)
  /-- the handler is called (the legacy collector creates the task that calls it) -/
  | handles (payload : WireMessage) (message : μ)
  /-- the handler has returned and the client goes on -/
  | delivers
  /-- the handler raises -/
  | handlerFails
  | controls (control : Control) (payload : WireMessage)
  /-- `_collect_once` returns or raises -/
  | ends (outcome : Option Exc)
  /-- a wait after this attempt, with this entry of the delays -/
  | waits (attempt : Attempt) (index : ℕ) (delay : ℚ)
  /-- the task is cancelled -/
  | cancelled
  | reports (status : Status)
  deriving DecidableEq

/-! ## States -/

/-- What the two collectors do differently. -/
structure Profile (μ : Type) where
  /-- what the handler is called with: attempt, number in the attempt, payload, clock -/
  message : ℕ → ℕ → WireMessage → ℤ → μ
  limits : Limits
  /-- how many streams are subscribed -/
  streams : ℕ
  /-- `_handle_message_or_stop`: a stop request cancels the delivery -/
  watchesStop : Bool
  isKnownStream : WireMessage → Except DecodeFailure Bool
  isServerShutdown : WireMessage → Except DecodeFailure Bool

/-- Where the task waits. -/
inductive Phase where
  /-- not started -/
  | created
  /-- in `__aenter__` of the connection -/
  | connecting
  /-- in `websocket.send` -/
  | sending
  /-- in the `asyncio.wait` of `_receive_or_stop` -/
  | receiving
  /-- in a `gather` of `_receive_or_stop` that ends with this result -/
  | settling (result : Except Exc (Option WireMessage))
  /-- in the handler, or in the `asyncio.wait` of `_handle_message_or_stop` -/
  | handling (payload : WireMessage)
  /-- in a `gather` of `_handle_message_or_stop` that ends with this result -/
  | settlingDelivery (payload : WireMessage) (result : Except Exc Bool)
  /-- in `__aexit__` of the connection, after this outcome of the body -/
  | closing (outcome : Option Exc)
  /-- in the `wait_for` of `wait_for_reconnect` -/
  | waiting (delay : ℚ)
  | returned
  | raised (e : Exc)
  deriving DecidableEq

/-- A collector and its task. -/
structure State (μ : Type) where
  policy : ReconnectPolicy
  phase : Phase := .created
  /-- `stop_event.is_set()` -/
  stop : Bool := false
  /-- how many attempts have begun; `_attempt` of `StreamConnection` -/
  attempt : ℕ := 0
  /-- `subscription_confirmed` -/
  confirmed : Bool := false
  /-- how many messages the attempt has received; `receive_sequence` of `StreamConnection` -/
  sequence : ℕ := 0
  /-- how many messages the attempt has delivered -/
  delivered : ℕ := 0
  history : List (Act μ) := []

variable {μ : Type}

namespace State

/-- One more act. -/
def act (s : State μ) (a : Act μ) : State μ := { s with history := s.history ++ [a] }

/-- `_report_status`. -/
def report (s : State μ) (status : Status) : State μ := s.act (.reports status)

/-- The task waits there. -/
def at_ (s : State μ) (phase : Phase) : State μ := { s with phase := phase }

/-- The `finally` of `run()`, which then ends. -/
def finish (s : State μ) (phase : Phase) : State μ := (s.report .terminated).at_ phase

/-- The `while` of `run()`, and `_collect_once` up to the connection. -/
def loop (s : State μ) : State μ :=
  if s.stop then s.finish .returned
  else
    ({ (s.report .connecting).report .awaitingSubscription with
        attempt := s.attempt + 1, confirmed := false, sequence := 0, delivered := 0 }.act .begins).at_ .connecting

/-- `run()` after its `try` around `_collect_once`. -/
def retry (s : State μ) (outcome : Option Exc) : State μ :=
  if s.stop then s.finish .returned
  else
    ((({ s with policy := s.policy.nextDelay.2 }).report (.waiting s.policy.nextDelay.1)).act
      (.waits ⟨outcome, s.confirmed, s.delivered⟩ s.policy.index s.policy.nextDelay.1)).at_
        (.waiting s.policy.nextDelay.1)

/-- The `except` clauses of `run()`, and what follows. -/
def attemptEnds (s : State μ) (outcome : Option Exc) : State μ :=
  match outcome with
  | none => (s.act (.ends none)).retry none
  | some .cancelled => (s.act (.ends (some .cancelled))).finish (.raised .cancelled)
  | some .messageHandler => (s.act (.ends (some .messageHandler))).finish (.raised .messageHandler)
  | some (.subscription reason) =>
    (((s.act (.ends (some (.subscription reason)))).report .subscriptionFailed).report
      (.error (.subscription reason))).retry (some (.subscription reason))
  | some (.link e) =>
    (((s.act (.ends (some (.link e)))).report .disconnected).report (.error (.link e))).retry (some (.link e))
  -- no clause catches these
  | some .invalidHandshake => (s.act (.ends (some .invalidHandshake))).finish (.raised .invalidHandshake)
  | some (.decoding failure) => (s.act (.ends (some (.decoding failure)))).finish (.raised (.decoding failure))

/-- The `while` of `_collect_once`. -/
def receive (s : State μ) : State μ := if s.stop then s.at_ (.closing none) else s.at_ .receiving

/-- `_receive_or_stop` has ended. -/
def received (p : Profile μ) (now : ℤ) (s : State μ) : Except Exc (Option WireMessage) → State μ
  | .error e => s.at_ (.closing (some e))
  | .ok none => s.at_ (.closing none)
  | .ok (some payload) =>
    (({ s with sequence := s.sequence + 1 }.act (.receives payload)).act
      (.handles payload (p.message s.attempt (s.sequence + 1) payload now))).at_ (.handling payload)

/-- The end of the loop body in `_collect_once`: the data status and a shutdown notice. -/
def watch (p : Profile μ) (s : State μ) (payload : WireMessage) : State μ :=
  match p.isKnownStream payload with
  | .error failure => s.at_ (.closing (some (.decoding failure)))
  | .ok known =>
    let s := if known then s.report .receivingData else s
    match p.isServerShutdown payload with
    | .error failure => s.at_ (.closing (some (.decoding failure)))
    | .ok true => (s.act (.controls .shutsDown payload)).at_ (.closing none)
    | .ok false => s.receive

/-- The loop body in `_collect_once` after a message has been handled. -/
def handled (p : Profile μ) (s : State μ) (payload : WireMessage) : State μ :=
  let s := { s with policy := s.policy.reset, delivered := s.delivered + 1 }.act .delivers
  match parseSubscriptionResponse p.limits subscriptionRequestId payload with
  | .error failure => s.at_ (.closing (some (.decoding failure)))
  | .ok (some (.error _)) =>
    (s.act (.controls .rejects payload)).at_ (.closing (some (.subscription (.rejected payload))))
  | .ok (some .success) =>
    watch p (({ s with confirmed := true }.act (.controls .confirms payload)).report (.subscribed p.streams)) payload
  | .ok none => watch p s payload

/-- `_handle_message` has ended. -/
def handlerEnds (p : Profile μ) (s : State μ) (payload : WireMessage) (result : Except Exc Bool) : State μ :=
  if p.watchesStop then s.at_ (.settlingDelivery payload result)
  else
    match result with
    | .ok _ => s.handled p payload
    | .error e => s.at_ (.closing (some e))

/-- `_handle_message_or_stop` has ended. -/
def deliveryEnds (p : Profile μ) (s : State μ) (payload : WireMessage) : Except Exc Bool → State μ
  | .ok true => s.handled p payload
  | .ok false => s.at_ (.closing none)
  | .error e => s.at_ (.closing (some e))

/-- A `CancelledError` at the point where the task waits. -/
def cancel (p : Profile μ) (s : State μ) : Option (State μ) :=
  let s := s.act .cancelled
  match s.phase with
  -- a task that has not started does not even report that it has ended
  | .created => some (s.at_ (.raised .cancelled))
  | .connecting => some (s.attemptEnds (some .cancelled))
  | .sending => some (s.at_ (.closing (some .cancelled)))
  | .receiving => some (s.at_ (.settling (.error .cancelled)))
  | .settling _ => some (s.at_ (.settling (.error .cancelled)))
  | .handling payload => some (s.handlerEnds p payload (.error .cancelled))
  | .settlingDelivery payload _ => some (s.at_ (.settlingDelivery payload (.error .cancelled)))
  | .closing _ => some (s.attemptEnds (some .cancelled))
  | .waiting _ => some (s.finish (.raised .cancelled))
  | .returned | .raised _ => none

end State

/-! ## Steps -/

/-- What ends a wait. -/
inductive Input where
  /-- somebody sets the stop event -/
  | setStop
  /-- the task starts -/
  | start
  | connected
  | connectFails (e : ConnectError)
  | sent
  | sendFails (e : LinkError)
  /-- `recv` returns a payload -/
  | receives (payload : WireMessage)
  | recvFails (e : LinkError)
  /-- the deadline of the subscription -/
  | ackTimeout
  /-- the wait for the stop event ends -/
  | stopSeen
  /-- the `gather` ends; the clock shows this -/
  | settled (now : ℤ)
  | handlerReturns
  | handlerRaises
  | closed
  | closeFails (e : LinkError)
  /-- the delay is over -/
  | elapsed
  | cancel
  deriving DecidableEq

/-- The code from the end of a wait to the next wait. -/
def step (p : Profile μ) (s : State μ) : Input → Option (State μ)
  | .setStop => some { s with stop := true }
  | .start => match s.phase with
    | .created => some { s with policy := s.policy.reset }.loop
    | _ => none
  | .connected => match s.phase with
    | .connecting => some (((s.report .connected).report .subscribing).at_ .sending)
    | _ => none
  | .connectFails e => match s.phase with
    | .connecting => some (s.attemptEnds (some e.exc))
    | _ => none
  | .sent => match s.phase with
    | .sending => some s.receive
    | _ => none
  | .sendFails e => match s.phase with
    | .sending => some (s.at_ (.closing (some (.link e))))
    | _ => none
  | .receives payload => match s.phase with
    | .receiving => some (s.at_ (.settling (.ok (some payload))))
    | _ => none
  | .recvFails e => match s.phase with
    | .receiving => some (s.at_ (.settling (.error (.link e))))
    | _ => none
  | .ackTimeout => match s.phase with
    | .receiving => if s.confirmed then none else some (s.at_ (.settling (.error (.subscription .timeout))))
    | _ => none
  | .stopSeen =>
    if !s.stop then none
    else match s.phase with
      | .receiving => some (s.at_ (.settling (.ok none)))
      | .handling payload => if p.watchesStop then some (s.at_ (.settlingDelivery payload (.ok false))) else none
      | .waiting _ => some (s.finish .returned)
      | _ => none
  | .settled now => match s.phase with
    | .settling result => some (s.received p now result)
    | .settlingDelivery payload result => some (s.deliveryEnds p payload result)
    | _ => none
  | .handlerReturns => match s.phase with
    | .handling payload => some (s.handlerEnds p payload (.ok true))
    | _ => none
  | .handlerRaises => match s.phase with
    | .handling payload => some ((s.act .handlerFails).handlerEnds p payload (.error .messageHandler))
    | _ => none
  | .closed => match s.phase with
    | .closing outcome => some (s.attemptEnds outcome)
    | _ => none
  | .closeFails e => match s.phase with
    | .closing _ => some (s.attemptEnds (some (.link e)))
    | _ => none
  | .elapsed => match s.phase with
    | .waiting _ => some s.loop
    | _ => none
  | .cancel => s.cancel p

/-- The collector. -/
def machine (p : Profile μ) : Steps.Machine (State μ) Input := ⟨step p⟩

/-- Before `run()` is called. -/
def initial (policy : ReconnectPolicy) : State μ := { policy := policy }

/-! ## The two collectors -/

/-- The default `connection_id_factory` of a `StreamConnection` with this `run_id`. -/
def connectionId (runId groupKey : Str) (attempt : ℕ) : Str :=
  runId ++ code '-' :: (groupKey ++ code '-' :: decimal attempt)

/-- `StreamConnection`. -/
structure StreamConnection where
  group : ConnectionGroupSpec
  specs : List StreamSpec
  /-- `uuid.uuid4().hex` -/
  runId : Str
  limits : Limits

/-- What is particular to `StreamConnection`. -/
def StreamConnection.profile (c : StreamConnection) : Profile ReceivedMessage where
  message attempt sequence payload now :=
    { payload := payload, connectionGroup := c.group.key, connectionId := connectionId c.runId c.group.key attempt
      receiveSequence := sequence, receivedAtMs := now }
  limits := c.limits
  streams := c.specs.length
  watchesStop := false
  isKnownStream := isKnownStream c.limits (c.specs.map (·.streamName))
  isServerShutdown := isServerShutdown c.limits

/-- What is particular to `BinanceCollector`, which hands payloads on as they are. -/
def binanceCollector (symbols : List Str) (limits : Limits) : Profile WireMessage where
  message _ _ payload _ := payload
  limits := limits
  streams := symbols.length
  watchesStop := true
  isKnownStream _ := .ok false
  isServerShutdown := legacyIsServerShutdown limits

/-- The Spot market and depth connections of a collector for `BTCUSDT`. -/
def spotConnections : Bool → StreamConnection
  | true => ⟨spotMarketGroup, [streamSpec {} spotMarketGroup (str "BTCUSDT") .aggTrade],
      List.replicate 32 (code '0'), ⟨1000, 4300⟩⟩
  | false => ⟨spotDepthGroup, [streamSpec {} spotDepthGroup (str "BTCUSDT") .depth],
      List.replicate 32 (code '1'), ⟨1000, 4300⟩⟩

/-! ## What a step does -/

/-- What a step does: the phase it leaves, and the state it leads to. -/
inductive Effect (p : Profile μ) (s : State μ) : Input → State μ → Prop
  | setStop : Effect p s .setStop { s with stop := true }
  | start : s.phase = .created → Effect p s .start { s with policy := s.policy.reset }.loop
  | connected : s.phase = .connecting → Effect p s .connected (((s.report .connected).report .subscribing).at_ .sending)
  | connectFails {e : ConnectError} : s.phase = .connecting → Effect p s (.connectFails e) (s.attemptEnds (some e.exc))
  | sent : s.phase = .sending → Effect p s .sent s.receive
  | sendFails {e : LinkError} : s.phase = .sending → Effect p s (.sendFails e) (s.at_ (.closing (some (.link e))))
  | receives {payload : WireMessage} : s.phase = .receiving →
      Effect p s (.receives payload) (s.at_ (.settling (.ok (some payload))))
  | recvFails {e : LinkError} : s.phase = .receiving →
      Effect p s (.recvFails e) (s.at_ (.settling (.error (.link e))))
  | ackTimeout : s.phase = .receiving → s.confirmed = false →
      Effect p s .ackTimeout (s.at_ (.settling (.error (.subscription .timeout))))
  | stopReceiving : s.phase = .receiving → s.stop = true → Effect p s .stopSeen (s.at_ (.settling (.ok none)))
  | stopHandling {payload : WireMessage} : s.phase = .handling payload → s.stop = true → p.watchesStop = true →
      Effect p s .stopSeen (s.at_ (.settlingDelivery payload (.ok false)))
  | stopWaiting {delay : ℚ} : s.phase = .waiting delay → s.stop = true → Effect p s .stopSeen (s.finish .returned)
  | settled {now : ℤ} {result : Except Exc (Option WireMessage)} : s.phase = .settling result →
      Effect p s (.settled now) (s.received p now result)
  | deliverySettled {now : ℤ} {payload : WireMessage} {result : Except Exc Bool} :
      s.phase = .settlingDelivery payload result → Effect p s (.settled now) (s.deliveryEnds p payload result)
  | handlerReturns {payload : WireMessage} : s.phase = .handling payload →
      Effect p s .handlerReturns (s.handlerEnds p payload (.ok true))
  | handlerRaises {payload : WireMessage} : s.phase = .handling payload →
      Effect p s .handlerRaises ((s.act .handlerFails).handlerEnds p payload (.error .messageHandler))
  | closed {outcome : Option Exc} : s.phase = .closing outcome → Effect p s .closed (s.attemptEnds outcome)
  | closeFails {e : LinkError} {outcome : Option Exc} : s.phase = .closing outcome →
      Effect p s (.closeFails e) (s.attemptEnds (some (.link e)))
  | elapsed {delay : ℚ} : s.phase = .waiting delay → Effect p s .elapsed s.loop
  | cancel {s' : State μ} : s.cancel p = some s' → Effect p s .cancel s'

theorem effect_of_step {p : Profile μ} {s s' : State μ} {i : Input} (h : (machine p).step s i = some s') :
    Effect p s i s' := by
  simp only [machine] at h
  cases i with
  | setStop => cases h; exact .setStop
  | start => simp only [step] at h; split at h <;> cases h; exact .start ‹_›
  | connected => simp only [step] at h; split at h <;> cases h; exact .connected ‹_›
  | connectFails e => simp only [step] at h; split at h <;> cases h; exact .connectFails ‹_›
  | sent => simp only [step] at h; split at h <;> cases h; exact .sent ‹_›
  | sendFails e => simp only [step] at h; split at h <;> cases h; exact .sendFails ‹_›
  | receives payload => simp only [step] at h; split at h <;> cases h; exact .receives ‹_›
  | recvFails e => simp only [step] at h; split at h <;> cases h; exact .recvFails ‹_›
  | ackTimeout =>
    simp only [step] at h
    split at h
    · split at h
      · cases h
      · cases h; exact .ackTimeout ‹_› (Bool.eq_false_iff.2 ‹_›)
    · cases h
  | stopSeen =>
    simp only [step] at h
    split at h
    · cases h
    rename_i hstop
    have hstop : s.stop = true := by simpa using hstop
    split at h
    · cases h; exact .stopReceiving ‹_› hstop
    · split at h <;> cases h
      exact .stopHandling ‹_› hstop ‹_›
    · cases h; exact .stopWaiting ‹_› hstop
    · cases h
  | settled now =>
    simp only [step] at h
    split at h <;> cases h
    · exact .settled ‹_›
    · exact .deliverySettled ‹_›
  | handlerReturns => simp only [step] at h; split at h <;> cases h; exact .handlerReturns ‹_›
  | handlerRaises => simp only [step] at h; split at h <;> cases h; exact .handlerRaises ‹_›
  | closed => simp only [step] at h; split at h <;> cases h; exact .closed ‹_›
  | closeFails e => simp only [step] at h; split at h <;> cases h; exact .closeFails ‹_›
  | elapsed => simp only [step] at h; split at h <;> cases h; exact .elapsed ‹_›
  | cancel => exact .cancel h

end BinanceCollector.Connection
