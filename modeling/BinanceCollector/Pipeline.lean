import BinanceCollector.Collector.Acceptance
import BinanceCollector.Monitoring.MultiStats

/-!
# Dispatchers

`pipeline.py` and `multi_pipeline.py`: a message is normalised, counted and passed to the output. What `output.write`
does is a parameter; the calls of it are kept as a history. Log messages are left out.

- **`handled_once_iff`**: exactly the messages that meet no limit of the decoder are counted once and written once by
  both dispatchers.
-/

namespace BinanceCollector

open Text Json

/-- How `output.write` ends. -/
inductive WriteOutcome where
  | returns
  | raises (typeName : Str)
  | cancelled
  deriving DecidableEq

/-- How `handle` ends. -/
inductive HandleOutcome where
  | returns
  /-- an exception of `json.loads` that `normalize_message` does not catch -/
  | decodeFailure (failure : DecodeFailure)
  /-- `KeyError` of `record_received` -/
  | keyError
  /-- `OutputWriteError` -/
  | outputWriteError (message : Str)
  | cancelled
  deriving DecidableEq

/-- What a call of `handle` has done: the statistics it leaves and the events it has passed to `output.write`. -/
structure Handled (σ : Type*) where
  stats : σ
  writes : List Event
  outcome : HandleOutcome

/-- The text of `OutputWriteError` for a failed `write`. -/
def writeFailure (typeName : Str) : Str := str "후속 출력 전달 실패: " ++ typeName

/-! ## Trades -/

namespace EventDispatcher

/-- `EventDispatcher.handle`; `connected` where there is an output. -/
def handle (lim : Limits) (connected : Bool) (write : Event → WriteOutcome) (stats : StatsCollector) (now : ℚ)
    (message : WireMessage) : Handled StatsCollector :=
  match normalizeMessage lim message with
  | .error failure => ⟨stats, [], .decodeFailure failure⟩
  | .ok normalized =>
    let stats := stats.recordReceived now normalized.event
    if !connected then ⟨stats, [], .returns⟩
    else
      match write normalized.event with
      | .returns => ⟨stats.recordForwarded, [normalized.event], .returns⟩
      | .raises typeName =>
        ⟨stats.recordError (writeFailure typeName), [normalized.event], .outputWriteError (writeFailure typeName)⟩
      | .cancelled => ⟨stats, [normalized.event], .cancelled⟩

end EventDispatcher

/-! ## Combined streams -/

namespace MultiStreamEventDispatcher

/-- `handle` up to the call of `output.write`: the event to write, or how it ends before. -/
def receive (lim : Limits) (index : StreamIndex) (stats : MultiStreamStatsCollector) (now : ℚ)
    (message : ReceivedMessage) : MultiStreamStatsCollector × Except HandleOutcome Event :=
  match normalizeReceivedMessage lim message index with
  | .error failure => (stats, .error (.decodeFailure failure))
  | .ok normalized =>
    match stats.recordReceived now normalized.event with
    | .error stats => (stats, .error .keyError)
    | .ok stats => (stats, .ok normalized.event)

/-- `handle` after the call of `output.write`. -/
def forward (stats : MultiStreamStatsCollector) (event : Event) :
    WriteOutcome → MultiStreamStatsCollector × HandleOutcome
  | .returns => (stats.recordForwarded event, .returns)
  | .raises typeName => (stats.recordError (writeFailure typeName), .outputWriteError (writeFailure typeName))
  | .cancelled => (stats, .cancelled)

/-- `MultiStreamEventDispatcher.handle`, where nothing else runs during `output.write`. -/
def handle (lim : Limits) (index : StreamIndex) (write : Event → WriteOutcome) (stats : MultiStreamStatsCollector)
    (now : ℚ) (message : ReceivedMessage) : Handled MultiStreamStatsCollector :=
  match receive lim index stats now message with
  | (stats, .error outcome) => ⟨stats, [], outcome⟩
  | (stats, .ok event) =>
    let (stats, outcome) := forward stats event (write event)
    ⟨stats, [event], outcome⟩

end MultiStreamEventDispatcher

/-! ## Handling -/

/-- The message is counted once, and its event is passed to `output.write`, once and alone. -/
def Handled.Once {σ : Type*} (received : σ → ℕ) (normalized : Except DecodeFailure NormalizedMessage) (stats : σ)
    (h : Handled σ) : Prop :=
  received h.stats = received stats + 1 ∧ ∃ n, normalized = .ok n ∧ h.writes = [n.event]

theorem EventDispatcher.handle_once {lim : Limits} {message : WireMessage} {n : NormalizedMessage}
    (hn : normalizeMessage lim message = .ok n) (write : Event → WriteOutcome) (stats : StatsCollector) (now : ℚ) :
    (EventDispatcher.handle lim true write stats now message).Once StatsCollector.received
      (normalizeMessage lim message) stats := by
  have hcount := stats.recordReceived_received now n.event
  simp only [EventDispatcher.handle, hn, Bool.not_true, Bool.false_eq_true, if_false]
  split <;> exact ⟨hcount, n, rfl, rfl⟩

/-- The groups of the subscriptions are configured. -/
theorem connectionGroup_of_index {symbols : List Str} {o : StreamOptions} {specs : List StreamSpec}
    {index : StreamIndex} (hb : buildStreamSpecs symbols o = .ok specs) (hi : indexStreamSpecs specs = .ok index)
    {group name : Str} {spec : StreamSpec} (h : index.lookup (group, name) = some spec) :
    (connectionGroupByKey.lookup group).isSome := by
  obtain ⟨rfl, -⟩ := Dict.collect_eq_ok.1 hi
  have hmem := Dict.mem_of_lookup h
  simp only [Dict.rename, List.map_map, List.mem_map, Function.comp_apply, id_eq, Prod.mk.injEq] at hmem
  obtain ⟨spec', hs, hkey, -⟩ := hmem
  obtain ⟨g, hg, symbol, -, streamType, -, rfl⟩ := (mem_buildStreamSpecs hb).1 hs
  obtain rfl : g.key = group := (Prod.mk.inj hkey).1
  simp only [connectionGroups, List.mem_cons, List.not_mem_nil, or_false] at hg
  obtain rfl | rfl | rfl := hg <;> decide

namespace MultiStreamEventDispatcher

theorem forward_received (stats : MultiStreamStatsCollector) (event : Event) (outcome : WriteOutcome) :
    (forward stats event outcome).1.received = stats.received := by
  cases outcome <;> rfl

/-- Nothing fails between decoding and the call of `output.write`. -/
theorem receive_ok {lim : Limits} {index : StreamIndex}
    (hindex : ∀ group name spec, index.lookup (group, name) = some spec → (connectionGroupByKey.lookup group).isSome)
    {message : ReceivedMessage} {n : NormalizedMessage} (hn : normalizeReceivedMessage lim message index = .ok n)
    (stats : MultiStreamStatsCollector) (now : ℚ) :
    ∃ stats', stats'.received = stats.received + 1 ∧ receive lim index stats now message = (stats', .ok n.event) := by
  obtain ⟨stats', hs⟩ : ∃ stats', stats.recordReceived now n.event = .ok stats' := by
    refine stats.recordReceived_ok now fun metadata group hm ht hg => ?_
    cases normalized_of_ok hn with
    | warned | bare | unknownStream | collision =>
      rw [controlEvent_meta] at hm
      cases hm
      exact absurd (controlMeta_streamType ..) ht
    | market decoded enveloped known renamed =>
      rw [marketEvent_meta] at hm
      cases hm
      rw [marketMeta_connectionGroup] at hg
      cases hg
      exact hindex _ _ _ known
  exact ⟨stats', (MultiStreamStatsCollector.recordReceived_counts (.inl hs)).received, by simp only [receive, hn, hs]⟩

theorem handle_once {lim : Limits} {index : StreamIndex}
    (hindex : ∀ group name spec, index.lookup (group, name) = some spec → (connectionGroupByKey.lookup group).isSome)
    {message : ReceivedMessage} {n : NormalizedMessage} (hn : normalizeReceivedMessage lim message index = .ok n)
    (write : Event → WriteOutcome) (stats : MultiStreamStatsCollector) (now : ℚ) :
    (handle lim index write stats now message).Once MultiStreamStatsCollector.received
      (normalizeReceivedMessage lim message index) stats := by
  obtain ⟨stats', hcount, hr⟩ := receive_ok hindex hn stats now
  rw [handle, hr]
  exact ⟨(forward_received stats' n.event _).trans hcount, n, hn, rfl⟩

end MultiStreamEventDispatcher

/-- **A message is normalised, counted once and its event written once** by both dispatchers exactly if it meets no
limit of the decoder: no integer is too long and no container is nested too deep where the decoder comes. -/
theorem handled_once_iff (lim : Limits) (message : WireMessage) :
    ((∃ n, normalizeMessage lim message = .ok n) ∧
      (∀ write stats now,
        (EventDispatcher.handle lim true write stats now message).Once StatsCollector.received
          (normalizeMessage lim message) stats) ∧
      ∀ symbols o specs index, buildStreamSpecs symbols o = .ok specs → indexStreamSpecs specs = .ok index →
        ∀ write stats now (received : ReceivedMessage), received.payload = message →
          (MultiStreamEventDispatcher.handle lim index write stats now received).Once
            MultiStreamStatsCollector.received (normalizeReceivedMessage lim received index) stats) ↔
      ¬message.Exceeds lim := by
  constructor
  · rintro ⟨hn, -, -⟩
    exact normalizeMessage_total.1 hn
  · intro hno
    obtain ⟨n, hn⟩ := normalizeMessage_total.2 hno
    refine ⟨⟨n, hn⟩, fun write stats now => EventDispatcher.handle_once hn write stats now, ?_⟩
    rintro symbols o specs index hb hi write stats now received rfl
    obtain ⟨n', hn'⟩ : ∃ n', normalizeReceivedMessage lim received index = .ok n' := by
      cases h : normalizeReceivedMessage lim received index with
      | ok n' => exact ⟨n', rfl⟩
      | error failure =>
        rw [normalizeReceivedMessage_error.1 h] at hn
        cases hn
    exact MultiStreamEventDispatcher.handle_once (fun _ _ _ => connectionGroup_of_index hb hi) hn' write stats now

/-- `{"E":11…1}`, a trade whose event time has `n` digits. -/
def longEventTime (n : ℕ) : WireMessage :=
  .text (code '{' :: code '"' :: code 'E' :: code '"' :: code ':' :: (.replicate n (code '1') ++ [code '}']))

theorem longEventTime_exceeds {n digits : ℕ} (depth : ℕ) (h : digits < n + 1) :
    (longEventTime (n + 1)).Exceeds ⟨depth + 1, digits⟩ := by
  have hlong : TooLong ⟨depth + 1, digits⟩ (.replicate (n + 1) (code '1') ++ [code '}']) :=
    ⟨_, _, scanNumber_replicate n [], by rwa [digitCount_replicate (by decide)]⟩
  have hmeets : Meets strictHooks ⟨depth + 1, digits⟩ depth (.replicate (n + 1) (code '1') ++ [code '}']) := by
    cases depth <;> exact .inl hlong
  have hdigit : skipSpace (.replicate (n + 1) (code '1') ++ [code '}']) =
      .replicate (n + 1) (code '1') ++ [code '}'] := by
    rw [List.replicate_succ, List.cons_append, skipSpace, if_neg (by decide)]
  have hquote : ∀ c r, scanString (code '"' :: c :: r) = some ([], c :: r) := fun c r => by
    rw [scanString.eq_def]
    exact if_pos rfl
  have hkey : ∀ c r, scanString (code 'E' :: code '"' :: c :: r) = some ([code 'E'], c :: r) := fun c r => by
    rw [scanString.eq_def]
    dsimp only
    rw [if_neg (by decide), if_neg (by decide), if_neg (by decide), hquote]
    rfl
  refine ⟨fun hbom => absurd (Option.some.inj hbom) (by decide), .inr (.inl ⟨_, rfl, ?_⟩)⟩
  exact .here (hkey _ _) rfl (hdigit ▸ hmeets)

/-- An event time of 4301 digits is not normalised, and nothing is counted or written. -/
theorem long_event_time_not_handled :
    (¬∃ n, normalizeMessage ⟨1000, 4300⟩ (longEventTime 4301) = .ok n) ∧
      ¬(EventDispatcher.handle ⟨1000, 4300⟩ true (fun _ => .returns) { symbols := [str "BTCUSDT"], startedAt := 0 } 0
        (longEventTime 4301)).Once StatsCollector.received (normalizeMessage ⟨1000, 4300⟩ (longEventTime 4301))
        { symbols := [str "BTCUSDT"], startedAt := 0 } := by
  have hno : ¬∃ n, normalizeMessage ⟨1000, 4300⟩ (longEventTime 4301) = .ok n := by
    rw [normalizeMessage_total, not_not]
    exact longEventTime_exceeds 999 (by decide)
  refine ⟨hno, fun honce => ?_⟩
  obtain ⟨-, n, hn, -⟩ := honce
  exact hno ⟨n, hn⟩

end BinanceCollector
