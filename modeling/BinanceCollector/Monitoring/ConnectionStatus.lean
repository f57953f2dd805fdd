import BinanceCollector.Collector.Statuses
import BinanceCollector.Monitoring.MultiStats

/-!
# The connection statuses of the combined streams

What `_report_status` of a `StreamConnection` hands to `record_connection_status`, and what the statistics show of it.

- `recordStatuses_shown`: the entry of a connection group shows the last value of each category.
- `shown_coherent`: in a run that leaves no status behind, the entry is coherent at every point of the run.
-/

namespace BinanceCollector.Connection

open Text

/-! ## The texts of the statuses -/

def Category.text : Category → Str
  | .connection => str "connection"
  | .subscription => str "subscription"
  | .data => str "data"
  | .error => str "error"

/-- `f"{delay:.0f}"`, which rounds half to even. Delays are not negative. -/
def wholeSeconds (delay : ℚ) : Str :=
  let n := delay.floor.toNat
  let half := 2 * (delay - n)
  decimal (if half < 1 then n else if 1 < half then n + 1 else if n % 2 = 0 then n else n + 1)

/-- The value that is reported. The text of an exception is its own. -/
def Status.text (errorText : Exc → Str) : Status → Str
  | .connecting => str "연결 중"
  | .awaitingSubscription => str "구독 대기"
  | .connected => str "연결됨"
  | .subscribing => str "구독 요청 중"
  | .subscribed streams => decimal streams ++ str "개 구독 확인"
  | .receivingData => str "수신 중"
  | .subscriptionFailed => str "구독 실패"
  | .disconnected => str "연결 끊김"
  | .error e => errorText e
  | .waiting delay => str "재연결 대기 " ++ wholeSeconds delay ++ str "초"
  | .terminated => str "종료됨"

/-- No other subscription status has the text of a confirmed value. -/
theorem text_subscribed {errorText : Exc → Str} {status : Status} {n : ℕ} (hs : status.category = .subscription)
    (ht : status.text errorText = decimal n ++ str "개 구독 확인") : ∃ m, status = .subscribed m := by
  have hlast : (decimal n ++ str "개 구독 확인").getLast? = some (code '인') := by
    rw [List.getLast?_append]
    rfl
  rw [← ht] at hlast
  cases status with
  | subscribed m => exact ⟨m, rfl⟩
  | awaitingSubscription => exact absurd (show (str "구독 대기").getLast? = _ from hlast) (by decide)
  | subscribing => exact absurd (show (str "구독 요청 중").getLast? = _ from hlast) (by decide)
  | subscriptionFailed => exact absurd (show (str "구독 실패").getLast? = _ from hlast) (by decide)
  | connecting | connected | disconnected | waiting _ | terminated | receivingData | error _ => cases hs

/-! ## What the statistics show -/

/-- What an act of a connection does to the statistics. -/
def recordAct {μ : Type} (errorText : Exc → Str) (group : Str) (stats : MultiStreamStatsCollector) :
    Act μ × ℚ → MultiStreamStatsCollector
  | (.reports status, now) => stats.recordConnectionStatus now group status.category.text (status.text errorText)
  | _ => stats

/-- The last value of a category, or the one before. -/
def shown {μ : Type} (errorText : Exc → Str) (c : Category) (h : List (Act μ)) (before : Str) : Str :=
  ((latest c h).map (·.text errorText)).getD before

/-- The entry of a connection group shows the last value of each category. -/
structure Shows {μ : Type} (errorText : Exc → Str) (before : ConnectionStats) (h : List (Act μ))
    (entry : ConnectionStats) : Prop where
  connection : entry.connection = shown errorText .connection h before.connection
  subscription : entry.subscription = shown errorText .subscription h before.subscription
  data : entry.data = shown errorText .data h before.data

variable {μ : Type} {errorText : Exc → Str} {group : Str} {before entry : ConnectionStats} {h : List (Act μ)}

theorem shown_snoc (c : Category) (a : Act μ) (text : Str) : shown errorText c (h ++ [a]) text =
    match a with
    | .reports status => if status.category = c then status.text errorText else shown errorText c h text
    | _ => shown errorText c h text := by
  rw [shown, latest_append]
  cases a with
  | reports status =>
    by_cases hc : status.category = c
    · simp [post, hc]
    · simp [post, hc, shown]
  | _ => rfl

/-- A report of a configured group changes its entry in the category of the report. -/
theorem recordAct_shows (hgroup : (connectionGroupByKey.lookup group).isSome = true) {stats : MultiStreamStatsCollector}
    (hs : Shows errorText before h (stats.connections group)) (a : Act μ) (now : ℚ) :
    Shows errorText before (h ++ [a]) ((recordAct errorText group stats (a, now)).connections group) := by
  cases a with
  | reports status =>
    have hcase : ∀ c, status.category = c → Shows errorText before (h ++ [.reports status])
        ((stats.recordConnectionStatus now group c.text (status.text errorText)).connections group) := by
      intro c hc
      have hnot : (connectionGroupByKey.lookup group).isNone = false := by simpa using hgroup
      unfold MultiStreamStatsCollector.recordConnectionStatus
      rw [hnot]
      cases c <;> constructor <;>
        simp [Category.text, shown_snoc, hc, hs.connection, hs.subscription, hs.data, str_injective.eq_iff]
    exact hcase _ rfl
  | _ => constructor <;> simp [recordAct, shown_snoc, hs.connection, hs.subscription, hs.data]

theorem recordStatuses_shown (hgroup : (connectionGroupByKey.lookup group).isSome = true)
    (stats : MultiStreamStatsCollector) (timed : List (Act μ × ℚ)) :
    Shows errorText (stats.connections group) (timed.map Prod.fst)
      ((timed.foldl (recordAct errorText group) stats).connections group) := by
  induction timed using List.reverseRecOn with
  | nil => exact ⟨rfl, rfl, rfl⟩
  | append_singleton timed x ih =>
    obtain ⟨a, now⟩ := x
    rw [List.map_append, List.foldl_append]
    exact recordAct_shows hgroup ih a now

theorem latest_category {c : Category} {status : Status} (hl : latest c h = some status) : status.category = c := by
  induction h using List.reverseRecOn with
  | nil => cases hl
  | append_singleton h a ih =>
    rw [latest_append] at hl
    cases a with
    | reports status' =>
      simp only [List.foldl_cons, List.foldl_nil, post] at hl
      split at hl
      · cases hl; assumption
      · exact ih hl
    | _ => exact ih hl

/-- What is shown of a category is the text of its last value, or of the value a client begins with. -/
theorem shown_cases (errorText : Exc → Str) (c : Category) (h : List (Act μ)) (before : Str) :
    (∃ status, latest c h = some status ∧ status.category = c ∧ shown errorText c h before = status.text errorText) ∨
      latest c h = none ∧ shown errorText c h before = before := by
  cases hl : latest c h with
  | none => exact .inr ⟨rfl, by rw [shown, hl]; rfl⟩
  | some status => exact .inl ⟨status, rfl, latest_category hl, by rw [shown, hl]; rfl⟩

/-- **The statistics show no stale status** of a connection whose run leaves none behind. -/
theorem shown_coherent {c : StreamConnection} {policy : ReconnectPolicy} {is : List Input} {s : State ReceivedMessage}
    (hpath : (machine c.profile).Path (fun s i => ¬LeavesBehind c.profile s i) (initial policy) is s)
    (hgroup : (connectionGroupByKey.lookup group).isSome = true) {stats : MultiStreamStatsCollector}
    (hfresh : stats.connections group = {}) {timed : List (Act ReceivedMessage × ℚ)}
    (hpoint : timed.map Prod.fst <+: s.history)
    (hentry : (timed.foldl (recordAct errorText group) stats).connections group = entry)
    (hconn : entry.connection ≠ str "연결됨") :
    (∀ n, entry.subscription ≠ decimal n ++ str "개 구독 확인") ∧ entry.data ≠ str "수신 중" := by
  have hshows : Shows errorText {} (timed.map Prod.fst) entry := by
    rw [← hentry, ← hfresh]
    exact recordStatuses_shown hgroup stats timed
  have hno : ¬Connected (timed.map Prod.fst) := fun hc => hconn (by rw [hshows.connection, shown, hc]; rfl)
  obtain ⟨hconfirmed, hreceiving⟩ := (agreeing_of_path hpath).coherent _ hpoint hno
  constructor
  · intro n hn
    rw [hshows.subscription] at hn
    rcases shown_cases errorText .subscription (timed.map Prod.fst) (str "구독 대기") with ⟨status, hl, hc, hs⟩ | ⟨-, hs⟩
    · obtain ⟨m, rfl⟩ := text_subscribed hc (hs.symm.trans hn)
      exact hconfirmed ⟨m, hl⟩
    · have hawaiting : Status.awaitingSubscription.text errorText = decimal n ++ str "개 구독 확인" := hs.symm.trans hn
      obtain ⟨m, hm⟩ := text_subscribed rfl hawaiting
      cases hm
  · intro hn
    rw [hshows.data] at hn
    rcases shown_cases errorText .data (timed.map Prod.fst) (str "수신 대기") with ⟨status, hl, hc, -⟩ | ⟨-, hs⟩
    · cases status <;> first | exact hreceiving hl | cases hc
    · exact absurd (str_injective (hs.symm.trans hn)) (by decide)

end BinanceCollector.Connection
