import BinanceCollector.Collector.Streams
import BinanceCollector.Lib.Json

/-!
# The product catalog

`collector/product_catalog.py`. `urlopen` and `json.load` are parameters: what they give for a URL is a value or the name
of an exception's type. Which of two failures `gather` sees first is a parameter as well.

- `Traded`: what an entry of the exchange has to say of a symbol.
- `validateProducts_iff`: `validate_products` returns exactly when both exchanges say so of every symbol.
-/

namespace BinanceCollector

open Text Json

/-- `SPOT_EXCHANGE_INFO_URL`. -/
def spotExchangeInfoUrl : Str := str "https://api.binance.com/api/v3/exchangeInfo"

/-- `USDM_EXCHANGE_INFO_URL`. -/
def usdmExchangeInfoUrl : Str := str "https://fapi.binance.com/fapi/v1/exchangeInfo"

/-- What a fetcher raises. -/
inductive FetchError where
  /-- `ProductCatalogError` -/
  | catalog (message : Str)
  /-- another `Exception`, by the name of its type -/
  | other (typeName : Str)
  deriving DecidableEq

/-- A payload, as the mapping that it is. -/
abbrev Payload := List (Str × Value)

/-- `_fetch_json`, of what `urlopen` and `json.load` give for the URL. -/
def fetchJson (loaded : Str → Except Str Value) (url : Str) : Except FetchError Payload :=
  match loaded url with
  | .error typeName => .error (.other typeName)
  | .ok (.object payload) => .ok payload
  | .ok _ => .error (.catalog (str "Binance 상품 응답이 JSON 객체가 아닙니다."))

/-- The symbol of an entry, where it is to be added. -/
def eligibleSymbol (futures : Bool) : Value → Option Str
  | .object entry =>
    match entry.lookup (str "symbol") with
    | some (.str symbol) =>
      if entry.lookup (str "status") ≠ some (.str (str "TRADING")) then none
      else if futures ∧ (entry.lookup (str "contractType") ≠ some (.str (str "PERPETUAL")) ∨
          entry.lookup (str "quoteAsset") ≠ some (.str (str "USDT"))) then none
      else some symbol
    | _ => none
  | _ => none

/-- `_eligible_symbols`; the text of its `ProductCatalogError`. -/
def eligibleSymbols (payload : Payload) (futures : Bool) : Except Str (List Str) :=
  match payload.lookup (str "symbols") with
  | some (.array entries) => .ok (entries.filterMap (eligibleSymbol futures))
  | _ => .error (str "Binance 상품 응답에 symbols 배열이 없습니다.")

/-- `ProductValidationResult`. -/
structure ProductValidationResult where
  spotSymbols : List Str
  usdmPerpetualSymbols : List Str
  deriving DecidableEq

/-- `gather` of the two fetches. -/
def gatherPayloads (spotFirst : Bool) (spot usdm : Except FetchError Payload) : Except FetchError (Payload × Payload) :=
  match spot, usdm with
  | .ok spot, .ok usdm => .ok (spot, usdm)
  | .error e, .ok _ => .error e
  | .ok _, .error e => .error e
  | .error e, .error e' => .error (if spotFirst then e else e')

/-- A market and its missing symbols, where there are any. -/
def missingDetail (market : Str) (missing : List Str) : List Str :=
  if missing.isEmpty then [] else [market ++ str ": " ++ joined (str ", ") missing]

/-- `validate_products`; the text of its `ProductCatalogError`. -/
def validateProducts (spotFirst : Bool) (fetcher : Str → Except FetchError Payload) (symbols : List Str) :
    Except Str ProductValidationResult :=
  match gatherPayloads spotFirst (fetcher spotExchangeInfoUrl) (fetcher usdmExchangeInfoUrl) with
  | .error (.catalog message) => .error message
  | .error (.other typeName) => .error (str "Binance 상품 목록 조회에 실패했습니다: " ++ typeName)
  | .ok (spotPayload, usdmPayload) =>
    match eligibleSymbols spotPayload false with
    | .error message => .error message
    | .ok spot =>
      match eligibleSymbols usdmPayload true with
      | .error message => .error message
      | .ok usdm =>
        let missingSpot := symbols.filter (· ∉ spot)
        let missingUsdm := symbols.filter (· ∉ usdm)
        if missingSpot ≠ [] ∨ missingUsdm ≠ [] then
          let details := missingDetail (str "Spot") missingSpot ++ missingDetail (str "USDⓈ-M PERPETUAL") missingUsdm
          .error (str "수집 조건을 충족하지 않는 symbol이 있습니다 (" ++ joined (str "; ") details ++ str ")")
        else .ok { spotSymbols := symbols, usdmPerpetualSymbols := symbols }

/-! ## What is traded -/

/-- The URL of the products of a market. -/
def Market.exchangeInfoUrl : Market → Str
  | .spot => spotExchangeInfoUrl
  | .usdmFutures => usdmExchangeInfoUrl

/-- An entry says that the symbol is traded: as a perpetual future in USDT, where futures are asked for. -/
structure EntryTrades (futures : Bool) (entry : Payload) (symbol : Str) : Prop where
  symbol : entry.lookup (str "symbol") = some (.str symbol)
  status : entry.lookup (str "status") = some (.str (str "TRADING"))
  contract : futures = true → entry.lookup (str "contractType") = some (.str (str "PERPETUAL")) ∧
    entry.lookup (str "quoteAsset") = some (.str (str "USDT"))

/-- The futures market is asked for. -/
def Market.futures : Market → Bool
  | .spot => false
  | .usdmFutures => true

/-- The exchange lists the products of a market. -/
def Lists (fetcher : Str → Except FetchError Payload) (market : Market) (entries : List Value) : Prop :=
  ∃ payload, fetcher market.exchangeInfoUrl = .ok payload ∧ payload.lookup (str "symbols") = some (.array entries)

/-- The default fetcher lists what the exchange answers with an object. -/
theorem lists_fetchJson {loaded : Str → Except Str Value} {market : Market} {entries : List Value} :
    Lists (fetchJson loaded) market entries ↔ ∃ payload,
      loaded market.exchangeInfoUrl = .ok (.object payload) ∧ payload.lookup (str "symbols") = some (.array entries) := by
  refine exists_congr fun payload => and_congr_left fun _ => ?_
  rw [fetchJson]
  split <;> simp_all

/-- The exchange says that the symbol is traded in a market. -/
def Traded (fetcher : Str → Except FetchError Payload) (market : Market) (symbol : Str) : Prop :=
  ∃ entries entry, Lists fetcher market entries ∧ Value.object entry ∈ entries ∧ EntryTrades market.futures entry symbol

theorem eligibleSymbol_iff {futures : Bool} {value : Value} {symbol : Str} :
    eligibleSymbol futures value = some symbol ↔ ∃ entry, value = .object entry ∧ EntryTrades futures entry symbol := by
  constructor
  · intro h
    unfold eligibleSymbol at h
    split at h
    · rename_i entry
      split at h
      · rename_i symbol' hsymbol
        split at h
        · cases h
        rename_i hstatus
        split at h
        · cases h
        rename_i hcontract
        obtain rfl := Option.some.inj h
        refine ⟨entry, rfl, hsymbol, not_not.1 hstatus, fun hfutures => ?_⟩
        simpa [hfutures] using hcontract
      · cases h
    · cases h
  · rintro ⟨entry, rfl, hsymbol, hstatus, hcontract⟩
    unfold eligibleSymbol
    simp only [hsymbol]
    rw [if_neg (not_not.2 hstatus), if_neg]
    rintro ⟨hfutures, hne⟩
    obtain ⟨htype, hquote⟩ := hcontract hfutures
    exact hne.elim (· htype) (· hquote)

theorem mem_eligibleSymbols {entries : List Value} {futures : Bool} {symbol : Str} :
    symbol ∈ entries.filterMap (eligibleSymbol futures) ↔
      ∃ entry, Value.object entry ∈ entries ∧ EntryTrades futures entry symbol := by
  simp only [List.mem_filterMap, eligibleSymbol_iff]
  constructor
  · rintro ⟨value, hvalue, entry, rfl, hentry⟩
    exact ⟨entry, hvalue, hentry⟩
  · rintro ⟨entry, hmem, hentry⟩
    exact ⟨_, hmem, entry, rfl, hentry⟩

theorem eligibleSymbols_iff {payload : Payload} {futures : Bool} {eligible : List Str} :
    eligibleSymbols payload futures = .ok eligible ↔ ∃ entries,
      payload.lookup (str "symbols") = some (.array entries) ∧ eligible = entries.filterMap (eligibleSymbol futures) := by
  unfold eligibleSymbols
  split
  · rename_i entries hentries
    simp only [hentries, Except.ok.injEq, Option.some.injEq, Value.array.injEq, exists_eq_left']
    exact eq_comm
  · rename_i hnone
    refine ⟨nofun, ?_⟩
    rintro ⟨entries, hentries, -⟩
    exact (hnone entries hentries).elim

theorem gatherPayloads_iff {spotFirst : Bool} {spot usdm : Except FetchError Payload} {payloads : Payload × Payload} :
    gatherPayloads spotFirst spot usdm = .ok payloads ↔ spot = .ok payloads.1 ∧ usdm = .ok payloads.2 := by
  cases spot <;> cases usdm <;> simp [gatherPayloads, Prod.ext_iff]

/-- Nothing is missing. -/
theorem filter_notMem_eq_nil {symbols eligible : List Str} :
    symbols.filter (· ∉ eligible) = [] ↔ ∀ symbol ∈ symbols, symbol ∈ eligible := by
  simp [List.filter_eq_nil_iff]

/-- The eligible symbols of a market are the ones that are traded in it. -/
theorem traded_iff {fetcher : Str → Except FetchError Payload} {market : Market} {payload : Payload}
    {eligible : List Str} (hfetch : fetcher market.exchangeInfoUrl = .ok payload)
    (heligible : eligibleSymbols payload market.futures = .ok eligible) (symbol : Str) :
    Traded fetcher market symbol ↔ symbol ∈ eligible := by
  obtain ⟨entries, hentries, rfl⟩ := eligibleSymbols_iff.1 heligible
  rw [mem_eligibleSymbols]
  constructor
  · rintro ⟨entries', entry, ⟨payload', hfetch', hentries'⟩, hmem, htrades⟩
    obtain rfl : payload = payload' := Except.ok.inj (hfetch.symm.trans hfetch')
    obtain rfl : entries = entries' := Value.array.inj (Option.some.inj (hentries.symm.trans hentries'))
    exact ⟨entry, hmem, htrades⟩
  · rintro ⟨entry, hmem, htrades⟩
    exact ⟨entries, entry, ⟨payload, hfetch, hentries⟩, hmem, htrades⟩

/-- A market that lists its products has eligible symbols. -/
theorem eligible_of_lists {fetcher : Str → Except FetchError Payload} {market : Market} {entries : List Value}
    (h : Lists fetcher market entries) : ∃ payload eligible, fetcher market.exchangeInfoUrl = .ok payload ∧
      eligibleSymbols payload market.futures = .ok eligible := by
  obtain ⟨payload, hfetch, hentries⟩ := h
  exact ⟨payload, _, hfetch, eligibleSymbols_iff.2 ⟨entries, hentries, rfl⟩⟩

/-- **The products are accepted exactly when both exchanges list them as traded.** -/
theorem validateProducts_iff {spotFirst : Bool} {fetcher : Str → Except FetchError Payload} {symbols : List Str}
    {result : ProductValidationResult} :
    validateProducts spotFirst fetcher symbols = .ok result ↔
      (∀ market, ∃ entries, Lists fetcher market entries) ∧
        (∀ symbol ∈ symbols, ∀ market, Traded fetcher market symbol) ∧
        result = { spotSymbols := symbols, usdmPerpetualSymbols := symbols } := by
  constructor
  · intro h
    unfold validateProducts at h
    split at h
    · cases h
    · cases h
    rename_i spotPayload usdmPayload hgather
    obtain ⟨hspot, husdm⟩ := gatherPayloads_iff.1 hgather
    split at h
    · cases h
    rename_i spot hspotEligible
    split at h
    · cases h
    rename_i usdm husdmEligible
    dsimp only at h
    split at h
    · cases h
    rename_i hmissing
    rw [not_or, not_not, not_not, filter_notMem_eq_nil, filter_notMem_eq_nil] at hmissing
    have hlists {market : Market} {payload : Payload} {eligible : List Str}
        (hfetch : fetcher market.exchangeInfoUrl = .ok payload)
        (heligible : eligibleSymbols payload market.futures = .ok eligible) :
        ∃ entries, Lists fetcher market entries := by
      obtain ⟨entries, hentries, -⟩ := eligibleSymbols_iff.1 heligible
      exact ⟨entries, payload, hfetch, hentries⟩
    refine ⟨fun market => ?_, fun symbol hs market => ?_, (Except.ok.inj h).symm⟩
    · cases market with
      | spot => exact hlists hspot hspotEligible
      | usdmFutures => exact hlists husdm husdmEligible
    · cases market with
      | spot => exact (traded_iff hspot hspotEligible symbol).2 (hmissing.1 symbol hs)
      | usdmFutures => exact (traded_iff husdm husdmEligible symbol).2 (hmissing.2 symbol hs)
  · rintro ⟨hlists, htraded, rfl⟩
    obtain ⟨_, hlistsSpot⟩ := hlists .spot
    obtain ⟨_, hlistsUsdm⟩ := hlists .usdmFutures
    obtain ⟨spotPayload, spot, hspot, hspotEligible⟩ := eligible_of_lists hlistsSpot
    obtain ⟨usdmPayload, usdm, husdm, husdmEligible⟩ := eligible_of_lists hlistsUsdm
    have hgather : gatherPayloads spotFirst (fetcher Market.spot.exchangeInfoUrl)
        (fetcher Market.usdmFutures.exchangeInfoUrl) = .ok (spotPayload, usdmPayload) :=
      gatherPayloads_iff.2 ⟨hspot, husdm⟩
    have hspotAll : symbols.filter (· ∉ spot) = [] := filter_notMem_eq_nil.2 fun symbol hs =>
      (traded_iff hspot hspotEligible symbol).1 (htraded symbol hs .spot)
    have husdmAll : symbols.filter (· ∉ usdm) = [] := filter_notMem_eq_nil.2 fun symbol hs =>
      (traded_iff husdm husdmEligible symbol).1 (htraded symbol hs .usdmFutures)
    unfold validateProducts
    rw [show spotExchangeInfoUrl = Market.spot.exchangeInfoUrl from rfl,
      show usdmExchangeInfoUrl = Market.usdmFutures.exchangeInfoUrl from rfl, hgather]
    have hspotEligible' : eligibleSymbols spotPayload false = .ok spot := hspotEligible
    have husdmEligible' : eligibleSymbols usdmPayload true = .ok usdm := husdmEligible
    simp only [hspotEligible', husdmEligible', hspotAll, husdmAll, ne_eq, not_true_eq_false, or_self, if_false]

end BinanceCollector
