import Mathlib.Data.List.Nodup
import BinanceCollector.Config
import BinanceCollector.Lib.Dict
import BinanceCollector.StorageRoutes

/-!
# Stream specifications

`collector/streams.py`: the three connection groups, the subscriptions of a list of symbols and their index by group
and stream name.

- `streamName_inj`: the name of a stream determines its symbol and its type.
- `specs_keys_nodup`: no two subscriptions of one group have the same name.
- `indexStreamSpecs_build`: the index of the subscriptions of accepted symbols exists and finds exactly them.
- `streams_partitioned`: the names are injective, the groups divide the subscriptions, and every connection accepts its
  group.
-/

namespace BinanceCollector

open Text

/-- `SCHEMA_VERSION`. -/
def schemaVersion : ℤ := 2

/-- `Market`. -/
inductive Market where
  | spot | usdmFutures
  deriving DecidableEq, Repr

/-- `Market.value`. -/
def Market.value : Market → Str
  | .spot => str "spot"
  | .usdmFutures => str "usdm_futures"

/-- `StreamType`. -/
inductive StreamType where
  | aggTrade | depth | bookTicker | kline | markPrice
  deriving DecidableEq, Repr

/-- `StreamType.value`. -/
def StreamType.value : StreamType → Str
  | .aggTrade => str "aggTrade"
  | .depth => str "depth"
  | .bookTicker => str "bookTicker"
  | .kline => str "kline"
  | .markPrice => str "markPrice"

/-- `ROUTE_BY_STREAM`. -/
def routeByStream (streamType : StreamType) : StorageRoute := storageRouteForStreamType streamType.value

/-- `ConnectionGroupSpec`. -/
structure ConnectionGroupSpec where
  key : Str
  market : Market
  url : Str
  streamTypes : List StreamType
  deriving DecidableEq

/-- `SPOT_MARKET_GROUP`. -/
def spotMarketGroup : ConnectionGroupSpec where
  key := str "spot_market"
  market := .spot
  url := str "wss://stream.binance.com:9443/stream"
  streamTypes := [.aggTrade, .bookTicker, .kline]

/-- `SPOT_DEPTH_GROUP`. -/
def spotDepthGroup : ConnectionGroupSpec where
  key := str "spot_depth"
  market := .spot
  url := str "wss://stream.binance.com:9443/stream"
  streamTypes := [.depth]

/-- `USDM_MARK_GROUP`. -/
def usdmMarkGroup : ConnectionGroupSpec where
  key := str "usdm_mark"
  market := .usdmFutures
  url := str "wss://fstream.binance.com/market/stream"
  streamTypes := [.markPrice]

/-- `CONNECTION_GROUPS`. -/
def connectionGroups : List ConnectionGroupSpec := [spotMarketGroup, spotDepthGroup, usdmMarkGroup]

/-- `CONNECTION_GROUP_BY_KEY`. -/
def connectionGroupByKey : List (Str × ConnectionGroupSpec) := connectionGroups.map fun group => (group.key, group)

/-- `StreamSpec`. -/
structure StreamSpec where
  market : Market
  streamType : StreamType
  symbol : Str
  streamName : Str
  storageRoute : StorageRoute
  connectionGroup : Str
  deriving DecidableEq

/-! ## Options -/

/-- `SUPPORTED_KLINE_INTERVALS`. -/
def supportedKlineIntervals : List Str :=
  ["1s", "1m", "3m", "5m", "15m", "30m", "1h", "2h", "4h", "6h", "8h", "12h", "1d", "3d", "1w", "1M"].map str

/-- `SUPPORTED_DEPTH_SPEEDS`. -/
def supportedDepthSpeeds : List Str := ["100ms", "1000ms"].map str

/-- `SUPPORTED_MARK_PRICE_SPEEDS`. -/
def supportedMarkPriceSpeeds : List Str := ["1s", "3s"].map str

/-- The keyword arguments of `build_stream_specs`. -/
structure StreamOptions where
  klineInterval : Str := str "1m"
  depthSpeed : Str := str "100ms"
  markPriceSpeed : Str := str "1s"
  deriving DecidableEq

/-- `validate_stream_options`; the text of its `ValueError`. -/
def validateStreamOptions (o : StreamOptions) : Except Str Unit :=
  if o.klineInterval ∉ supportedKlineIntervals then
    .error (str "지원하지 않는 kline 간격입니다: " ++ o.klineInterval)
  else if o.depthSpeed ∉ supportedDepthSpeeds then
    .error (str "지원하지 않는 depth 갱신 속도입니다: " ++ o.depthSpeed)
  else if o.markPriceSpeed ∉ supportedMarkPriceSpeeds then
    .error (str "지원하지 않는 markPrice 갱신 속도입니다: " ++ o.markPriceSpeed)
  else .ok ()

/-! ## Subscriptions -/

/-- `str.lower` of a code point below 128. -/
def lowerCode (c : CodePoint) : CodePoint := if code 'A' ≤ c ∧ c ≤ code 'Z' then c + 32 else c

/-- `symbol.lower()`, for the texts of code points below 128 that symbols are. -/
def lower (symbol : Str) : Str := symbol.map lowerCode

/-- What `_stream_name` puts behind the `@`. -/
def streamSuffix (o : StreamOptions) : StreamType → Str
  | .aggTrade => str "aggTrade"
  | .depth => str "depth@" ++ o.depthSpeed
  | .bookTicker => str "bookTicker"
  | .kline => str "kline_" ++ o.klineInterval
  | .markPrice => str "markPrice@" ++ o.markPriceSpeed

/-- `_stream_name`. -/
def streamName (o : StreamOptions) (symbol : Str) (streamType : StreamType) : Str :=
  lower symbol ++ code '@' :: streamSuffix o streamType

/-- The specification `build_stream_specs` makes of a symbol and a stream type of a group. -/
def streamSpec (o : StreamOptions) (group : ConnectionGroupSpec) (symbol : Str) (streamType : StreamType) :
    StreamSpec where
  market := group.market
  streamType := streamType
  symbol := symbol
  streamName := streamName o symbol streamType
  storageRoute := routeByStream streamType
  connectionGroup := group.key

/-- `build_stream_specs`. -/
def buildStreamSpecs (symbols : List Str) (o : StreamOptions) : Except Str (List StreamSpec) :=
  match validateStreamOptions o with
  | .error e => .error e
  | .ok () => .ok (connectionGroups.flatMap fun group =>
      symbols.flatMap fun symbol => group.streamTypes.map (streamSpec o group symbol))

/-- `group_stream_specs`. -/
def groupStreamSpecs (specs : List StreamSpec) : List (Str × List StreamSpec) :=
  connectionGroupByKey.map fun entry => (entry.1, specs.filter (·.connectionGroup == entry.1))

/-- The checks of `StreamConnection.__init__`; the text of its `ValueError`. -/
def checkSpecs (group : ConnectionGroupSpec) (specs : List StreamSpec) : Except Str Unit :=
  if specs.isEmpty then .error (group.key ++ str " 연결에는 구독 명세가 필요합니다.")
  else if specs.any fun spec => spec.connectionGroup ≠ group.key then
    .error (group.key ++ str "와 다른 연결 그룹의 명세가 포함되었습니다.")
  else .ok ()

/-- The value of `index_stream_specs`. -/
abbrev StreamIndex := List ((Str × Str) × StreamSpec)

/-- The key of a specification in the index. -/
def StreamSpec.key (spec : StreamSpec) : Str × Str := (spec.connectionGroup, spec.streamName)

/-- `index_stream_specs`; the key that is there already where it raises `ValueError`. -/
def indexStreamSpecs (specs : List StreamSpec) : Except (Str × Str) StreamIndex :=
  Dict.collect id [] (specs.map fun spec => (spec.key, spec))

/-! ## Names -/

theorem lowerCode_ne_at (c : CodePoint) (h : isSymbolCode c = true) : lowerCode c ≠ code '@' := by
  simp only [isSymbolCode, Bool.or_eq_true, Bool.and_eq_true, decide_eq_true_eq, Fin.le_def] at h
  simp only [lowerCode, Fin.le_def, ne_eq, Fin.ext_iff]
  split <;> simp_all [code, Fin.val_add] <;> omega

theorem lowerCode_inj {c d : CodePoint} (hc : isSymbolCode c = true) (hd : isSymbolCode d = true)
    (h : lowerCode c = lowerCode d) : c = d := by
  simp only [isSymbolCode, Bool.or_eq_true, Bool.and_eq_true, decide_eq_true_eq, Fin.le_def] at hc hd
  simp only [lowerCode, Fin.le_def, Fin.ext_iff] at h ⊢
  split at h <;> split at h <;> simp_all [code, Fin.val_add] <;> omega

theorem lower_inj {s t : Str} (hs : s.all isSymbolCode = true) (ht : t.all isSymbolCode = true)
    (h : lower s = lower t) : s = t := by
  induction s generalizing t with
  | nil => exact (List.map_eq_nil_iff.1 h.symm).symm
  | cons c s ih =>
    cases t with
    | nil => cases h
    | cons d t =>
      simp only [List.all_cons, Bool.and_eq_true] at hs ht
      rw [lower, lower, List.map_cons, List.map_cons, List.cons.injEq] at h
      rw [lowerCode_inj hs.1 ht.1 h.1, ih hs.2 ht.2 h.2]

/-- The suffixes of different types start with different letters. -/
theorem streamSuffix_inj {o : StreamOptions} {t u : StreamType} (h : streamSuffix o t = streamSuffix o u) : t = u := by
  have hhead := congrArg List.head? h
  cases t <;> cases u <;> first | rfl | exact absurd hhead (by simp [streamSuffix, str, code])

theorem at_notMem_lower {s : Str} (hs : isSymbol s = true) : code '@' ∉ lower s := by
  simp only [isSymbol, Bool.and_eq_true, List.all_eq_true] at hs
  intro hmem
  obtain ⟨c, hc, heq⟩ := List.mem_map.1 hmem
  exact lowerCode_ne_at c (hs.2 c hc) heq

/-- **The name of a stream determines its symbol and its type.** -/
theorem streamName_inj {o : StreamOptions} {s s' : Str} {t t' : StreamType} (hs : isSymbol s = true)
    (hs' : isSymbol s' = true) (h : streamName o s t = streamName o s' t') : s = s' ∧ t = t' := by
  obtain ⟨hl, hr⟩ := split_inj (at_notMem_lower hs) (at_notMem_lower hs') h
  simp only [isSymbol, Bool.and_eq_true] at hs hs'
  exact ⟨lower_inj hs.2 hs'.2 hl, streamSuffix_inj hr⟩

/-! ## The index -/

section

variable {symbols : List Str} {o : StreamOptions} {specs : List StreamSpec}

theorem buildStreamSpecs_supported (symbols : List Str) (ho : validateStreamOptions o = .ok ()) :
    buildStreamSpecs symbols o = .ok (connectionGroups.flatMap fun group =>
      symbols.flatMap fun symbol => group.streamTypes.map (streamSpec o group symbol)) := by
  rw [buildStreamSpecs, ho]

theorem mem_buildStreamSpecs (h : buildStreamSpecs symbols o = .ok specs) {spec : StreamSpec} :
    spec ∈ specs ↔ ∃ group ∈ connectionGroups, ∃ symbol ∈ symbols, ∃ streamType ∈ group.streamTypes,
      streamSpec o group symbol streamType = spec := by
  rw [buildStreamSpecs] at h
  split at h
  · cases h
  · obtain rfl := Except.ok.inj h
    simp only [List.mem_flatMap, List.mem_map]

/-- A built specification is stored on the route of its stream type. -/
theorem storageRoute_of_mem (h : buildStreamSpecs symbols o = .ok specs) {spec : StreamSpec} (hs : spec ∈ specs) :
    spec.storageRoute = storageRouteForStreamType spec.streamType.value := by
  obtain ⟨group, -, symbol, -, streamType, -, rfl⟩ := (mem_buildStreamSpecs h).1 hs
  rfl

theorem group_keys_nodup : (connectionGroups.map (·.key)).Nodup := by decide

theorem streamTypes_nodup : ∀ group ∈ connectionGroups, group.streamTypes.Nodup := by decide

/-- **No two subscriptions of one group have the same name.** -/
theorem specs_keys_nodup (hsym : Symbols symbols) (h : buildStreamSpecs symbols o = .ok specs) :
    (specs.map StreamSpec.key).Nodup := by
  rw [buildStreamSpecs] at h
  split at h
  · cases h
  obtain rfl := Except.ok.inj h
  simp only [List.map_flatMap, List.map_map]
  refine List.nodup_flatMap.2 ⟨fun group hg => List.nodup_flatMap.2 ⟨fun symbol hs => ?_, ?_⟩, ?_⟩
  · -- one symbol: the stream types of the group are distinct
    refine (List.nodup_map_iff_inj_on (streamTypes_nodup group hg)).2 fun t _ u _ htu => ?_
    exact (streamName_inj (hsym.isSymbol _ hs) (hsym.isSymbol _ hs) (Prod.mk.inj htu).2).2
  · -- two symbols of one group
    refine hsym.nodup.pairwise_of_forall_ne fun s hs s' hs' hne => ?_
    refine List.disjoint_left.2 fun key hk hk' => hne ?_
    obtain ⟨t, -, rfl⟩ := List.mem_map.1 hk
    obtain ⟨t', -, ht'⟩ := List.mem_map.1 hk'
    exact (streamName_inj (hsym.isSymbol _ hs) (hsym.isSymbol _ hs') (Prod.mk.inj ht').2.symm).1
  · -- two groups
    refine (List.pairwise_map.1 group_keys_nodup).imp fun {g g'} hne => ?_
    refine List.disjoint_left.2 fun key hk hk' => hne ?_
    simp only [List.mem_flatMap, List.mem_map] at hk hk'
    obtain ⟨s, -, t, -, rfl⟩ := hk
    obtain ⟨s', -, t', -, ht'⟩ := hk'
    exact (Prod.mk.inj ht').1.symm

/-- An index finds exactly the subscriptions it was made of. -/
theorem indexStreamSpecs_finds {index : StreamIndex} (h : indexStreamSpecs specs = .ok index) (group name : Str)
    (spec : StreamSpec) : index.lookup (group, name) = some spec ↔
      spec ∈ specs ∧ spec.connectionGroup = group ∧ spec.streamName = name := by
  obtain ⟨rfl, hn⟩ := Dict.collect_eq_ok.1 h
  rw [List.map_id] at hn
  rw [Dict.rename_eq_self (f := id) fun _ _ => rfl, Dict.lookup_eq_some_iff hn]
  simp only [List.mem_map, Prod.mk.injEq, StreamSpec.key]
  constructor
  · rintro ⟨spec', hmem, ⟨hg, hname⟩, rfl⟩
    exact ⟨hmem, hg, hname⟩
  · rintro ⟨hmem, hg, hname⟩
    exact ⟨spec, hmem, ⟨hg, hname⟩, rfl⟩

/-- **The index of the subscriptions of accepted symbols exists and finds exactly them.** -/
theorem indexStreamSpecs_build (hsym : Symbols symbols) (h : buildStreamSpecs symbols o = .ok specs) :
    ∃ index, indexStreamSpecs specs = .ok index ∧ ∀ group name spec,
      index.lookup (group, name) = some spec ↔
        spec ∈ specs ∧ spec.connectionGroup = group ∧ spec.streamName = name := by
  have hkeys : Dict.keys (specs.map fun spec => (spec.key, spec)) = specs.map StreamSpec.key := by
    simp [Dict.keys, Function.comp_def]
  have hn : ((Dict.keys (specs.map fun spec => (spec.key, spec))).map id).Nodup := by
    rw [List.map_id, hkeys]
    exact specs_keys_nodup hsym h
  have hindex := Dict.collect_eq_ok.2 ⟨rfl, hn⟩
  exact ⟨_, hindex, indexStreamSpecs_finds hindex⟩

/-! ## The groups -/

/-- Blocks with distinct tags are told apart by the tags of their items. -/
theorem filter_flatMap {α β κ : Type} [BEq κ] [LawfulBEq κ] {key : α → κ} (tag : β → κ) {f : α → List β} {gs : List α}
    (hn : (gs.map key).Nodup) (hf : ∀ g ∈ gs, ∀ x ∈ f g, tag x = key g) {g : α} (hg : g ∈ gs) :
    (gs.flatMap f).filter (fun x => tag x == key g) = f g := by
  induction gs with
  | nil => cases hg
  | cons g₀ gs ih =>
    obtain ⟨hnot, hn⟩ := List.nodup_cons.1 hn
    have hf₀ := hf g₀ List.mem_cons_self
    have hfs : ∀ g' ∈ gs, ∀ x ∈ f g', tag x = key g' := fun g' hg' => hf g' (List.mem_cons_of_mem _ hg')
    rw [List.flatMap_cons, List.filter_append]
    rcases List.mem_cons.1 hg with rfl | hg
    · -- no later block has the tag of the first one
      have hlater : (gs.flatMap f).filter (fun x => tag x == key g) = [] := by
        refine List.filter_eq_nil_iff.2 fun x hx => ?_
        obtain ⟨g', hg', hx⟩ := List.mem_flatMap.1 hx
        rw [hfs g' hg' x hx, beq_iff_eq]
        exact fun heq => hnot (List.mem_map.2 ⟨g', hg', heq⟩)
      rw [hlater, List.append_nil, List.filter_eq_self]
      exact fun x hx => beq_iff_eq.2 (hf₀ x hx)
    · have hfirst : (f g₀).filter (fun x => tag x == key g) = [] := by
        refine List.filter_eq_nil_iff.2 fun x hx => ?_
        rw [hf₀ x hx, beq_iff_eq]
        exact fun heq => hnot (List.mem_map.2 ⟨g, hg, heq.symm⟩)
      rw [hfirst, List.nil_append, ih hn hfs hg]

/-- The subscriptions of a group. -/
def groupSpecs (o : StreamOptions) (symbols : List Str) (group : ConnectionGroupSpec) : List StreamSpec :=
  symbols.flatMap fun symbol => group.streamTypes.map (streamSpec o group symbol)

theorem connectionGroup_groupSpecs {symbols : List Str} {o : StreamOptions} {group : ConnectionGroupSpec}
    {spec : StreamSpec} (h : spec ∈ groupSpecs o symbols group) : spec.connectionGroup = group.key := by
  obtain ⟨symbol, -, h⟩ := List.mem_flatMap.1 h
  obtain ⟨streamType, -, rfl⟩ := List.mem_map.1 h
  rfl

theorem length_groupSpecs (o : StreamOptions) (symbols : List Str) (group : ConnectionGroupSpec) :
    (groupSpecs o symbols group).length = group.streamTypes.length * symbols.length := by
  simp only [groupSpecs, List.length_flatMap, List.length_map, List.map_const', List.sum_replicate_nat]
  exact Nat.mul_comm _ _

/-- **`group_stream_specs` gives every group its own subscriptions.** -/
theorem groupStreamSpecs_build (h : buildStreamSpecs symbols o = .ok specs) {group : ConnectionGroupSpec}
    (hg : group ∈ connectionGroups) :
    (groupStreamSpecs specs).lookup group.key = some (groupSpecs o symbols group) := by
  rw [buildStreamSpecs] at h
  split at h
  · cases h
  obtain rfl := Except.ok.inj h
  have hkeys : Dict.keys (groupStreamSpecs (connectionGroups.flatMap (groupSpecs o symbols))) =
      connectionGroups.map (·.key) := by
    simp [Dict.keys, groupStreamSpecs, connectionGroupByKey, Function.comp_def]
  refine (Dict.lookup_eq_some_iff (hkeys ▸ group_keys_nodup)).2 ?_
  have hown := filter_flatMap StreamSpec.connectionGroup group_keys_nodup
    (f := groupSpecs o symbols) (fun _ _ _ hspec => connectionGroup_groupSpecs hspec) hg
  simp only [groupStreamSpecs, connectionGroupByKey, List.map_map, List.mem_map, Function.comp_apply, Prod.mk.injEq]
  exact ⟨group, hg, rfl, hown⟩

theorem length_build (h : buildStreamSpecs symbols o = .ok specs) : specs.length = 5 * symbols.length := by
  rw [buildStreamSpecs] at h
  split at h
  · cases h
  obtain rfl := Except.ok.inj h
  change (connectionGroups.flatMap (groupSpecs o symbols)).length = _
  simp only [connectionGroups, List.flatMap_cons, List.flatMap_nil, List.length_append, length_groupSpecs,
    spotMarketGroup, spotDepthGroup, usdmMarkGroup, List.length_cons, List.length_nil]
  omega

theorem checkSpecs_groupSpecs (hsym : Symbols symbols) {group : ConnectionGroupSpec} (hg : group ∈ connectionGroups) :
    checkSpecs group (groupSpecs o symbols group) = .ok () := by
  have htypes : ∀ group ∈ connectionGroups, 0 < group.streamTypes.length := by decide
  have hlen : 0 < (groupSpecs o symbols group).length := by
    rw [length_groupSpecs]
    exact Nat.mul_pos (htypes group hg) (List.length_pos_iff.2 hsym.nonempty)
  have hown : (groupSpecs o symbols group).any (fun spec => spec.connectionGroup ≠ group.key) = false := by
    refine List.any_eq_false.2 fun spec hspec => ?_
    simp [connectionGroup_groupSpecs hspec]
  rw [checkSpecs, if_neg (by simpa using List.length_pos_iff.1 hlen), if_neg (by rw [hown]; exact Bool.false_ne_true)]

/-- The options are supported. -/
structure Supported (o : StreamOptions) : Prop where
  kline : o.klineInterval ∈ supportedKlineIntervals
  depth : o.depthSpeed ∈ supportedDepthSpeeds
  markPrice : o.markPriceSpeed ∈ supportedMarkPriceSpeeds

theorem validateStreamOptions_supported (ho : Supported o) : validateStreamOptions o = .ok () := by
  rw [validateStreamOptions, if_neg (not_not.2 ho.kline), if_neg (not_not.2 ho.depth), if_neg (not_not.2 ho.markPrice)]

/-- What the subscriptions of accepted symbols, their index and their groups are. -/
structure Partitioned (symbols : List Str) (o : StreamOptions) (specs : List StreamSpec) (index : StreamIndex) :
    Prop where
  five : index.length = 5 * symbols.length
  /-- an entry is found with the group and the name that were made of its symbol and its stream type -/
  sound : ∀ key spec, index.lookup key = some spec → ∃ group ∈ connectionGroups, ∃ symbol ∈ symbols,
    ∃ streamType ∈ group.streamTypes, key = (group.key, streamName o symbol streamType) ∧
      spec = streamSpec o group symbol streamType
  /-- no two symbols and types of a group share a name -/
  finds : ∀ group ∈ connectionGroups, ∀ symbol ∈ symbols, ∀ streamType ∈ group.streamTypes,
    index.lookup (group.key, streamName o symbol streamType) = some (streamSpec o group symbol streamType)
  whole : (connectionGroups.flatMap fun group => ((groupStreamSpecs specs).lookup group.key).getD []) = specs
  counts : connectionGroups.map (fun group => ((groupStreamSpecs specs).lookup group.key).map List.length) =
    [some (3 * symbols.length), some (1 * symbols.length), some (1 * symbols.length)]
  accepted : ∀ group ∈ connectionGroups, ∃ own, (groupStreamSpecs specs).lookup group.key = some own ∧
    checkSpecs group own = .ok ()

/-- **Stream names are injective and the groups partition the subscriptions.** -/
theorem streams_partitioned {strip upper : Str → Str} {values : List Str}
    (hsym : normalizeSymbols strip upper values = .ok symbols) (ho : Supported o) :
    ∃ specs index, buildStreamSpecs symbols o = .ok specs ∧ indexStreamSpecs specs = .ok index ∧
      Partitioned symbols o specs index := by
  have hsymbols := normalizeSymbols_symbols hsym
  have hbuild := buildStreamSpecs_supported symbols (validateStreamOptions_supported ho)
  obtain ⟨index, hindex, hfinds⟩ := indexStreamSpecs_build hsymbols hbuild
  refine ⟨_, index, hbuild, hindex, ?_, ?_, ?_, ?_, ?_, ?_⟩
  · obtain ⟨rfl, -⟩ := Dict.collect_eq_ok.1 hindex
    rw [Dict.rename, List.length_map, List.length_map, length_build hbuild]
  · rintro ⟨key, name⟩ spec hspec
    obtain ⟨hmem, rfl, rfl⟩ := (hfinds key name spec).1 hspec
    obtain ⟨group, hg, symbol, hs, streamType, ht, rfl⟩ := (mem_buildStreamSpecs hbuild).1 hmem
    exact ⟨group, hg, symbol, hs, streamType, ht, rfl, rfl⟩
  · intro group hg symbol hs streamType ht
    exact (hfinds _ _ _).2 ⟨(mem_buildStreamSpecs hbuild).2 ⟨group, hg, symbol, hs, streamType, ht, rfl⟩, rfl, rfl⟩
  · refine List.flatMap_congr fun group hg => ?_
    rw [groupStreamSpecs_build hbuild hg]
    rfl
  · have hlen : ∀ group ∈ connectionGroups, ((groupStreamSpecs _).lookup group.key).map List.length =
        some (group.streamTypes.length * symbols.length) := fun group hg => by
      rw [groupStreamSpecs_build hbuild hg, Option.map_some, length_groupSpecs]
    rw [List.map_congr_left hlen]
    rfl
  · intro group hg
    exact ⟨_, groupStreamSpecs_build hbuild hg, checkSpecs_groupSpecs hsymbols hg⟩

theorem streams_partitioned_two : ∃ specs index,
    buildStreamSpecs [str "BTCUSDT", str "ETHUSDT"] { klineInterval := str "1M" } = .ok specs ∧
      indexStreamSpecs specs = .ok index ∧
      Partitioned [str "BTCUSDT", str "ETHUSDT"] { klineInterval := str "1M" } specs index :=
  streams_partitioned (show normalizeSymbols id id [str "BTCUSDT", str "ETHUSDT"] = .ok _ by rfl)
    ⟨by decide, by decide, by decide⟩

end

end BinanceCollector
