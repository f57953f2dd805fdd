import BinanceCollector.Collector.Streams
import BinanceCollector.Collector.Subscriptions
import BinanceCollector.Lib.JsonRecode

/-!
# Subscription requests

The side of `collector/subscriptions.py` that asks: the names of the streams go into one JSON request for a connection.

- `Asks`: a text of ASCII that every decoder reads as the request for these streams.
- `buildStreamSubscribeRequest_asks`: which names are asked for.
- **`requests_cover`**: the requests of the three connections and of the legacy one ask for each stream once.
-/

namespace BinanceCollector

open Text Json

/-! ## Requests -/

/-- What `build_stream_subscribe_request` raises. -/
inductive RequestError where
  /-- `ValueError` with this text -/
  | noStreams (message : Str)
  /-- raised by `json.dumps` -/
  | dumps (e : DumpError)
  deriving DecidableEq

/-- The default style of `json.dumps`, for values without floats. -/
def requestStyle : Style := ⟨true, fun _ => none⟩

/-- `payload` in `build_stream_subscribe_request`. -/
def requestPayload (streamNames : List Str) (requestId : ℤ) : Event :=
  [(str "method", .str (str "SUBSCRIBE")), (str "params", .array (streamNames.map .str)), (str "id", .int requestId)]

/-- `build_stream_subscribe_request`. -/
def buildStreamSubscribeRequest (lim : Limits) (streamNames : List Str) (requestId : ℤ) : Except RequestError Str :=
  if streamNames.isEmpty then .error (.noStreams (str "구독할 스트림을 한 개 이상 지정해야 합니다."))
  else
    match dumps requestStyle lim (.object (requestPayload streamNames requestId)) with
    | .error e => .error (.dumps e)
    | .ok request => .ok request

/-- `agg_trade_streams`. -/
def aggTradeStreams (symbols : List Str) : List Str := symbols.map fun symbol => lower symbol ++ str "@aggTrade"

/-- `build_subscribe_request`. -/
def buildSubscribeRequest (lim : Limits) (symbols : List Str) (requestId : ℤ) : Except RequestError Str :=
  buildStreamSubscribeRequest lim (aggTradeStreams symbols) requestId

/-! ## What a request says -/

variable {lim : Limits} {streamNames : List Str} {requestId : ℤ} {request : Str}

/-- The request is printable ASCII, and every decoder reads it as the request for these streams. -/
structure Asks (lim : Limits) (request : Str) (streamNames : List Str) (requestId : ℤ) : Prop where
  printable : ∀ c ∈ request, 0x20 ≤ c.val ∧ c.val < 0x7F
  read : ∀ {ω : Type} (h : Hooks ω), h.Keeps → ∀ r : Limits, lim.depth ≤ r.depth → lim.digits ≤ r.digits →
    loads h r request = .ok (.object (requestPayload streamNames requestId))

theorem exact_requestPayload (streamNames : List Str) (requestId : ℤ) :
    Exact (.object (requestPayload streamNames requestId)) := by
  refine .object (by simp [requestPayload, Dict.keys]; decide) fun p hp => ?_
  simp only [requestPayload, List.mem_cons, List.not_mem_nil, or_false] at hp
  rcases hp with rfl | rfl | rfl
  · exact .str _
  · exact .array (List.forall_mem_map.2 fun _ _ => .str _)
  · exact .int _

theorem fits_requestPayload (hdepth : 2 ≤ lim.depth) (hdigits : (decimal requestId.natAbs).length ≤ lim.digits) :
    Fits requestStyle lim.digits lim.depth (.object (requestPayload streamNames requestId)) := by
  obtain ⟨d, hd⟩ := Nat.exists_eq_add_of_le' hdepth
  rw [hd]
  refine fits_object.2 fun p hp => ?_
  simp only [requestPayload, List.mem_cons, List.not_mem_nil, or_false] at hp
  rcases hp with rfl | rfl | rfl
  · exact fits_str _
  · exact fits_array (List.forall_mem_map.2 fun _ _ => fits_str _)
  · exact fits_int hdigits

/-- A character of ASCII. -/
def isAscii (c : CodePoint) : Bool := decide (c.val < 0x80)

theorem unpaired_of_ascii {s : Str} (h : ∀ c ∈ s, isAscii c = true) : Unpaired s := by
  refine (List.pairwise_of_forall_mem_list fun c hc d _ hpair => ?_).isChain
  have hlow : c.val < 0x80 := of_decide_eq_true (h c hc)
  have hhigh : 0xD800 ≤ c.val ∧ c.val ≤ 0xDBFF := of_decide_eq_true hpair.1
  omega

theorem ascii_words : ∀ name ∈ [str "method", str "params", str "id", str "SUBSCRIBE"], name.all isAscii = true := by
  decide

theorem texts_requestPayload (hnames : ∀ name ∈ streamNames, Unpaired name) :
    Json.Texts Unpaired (.object (requestPayload streamNames requestId)) := by
  have hplain : ∀ name ∈ [str "method", str "params", str "id", str "SUBSCRIBE"], Unpaired name := fun name hname =>
    unpaired_of_ascii (List.all_eq_true.1 (ascii_words name hname))
  refine .object (fun p hp => ?_) fun p hp => ?_
  · simp only [requestPayload, List.mem_cons, List.not_mem_nil, or_false] at hp
    rcases hp with rfl | rfl | rfl <;> exact hplain _ (by simp)
  · simp only [requestPayload, List.mem_cons, List.not_mem_nil, or_false] at hp
    rcases hp with rfl | rfl | rfl
    · exact .str (hplain _ (by simp))
    · exact .array (List.forall_mem_map.2 fun name hname => .str (hnames name hname))
    · exact .int _

/-- **A request asks for the streams it was built for**, and only an empty list of them is refused. -/
theorem buildStreamSubscribeRequest_asks (hdepth : 2 ≤ lim.depth)
    (hdigits : (decimal requestId.natAbs).length ≤ lim.digits) (hnames : ∀ name ∈ streamNames, Unpaired name)
    (hne : streamNames ≠ []) :
    ∃ request, buildStreamSubscribeRequest lim streamNames requestId = .ok request ∧
      Asks lim request streamNames requestId := by
  have hfits : Fits requestStyle lim.digits lim.depth (.object (requestPayload streamNames requestId)) :=
    fits_requestPayload hdepth hdigits
  obtain ⟨request, hrequest⟩ := hfits
  have hexact := exact_requestPayload streamNames requestId
  have htexts : requestStyle.ascii = true → Json.Texts Unpaired (.object (requestPayload streamNames requestId)) :=
    fun _ => texts_requestPayload hnames
  have hdumps : dumps requestStyle lim (.object (requestPayload streamNames requestId)) = .ok request := hrequest
  refine ⟨request, ?_, fun c hc => ?_, fun h hk r hd hn => loads_dumps hk hexact htexts hd hn hdumps⟩
  · rw [buildStreamSubscribeRequest, if_neg (by simpa using hne), hdumps]
  · obtain ⟨hlow, hhigh⟩ := dumps_visible hexact htexts hdumps c hc
    exact ⟨hlow, hhigh rfl⟩

/-! ## Names of streams -/

variable {symbols : List Str} {o : StreamOptions}

theorem lowerCode_ascii {c : CodePoint} (h : isSymbolCode c = true) : isAscii (lowerCode c) = true := by
  simp only [isSymbolCode, Bool.or_eq_true, Bool.and_eq_true, decide_eq_true_eq, Fin.le_def] at h
  simp only [isAscii, lowerCode, Fin.le_def, decide_eq_true_eq]
  split <;> simp_all [code, Fin.val_add] <;> omega

theorem lower_ascii {symbol : Str} (h : isSymbol symbol = true) : ∀ c ∈ lower symbol, isAscii c = true := by
  simp only [isSymbol, Bool.and_eq_true, List.all_eq_true] at h
  exact List.forall_mem_map.2 fun c hc => lowerCode_ascii (h.2 c hc)

theorem ascii_options : (supportedKlineIntervals ++ supportedDepthSpeeds ++ supportedMarkPriceSpeeds).all
    (·.all isAscii) = true := by decide

theorem streamSuffix_ascii (ho : Supported o) (t : StreamType) : ∀ c ∈ streamSuffix o t, isAscii c = true := by
  have hoption : ∀ option ∈ supportedKlineIntervals ++ supportedDepthSpeeds ++ supportedMarkPriceSpeeds,
      ∀ c ∈ option, isAscii c = true := fun option hoption =>
    List.all_eq_true.1 (List.all_eq_true.1 ascii_options option hoption)
  have hfixed : ∀ s ∈ [str "aggTrade", str "depth@", str "bookTicker", str "kline_", str "markPrice@"],
      s.all isAscii = true := by decide
  have hword : ∀ s ∈ [str "aggTrade", str "depth@", str "bookTicker", str "kline_", str "markPrice@"],
      ∀ c ∈ s, isAscii c = true := fun s hs => List.all_eq_true.1 (hfixed s hs)
  cases t with
  | aggTrade => exact hword (str "aggTrade") (by simp)
  | bookTicker => exact hword (str "bookTicker") (by simp)
  | depth => exact List.forall_mem_append.2 ⟨hword _ (by simp), hoption _ (by simp [ho.depth])⟩
  | kline => exact List.forall_mem_append.2 ⟨hword _ (by simp), hoption _ (by simp [ho.kline])⟩
  | markPrice => exact List.forall_mem_append.2 ⟨hword _ (by simp), hoption _ (by simp [ho.markPrice])⟩

theorem streamName_unpaired (ho : Supported o) {symbol : Str} (h : isSymbol symbol = true) (t : StreamType) :
    Unpaired (streamName o symbol t) :=
  unpaired_of_ascii (List.forall_mem_append.2
    ⟨lower_ascii h, List.forall_mem_cons.2 ⟨by decide, streamSuffix_ascii ho t⟩⟩)

/-- The legacy client asks for the streams that `_stream_name` names. -/
theorem aggTradeStreams_eq (o : StreamOptions) (symbols : List Str) :
    aggTradeStreams symbols = symbols.map fun symbol => streamName o symbol .aggTrade := rfl

/-- The names of the streams of a group. -/
def groupNames (o : StreamOptions) (symbols : List Str) (group : ConnectionGroupSpec) : List Str :=
  (groupSpecs o symbols group).map (·.streamName)

theorem mem_groupNames {group : ConnectionGroupSpec} {name : Str} : name ∈ groupNames o symbols group ↔
    ∃ symbol ∈ symbols, ∃ t ∈ group.streamTypes, streamName o symbol t = name := by
  simp only [groupNames, groupSpecs, List.map_flatMap, List.map_map, List.mem_flatMap, List.mem_map, streamSpec,
    Function.comp_apply]

theorem groupNames_nodup (hsym : Symbols symbols) {group : ConnectionGroupSpec} (hg : group ∈ connectionGroups) :
    (groupNames o symbols group).Nodup := by
  simp only [groupNames, groupSpecs, List.map_flatMap, List.map_map]
  refine List.nodup_flatMap.2 ⟨fun symbol hs => ?_, ?_⟩
  · refine (List.nodup_map_iff_inj_on (streamTypes_nodup group hg)).2 fun t _ u _ htu => ?_
    exact (streamName_inj (hsym.isSymbol _ hs) (hsym.isSymbol _ hs) htu).2
  · refine hsym.nodup.pairwise_of_forall_ne fun s hs s' hs' hne => ?_
    refine List.disjoint_left.2 fun name hname hname' => hne ?_
    obtain ⟨t, -, rfl⟩ := List.mem_map.1 hname
    obtain ⟨t', -, ht'⟩ := List.mem_map.1 hname'
    exact (streamName_inj (hsym.isSymbol _ hs) (hsym.isSymbol _ hs') ht'.symm).1

/-! ## Requests of the clients -/

/-- What has been built is a request that asks for each of these streams once, and for nothing else. -/
def Subscribes (lim : Limits) (built : Except RequestError Str) (names : List Str) : Prop :=
  names.Nodup ∧ ∃ request, built = .ok request ∧ Asks lim request names subscriptionRequestId

theorem subscribes_names (hdepth : 2 ≤ lim.depth) (hdigits : 1 ≤ lim.digits) {names : List Str}
    (hn : names.Nodup) (hne : names ≠ []) (hnames : ∀ name ∈ names, Unpaired name) :
    Subscribes lim (buildStreamSubscribeRequest lim names subscriptionRequestId) names := by
  have hdigit : (decimal subscriptionRequestId.natAbs).length = 1 := by decide
  exact ⟨hn, buildStreamSubscribeRequest_asks hdepth (hdigit ▸ hdigits) hnames hne⟩

/-- **The requests of the connections** ask for every stream of every accepted symbol once: each connection for its own
streams, in the order of its specifications, and the legacy client for the trades. -/
theorem requests_cover {strip upper : Str → Str} {values : List Str}
    (hsym : normalizeSymbols strip upper values = .ok symbols) (ho : Supported o) (hdepth : 2 ≤ lim.depth)
    (hdigits : 1 ≤ lim.digits) :
    ∃ specs, buildStreamSpecs symbols o = .ok specs ∧
      (∀ group ∈ connectionGroups, ∃ own, (groupStreamSpecs specs).lookup group.key = some own ∧
        Subscribes lim (buildStreamSubscribeRequest lim (own.map (·.streamName)) subscriptionRequestId)
          (own.map (·.streamName)) ∧
        ∀ name, name ∈ own.map (·.streamName) ↔
          ∃ symbol ∈ symbols, ∃ t ∈ group.streamTypes, streamName o symbol t = name) ∧
      Subscribes lim (buildSubscribeRequest lim symbols subscriptionRequestId) (aggTradeStreams symbols) ∧
      ∀ name, name ∈ aggTradeStreams symbols ↔ ∃ symbol ∈ symbols, streamName o symbol .aggTrade = name := by
  have hsymbols := normalizeSymbols_symbols hsym
  have hbuild := buildStreamSpecs_supported symbols (validateStreamOptions_supported ho)
  refine ⟨_, hbuild, fun group hg => ⟨_, groupStreamSpecs_build hbuild hg, ?_, fun name => mem_groupNames⟩, ?_, ?_⟩
  · refine subscribes_names hdepth hdigits (groupNames_nodup hsymbols hg) ?_ fun name hname => ?_
    · have htypes : ∀ group ∈ connectionGroups, 0 < group.streamTypes.length := by decide
      have hlen : 0 < (groupSpecs o symbols group).length := by
        rw [length_groupSpecs]
        exact Nat.mul_pos (htypes group hg) (List.length_pos_iff.2 hsymbols.nonempty)
      simpa using List.length_pos_iff.1 hlen
    · obtain ⟨symbol, hs, t, -, rfl⟩ := mem_groupNames.1 hname
      exact streamName_unpaired ho (hsymbols.isSymbol _ hs) t
  · rw [buildSubscribeRequest, aggTradeStreams_eq o]
    refine subscribes_names hdepth hdigits ?_ (by simpa using hsymbols.nonempty) ?_
    · refine (List.nodup_map_iff_inj_on hsymbols.nodup).2 fun s hs s' hs' h => ?_
      exact (streamName_inj (hsymbols.isSymbol _ hs) (hsymbols.isSymbol _ hs') h).1
    · exact List.forall_mem_map.2 fun symbol hs => streamName_unpaired ho (hsymbols.isSymbol _ hs) _
  · intro name
    rw [aggTradeStreams_eq o, List.mem_map]

theorem requests_cover_two :
    Subscribes ⟨2, 1⟩ (buildSubscribeRequest ⟨2, 1⟩ [str "BTCUSDT", str "ETHUSDT"] subscriptionRequestId)
      (aggTradeStreams [str "BTCUSDT", str "ETHUSDT"]) := by
  obtain ⟨-, -, -, hlegacy, -⟩ := requests_cover
    (show normalizeSymbols id id [str "BTCUSDT", str "ETHUSDT"] = .ok _ by rfl)
    (show Supported {} from ⟨by decide, by decide, by decide⟩) (show 2 ≤ (⟨2, 1⟩ : Limits).depth from Nat.le_refl 2)
    (Nat.le_refl 1)
  exact hlegacy

end BinanceCollector
