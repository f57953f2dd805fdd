import BinanceCollector.Lib.Dict
import BinanceCollector.MongoConfig
import BinanceCollector.StorageRoutes

/-!
# The names of the collections

`MultiMongoCollectionConfig` and `load_multi_mongo_collection_config` of `config.py`. A `Mapping[StorageRoute, str]` is a
function: nothing depends on its order.

- `foldl_next`: the variables that are missing or blank are named in the order of the table.
- `loadMultiMongoCollectionConfig_iff`: the variables are accepted exactly when every route has a name of its own.
-/

namespace BinanceCollector

open Text

/-- `MULTI_COLLECTION_ENV_BY_ROUTE`. -/
def multiCollectionEnvByRoute : List (StorageRoute × Str) :=
  [(.aggTrade, str "DATALAKE_AGG_TRADES_COLLECTION_NAME"),
    (.orderBookDepth, str "DATALAKE_ORDER_BOOK_DEPTH_COLLECTION_NAME"),
    (.bookTicker, str "DATALAKE_BOOK_TICKERS_COLLECTION_NAME"),
    (.kline, str "DATALAKE_KLINES_COLLECTION_NAME"),
    (.markPrice, str "DATALAKE_MARK_PRICES_COLLECTION_NAME"),
    (.control, str "DATALAKE_COLLECTOR_CONTROL_COLLECTION_NAME")]

/-- `MultiMongoCollectionConfig`, as `__post_init__` leaves it. -/
structure MultiMongoCollectionConfig where
  collectionNameByRoute : StorageRoute → Str
  stripped : ∀ route, strip (collectionNameByRoute route) = collectionNameByRoute route
  nonempty : ∀ route, collectionNameByRoute route ≠ []
  distinct : Function.Injective collectionNameByRoute

theorem mem_storageRoutes (route : StorageRoute) : route ∈ storageRoutes := by cases route <;> decide

/-- The names of all routes are distinct. -/
theorem injective_of_nodup {names : StorageRoute → Str} (h : (storageRoutes.map names).Nodup) :
    Function.Injective names := fun route route' heq =>
  List.inj_on_of_nodup_map h (mem_storageRoutes route) (mem_storageRoutes route') heq

/-- `MultiMongoCollectionConfig.__post_init__`; the text of its `ConfigurationError`. -/
def MultiMongoCollectionConfig.postInit (collectionNameByRoute : StorageRoute → Option Str) :
    Except Str MultiMongoCollectionConfig :=
  let names := fun route => (collectionNameByRoute route).map strip
  if hroutes : ∀ route, (names route).isSome = true then
    let name := fun route => (names route).get (hroutes route)
    if hblank : ∃ route, name route = [] then .error (str "다중 스트림 컬렉션 이름은 비어 있을 수 없습니다.")
    else if hdistinct : (storageRoutes.map name).Nodup then
      .ok {
        collectionNameByRoute := name
        stripped := fun route => by
          obtain ⟨raw, -, hraw⟩ := Option.map_eq_some_iff.1 (Option.some_get (hroutes route)).symm
          show strip ((names route).get _) = (names route).get _
          rw [← hraw, strip_strip]
        nonempty := not_exists.1 hblank
        distinct := injective_of_nodup hdistinct }
    else .error (str "다중 스트림의 물리 컬렉션 이름은 서로 달라야 합니다.")
  else .error (str "다중 스트림의 5개 데이터 경로와 제어 경로 설정이 필요합니다.")

/-- The local variables of the loop of `load_multi_mongo_collection_config`. -/
structure CollectionVariables where
  names : List (StorageRoute × Str) := []
  missing : List Str := []
  blank : List Str := []

/-- One turn of the loop. -/
def CollectionVariables.next (source : Environ) (vars : CollectionVariables) (entry : StorageRoute × Str) :
    CollectionVariables :=
  match source entry.2 with
  | none => { vars with missing := vars.missing ++ [entry.2] }
  | some rawValue =>
    if (strip rawValue).isEmpty then { vars with blank := vars.blank ++ [entry.2] }
    else { vars with names := Dict.set entry.1 (strip rawValue) vars.names }

/-- `load_multi_mongo_collection_config`; the text of its `ConfigurationError`. -/
def loadMultiMongoCollectionConfig (source : Environ) : Except Str MultiMongoCollectionConfig :=
  let vars := multiCollectionEnvByRoute.foldl (CollectionVariables.next source) {}
  if vars.missing ≠ [] then .error (str "필수 다중 스트림 컬렉션 환경변수가 없습니다: " ++ joined (str ", ") vars.missing)
  else if vars.blank ≠ [] then
    .error (str "다중 스트림 컬렉션 이름은 비어 있을 수 없습니다: " ++ joined (str ", ") vars.blank)
  else MultiMongoCollectionConfig.postInit fun route => vars.names.lookup route

/-! ## What the variables name -/

/-- The variables name the collections so. -/
structure Environ.Names (source : Environ) (names : StorageRoute → Str) : Prop where
  named : ∀ entry ∈ multiCollectionEnvByRoute, ∃ raw, source entry.2 = some raw ∧ strip raw = names entry.1
  nonempty : ∀ route, names route ≠ []
  distinct : Function.Injective names

/-- The name that a variable gives to a route. -/
def collectionName (source : Environ) (entry : StorageRoute × Str) : Option Str :=
  (source entry.2).bind fun raw => if (strip raw).isEmpty then none else some (strip raw)

/-- What the loop has when it is done with these entries. -/
theorem foldl_next (source : Environ) (entries : List (StorageRoute × Str)) : ∀ vars : CollectionVariables,
    (Dict.keys (vars.names ++ entries)).Nodup →
    entries.foldl (CollectionVariables.next source) vars =
      { names := vars.names ++ entries.filterMap fun entry => (collectionName source entry).map fun name => (entry.1, name)
        missing := vars.missing ++ (entries.filter fun entry => (source entry.2).isNone).map (·.2)
        blank := vars.blank ++ (entries.filter fun entry =>
          (source entry.2).isSome && (collectionName source entry).isNone).map (·.2) } := by
  induction entries with
  | nil =>
    intro vars _
    simp
  | cons entry entries ih =>
    intro vars hn
    have hkeys : Dict.keys (vars.names ++ entry :: entries) =
        Dict.keys vars.names ++ entry.1 :: Dict.keys entries := by simp [Dict.keys]
    rw [hkeys, List.nodup_middle, List.nodup_cons, List.mem_append, not_or] at hn
    obtain ⟨⟨hfresh, hlater⟩, hn⟩ := hn
    have hrest : (Dict.keys (vars.names ++ entries)).Nodup := by rwa [Dict.keys, List.map_append]
    rw [List.foldl_cons]
    cases hraw : source entry.2 with
    | none =>
      have hname : collectionName source entry = none := by rw [collectionName, hraw]; rfl
      have hnext : vars.next source entry = { vars with missing := vars.missing ++ [entry.2] } := by
        rw [CollectionVariables.next, hraw]
      rw [hnext, ih { vars with missing := vars.missing ++ [entry.2] } hrest]
      simp [hraw, hname]
    | some raw =>
      by_cases hblank : (strip raw).isEmpty = true
      · have hname : collectionName source entry = none := by
          rw [collectionName, hraw, Option.bind_some, if_pos hblank]
        have hnext : vars.next source entry = { vars with blank := vars.blank ++ [entry.2] } := by
          rw [CollectionVariables.next, hraw]
          exact if_pos hblank
        rw [hnext, ih { vars with blank := vars.blank ++ [entry.2] } hrest]
        simp [hraw, hname]
      · have hname : collectionName source entry = some (strip raw) := by
          rw [collectionName, hraw, Option.bind_some, if_neg hblank]
        have hnext : vars.next source entry = { vars with names := vars.names ++ [(entry.1, strip raw)] } := by
          rw [CollectionVariables.next, hraw, ← Dict.set_of_notMem hfresh]
          exact if_neg hblank
        have hadded : (Dict.keys ((vars.names ++ [(entry.1, strip raw)]) ++ entries)).Nodup := by
          rw [List.append_assoc, List.singleton_append, Dict.keys, List.map_append, List.map_cons, List.nodup_middle,
            List.nodup_cons, List.mem_append, not_or]
          exact ⟨⟨hfresh, hlater⟩, hn⟩
        rw [hnext, ih _ hadded]
        simp [hraw, hname]


/-- The loop is run over the routes. -/
theorem multiCollectionEnvByRoute_keys : Dict.keys multiCollectionEnvByRoute = storageRoutes := rfl

theorem storageRoutes_nodup : storageRoutes.Nodup := by decide

/-- Every route has a variable. -/
theorem exists_environmentName (route : StorageRoute) : ∃ entry ∈ multiCollectionEnvByRoute, entry.1 = route := by
  have hmem := mem_storageRoutes route
  rw [← multiCollectionEnvByRoute_keys] at hmem
  exact List.mem_map.1 hmem

theorem MultiMongoCollectionConfig.postInit_names {given : StorageRoute → Option Str}
    {config : MultiMongoCollectionConfig} (h : MultiMongoCollectionConfig.postInit given = .ok config)
    (route : StorageRoute) : ∃ raw, given route = some raw ∧ config.collectionNameByRoute route = strip raw := by
  simp only [MultiMongoCollectionConfig.postInit] at h
  split at h
  · rename_i hroutes
    split at h
    · cases h
    split at h
    · obtain rfl := Except.ok.inj h
      obtain ⟨raw, hgiven, hraw⟩ := Option.map_eq_some_iff.1 (Option.some_get (hroutes route)).symm
      exact ⟨raw, hgiven, hraw.symm⟩
    · cases h
  · cases h

theorem MultiMongoCollectionConfig.postInit_of_names {given : StorageRoute → Option Str} {names : StorageRoute → Str}
    (hgiven : ∀ route, ∃ raw, given route = some raw ∧ strip raw = names route) (hnonempty : ∀ route, names route ≠ [])
    (hdistinct : Function.Injective names) :
    ∃ config, MultiMongoCollectionConfig.postInit given = .ok config ∧ config.collectionNameByRoute = names := by
  have hnames : ∀ route, (given route).map strip = some (names route) := by
    intro route
    obtain ⟨raw, hraw, hstrip⟩ := hgiven route
    rw [hraw, Option.map_some, hstrip]
  have hroutes : ∀ route, ((given route).map strip).isSome = true := fun route => by rw [hnames]; rfl
  have hget : (fun route => ((given route).map strip).get (hroutes route)) = names := by
    funext route
    exact Option.get_of_eq_some _ (hnames route)
  have hblank : ¬∃ route, ((given route).map strip).get (hroutes route) = [] := by
    rintro ⟨route, hnil⟩
    exact hnonempty route ((congrFun hget route).symm.trans hnil)
  have hnodup : (storageRoutes.map fun route => ((given route).map strip).get (hroutes route)).Nodup := by
    rw [hget]
    exact storageRoutes_nodup.map hdistinct
  simp only [MultiMongoCollectionConfig.postInit]
  rw [dif_pos hroutes, dif_neg hblank, dif_pos hnodup]
  exact ⟨_, rfl, hget⟩

/-- **The variables are accepted exactly when every route has a name of its own.** -/
theorem loadMultiMongoCollectionConfig_iff (source : Environ) (names : StorageRoute → Str) :
    (∃ config, loadMultiMongoCollectionConfig source = .ok config ∧ config.collectionNameByRoute = names) ↔
      source.Names names := by
  have hkeys : (Dict.keys multiCollectionEnvByRoute).Nodup := storageRoutes_nodup
  have hlookup {entry : StorageRoute × Str} (hentry : entry ∈ multiCollectionEnvByRoute) :=
    Dict.lookup_filterMap (collectionName source) hkeys hentry
  simp only [loadMultiMongoCollectionConfig]
  rw [foldl_next source _ {} (by rwa [List.nil_append])]
  simp only [List.nil_append]
  constructor
  · rintro ⟨config, h, rfl⟩
    split at h
    · cases h
    split at h
    · cases h
    refine ⟨fun entry hentry => ?_, config.nonempty, config.distinct⟩
    obtain ⟨name, hname, hconfig⟩ := MultiMongoCollectionConfig.postInit_names h entry.1
    rw [hlookup hentry] at hname
    obtain ⟨raw, hraw, hname⟩ := Option.bind_eq_some_iff.1 hname
    split at hname
    · cases hname
    · refine ⟨raw, hraw, ?_⟩
      rw [hconfig, ← Option.some.inj hname, strip_strip]
  · rintro ⟨hnamed, hnonempty, hdistinct⟩
    have hname : ∀ entry ∈ multiCollectionEnvByRoute, collectionName source entry = some (names entry.1) := by
      intro entry hentry
      obtain ⟨raw, hraw, hstrip⟩ := hnamed entry hentry
      rw [collectionName, hraw, Option.bind_some, hstrip, if_neg (by simpa using hnonempty entry.1)]
    have hmissing : multiCollectionEnvByRoute.filter (fun entry => (source entry.2).isNone) = [] := by
      refine List.filter_eq_nil_iff.2 fun entry hentry => ?_
      obtain ⟨raw, hraw, -⟩ := hnamed entry hentry
      rw [hraw]
      exact Bool.false_ne_true
    have hblank : multiCollectionEnvByRoute.filter (fun entry =>
        (source entry.2).isSome && (collectionName source entry).isNone) = [] := by
      refine List.filter_eq_nil_iff.2 fun entry hentry => ?_
      rw [hname entry hentry, Option.isNone_some, Bool.and_false]
      exact Bool.false_ne_true
    rw [hmissing, hblank, if_neg (by simp), if_neg (by simp)]
    refine MultiMongoCollectionConfig.postInit_of_names (fun route => ?_) hnonempty hdistinct
    obtain ⟨entry, hentry, rfl⟩ := exists_environmentName route
    obtain ⟨raw, hraw, hstrip⟩ := hnamed entry hentry
    refine ⟨names entry.1, by rw [hlookup hentry, hname entry hentry], ?_⟩
    rw [← hstrip, strip_strip]

end BinanceCollector
