import Mathlib.Data.Rat.Defs
import BinanceCollector.CollectionNames
import BinanceCollector.Collector.ProductCatalog
import BinanceCollector.Monitoring.MultiStats

/-!
# Starting the multi-stream profile

What `main()` of `run_mongodb.py` does for the multi-stream profile until the runtime runs, and the constructors that
the runtime calls before it opens the output: `config.py`, `build_multi_stream_runtime` and the constructors of the
statistics, of the output and of the collector. Each of them checks what it is given once more.

- `MultiStreamConfig` is what its `__post_init__` accepts, with what it has checked.
- `constructMultiStream_accepts`: what the configuration accepts, the constructors accept.
- `starts_consistent`: the profile starts exactly when what it is given is in order, and its parts agree.
-/

namespace BinanceCollector

open Text

/-! ## The command line -/

/-- `MultiStreamConfig`, as `__post_init__` leaves it. -/
structure MultiStreamConfig where
  symbols : List Str
  options : StreamOptions
  validateSymbols : Bool
  normalized : Symbols symbols
  supported : validateStreamOptions options = .ok ()

/-- `MultiStreamConfig.__post_init__`; the text of its `ValueError`. -/
def MultiStreamConfig.postInit (upper : Str → Str) (symbols : List Str) (options : StreamOptions)
    (validateSymbols : Bool) : Except Str MultiStreamConfig :=
  match hsymbols : normalizeSymbols strip upper symbols with
  | .error e => .error e
  | .ok symbols =>
    match hoptions : validateStreamOptions options with
    | .error e => .error e
    | .ok () =>
      .ok { symbols, options, validateSymbols, normalized := normalizeSymbols_symbols hsymbols, supported := hoptions }

/-- What `argparse` gives for the multi-stream profile. -/
structure Namespace where
  symbols : List Str
  options : StreamOptions := {}
  skipSymbolValidation : Bool := false

/-- `MongoRunnerArguments` of the multi-stream profile. -/
structure MongoRunnerArguments where
  symbols : List Str
  options : StreamOptions
  validateSymbols : Bool

/-- `parse_mongodb_args` from the namespace on; the text that `parser.error` is called with. -/
def parseMongodbArgs (upper : Str → Str) (given : Namespace) : Except Str MongoRunnerArguments :=
  match normalizeSymbols strip upper given.symbols with
  | .error e => .error e
  | .ok symbols =>
    match MultiStreamConfig.postInit upper symbols given.options (!given.skipSymbolValidation) with
    | .error e => .error e
    | .ok config =>
      .ok { symbols := config.symbols, options := config.options, validateSymbols := config.validateSymbols }

/-- `CollectorConfig`. -/
structure CollectorConfig where
  symbols : List Str
  mode : Str
  output : Option Str

/-- `validate_terminal_config`; the text of its `ConfigurationError`. -/
def validateTerminalConfig (config : CollectorConfig) (stdoutIsatty stderrIsatty : Bool) : Except Str Unit :=
  if config.mode ≠ str "tui" then .ok ()
  else if !stderrIsatty then
    .error (str "TUI 모드는 stderr가 터미널일 때만 사용할 수 있습니다. --mode json을 사용해 주세요.")
  else if config.output = some (str "stdout") ∧ stdoutIsatty then
    .error (str "TUI와 JSON을 같은 터미널에 표시할 수 없습니다. stdout을 파이프로 연결하거나 --output을 생략해 주세요.")
  else .ok ()

/-! ## Constructors -/

/-- The keyword arguments of `MongoMultiCollectionOutput.__init__` that it checks. -/
structure OutputOptions where
  routes : List StorageRoute := storageRoutes
  flushInterval : ℚ := 1
  bufferMaxDocuments : ℤ := 10000
  bufferMaxBytes : ℤ := 64 * 1024 * 1024
  batchMaxDocuments : ℤ := 1000
  batchMaxBytes : ℤ := 4 * 1024 * 1024
  maxConcurrentWrites : ℤ := 3
  operationTimeout : ℚ := 5
  shutdownTimeout : ℚ := 10

/-- The limits that have to be positive, by their names. -/
def OutputOptions.limits (o : OutputOptions) : List (Str × ℚ) :=
  [(str "flush_interval", o.flushInterval), (str "buffer_max_documents", o.bufferMaxDocuments),
    (str "buffer_max_bytes", o.bufferMaxBytes), (str "batch_max_documents", o.batchMaxDocuments),
    (str "batch_max_bytes", o.batchMaxBytes), (str "max_concurrent_writes", o.maxConcurrentWrites),
    (str "operation_timeout", o.operationTimeout), (str "shutdown_timeout", o.shutdownTimeout)]

/-- What `MongoMultiCollectionOutput.__init__` keeps of its arguments. -/
structure MultiCollectionOutput where
  config : MongoConfig
  routes : List StorageRoute
  collectionNameByRoute : List (StorageRoute × Str)
  flushInterval : ℚ
  bufferMaxDocuments : ℤ
  bufferMaxBytes : ℤ
  batchMaxDocuments : ℤ
  batchMaxBytes : ℤ
  maxConcurrentWrites : ℤ
  operationTimeout : ℚ
  shutdownTimeout : ℚ

/-- The values of routes, in order. -/
def sortedValues (routes : List StorageRoute) : List Str := (routes.map (·.value)).mergeSort (· ≤ ·)

/-- `MongoMultiCollectionOutput.__init__`; the text of its `ValueError`. -/
def MultiCollectionOutput.init (config : MongoConfig) (collectionNameMap : StorageRoute → Option Str)
    (o : OutputOptions) : Except Str MultiCollectionOutput :=
  match o.limits.find? (·.2 ≤ 0) with
  | some limit => .error (limit.1 ++ str "은 0보다 커야 합니다.")
  | none =>
    let activeRoutes := o.routes.eraseDups
    let unknownRoutes := storageRoutes.filter fun route => (collectionNameMap route).isSome && route ∉ activeRoutes
    let missingRoutes := activeRoutes.filter fun route => (collectionNameMap route).isNone
    let physicalNames := activeRoutes.map fun route => (route, strip ((collectionNameMap route).getD []))
    if storageRoutes.any (· ∉ activeRoutes) then .error (str "다중 스트림의 5개 데이터 경로와 제어 경로가 필요합니다.")
    else if unknownRoutes ≠ [] then
      .error (str "알 수 없는 논리 저장 경로입니다: " ++ joined (str ", ") (sortedValues unknownRoutes))
    else if missingRoutes ≠ [] then
      .error (str "물리 컬렉션 이름이 없는 논리 저장 경로입니다: " ++ joined (str ", ") (sortedValues missingRoutes))
    else if physicalNames.any fun entry => (strip entry.2).isEmpty then
      .error (str "MongoDB 물리 컬렉션 이름은 비어 있을 수 없습니다.")
    else if ¬(physicalNames.map (·.2)).Nodup then
      .error (str "서로 다른 이벤트 종류가 같은 물리 컬렉션을 사용할 수 없습니다.")
    else
      .ok {
        config
        routes := activeRoutes
        collectionNameByRoute := physicalNames
        flushInterval := o.flushInterval
        bufferMaxDocuments := o.bufferMaxDocuments
        bufferMaxBytes := o.bufferMaxBytes
        batchMaxDocuments := min o.batchMaxDocuments o.bufferMaxDocuments
        batchMaxBytes := min o.batchMaxBytes o.bufferMaxBytes
        maxConcurrentWrites := o.maxConcurrentWrites
        operationTimeout := o.operationTimeout
        shutdownTimeout := o.shutdownTimeout }

/-- `_collection_name_by_route` of `MultiStreamStatsCollector.__init__`. -/
def statsCollectionNames (configuredNames : StorageRoute → Option Str) (route : StorageRoute) : Str :=
  (configuredNames route).getD route.value

/-- What `build_multi_stream_runtime` returns, with the names that the statistics show. -/
structure MultiStreamRuntime where
  specs : List StreamSpec
  stats : MultiStreamStatsCollector
  shownNames : StorageRoute → Str
  output : MultiCollectionOutput

/-- `build_multi_stream_runtime`, at this reading of the clock; the text of a `ValueError`. -/
def buildMultiStreamRuntime (upper : Str → Str) (config : MultiStreamConfig) (mongoConfig : MongoConfig)
    (collectionConfig : MultiMongoCollectionConfig) (outputOptions : OutputOptions) (startedAt : ℚ) :
    Except Str MultiStreamRuntime :=
  let collectionNames := fun route => some (collectionConfig.collectionNameByRoute route)
  match buildStreamSpecs config.symbols config.options with
  | .error e => .error e
  | .ok specs =>
    match MultiStreamStatsCollector.create strip upper config.symbols startedAt with
    | .error e => .error e
    | .ok stats =>
      match MultiCollectionOutput.init mongoConfig collectionNames outputOptions with
      | .error e => .error e
      | .ok output => .ok { specs, stats, shownNames := statsCollectionNames collectionNames, output }

/-- The connections of `MultiStreamCollector.__init__`; the text of a `ValueError`. -/
def buildConnections (specs : List StreamSpec) : Except Str (List (ConnectionGroupSpec × List StreamSpec)) :=
  connectionGroupByKey.mapM fun entry =>
    let own := ((groupStreamSpecs specs).lookup entry.1).getD []
    match checkSpecs entry.2 own with
    | .error e => .error e
    | .ok () => .ok (entry.2, own)

/-! ## The start -/

/-- Why the profile does not start. -/
inductive StartError where
  /-- `parser.error` -/
  | arguments (message : Str)
  /-- `ConfigurationError` -/
  | configuration (message : Str)
  /-- what `validate_products` raises -/
  | products (message : Str)
  /-- the `ValueError` of a constructor -/
  | raised (message : Str)
  /-- the `ValueError` of `index_stream_specs` -/
  | duplicate (key : Str × Str)
  deriving DecidableEq

/-- What is there when the output is opened. -/
structure Started where
  arguments : MongoRunnerArguments
  runtime : MultiStreamRuntime
  connections : List (ConnectionGroupSpec × List StreamSpec)
  index : StreamIndex

/-- What is around the program when it starts. -/
structure Surroundings where
  upper : Str → Str
  int : Str → Option ℤ
  environ : Environ
  stdoutIsatty : Bool
  stderrIsatty : Bool
  /-- the fetcher of `validate_products` -/
  fetcher : Str → Except FetchError Payload
  spotFirst : Bool
  startedAt : ℚ

/-- What `validate_products` raises for these symbols. -/
def Surroundings.productError (around : Surroundings) (symbols : List Str) : Option Str :=
  match validateProducts around.spotFirst around.fetcher symbols with
  | .error message => some message
  | .ok _ => none

/-- The part of `main()` that exits with a message. -/
def readMultiStreamSettings (around : Surroundings) (given : Namespace) :
    Except StartError (MongoRunnerArguments × MongoConfig × MultiMongoCollectionConfig) :=
  match parseMongodbArgs around.upper given with
  | .error e => .error (.arguments e)
  | .ok arguments =>
    match loadMongoConfig around.int around.environ with
    | .error e => .error (.configuration e)
    | .ok mongoConfig =>
      match loadMultiMongoCollectionConfig around.environ with
      | .error e => .error (.configuration e)
      | .ok collectionConfig =>
        match validateTerminalConfig { symbols := arguments.symbols, mode := str "tui", output := none }
            around.stdoutIsatty around.stderrIsatty with
        | .error e => .error (.configuration e)
        | .ok () => .ok (arguments, mongoConfig, collectionConfig)

/-- The rest of `main()` up to the run, and `run_multi_stream_collection` until it opens the output. -/
def constructMultiStream (around : Surroundings) (arguments : MongoRunnerArguments) (mongoConfig : MongoConfig)
    (collectionConfig : MultiMongoCollectionConfig) : Except StartError Started :=
  match MultiStreamConfig.postInit around.upper arguments.symbols arguments.options arguments.validateSymbols with
  | .error e => .error (.raised e)
  | .ok config =>
    match buildMultiStreamRuntime around.upper config mongoConfig collectionConfig {} around.startedAt with
    | .error e => .error (.raised e)
    | .ok runtime =>
      match if config.validateSymbols then around.productError config.symbols else none with
      | some e => .error (.products e)
      | none =>
        match buildConnections runtime.specs with
        | .error e => .error (.raised e)
        | .ok connections =>
          match indexStreamSpecs runtime.specs with
          | .error key => .error (.duplicate key)
          | .ok index => .ok { arguments, runtime, connections, index }

/-- The multi-stream profile from the command line until the output is opened. -/
def startMultiStream (around : Surroundings) (given : Namespace) : Except StartError Started :=
  match readMultiStreamSettings around given with
  | .error e => .error e
  | .ok (arguments, mongoConfig, collectionConfig) => constructMultiStream around arguments mongoConfig collectionConfig

/-! ## What is checked again -/

theorem isWhitespace_of_isSymbolCode {c : CodePoint} (h : isSymbolCode c = true) : isWhitespace c = false := by
  simp only [isSymbolCode, Bool.or_eq_true, Bool.and_eq_true, decide_eq_true_eq, Fin.le_def] at h
  have hA : (code 'A').val = 65 := rfl
  have hZ : (code 'Z').val = 90 := rfl
  have h0 : (code '0').val = 48 := rfl
  have h9 : (code '9').val = 57 := rfl
  rw [hA, hZ, h0, h9] at h
  simp only [isWhitespace, Bool.or_eq_false_iff, Bool.and_eq_false_iff, decide_eq_false_iff_not, beq_eq_false_iff_ne]
  omega

theorem strip_symbol {symbol : Str} (h : isSymbol symbol = true) : strip symbol = symbol := by
  rw [isSymbol, Bool.and_eq_true, List.all_eq_true] at h
  exact strip_of_all fun c hc => isWhitespace_of_isSymbolCode (h.2 c hc)

section

variable {upper : Str → Str} (hupper : ∀ symbol, isSymbol symbol = true → upper symbol = symbol)

include hupper

/-- **Normalised symbols are normalised again to themselves.** -/
theorem normalizeSymbols_again {symbols : List Str} (h : Symbols symbols) :
    normalizeSymbols strip upper symbols = .ok symbols := by
  have hmap : symbols.map (fun value => upper (strip value)) = symbols := by
    refine (List.map_congr_left fun symbol hs => ?_).trans (List.map_id symbols)
    rw [strip_symbol (h.isSymbol symbol hs), hupper symbol (h.isSymbol symbol hs), id]
  have hempty : (symbols.isEmpty || symbols.any (·.isEmpty)) = false := by
    rw [Bool.or_eq_false_iff, List.any_eq_false]
    refine ⟨by simpa using h.nonempty, fun symbol hs hnil => ?_⟩
    have hsymbol := h.isSymbol symbol hs
    rw [isSymbol, hnil] at hsymbol
    cases hsymbol
  have hbad : symbols.any (fun symbol => !isSymbol symbol) = false := by
    refine List.any_eq_false.2 fun symbol hs => ?_
    rw [h.isSymbol symbol hs]
    exact Bool.false_ne_true
  simp only [normalizeSymbols, hmap]
  rw [if_neg (by rw [hempty]; exact Bool.false_ne_true), if_neg (by rw [hbad]; exact Bool.false_ne_true),
    if_neg (not_not.2 h.nodup)]

theorem MultiStreamConfig.postInit_again {symbols : List Str} {options : StreamOptions} (h : Symbols symbols)
    (ho : validateStreamOptions options = .ok ()) (validateSymbols : Bool) :
    MultiStreamConfig.postInit upper symbols options validateSymbols =
      .ok { symbols, options, validateSymbols, normalized := h, supported := ho } := by
  have hsymbols := normalizeSymbols_again hupper h
  unfold MultiStreamConfig.postInit
  split
  · rename_i heq
    rw [hsymbols] at heq
    cases heq
  rename_i symbols' heq
  obtain rfl : symbols' = symbols := (Except.ok.inj (hsymbols.symm.trans heq)).symm
  split
  · rename_i heq
    rw [ho] at heq
    cases heq
  · rfl

theorem MultiStreamConfig.postInit_unsupported {symbols : List Str} {options : StreamOptions} {e : Str}
    (h : Symbols symbols) (ho : validateStreamOptions options = .error e) (validateSymbols : Bool) :
    MultiStreamConfig.postInit upper symbols options validateSymbols = .error e := by
  have hsymbols := normalizeSymbols_again hupper h
  unfold MultiStreamConfig.postInit
  split
  · rename_i heq
    rw [hsymbols] at heq
    cases heq
  split
  · rename_i heq
    rw [ho] at heq
    rw [Except.error.inj heq]
  · rename_i heq
    rw [ho] at heq
    cases heq

/-- What the command line is accepted as. -/
theorem parseMongodbArgs_iff {given : Namespace} {arguments : MongoRunnerArguments} :
    parseMongodbArgs upper given = .ok arguments ↔
      normalizeSymbols strip upper given.symbols = .ok arguments.symbols ∧
        validateStreamOptions given.options = .ok () ∧ arguments.options = given.options ∧
        arguments.validateSymbols = !given.skipSymbolValidation := by
  rw [parseMongodbArgs]
  cases hsymbols : normalizeSymbols strip upper given.symbols with
  | error e => exact ⟨nofun, fun h => nomatch h.1⟩
  | ok symbols =>
    have hnormalized := normalizeSymbols_symbols hsymbols
    cases hoptions : validateStreamOptions given.options with
    | error e =>
      simp only [MultiStreamConfig.postInit_unsupported hupper hnormalized hoptions]
      exact ⟨nofun, fun h => nomatch h.2.1⟩
    | ok =>
      obtain ⟨symbols', options', validate'⟩ := arguments
      simp only [MultiStreamConfig.postInit_again hupper hnormalized hoptions, Except.ok.injEq,
        MongoRunnerArguments.mk.injEq, true_and]
      exact ⟨fun ⟨h1, h2, h3⟩ => ⟨h1, h2.symm, h3.symm⟩, fun ⟨h1, h2, h3⟩ => ⟨h1, h2.symm, h3.symm⟩⟩

end

theorem eraseDups_storageRoutes : storageRoutes.eraseDups = storageRoutes := by decide

/-- The default limits are positive. -/
theorem limits_default : ({} : OutputOptions).limits.find? (·.2 ≤ 0) = none := by decide +kernel

/-- **The constructor of the output accepts what the configuration has accepted**, and keeps the names. -/
theorem MultiCollectionOutput.init_accepts (config : MongoConfig) (collections : MultiMongoCollectionConfig) :
    ∃ output, MultiCollectionOutput.init config (fun route => some (collections.collectionNameByRoute route)) {} =
        .ok output ∧ output.config = config ∧ output.routes = storageRoutes ∧
      output.collectionNameByRoute =
        storageRoutes.map fun route => (route, collections.collectionNameByRoute route) := by
  have hnames : (storageRoutes.map fun route => (route, strip (collections.collectionNameByRoute route))) =
      storageRoutes.map fun route => (route, collections.collectionNameByRoute route) :=
    List.map_congr_left fun route _ => by rw [collections.stripped]
  have hblank : (storageRoutes.map fun route => (route, collections.collectionNameByRoute route)).any
      (fun entry => (strip entry.2).isEmpty) = false := by
    refine List.any_eq_false.2 fun entry hentry => ?_
    obtain ⟨route, -, rfl⟩ := List.mem_map.1 hentry
    rw [collections.stripped]
    simpa using collections.nonempty route
  have hnodup : ((storageRoutes.map fun route => (route, collections.collectionNameByRoute route)).map (·.2)).Nodup := by
    rw [List.map_map]
    exact storageRoutes_nodup.map collections.distinct
  have hunknown : storageRoutes.filter (fun route =>
      (some (collections.collectionNameByRoute route)).isSome && route ∉ storageRoutes) = [] := by
    refine List.filter_eq_nil_iff.2 fun route hroute => ?_
    simp [hroute]
  have hmissing : storageRoutes.filter (fun route => (some (collections.collectionNameByRoute route)).isNone) = [] :=
    List.filter_eq_nil_iff.2 fun _ _ => Bool.false_ne_true
  simp only [MultiCollectionOutput.init, limits_default, eraseDups_storageRoutes, Option.getD_some, hnames]
  rw [if_neg (by decide), if_neg (not_not.2 hunknown), if_neg (not_not.2 hmissing),
    if_neg (by rw [hblank]; exact Bool.false_ne_true), if_neg (not_not.2 hnodup)]
  exact ⟨_, rfl, rfl, rfl, rfl⟩

/-- The buffer and the workers run with the limits that the constructor has kept. -/
structure MultiCollectionOutput.RunsWith (output : MultiCollectionOutput) (cfg : MultiMongo.Settings) : Prop where
  bufferMaxDocuments : output.bufferMaxDocuments = cfg.bufferMaxDocuments
  bufferMaxBytes : output.bufferMaxBytes = cfg.bufferMaxBytes
  batchMaxDocuments : output.batchMaxDocuments = cfg.batchMaxDocuments
  batchMaxBytes : output.batchMaxBytes = cfg.batchMaxBytes
  maxConcurrentWrites : output.maxConcurrentWrites = cfg.maxConcurrentWrites

/-- **What the constructor keeps of its arguments are settings** of the buffer and the workers. -/
theorem MultiCollectionOutput.init_settings {config : MongoConfig} {names : StorageRoute → Option Str}
    {o : OutputOptions} {output : MultiCollectionOutput} (h : MultiCollectionOutput.init config names o = .ok output) :
    ∃ cfg, MultiMongo.Settings.ofArguments o.bufferMaxDocuments.toNat o.bufferMaxBytes.toNat o.batchMaxDocuments.toNat
        o.batchMaxBytes.toNat o.maxConcurrentWrites.toNat = some cfg ∧ output.RunsWith cfg := by
  simp only [MultiCollectionOutput.init] at h
  split at h
  · cases h
  rename_i hlimits
  have hpos {limit : Str × ℚ} (hmem : limit ∈ o.limits) : 0 < limit.2 := by
    have hnot := List.find?_eq_none.1 hlimits limit hmem
    simpa using hnot
  have hpos' (name : Str) (n : ℤ) (hmem : (name, (n : ℚ)) ∈ o.limits) : 0 < n := Int.cast_pos.1 (hpos hmem)
  have h₁ := hpos' (str "buffer_max_documents") o.bufferMaxDocuments (by simp [OutputOptions.limits])
  have h₂ := hpos' (str "buffer_max_bytes") o.bufferMaxBytes (by simp [OutputOptions.limits])
  have h₃ := hpos' (str "batch_max_documents") o.batchMaxDocuments (by simp [OutputOptions.limits])
  have h₄ := hpos' (str "batch_max_bytes") o.batchMaxBytes (by simp [OutputOptions.limits])
  have h₅ := hpos' (str "max_concurrent_writes") o.maxConcurrentWrites (by simp [OutputOptions.limits])
  have hargs : 0 < o.bufferMaxDocuments.toNat ∧ 0 < o.bufferMaxBytes.toNat ∧ 0 < o.batchMaxDocuments.toNat ∧
      0 < o.batchMaxBytes.toNat ∧ 0 < o.maxConcurrentWrites.toNat := by omega
  rw [MultiMongo.Settings.ofArguments, dif_pos hargs]
  split at h
  · cases h
  split at h
  · cases h
  split at h
  · cases h
  split at h
  · cases h
  split at h
  · cases h
  obtain rfl := Except.ok.inj h
  refine ⟨_, rfl, ?_, ?_, ?_, ?_, ?_⟩ <;> dsimp only <;> omega

/-- Where no step fails, all of them are done. -/
theorem mapM_ok {α β ε : Type} {f : α → Except ε β} {g : α → β} {xs : List α} (h : ∀ x ∈ xs, f x = .ok (g x)) :
    xs.mapM f = .ok (xs.map g) := by
  induction xs with
  | nil => rfl
  | cons x xs ih =>
    rw [List.mapM_cons, h x List.mem_cons_self, ih fun y hy => h y (List.mem_cons_of_mem _ hy)]
    rfl

/-- **Every connection accepts its group.** -/
theorem buildConnections_build {symbols : List Str} {o : StreamOptions} {specs : List StreamSpec}
    (hsymbols : Symbols symbols) (h : buildStreamSpecs symbols o = .ok specs) :
    buildConnections specs = .ok (connectionGroups.map fun group => (group, groupSpecs o symbols group)) := by
  rw [buildConnections, connectionGroupByKey, List.mapM_map]
  refine mapM_ok fun group hgroup => ?_
  simp only [Function.comp_apply, groupStreamSpecs_build h hgroup, Option.getD_some,
    checkSpecs_groupSpecs hsymbols hgroup]

/-! ## The whole start -/

/-- What the parts of a started profile agree on. -/
structure Consistent (around : Surroundings) (given : Namespace) (started : Started) : Prop where
  normalized : normalizeSymbols strip around.upper given.symbols = .ok started.arguments.symbols
  counted : started.runtime.stats.symbols = started.arguments.symbols
  specs : buildStreamSpecs started.arguments.symbols given.options = .ok started.runtime.specs
  /-- the normaliser finds exactly what is subscribed to -/
  index : ∀ group name spec, started.index.lookup (group, name) = some spec ↔
    spec ∈ started.runtime.specs ∧ spec.connectionGroup = group ∧ spec.streamName = name
  /-- the connections divide the subscriptions -/
  connections : started.connections.map (·.1) = connectionGroups ∧
    started.connections.flatMap (·.2) = started.runtime.specs
  mongo : loadMongoConfig around.int around.environ = .ok started.runtime.output.config
  names : around.environ.Names started.runtime.shownNames
  /-- the limits of the output are positive, and a batch fits into the buffer -/
  settings : ∃ cfg, started.runtime.output.RunsWith cfg
  /-- the output stores under the names that the statistics show -/
  stored : started.runtime.output.collectionNameByRoute =
    storageRoutes.map fun route => (route, started.runtime.shownNames route)
  /-- stream types share no collection, neither with each other nor with the control events -/
  apart : ∀ spec ∈ started.runtime.specs, ∀ spec' ∈ started.runtime.specs,
    started.runtime.shownNames spec.storageRoute = started.runtime.shownNames spec'.storageRoute ↔
      spec.streamType = spec'.streamType
  control : ∀ spec ∈ started.runtime.specs,
    started.runtime.shownNames spec.storageRoute ≠ started.runtime.shownNames .control
  /-- what is subscribed to is traded in the market of its connection -/
  traded : given.skipSymbolValidation = false → ∀ spec ∈ started.runtime.specs,
    Traded around.fetcher spec.market spec.symbol

/-- When the profile starts. -/
structure Startable (around : Surroundings) (given : Namespace) : Prop where
  symbols : ∃ symbols, normalizeSymbols strip around.upper given.symbols = .ok symbols ∧
    (given.skipSymbolValidation = false → ∀ symbol ∈ symbols, ∀ market, Traded around.fetcher market symbol)
  options : validateStreamOptions given.options = .ok ()
  mongo : ∃ config, loadMongoConfig around.int around.environ = .ok config
  names : ∃ names, around.environ.Names names
  terminal : around.stderrIsatty = true

/-- The products are accepted exactly when they are traded. -/
theorem productError_eq_none {around : Surroundings} {symbols : List Str} (h : Symbols symbols) :
    around.productError symbols = none ↔ ∀ symbol ∈ symbols, ∀ market, Traded around.fetcher market symbol := by
  unfold Surroundings.productError
  constructor
  · intro hnone
    split at hnone
    · cases hnone
    · rename_i result hresult
      exact (validateProducts_iff.1 hresult).2.1
  · intro htraded
    obtain ⟨symbol, hs⟩ := List.exists_mem_of_ne_nil symbols h.nonempty
    have hlists : ∀ market, ∃ entries, Lists around.fetcher market entries := by
      intro market
      obtain ⟨entries, -, hlists, -⟩ := htraded symbol hs market
      exact ⟨entries, hlists⟩
    rw [validateProducts_iff.2 ⟨hlists, htraded, rfl⟩]

theorem routeByStream_injective : Function.Injective routeByStream := by
  intro t u h
  revert h
  cases t <;> cases u <;> decide

theorem validateTerminalConfig_tui (symbols : List Str) (stdoutIsatty stderrIsatty : Bool) :
    validateTerminalConfig { symbols, mode := str "tui", output := none } stdoutIsatty stderrIsatty = .ok () ↔
      stderrIsatty = true := by
  rw [validateTerminalConfig, if_neg (not_not.2 rfl)]
  cases stderrIsatty <;> simp

section

variable {around : Surroundings} (hupper : ∀ symbol, isSymbol symbol = true → around.upper symbol = symbol)

include hupper

/-- **What the configuration accepts, the constructors accept.** -/
theorem constructMultiStream_accepts {arguments : MongoRunnerArguments} (hsymbols : Symbols arguments.symbols)
    (hoptions : validateStreamOptions arguments.options = .ok ()) (mongoConfig : MongoConfig)
    (collections : MultiMongoCollectionConfig) :
    (∀ message, arguments.validateSymbols = true ∧ around.productError arguments.symbols = some message →
      constructMultiStream around arguments mongoConfig collections = .error (.products message)) ∧
    ((arguments.validateSymbols = true → around.productError arguments.symbols = none) →
      ∃ started, constructMultiStream around arguments mongoConfig collections = .ok started ∧
        started.arguments = arguments ∧ started.runtime.stats.symbols = arguments.symbols ∧
        buildStreamSpecs arguments.symbols arguments.options = .ok started.runtime.specs ∧
        indexStreamSpecs started.runtime.specs = .ok started.index ∧
        started.connections =
          connectionGroups.map (fun group => (group, groupSpecs arguments.options arguments.symbols group)) ∧
        started.runtime.output.config = mongoConfig ∧
        started.runtime.shownNames = collections.collectionNameByRoute ∧
        (∃ cfg, started.runtime.output.RunsWith cfg) ∧
        started.runtime.output.collectionNameByRoute =
          storageRoutes.map fun route => (route, collections.collectionNameByRoute route)) := by
  have hconfig := MultiStreamConfig.postInit_again hupper hsymbols hoptions arguments.validateSymbols
  have hspecs := buildStreamSpecs_supported arguments.symbols hoptions
  have hstats : MultiStreamStatsCollector.create strip around.upper arguments.symbols around.startedAt =
      .ok { symbols := arguments.symbols, startedAt := around.startedAt } := by
    rw [MultiStreamStatsCollector.create, normalizeSymbols_again hupper hsymbols]
    rfl
  obtain ⟨output, houtput, hmongo, -, hstored⟩ := MultiCollectionOutput.init_accepts mongoConfig collections
  obtain ⟨cfg, -, hruns⟩ := MultiCollectionOutput.init_settings houtput
  have hconnections := buildConnections_build hsymbols hspecs
  obtain ⟨index, hindex, -⟩ := indexStreamSpecs_build hsymbols hspecs
  simp only [constructMultiStream, hconfig, buildMultiStreamRuntime, hspecs, hstats, houtput]
  constructor
  · rintro message ⟨hvalidate, hproducts⟩
    simp only [hvalidate, hproducts, if_true]
  · intro hproducts
    have hnone : (if arguments.validateSymbols = true then around.productError arguments.symbols else none) = none := by
      split
      · exact hproducts ‹_›
      · rfl
    simp only [hnone, hconnections, hindex]
    exact ⟨_, rfl, rfl, rfl, rfl, hindex, rfl, hmongo, rfl, ⟨cfg, hruns⟩, hstored⟩

omit hupper in
/-- What the settings are read from. -/
theorem readMultiStreamSettings_iff {given : Namespace} {arguments : MongoRunnerArguments} {mongoConfig : MongoConfig}
    {collections : MultiMongoCollectionConfig} :
    readMultiStreamSettings around given = .ok (arguments, mongoConfig, collections) ↔
      parseMongodbArgs around.upper given = .ok arguments ∧
        loadMongoConfig around.int around.environ = .ok mongoConfig ∧
        loadMultiMongoCollectionConfig around.environ = .ok collections ∧ around.stderrIsatty = true := by
  rw [readMultiStreamSettings]
  cases hparse : parseMongodbArgs around.upper given with
  | error e => exact ⟨nofun, fun h => nomatch h.1⟩
  | ok arguments' =>
    cases hmongo : loadMongoConfig around.int around.environ with
    | error e => exact ⟨nofun, fun h => nomatch h.2.1⟩
    | ok mongoConfig' =>
      cases hcollections : loadMultiMongoCollectionConfig around.environ with
      | error e => exact ⟨nofun, fun h => nomatch h.2.2.1⟩
      | ok collections' =>
        have hterminal := validateTerminalConfig_tui arguments'.symbols around.stdoutIsatty around.stderrIsatty
        cases hvalid : validateTerminalConfig { symbols := arguments'.symbols, mode := str "tui", output := none }
            around.stdoutIsatty around.stderrIsatty with
        | error e =>
          rw [hvalid] at hterminal
          simp only [hvalid]
          exact ⟨nofun, fun h => nomatch hterminal.2 h.2.2.2⟩
        | ok =>
          rw [hvalid] at hterminal
          simp only [hvalid, Except.ok.injEq, Prod.mk.injEq]
          exact ⟨fun h => ⟨h.1, h.2.1, h.2.2, hterminal.1 rfl⟩, fun h => ⟨h.1, h.2.1, h.2.2.1⟩⟩

omit hupper in
theorem readMultiStreamSettings_error {given : Namespace} {e : StartError}
    (h : readMultiStreamSettings around given = .error e) :
    (∃ message, e = .arguments message) ∨ ∃ message, e = .configuration message := by
  rw [readMultiStreamSettings] at h
  split at h
  · exact .inl ⟨_, (Except.error.inj h).symm⟩
  split at h
  · exact .inr ⟨_, (Except.error.inj h).symm⟩
  split at h
  · exact .inr ⟨_, (Except.error.inj h).symm⟩
  split at h
  · exact .inr ⟨_, (Except.error.inj h).symm⟩
  · cases h

/-- A profile that has started has asked whether the products exist. -/
theorem products_of_construct {arguments : MongoRunnerArguments} (hsymbols : Symbols arguments.symbols)
    (hoptions : validateStreamOptions arguments.options = .ok ()) {mongoConfig : MongoConfig}
    {collections : MultiMongoCollectionConfig} {started : Started}
    (h : constructMultiStream around arguments mongoConfig collections = .ok started)
    (hvalidate : arguments.validateSymbols = true) : around.productError arguments.symbols = none := by
  by_contra hne
  obtain ⟨message, hmessage⟩ := Option.ne_none_iff_exists'.1 hne
  obtain ⟨hrejects, -⟩ := constructMultiStream_accepts hupper hsymbols hoptions mongoConfig collections
  rw [hrejects message ⟨hvalidate, hmessage⟩] at h
  cases h

/-- The parts of a profile that has started agree. -/
theorem consistent_of_start {given : Namespace} {started : Started}
    (h : startMultiStream around given = .ok started) : Consistent around given started := by
  rw [startMultiStream] at h
  split at h
  · cases h
  rename_i arguments mongoConfig collections hread
  obtain ⟨hparse, hmongo, hcollections, -⟩ := readMultiStreamSettings_iff.1 hread
  obtain ⟨hnormalized, hoptions, hsame, hvalidate⟩ := (parseMongodbArgs_iff hupper).1 hparse
  have hsymbols := normalizeSymbols_symbols hnormalized
  rw [← hsame] at hoptions
  have hproducts := products_of_construct hupper hsymbols hoptions h
  obtain ⟨-, haccepts⟩ := constructMultiStream_accepts hupper hsymbols hoptions mongoConfig collections
  obtain ⟨started', hstarted, harguments, hstats, hspecs, hindex, hconnections, hconfig, hshown, hsettings, hstored⟩ :=
    haccepts hproducts
  obtain rfl : started' = started := Except.ok.inj (hstarted.symm.trans h)
  have hnames : around.environ.Names started'.runtime.shownNames :=
    (loadMultiMongoCollectionConfig_iff _ _).1 ⟨collections, hcollections, hshown.symm⟩
  have hroute {spec : StreamSpec} (hspec : spec ∈ started'.runtime.specs) :
      spec.storageRoute = routeByStream spec.streamType := storageRoute_of_mem hspecs hspec
  refine ⟨by rw [harguments, hnormalized], by rw [hstats, harguments], by rw [harguments, ← hsame, hspecs],
    indexStreamSpecs_finds hindex, ⟨?_, ?_⟩, by rw [hconfig, hmongo], hnames, hsettings,
    by rw [hstored, hshown], fun spec hspec spec' hspec' => ?_, fun spec hspec heq => ?_, fun hskip spec hspec => ?_⟩
  · rw [hconnections, List.map_map]
    exact List.map_id _
  · rw [buildStreamSpecs_supported _ hoptions] at hspecs
    rw [hconnections, List.flatMap_map, ← Except.ok.inj hspecs]
    rfl
  · rw [hnames.distinct.eq_iff, hroute hspec, hroute hspec', routeByStream_injective.eq_iff]
  · have hcontrol := hnames.distinct heq
    rw [hroute hspec] at hcontrol
    exact storageRouteForStreamType_ne_control _ hcontrol
  · obtain ⟨group, -, symbol, hs, streamType, -, rfl⟩ := (mem_buildStreamSpecs hspecs).1 hspec
    refine (productError_eq_none hsymbols).1 (hproducts ?_) symbol hs group.market
    rw [hvalidate, hskip]
    rfl

/-- **The multi-stream profile starts exactly when what it is given is in order, and never fails otherwise**: no
constructor rejects what `parse_mongodb_args` and the two loaders have accepted, and the parts that are built agree. -/
theorem starts_consistent (given : Namespace) :
    ((∃ started, startMultiStream around given = .ok started) ↔ Startable around given) ∧
      (∀ started, startMultiStream around given = .ok started → Consistent around given started) ∧
      ∀ e, startMultiStream around given = .error e →
        (∃ message, e = .arguments message) ∨ (∃ message, e = .configuration message) ∨
          ∃ message, e = .products message := by
  refine ⟨⟨?_, ?_⟩, fun started => consistent_of_start hupper, fun e h => ?_⟩
  · rintro ⟨started, h⟩
    rw [startMultiStream] at h
    split at h
    · cases h
    rename_i arguments mongoConfig collections hread
    obtain ⟨hparse, hmongo, hcollections, hterminal⟩ := readMultiStreamSettings_iff.1 hread
    obtain ⟨hnormalized, hoptions, hsame, hvalidate⟩ := (parseMongodbArgs_iff hupper).1 hparse
    have hsymbols := normalizeSymbols_symbols hnormalized
    have hproducts := products_of_construct hupper hsymbols (hsame ▸ hoptions) h
    refine ⟨⟨_, hnormalized, fun hskip => (productError_eq_none hsymbols).1 (hproducts ?_)⟩, hoptions, ⟨_, hmongo⟩,
      ⟨collections.collectionNameByRoute, ?_⟩, hterminal⟩
    · rw [hvalidate, hskip]
      rfl
    · exact (loadMultiMongoCollectionConfig_iff _ _).1 ⟨collections, hcollections, rfl⟩
  · rintro ⟨⟨symbols, hnormalized, htraded⟩, hoptions, ⟨mongoConfig, hmongo⟩, ⟨names, hnames⟩, hterminal⟩
    obtain ⟨collections, hcollections, -⟩ := (loadMultiMongoCollectionConfig_iff _ _).2 hnames
    let arguments : MongoRunnerArguments :=
      { symbols, options := given.options, validateSymbols := !given.skipSymbolValidation }
    have hparse : parseMongodbArgs around.upper given = .ok arguments :=
      (parseMongodbArgs_iff hupper).2 ⟨hnormalized, hoptions, rfl, rfl⟩
    have hread := readMultiStreamSettings_iff.2 ⟨hparse, hmongo, hcollections, hterminal⟩
    have hsymbols : Symbols arguments.symbols := normalizeSymbols_symbols hnormalized
    obtain ⟨-, haccepts⟩ := constructMultiStream_accepts hupper hsymbols hoptions mongoConfig collections
    have hproducts (hvalidate : arguments.validateSymbols = true) : around.productError arguments.symbols = none :=
      (productError_eq_none hsymbols).2 (htraded (by simpa [arguments] using hvalidate))
    obtain ⟨started, hstarted, -⟩ := haccepts hproducts
    exact ⟨started, by simp only [startMultiStream, hread, hstarted]⟩
  · rw [startMultiStream] at h
    split at h
    · rename_i hread
      obtain rfl := Except.error.inj h
      exact (readMultiStreamSettings_error hread).imp_right .inl
    rename_i arguments mongoConfig collections hread
    obtain ⟨hparse, -, -, -⟩ := readMultiStreamSettings_iff.1 hread
    obtain ⟨hnormalized, hoptions, hsame, -⟩ := (parseMongodbArgs_iff hupper).1 hparse
    obtain ⟨hrejects, haccepts⟩ := constructMultiStream_accepts hupper (normalizeSymbols_symbols hnormalized)
      (hsame ▸ hoptions) mongoConfig collections
    by_cases hproducts : arguments.validateSymbols = true → around.productError arguments.symbols = none
    · obtain ⟨started, hstarted, -⟩ := haccepts hproducts
      rw [hstarted] at h
      cases h
    · obtain ⟨hvalidate, hne⟩ := Classical.not_imp.1 hproducts
      obtain ⟨message, hmessage⟩ := Option.ne_none_iff_exists'.1 hne
      rw [hrejects message ⟨hvalidate, hmessage⟩] at h
      exact .inr (.inr ⟨message, (Except.error.inj h).symm⟩)

end

/-- `str.upper` of a code point below 128. -/
def upperCode (c : CodePoint) : CodePoint := if code 'a' ≤ c ∧ c ≤ code 'z' then codePoint (c.val - 32) else c

theorem map_upperCode {symbol : Str} (h : isSymbol symbol = true) : symbol.map upperCode = symbol := by
  rw [isSymbol, Bool.and_eq_true, List.all_eq_true] at h
  refine (List.map_congr_left fun c hc => ?_).trans (List.map_id symbol)
  have hcode := h.2 c hc
  simp only [isSymbolCode, Bool.or_eq_true, Bool.and_eq_true, decide_eq_true_eq, Fin.le_def] at hcode
  have hZ : (code 'Z').val = 90 := rfl
  have h9 : (code '9').val = 57 := rfl
  have ha : (code 'a').val = 97 := rfl
  rw [upperCode, if_neg]
  · rfl
  · rw [Fin.le_def, ha]
    omega

/-- The entry of a symbol that is traded in both markets. -/
def launchEntry (symbol : Str) : Payload :=
  [(str "symbol", .str symbol), (str "status", .str (str "TRADING")), (str "contractType", .str (str "PERPETUAL")),
    (str "quoteAsset", .str (str "USDT"))]

/-- The products of an exchange. -/
def launchProducts : List Json.Value := [str "BTCUSDT", str "ETHUSDT"].map fun symbol => .object (launchEntry symbol)

/-- A file of variables, a terminal and an exchange. -/
def launch : Surroundings where
  upper := List.map upperCode
  int s := some (Json.intOfLiteral s)
  environ name := [(str "DATALAKE_AGG_TRADES_COLLECTION_NAME", str " trades "),
    (str "DATALAKE_ORDER_BOOK_DEPTH_COLLECTION_NAME", str "depth"),
    (str "DATALAKE_BOOK_TICKERS_COLLECTION_NAME", str "tickers"), (str "DATALAKE_KLINES_COLLECTION_NAME", str "klines"),
    (str "DATALAKE_MARK_PRICES_COLLECTION_NAME", str "marks"),
    (str "DATALAKE_COLLECTOR_CONTROL_COLLECTION_NAME", str "control")].lookup name
  stdoutIsatty := true
  stderrIsatty := true
  fetcher := fetchJson fun _ => .ok (.object [(str "symbols", .array launchProducts)])
  spotFirst := true
  startedAt := 0

/-- The names that the variables give. -/
def launchNames : StorageRoute → Str
  | .aggTrade => str "trades"
  | .orderBookDepth => str "depth"
  | .bookTicker => str "tickers"
  | .kline => str "klines"
  | .markPrice => str "marks"
  | .control => str "control"

theorem launch_traded {symbol : Str} (h : symbol ∈ [str "BTCUSDT", str "ETHUSDT"]) (market : Market) :
    Traded launch.fetcher market symbol := by
  have htrades : EntryTrades market.futures (launchEntry symbol) symbol :=
    ⟨by rfl, by rfl, fun _ => ⟨by rfl, by rfl⟩⟩
  have hlists : Lists (fetchJson fun _ => .ok (.object [(str "symbols", .array launchProducts)])) market
      launchProducts := lists_fetchJson.2 ⟨_, rfl, by rfl⟩
  exact ⟨launchProducts, launchEntry symbol, hlists, List.mem_map_of_mem h, htrades⟩

theorem starts_consistent_launch :
    ∃ started, startMultiStream launch { symbols := [str "btcusdt ", str "ETHUSDT"] } = .ok started ∧
      Consistent launch { symbols := [str "btcusdt ", str "ETHUSDT"] } started := by
  obtain ⟨hstarts, hconsistent, -⟩ := starts_consistent (show ∀ symbol, isSymbol symbol = true →
    launch.upper symbol = symbol from fun symbol => map_upperCode) { symbols := [str "btcusdt ", str "ETHUSDT"] }
  obtain ⟨started, hstarted⟩ := hstarts.2
    { symbols := ⟨[str "BTCUSDT", str "ETHUSDT"], by decide +kernel, fun _ symbol hs => launch_traded hs⟩
      options := by decide +kernel
      mongo := ⟨{ host := str "localhost", port := 27017, username := none, password := none, authSource := none
                  database := str "studygroup", collection := str "binance_events" }, by decide +kernel⟩
      names := ⟨launchNames, {
        named := by decide +kernel
        nonempty := fun route => by cases route <;> decide
        distinct := by decide +kernel }⟩
      terminal := rfl }
  exact ⟨started, hstarted, hconsistent started hstarted⟩

end BinanceCollector
