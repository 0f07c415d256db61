import MeshcoreRpc.Lib.PathTree
import MeshcoreRpc.Python

/-!
# The configuration

`config.py`: the settings with their types and defaults, and `AppConfig.load`.
YAML, pydantic and the environment are parameters (`Libraries`); the sources of
a `BaseSettings` are merged by `deepUpdate`, the constructor's arguments over the
environment.
-/

namespace MeshcoreRpc

open PathTree

namespace Config

inductive Value where
  | none
  | str (s : String)
  | int (n : ℤ)
  | float (q : ℚ)
  deriving DecidableEq

inductive LeafType where
  | str
  | int
  | float
  | optional (type : LeafType)
  | literal (choices : List String)

inductive Schema where
  | setting (type : LeafType) (default : Value)
  /-- `Dict[str, T]`, empty by default. -/
  | table (type : LeafType)
  | model (fields : List (String × Schema))

def mqttConfig : Schema := .model
  [("host", .setting .str (.str "localhost")),
    ("port", .setting .int (.int 1883)),
    ("username", .setting (.optional .str) .none),
    ("password", .setting (.optional .str) .none),
    ("client_id", .setting .str (.str "meshcore-rpc-services")),
    ("qos", .setting .int (.int 1))]

def timeoutConfig : Schema := .model
  [("default_s", .setting .int (.int 30)),
    ("min_s", .setting .int (.int 1)),
    ("max_s", .setting .int (.int 300)),
    ("per_type_default_s", .table .int)]

def retentionConfig : Schema := .model
  [("days", .setting .int (.int 30)),
    ("interval_s", .setting .float (.float 3600))]

def baseLocationConfig : Schema := .model
  [("source", .setting (.literal ["static", "gpsd", "mqtt"]) (.str "static")),
    ("static_lat", .setting (.optional .float) .none),
    ("static_lon", .setting (.optional .float) .none),
    ("gpsd_host", .setting .str (.str "127.0.0.1")),
    ("gpsd_port", .setting .int (.int 2947)),
    ("publish_interval_s", .setting .float (.float 30)),
    ("max_acc_m", .setting (.optional .float) .none)]

def serviceConfig : Schema := .model
  [("db_path", .setting .str (.str "./data/meshcore_rpc_services.sqlite3")),
    ("log_level", .setting .str (.str "INFO")),
    ("timeouts", timeoutConfig),
    ("retention", retentionConfig),
    ("base", baseLocationConfig)]

def takServerConfig : Schema := .model
  [("host", .setting .str (.str "127.0.0.1")),
    ("port", .setting .int (.int 8087))]

def takBridgeConfig : Schema := .model
  [("mqtt_client_id", .setting .str (.str "meshcore-tak-bridge")),
    ("server", takServerConfig),
    ("callsign_template", .setting .str (.str "MC-\x7bid\x7d")),
    ("field_node_cot_type", .setting .str (.str "a-f-G-U-C")),
    ("base_cot_type", .setting .str (.str "a-f-G-U-C-I")),
    ("publish_interval_s", .setting .float (.float 10)),
    ("stale_after_s", .setting .int (.int 300)),
    ("remove_after_offline_s", .setting .int (.int 600))]

def appConfig : Schema := .model
  [("mqtt", mqttConfig), ("service", serviceConfig), ("tak", takBridgeConfig)]

def envPrefix : String := "MESHCORE_RPC_SERVICES_"

def envNestedDelimiter : String := "__"

/-- The type and the default of the setting at a path; the entries of a table
are settings without a default. -/
def Schema.setting? : Schema → List String → Option (LeafType × Option Value)
  | setting type default, [] => some (type, some default)
  | table type, [_] => some (type, none)
  | model fields, name :: path => (fields.lookup name).bind fun schema ↦ schema.setting? path
  | _, _ => none

/-! ## Loading -/

/-- What is not of this repository; `V` are the values in YAML and in the
environment that are no mappings. -/
structure Libraries (V : Type) where
  /-- `yaml.safe_load` -/
  safeLoad : String → Except PyExc (PathTree String V)
  /-- `bool(v)` -/
  truthy : V → Bool
  /-- What pydantic-settings reads from the environment, by prefix and delimiter. -/
  envSettings : String → String → List (String × String) → Except PyExc (PathTree String V)
  /-- What pydantic makes of a value for a setting of the type. -/
  convert : LeafType → V → Option Value

section Loading

variable {V : Type}

def validateEntries (convert : LeafType → V → Option Value) (type : LeafType) :
    List (String × PathTree String V) → Option (List (String × PathTree String Value))
  | [] => some []
  | (_, node _) :: _ => none
  | (name, leaf v) :: entries => do
    let value ← convert type v
    return (name, leaf value) :: (← validateEntries convert type entries)

mutual

/-- What the models make of a part of the input, if there is such a part.  Names
that are no fields are ignored. -/
def Schema.validate (convert : LeafType → V → Option Value) :
    Schema → Option (PathTree String V) → Option (PathTree String Value)
  | setting _ default, none => some (leaf default)
  | setting type _, some (leaf v) => (convert type v).map leaf
  | setting .., some (node _) => none
  | table _, none => some (node [])
  | table type, some (node entries) => (validateEntries convert type entries).map node
  | table _, some (leaf _) => none
  | model fields, none => (Schema.validateFields convert fields []).map node
  | model fields, some (node data) => (Schema.validateFields convert fields data).map node
  | model _, some (leaf _) => none

def Schema.validateFields (convert : LeafType → V → Option Value) :
    List (String × Schema) → List (String × PathTree String V) →
      Option (List (String × PathTree String Value))
  | [], _ => some []
  | (name, schema) :: fields, data => do
    let value ← Schema.validate convert schema (data.lookup name)
    return (name, value) :: (← Schema.validateFields convert fields data)

end

variable (lib : Libraries V)

/-- `AppConfig(**data)` -/
def AppConfig.init (environ : List (String × String)) (data : List (String × PathTree String V)) :
    Except PyExc (PathTree String Value) := do
  let env ← lib.envSettings envPrefix envNestedDelimiter environ
  match appConfig.validate lib.convert (some (deepUpdate env (node data))) with
  | some cfg => return cfg
  | none => throw .validationError

/-- The keyword arguments `load` takes from the file, `yaml.safe_load(f) or {}`. -/
def fileData (files : String → Option (Except PyExc String)) (path : Option String) :
    Except PyExc (List (String × PathTree String V)) :=
  match path with
  | none => .ok []
  | some path =>
    if path = "" then .ok []
    else
      match files path with
      | none => .ok []
      | some opened => do
        match ← lib.safeLoad (← opened) with
        | node data => return data
        | leaf v => if lib.truthy v then throw .typeError else return []

/-- `AppConfig.load`; `files` has what opening a path gives where it exists. -/
def AppConfig.load (files : String → Option (Except PyExc String))
    (environ : List (String × String)) (path : Option String) :
    Except PyExc (PathTree String Value) := do
  AppConfig.init lib environ (← fileData lib files path)

/-! ## What a loaded configuration holds -/

theorem validateEntries_lookup {convert : LeafType → V → Option Value} {type : LeafType}
    {entries : List (String × PathTree String V)} {out : List (String × PathTree String Value)}
    (h : validateEntries convert type entries = some out) (name : String) :
    (entries.lookup name = none ∧ out.lookup name = none) ∨
      ∃ v value, entries.lookup name = some (leaf v) ∧ convert type v = some value ∧
        out.lookup name = some (leaf value) := by
  induction entries generalizing out with
  | nil =>
      simp only [validateEntries, Option.some.injEq] at h
      subst h
      exact .inl ⟨rfl, rfl⟩
  | cons entry entries ih =>
      obtain ⟨name', t⟩ := entry
      rcases t with v | children
      · simp only [validateEntries, Option.bind_eq_bind, Option.bind_eq_some_iff, Option.pure_def,
          Option.some.injEq] at h
        obtain ⟨value, hvalue, rest, hrest, rfl⟩ := h
        by_cases hname : name = name'
        · subst hname
          exact .inr ⟨v, value, by simp, hvalue, by simp⟩
        · have hne : (name == name') = false := by simpa using hname
          simpa [List.lookup_cons, hne] using ih hrest
      · simp [validateEntries] at h

theorem validateFields_lookup {convert : LeafType → V → Option Value}
    {fields : List (String × Schema)} {data : List (String × PathTree String V)}
    {out : List (String × PathTree String Value)} {name : String} {schema : Schema}
    (h : Schema.validateFields convert fields data = some out)
    (hfield : fields.lookup name = some schema) :
    ∃ cfg, schema.validate convert (data.lookup name) = some cfg ∧ out.lookup name = some cfg := by
  induction fields generalizing out with
  | nil => simp at hfield
  | cons field fields ih =>
      obtain ⟨name', schema'⟩ := field
      simp only [Schema.validateFields, Option.bind_eq_bind, Option.bind_eq_some_iff,
        Option.pure_def, Option.some.injEq] at h
      obtain ⟨value, hvalue, rest, hrest, rfl⟩ := h
      by_cases hname : name = name'
      · subst hname
        have hschema : schema' = schema := by simpa using hfield
        subst hschema
        exact ⟨value, hvalue, by simp⟩
      · have hne : (name == name') = false := by simpa using hname
        rw [List.lookup_cons, hne] at hfield ⊢
        exact ih hrest hfield

section Parts

variable {convert : LeafType → V → Option Value} {input : Option (PathTree String V)}
  {cfg : PathTree String Value} {type : LeafType}

theorem validate_leaf {default : Value}
    (h : (Schema.setting type default).validate convert input = some cfg) :
    (∀ t, input = some t → t.Admits []) ∧
      cfg.leafAt [] = (input.bind fun t ↦ t.leafAt []).elim (some default) (convert type) := by
  rcases input with _ | (v | children)
  · obtain rfl : leaf default = cfg := by simpa [Schema.validate] using h
    exact ⟨by simp, rfl⟩
  · obtain ⟨value, hvalue, rfl⟩ : ∃ value, convert type v = some value ∧ leaf value = cfg := by
      simpa [Schema.validate] using h
    exact ⟨by simp [Admits], by simp [leafAt, hvalue]⟩
  · simp [Schema.validate] at h

theorem validate_table (h : (Schema.table type).validate convert input = some cfg) (name : String) :
    (∀ t, input = some t → t.Admits [name]) ∧
      cfg.leafAt [name] = (input.bind fun t ↦ t.leafAt [name]).elim none (convert type) := by
  rcases input with _ | (v | entries)
  · obtain rfl : node [] = cfg := by simpa [Schema.validate] using h
    exact ⟨by simp, by simp [leafAt]⟩
  · simp [Schema.validate] at h
  · obtain ⟨out, hout, rfl⟩ : ∃ out, validateEntries convert type entries = some out ∧
        node out = cfg := by
      simpa [Schema.validate] using h
    rcases validateEntries_lookup hout name with ⟨hin, hname⟩ | ⟨v, value, hin, hvalue, hname⟩
    · exact ⟨by simp [Admits, hin], by simp [leafAt, hin, hname]⟩
    · exact ⟨by simp [Admits, hin], by simp [leafAt, hin, hname, hvalue]⟩

/-- The part of a mapping under a name. -/
def child : Option (PathTree String V) → String → Option (PathTree String V)
  | none, _ => none
  | some (leaf _), _ => none
  | some (node children), name => children.lookup name

theorem validate_model {fields : List (String × Schema)} {name : String} {schema : Schema}
    (h : (Schema.model fields).validate convert input = some cfg)
    (hfield : fields.lookup name = some schema) :
    ∃ part, schema.validate convert (child input name) = some part ∧
      ∀ path, cfg.leafAt (name :: path) = part.leafAt path := by
  rcases input with _ | (v | data)
  · obtain ⟨out, hout, rfl⟩ : ∃ out, Schema.validateFields convert fields [] = some out ∧
        node out = cfg := by
      simpa [Schema.validate] using h
    obtain ⟨part, hpart, hname⟩ := validateFields_lookup hout hfield
    exact ⟨part, hpart, fun path ↦ by simp [leafAt, hname]⟩
  · simp [Schema.validate] at h
  · obtain ⟨out, hout, rfl⟩ : ∃ out, Schema.validateFields convert fields data = some out ∧
        node out = cfg := by
      simpa [Schema.validate] using h
    obtain ⟨part, hpart, hname⟩ := validateFields_lookup hout hfield
    exact ⟨part, hpart, fun path ↦ by simp [leafAt, hname]⟩

theorem admits_of_child {fields : List (String × Schema)} {name : String} {path : List String}
    (h : (Schema.model fields).validate convert input = some cfg)
    (hopen : ∀ t, child input name = some t → t.Admits path) :
    ∀ t, input = some t → t.Admits (name :: path) := by
  rintro t rfl
  rcases t with v | data
  · simp [Schema.validate] at h
  · exact hopen

theorem leafAt_child {fields : List (String × Schema)} (name : String) (path : List String)
    (h : (Schema.model fields).validate convert input = some cfg) :
    (input.bind fun t ↦ t.leafAt (name :: path)) =
      (child input name).bind fun t ↦ t.leafAt path := by
  rcases input with _ | (v | data)
  · rfl
  · simp [Schema.validate] at h
  · rfl

/-- What is validated is open to every setting, and holds its value, else its
default. -/
theorem validate_setting {schema : Schema} {path : List String} {default : Option Value}
    (h : schema.validate convert input = some cfg)
    (hsetting : schema.setting? path = some (type, default)) :
    (∀ t, input = some t → t.Admits path) ∧
      cfg.leafAt path =
        (input.bind fun t ↦ t.leafAt path).elim default (convert type) := by
  induction path generalizing schema input cfg with
  | nil =>
      rcases schema with ⟨type', default'⟩ | type' | fields
      · obtain ⟨rfl, rfl⟩ : type' = type ∧ some default' = default := by
          simpa [Schema.setting?] using hsetting
        exact validate_leaf h
      · simp [Schema.setting?] at hsetting
      · simp [Schema.setting?] at hsetting
  | cons name path ih =>
      rcases schema with ⟨type', default'⟩ | type' | fields
      · simp [Schema.setting?] at hsetting
      · rcases path with _ | ⟨name', path⟩
        · obtain ⟨rfl, rfl⟩ : type' = type ∧ none = default := by
            simpa [Schema.setting?] using hsetting
          exact validate_table h name
        · simp [Schema.setting?] at hsetting
      · obtain ⟨schema, hfield, hschema⟩ : ∃ schema, fields.lookup name = some schema ∧
            schema.setting? path = some (type, default) := by
          simpa [Schema.setting?, Option.bind_eq_some_iff] using hsetting
        obtain ⟨part, hpart, hleaf⟩ := validate_model h hfield
        obtain ⟨hopen, hvalue⟩ := ih hpart hschema
        refine ⟨admits_of_child h hopen, ?_⟩
        rw [hleaf, hvalue, leafAt_child name path h]

end Parts

section Precedence

variable {lib : Libraries V} {files : String → Option (Except PyExc String)}
  {environ : List (String × String)} {path : Option String} {env : PathTree String V}
  {data : List (String × PathTree String V)} {cfg : PathTree String Value}

/-- The loaded configuration holds, at every setting, what the file says, else what the
environment says, else the default. -/
theorem load_setting (hdata : fileData lib files path = .ok data)
    (henv : lib.envSettings envPrefix envNestedDelimiter environ = .ok env)
    (hload : AppConfig.load lib files environ path = .ok cfg) {place : List String}
    {type : LeafType} {default : Option Value}
    (hsetting : appConfig.setting? place = some (type, default)) :
    cfg.leafAt place =
      (((node data).leafAt place).or (env.leafAt place)).elim default (lib.convert type) := by
  obtain ⟨data', hdata', hinit⟩ := except_bind_ok hload
  obtain ⟨env', henv', hvalid⟩ := except_bind_ok hinit
  obtain rfl : data = data' := by
    rw [hdata] at hdata'
    exact Except.ok.inj hdata'
  obtain rfl : env = env' := by
    rw [henv] at henv'
    exact Except.ok.inj henv'
  have hcfg : appConfig.validate lib.convert (some (deepUpdate env (node data))) = some cfg := by
    split at hvalid
    · next cfg' hsome =>
        obtain rfl : cfg' = cfg := Except.ok.inj hvalid
        exact hsome
    · cases hvalid
  obtain ⟨hopen, hvalue⟩ := validate_setting hcfg hsetting
  rw [hvalue, Option.bind_some, leafAt_deepUpdate (hopen _ rfl)]

/-- What the documentation promises: at every setting the environment's value,
else the file's, else the default. -/
def EnvOverrides (lib : Libraries V) (env : PathTree String V)
    (data : List (String × PathTree String V)) (cfg : PathTree String Value) : Prop :=
  ∀ path type default, appConfig.setting? path = some (type, default) →
    cfg.leafAt path =
      ((env.leafAt path).or ((node data).leafAt path)).elim default (lib.convert type)

/-- The file and the environment give every setting that both set the same
value. -/
def Agree (lib : Libraries V) (env : PathTree String V)
    (data : List (String × PathTree String V)) : Prop :=
  ∀ path type default v w, appConfig.setting? path = some (type, default) →
    env.leafAt path = some v → (node data).leafAt path = some w →
      lib.convert type v = lib.convert type w

/-- The environment overrides the file only where it does not matter. -/
theorem env_overrides_iff (hdata : fileData lib files path = .ok data)
    (henv : lib.envSettings envPrefix envNestedDelimiter environ = .ok env)
    (hload : AppConfig.load lib files environ path = .ok cfg) :
    EnvOverrides lib env data cfg ↔ Agree lib env data := by
  constructor
  · intro h path type default v w hsetting hv hw
    have hfile := load_setting hdata henv hload hsetting
    rw [h path type default hsetting, hv, hw] at hfile
    exact hfile
  · intro h path type default hsetting
    rw [load_setting hdata henv hload hsetting]
    rcases hv : env.leafAt path with _ | v
    · rw [Option.or_none, Option.none_or]
    · rcases hw : (node data).leafAt path with _ | w
      · rfl
      · exact (h path type default v w hsetting hv hw).symm

end Precedence

end Loading

/-! ## A file and an environment -/

/-- The parts of a text between its delimiters; the first argument is the part
being read, the second counts the characters of a delimiter still to skip. -/
def parts (delimiter : List Char) : List Char → ℕ → List Char → List String
  | part, _, [] => [String.ofList part.reverse]
  | part, skip + 1, _ :: rest => parts delimiter part skip rest
  | part, 0, c :: rest =>
    if delimiter.isPrefixOf (c :: rest) then
      String.ofList part.reverse :: parts delimiter [] (delimiter.length - 1) rest
    else parts delimiter (c :: part) 0 rest

/-- The one value `v` at a path. -/
def nested {V : Type} (path : List String) (v : V) : PathTree String V :=
  path.foldr (fun name t ↦ node [(name, t)]) (leaf v)

/-- Variables that set single settings, whatever the case of their names. -/
def nestedEnviron (pre delimiter : String) (environ : List (String × String)) :
    PathTree String Value :=
  environ.foldl (fun t var ↦
    let name := var.1.toList.map Char.toLower
    let start := pre.toList.map Char.toLower
    if start.isPrefixOf name then
      deepUpdate t (nested (parts delimiter.toList [] 0 (name.drop start.length)) (.str var.2))
    else t) (node [])

/-- Texts for text settings, numbers for numeric ones. -/
def sampleConvert : LeafType → Value → Option Value
  | .str, .str s => some (.str s)
  | .int, .int n => some (.int n)
  | .float, .float q => some (.float q)
  | .optional _, .none => some .none
  | .optional type, v => sampleConvert type v
  | .literal choices, .str s => if s ∈ choices then some (.str s) else none
  | _, _ => none

/-- A YAML reader that knows one text. -/
def sampleLibraries : Libraries Value where
  safeLoad text :=
    if text = "mqtt: \x7bhost: file-host, port: 1884\x7d" then
      .ok (node [("mqtt", node [("host", leaf (.str "file-host")), ("port", leaf (.int 1884))])])
    else .error (.other "YAMLError")
  truthy v := decide (v ≠ .none)
  envSettings pre delimiter environ := .ok (nestedEnviron pre delimiter environ)
  convert := sampleConvert

def sampleFiles (path : String) : Option (Except PyExc String) :=
  if path = "config.yaml" then some (.ok "mqtt: \x7bhost: file-host, port: 1884\x7d") else none

example : (nestedEnviron envPrefix envNestedDelimiter
    [("MESHCORE_RPC_SERVICES_MQTT__CLIENT_ID", "rpc-2")]).leafAt ["mqtt", "client_id"] =
      some (.str "rpc-2") := by decide +kernel

def sampleData : List (String × PathTree String Value) :=
  [("mqtt", node [("host", leaf (.str "file-host")), ("port", leaf (.int 1884))])]

/-- The environment sets another setting of the section. -/
def otherEnviron : List (String × String) := [("MESHCORE_RPC_SERVICES_MQTT__CLIENT_ID", "rpc-2")]

/-- The environment sets a setting of the file. -/
def sameEnviron : List (String × String) := [("MESHCORE_RPC_SERVICES_MQTT__HOST", "broker.lan")]

theorem fileData_sample :
    fileData sampleLibraries sampleFiles (some "config.yaml") = .ok sampleData := by rfl

theorem leafAt_sampleData {path : List String} {w : Value}
    (h : (node sampleData).leafAt path = some w) :
    path = ["mqtt", "host"] ∨ path = ["mqtt", "port"] := by
  obtain ⟨top, t, rest, rfl, ht, hrest⟩ := exists_of_leafAt_node h
  obtain ⟨rfl, rfl⟩ : top = "mqtt" ∧
      t = node [("host", leaf (.str "file-host")), ("port", leaf (.int 1884))] := by
    simpa [sampleData] using ht
  obtain ⟨name, t, rest, rfl, ht, hrest⟩ := exists_of_leafAt_node hrest
  obtain ⟨rfl, rfl⟩ | ⟨rfl, rfl⟩ : (name = "host" ∧ t = leaf (.str "file-host")) ∨
      (name = "port" ∧ t = leaf (.int 1884)) := by
    simpa using ht
  · exact .inl (by rw [eq_nil_of_leafAt_leaf hrest])
  · exact .inr (by rw [eq_nil_of_leafAt_leaf hrest])

/-- The file's host and port stay beside the client id of the environment. -/
theorem env_overrides_other : ∃ cfg,
    AppConfig.load sampleLibraries sampleFiles otherEnviron (some "config.yaml") = .ok cfg ∧
      EnvOverrides sampleLibraries (nestedEnviron envPrefix envNestedDelimiter otherEnviron)
        sampleData cfg := by
  obtain ⟨cfg, hcfg⟩ : ∃ cfg, AppConfig.load sampleLibraries sampleFiles otherEnviron
      (some "config.yaml") = .ok cfg := exists_ok_of_isSome (by decide +kernel)
  refine ⟨cfg, hcfg, (env_overrides_iff fileData_sample rfl hcfg).mpr ?_⟩
  intro path type default v w _ hv hw
  rcases leafAt_sampleData hw with rfl | rfl
  · have hhost : (nestedEnviron envPrefix envNestedDelimiter otherEnviron).leafAt ["mqtt", "host"] =
        none := by decide +kernel
    rw [hhost] at hv
    cases hv
  · have hport : (nestedEnviron envPrefix envNestedDelimiter otherEnviron).leafAt ["mqtt", "port"] =
        none := by decide +kernel
    rw [hport] at hv
    cases hv

/-- The host of the file is kept although the environment sets another. -/
theorem file_host_kept : ¬ ∀ cfg,
    AppConfig.load sampleLibraries sampleFiles sameEnviron (some "config.yaml") = .ok cfg →
      EnvOverrides sampleLibraries (nestedEnviron envPrefix envNestedDelimiter sameEnviron)
        sampleData cfg := by
  intro h
  obtain ⟨cfg, hcfg⟩ : ∃ cfg, AppConfig.load sampleLibraries sampleFiles sameEnviron
      (some "config.yaml") = .ok cfg := exists_ok_of_isSome (by decide +kernel)
  have hfile : cfg.leafAt ["mqtt", "host"] = _ := load_setting fileData_sample rfl hcfg rfl
  rw [h cfg hcfg ["mqtt", "host"] .str (some (.str "localhost")) rfl] at hfile
  have hdiffer : ¬ (((nestedEnviron envPrefix envNestedDelimiter sameEnviron).leafAt
        ["mqtt", "host"]).or ((node sampleData).leafAt ["mqtt", "host"])).elim
          (some (.str "localhost")) (sampleConvert .str) =
      (((node sampleData).leafAt ["mqtt", "host"]).or ((nestedEnviron envPrefix
        envNestedDelimiter sameEnviron).leafAt ["mqtt", "host"])).elim
          (some (.str "localhost")) (sampleConvert .str) := by
    decide +kernel
  exact hdiffer hfile

end Config

end MeshcoreRpc
