import CodeAtlas.Json.Basic
import CodeAtlas.Settings.Basic
import CodeAtlas.Settings.Value
import CodeAtlas.Toml.Quoted
import CodeAtlas.Word

/-!
# Settings as layers and as documents

The defaults are a layer that others go over, and the merged layers are read back into settings.  A
value of the wrong type is refused with the path to it; names that are not known are passed over.
A record may also be given as a list of its fields in order.  Of several refusals the first counts:
in a table in the order of the names, in a list in the order of the list.

Settings are written as a document in the TOML format, which can be read back, and as JSON.
-/

namespace CodeAtlas

/-- Why merged layers are no settings. -/
inductive ConfigErrorKind where
  /-- A value of another type was expected. -/
  | invalidType
  /-- A number does not fit. -/
  | invalidValue
  /-- The settings file cannot be read. -/
  | malformed
  deriving DecidableEq, Repr, Inhabited

/-- A refusal, and the names and places on the way to what is refused. -/
structure ConfigError where
  kind : ConfigErrorKind
  path : List String
  deriving DecidableEq, Repr, Inhabited

/-- Reads a value of a layer. -/
abbrev ConfigReader (α : Type) := ConfigValue → Except ConfigError α

namespace ConfigReader

/-- Refuses a value for its type. -/
def refuseType : Except ConfigError α := .error ⟨.invalidType, []⟩

/-- An error that arose below a name. -/
def below (name : String) (result : Except ConfigError α) : Except ConfigError α :=
  result.mapError fun e => { e with path := name :: e.path }

/-- Reads a text. -/
def text : ConfigReader String
  | .text s => .ok s
  | _ => refuseType

/-- Reads a truth value. -/
def boolean : ConfigReader Bool
  | .boolean b => .ok b
  | _ => refuseType

/-- Reads a natural number below a bound. -/
def natural (bound : Nat) : ConfigReader Nat
  | .integer n => if 0 ≤ n ∧ n < bound then .ok n.toNat else .error ⟨.invalidValue, []⟩
  | _ => refuseType

/-- Reads a list whose items are all read alike. -/
def list (item : ConfigReader α) : ConfigReader (List α)
  | .list items => (items.zipIdx).mapM fun (v, i) => below (toString i) (item v)
  | _ => refuseType

/-- Reads a table whose entries are all read alike, in the order of their names. -/
def entries (item : ConfigReader α) : ConfigReader (List (String × α))
  | .table es =>
    (es.mergeSort fun a b => decide (a.1 ≤ b.1)).mapM fun (name, v) =>
      below name ((item v).map fun a => (name, a))
  | _ => refuseType

/-- The fields of a record, each with the name or the place under which errors in it are
reported. -/
structure Fields where
  values : List (String × String × ConfigValue)

/-- Whether a value can be read. -/
def check (read : ConfigReader α) : ConfigReader Unit := fun v => (read v).map fun _ => ()

/-- The fields of a record, which may be given as a list.  The names come with the readers of the
fields, because a list is refused for the first of its items that is. -/
def fields (shape : List (String × ConfigReader Unit)) : ConfigReader Fields
  | .table es => .ok ⟨es.map fun (name, v) => (name, name, v)⟩
  | .list items => do
    let placed := (shape.zip items).zipIdx
    placed.forM fun ((field, v), i) => below (toString i) (field.2 v)
    return ⟨placed.map fun ((field, v), i) => (field.1, toString i, v)⟩
  | _ => refuseType

/-- Reads a field that may be missing, and then has a default. -/
def Fields.get (fs : Fields) (name : String) (read : ConfigReader α) (default : α) :
    Except ConfigError α :=
  match fs.values.find? fun f => f.1 = name with
  | some (_, place, v) => below place (read v)
  | none => .ok default

end ConfigReader

open ConfigReader

/-- The numbers that a version may have. -/
def versionBound : Nat := wordValues 32

/-- The numbers that a count may have. -/
def countBound : Nat := wordValues 64

namespace IndexingSettings

/-- Reads the settings of indexing. -/
def read (threads : Nat) : ConfigReader IndexingSettings := fun v => do
  let fs ← fields [("parallel_threads", check (natural countBound)),
    ("extensions", check (list text)), ("ignore_patterns", check (list text)),
    ("max_file_size", check (natural countBound))] v
  let d : IndexingSettings := { parallelThreads := threads }
  let extensions ← fs.get "extensions" (list text) d.extensions
  let ignorePatterns ← fs.get "ignore_patterns" (list text) []
  let maxFileSize ← fs.get "max_file_size" (natural countBound) d.maxFileSize
  let parallelThreads ← fs.get "parallel_threads" (natural countBound) threads
  return { parallelThreads, extensions, ignorePatterns, maxFileSize }

/-- The layer of settings of indexing. -/
def layer (s : IndexingSettings) : ConfigValue :=
  .table [("parallel_threads", .integer s.parallelThreads),
    ("extensions", .list (s.extensions.map .text)),
    ("ignore_patterns", .list (s.ignorePatterns.map .text)),
    ("max_file_size", .integer s.maxFileSize)]

end IndexingSettings

namespace WatchSettings

/-- Reads the settings of watching. -/
def read : ConfigReader WatchSettings := fun v => do
  let count := check (natural countBound)
  let fs ← fields [("debounce_ms", count), ("batch_size", count), ("tick_ms", count),
    ("queue_capacity", count)] v
  let d : WatchSettings := {}
  let batchSize ← fs.get "batch_size" (natural countBound) d.batchSize
  let debounceMs ← fs.get "debounce_ms" (natural countBound) d.debounceMs
  let queueCapacity ← fs.get "queue_capacity" (natural countBound) d.queueCapacity
  let tickMs ← fs.get "tick_ms" (natural countBound) d.tickMs
  return { debounceMs, batchSize, tickMs, queueCapacity }

/-- The layer of settings of watching. -/
def layer (s : WatchSettings) : ConfigValue :=
  .table [("debounce_ms", .integer s.debounceMs), ("batch_size", .integer s.batchSize),
    ("tick_ms", .integer s.tickMs), ("queue_capacity", .integer s.queueCapacity)]

end WatchSettings

namespace ToolSettings

/-- Reads the settings of a tool. -/
def read : ConfigReader ToolSettings := fun v => do
  let fs ← fields [("enabled", check boolean), ("command", check text)] v
  let command ← fs.get "command" text ""
  let enabled ← fs.get "enabled" boolean false
  return { enabled, command }

/-- The layer of settings of a tool. -/
def layer (s : ToolSettings) : ConfigValue :=
  .table [("enabled", .boolean s.enabled), ("command", .text s.command)]

end ToolSettings

namespace ToolsSettings

/-- Reads the settings of the tools. -/
def read : ConfigReader ToolsSettings := fun v => do
  let tool := check ToolSettings.read
  let fs ← fields [("ctags", tool), ("cscope", tool), ("clangd", tool)] v
  let d : ToolsSettings := {}
  let clangd ← fs.get "clangd" ToolSettings.read d.clangd
  let cscope ← fs.get "cscope" ToolSettings.read d.cscope
  let ctags ← fs.get "ctags" ToolSettings.read d.ctags
  return { ctags, cscope, clangd }

/-- The layer of settings of the tools. -/
def layer (s : ToolsSettings) : ConfigValue :=
  .table [("ctags", s.ctags.layer), ("cscope", s.cscope.layer), ("clangd", s.clangd.layer)]

end ToolsSettings

namespace LogLevels

/-- Reads the levels of the log. -/
def read : ConfigReader LogLevels := fun v => do
  let fs ← fields [("default", check text), ("modules", check (entries text))] v
  let default ← fs.get "default" text "warn"
  let modules ← fs.get "modules" (entries text) []
  return { default, modules }

/-- The layer of the levels of the log. -/
def layer (s : LogLevels) : ConfigValue :=
  .table [("default", .text s.default),
    ("modules", .table (s.modules.map fun (name, level) => (name, .text level)))]

end LogLevels

namespace Settings

/-- Reads settings on a machine with the given number of threads. -/
def read (threads : Nat) : ConfigReader Settings := fun v => do
  let fs ← fields [("version", check (natural versionBound)), ("index_path", check text),
    ("workspace_root", check text), ("indexing", check (IndexingSettings.read threads)),
    ("watch", check WatchSettings.read), ("backends", check ToolsSettings.read),
    ("logging", check LogLevels.read)] v
  let d := Settings.default threads
  let tools ← fs.get "backends" ToolsSettings.read d.tools
  let indexPath ← fs.get "index_path" text d.indexPath
  let indexing ← fs.get "indexing" (IndexingSettings.read threads) d.indexing
  let logging ← fs.get "logging" LogLevels.read d.logging
  let version ← fs.get "version" (natural versionBound) d.version
  let watch ← fs.get "watch" WatchSettings.read d.watch
  let workspaceRoot ← fs.get "workspace_root" (fun v => (text v).map some) none
  return { version, indexPath, workspaceRoot, indexing, watch, tools, logging }

/-- The layer of settings. -/
def layer (s : Settings) : ConfigValue :=
  let root := match s.workspaceRoot with
    | some r => [("workspace_root", .text r)]
    | none => []
  .table ([("version", .integer s.version), ("index_path", .text s.indexPath)] ++ root ++
    [("indexing", s.indexing.layer), ("watch", s.watch.layer), ("backends", s.tools.layer),
      ("logging", s.logging.layer)])

/-- The settings of layers over the defaults. -/
def ofLayers (threads : Nat) (layers : List ConfigValue) : Except ConfigError Settings :=
  read threads (layers.foldl (ConfigValue.merge false) (Settings.default threads).layer)

end Settings

namespace ConfigValue

mutual

/-- A layer as JSON. -/
def toJson : ConfigValue → Json
  | .text s => .str s
  | .boolean b => .bool b
  | .integer n => .int n
  | .fraction => .null
  | .list items => .arr (itemsToJson items)
  | .table es => .obj (entriesToJson es)

/-- The items of a list as JSON. -/
def itemsToJson : List ConfigValue → List Json
  | [] => []
  | v :: vs => v.toJson :: itemsToJson vs

/-- The entries of a table as JSON. -/
def entriesToJson : List (String × ConfigValue) → List (String × Json)
  | [] => []
  | (name, v) :: rest => (name, v.toJson) :: entriesToJson rest

end

/-- The written form of a scalar, or of a list of texts: a list of several has one on each line. -/
def inlineToml : ConfigValue → String
  | .text s => Toml.quoted s
  | .boolean b => if b then "true" else "false"
  | .integer n => toString n
  | .list items =>
    let texts := items.map fun
      | .text s => Toml.quoted s
      | _ => ""
    match texts with
    | [] => "[]"
    | [one] => "[" ++ one ++ "]"
    | several => "[\n" ++ String.join (several.map fun s => "    " ++ s ++ ",\n") ++ "]"
  | .fraction => ""
  | .table _ => ""

/-- Whether a value is a table. -/
def isTable : ConfigValue → Bool
  | .table _ => true
  | _ => false

/-- The lines of the entries of a table that are no tables themselves. -/
def scalarLines (es : List (String × ConfigValue)) : String :=
  String.join ((es.filter fun e => !e.2.isTable).map fun (name, v) =>
    Toml.quotedName name ++ " = " ++ inlineToml v ++ "\n")

/-- The written form of a table with a header, and of the tables in it.  A table that holds nothing
but tables needs no header. -/
def sectionToml (header : String) (es : List (String × ConfigValue)) : String :=
  let lines := scalarLines es
  let inner := (es.filter fun e => e.2.isTable).map fun (name, v) =>
    match v with
    | .table es =>
      "\n[" ++ header ++ "." ++ Toml.quotedName name ++ "]\n" ++ scalarLines es
    | _ => ""
  (if lines.isEmpty ∧ ¬inner.isEmpty then "" else "\n[" ++ header ++ "]\n" ++ lines) ++
    String.join inner

/-- The written form of a layer, whose tables hold tables of scalars at most. -/
def toToml : ConfigValue → String
  | .table es =>
    scalarLines es ++ String.join (es.map fun (name, v) =>
      match v with
      | .table inner => sectionToml (Toml.quotedName name) inner
      | _ => "")
  | _ => ""

end ConfigValue

/-- Settings as a document. -/
def Settings.toToml (s : Settings) : String := s.layer.toToml

/-- Settings as JSON. -/
def Settings.toJson (s : Settings) : Json := s.layer.toJson

end CodeAtlas
