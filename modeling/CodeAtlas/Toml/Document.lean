import CodeAtlas.Settings.Value

/-!
# Documents of tables

A settings file is a document in the TOML format: entries with a name and a value, and headers that
say in which table the entries below them stand.  The same table can be reached in several ways, and
the format says which of them may be mixed: a table may be filled under one header only, by dotted
names only, or by an inline value only, while a table that so far was only passed through on the way
to another one may still get a header of its own.

What is kept of a table is therefore its entries and how it came about.
-/

namespace CodeAtlas

/-- How a table came about. -/
inductive TableOrigin where
  /-- It has a header. -/
  | header
  /-- It was passed through by the header of another table. -/
  | passed
  /-- It was passed through by a dotted name. -/
  | dotted
  deriving DecidableEq, Repr, Inhabited

/-- What a name of a document stands for. -/
inductive TomlNode where
  | value (v : ConfigValue)
  | table (origin : TableOrigin) (entries : List (String × TomlNode))
  /-- The tables of one repeated header, the last one first. -/
  | tables (reversed : List (List (String × TomlNode)))
  deriving Inhabited

namespace TomlNode

/-- The entries of a table. -/
abbrev Entries := List (String × TomlNode)

mutual

/-- The value that a node stands for. -/
def toConfig : TomlNode → ConfigValue
  | .value v => v
  | .table _ entries => .table (entriesToConfig entries)
  | .tables reversed => .list (tablesToConfig reversed).reverse

/-- The values of entries. -/
def entriesToConfig : Entries → List (String × ConfigValue)
  | [] => []
  | (name, node) :: rest => (name, node.toConfig) :: entriesToConfig rest

/-- The values of tables. -/
def tablesToConfig : List Entries → List ConfigValue
  | [] => []
  | entries :: rest => .table (entriesToConfig entries) :: tablesToConfig rest

end

/-- Changes the entry of a name, which may not be there yet; the change may be refused. -/
def updateEntry (name : String) (change : Option TomlNode → Option TomlNode) :
    Entries → Option Entries
  | [] => (change none).map fun node => [(name, node)]
  | (key, old) :: rest =>
    if key = name then (change (some old)).map fun node => (key, node) :: rest
    else (updateEntry name change rest).map ((key, old) :: ·)

/-- Passes through the tables of a path of names, which are made where they are missing, and changes
the entries of the last one.  A dotted name cannot pass through a table with a header, and nothing
passes through a value.  `origin` is that of the tables that are made. -/
def descend (origin : TableOrigin) (change : TableOrigin → Entries → Option Entries) :
    List String → TableOrigin → Entries → Option Entries
  | [], own, entries => change own entries
  | name :: path, _, entries =>
    updateEntry name (fun
      | none => (descend origin change path origin []).map (.table origin ·)
      | some (.value _) => none
      | some (.table own inner) =>
        if origin = .dotted ∧ own = .header then none
        else (descend origin change path own inner).map (.table own ·)
      | some (.tables []) => none
      | some (.tables (last :: others)) =>
        (descend origin change path .header last).map fun last => .tables (last :: others))
      entries

/-- Adds a value under a path of names to a table.  The path leads through tables that only dotted
names have filled, and its last name must be new. -/
def addValue (path : List String) (name : String) (v : ConfigValue) (entries : Entries) :
    Option Entries :=
  descend .dotted (fun own inner =>
    if path.isEmpty ∨ own = .dotted then
      updateEntry name (fun
        | none => some (.value v)
        | some _ => none) inner
    else none) path .header entries

/-- Opens the table of a header. -/
def openTable (path : List String) (name : String) (root : Entries) : Option Entries :=
  descend .passed (fun _ inner =>
    updateEntry name (fun
      | none => some (.table .header [])
      | some (.table .passed entries) => some (.table .header entries)
      | some _ => none) inner) path .header root

/-- Opens a further table of a repeated header. -/
def openNextTable (path : List String) (name : String) (root : Entries) : Option Entries :=
  descend .passed (fun _ inner =>
    updateEntry name (fun
      | none => some (.tables [[]])
      | some (.tables reversed) => some (.tables ([] :: reversed))
      | some _ => none) inner) path .header root

/-- Adds a value below the header that was opened last. -/
def addBelow (header path : List String) (name : String) (v : ConfigValue) (root : Entries) :
    Option Entries :=
  descend .passed (fun _ inner => addValue path name v inner) header .header root

end TomlNode

end CodeAtlas
