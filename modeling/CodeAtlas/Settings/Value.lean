/-!
# Layers of settings

Settings come in layers: the defaults, a settings file and the environment.  Each layer is a tree of
values, and a later layer goes over an earlier one: tables are merged entry by entry, and any other
value takes the place of the one below it.
-/

namespace CodeAtlas

/-- A value in a layer of settings. -/
inductive ConfigValue where
  | text (s : String)
  | boolean (b : Bool)
  | integer (n : Int)
  /-- A number that is not an integer; no setting is one, so nothing else is kept of it. -/
  | fraction
  | list (items : List ConfigValue)
  | table (entries : List (String × ConfigValue))
  deriving Inhabited

namespace ConfigValue

/-- The value of a name in a table's entries. -/
def lookup? (name : String) : List (String × ConfigValue) → Option ConfigValue
  | [] => none
  | (key, value) :: rest => if key = name then some value else lookup? name rest

/-- The table that holds a value at the end of a path of names. -/
def nested (path : List String) (value : ConfigValue) : ConfigValue :=
  path.foldr (fun name inner => .table [(name, inner)]) value

mutual

/-- A value with another one over it.  Where `append` holds, lists are joined. -/
def merge (append : Bool) (below : ConfigValue) : ConfigValue → ConfigValue
  | .table upper =>
    match below with
    | .table entries => .table (mergeEntries append entries upper)
    | _ => .table upper
  | .list upper =>
    match below with
    | .list items => .list (if append then items ++ upper else upper)
    | _ => .list upper
  | upper => upper

/-- The entries of a table with those of another one over them. -/
def mergeEntries (append : Bool) (below : List (String × ConfigValue)) :
    List (String × ConfigValue) → List (String × ConfigValue)
  | [] => below
  | (name, value) :: rest =>
    let merged :=
      if (lookup? name below).isSome then
        below.map fun (key, old) =>
          if key = name then (key, merge append old value) else (key, old)
      else below ++ [(name, value)]
    mergeEntries append merged rest

end

end ConfigValue

end CodeAtlas
