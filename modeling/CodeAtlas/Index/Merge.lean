import CodeAtlas.Files.Basic
import CodeAtlas.Index.Project

/-!
# Putting together what is known about a project

Syntax trees are the primary source: every symbol that they give is kept, and only they give calls
and includes.  Supplementary tools are asked after them, in order, and contribute the symbols whose
name and file nobody has given before.  A file that cannot be read and a tool that is missing or
fails contribute nothing; only a project without any symbol is a failure.
-/

namespace CodeAtlas

open Std (ExtTreeSet)

/-- A supplementary tool, as far as indexing knows it. -/
structure SymbolSource where
  origin : Origin
  isAvailable : Bool := true
  /-- What the tool finds in the files of a project with the given root. -/
  extract : (root : String) → (files : List String) → Except IndexError (List Symbol)

namespace SymbolSource

/-- The symbols of a tool that is there and succeeds. -/
def symbols? (source : SymbolSource) (root : String) (files : List String) :
    Option (List Symbol) :=
  if source.isAvailable then
    match source.extract root files with
    | .ok symbols => some symbols
    | .error _ => none
  else none

end SymbolSource

/-- Reads and extracts a file of a project. -/
def FileTree.extractFile (t : FileTree) (measurer : Measurer) (root path : String) :
    Except IndexError Extraction :=
  match t.read path with
  | .ok content => content.extract measurer (Path.relative root path)
  | .error cause => .error (.unreadable path cause)

namespace MergedExtraction

/-- The keys of symbols that were given already: a name and a file each. -/
abbrev Keys := ExtTreeSet (List String)

/-- The key of a symbol. -/
def keyOf (s : Symbol) : List String := [s.name, s.file]

/-- Those symbols of a list whose keys were not given before, in the list or outside, and all keys
given after it. -/
def unseen (seen : Keys) : List Symbol → List Symbol × Keys
  | [] => ([], seen)
  | s :: ss =>
    if seen.contains (keyOf s) then unseen seen ss
    else
      let (rest, seen) := unseen (seen.insert (keyOf s)) ss
      (s :: rest, seen)

/-- What supplementary symbols add to what was given already. -/
def supplement (state : List Symbol × List Origin × Keys) (origin : Origin)
    (symbols : List Symbol) : List Symbol × List Origin × Keys :=
  let (added, origins, seen) := state
  let (new, seen) := unseen seen symbols
  (added ++ new, origins ++ [origin], seen)

/-- The keys of symbols. -/
def keysOf (symbols : List Symbol) : Keys := ExtTreeSet.ofList (symbols.map keyOf)

/-- Puts together the extractions of the files of a project and the symbols of the tools that are
there and succeed. -/
def ofParts (files : List String) (extractions : List Extraction)
    (supplements : List (Origin × List Symbol)) : MergedExtraction :=
  let primary := extractions.foldl Extraction.append {}
  let origins : List Origin := if extractions.isEmpty then [] else [.syntaxTree]
  let (added, origins, _) := supplements.foldl (fun state (origin, symbols) =>
    supplement state origin symbols) ([], origins, keysOf primary.symbols)
  { extraction := { primary with symbols := primary.symbols ++ added }, files, origins }

end MergedExtraction

/-- All that is known about the given files of a project. -/
def FileTree.merge (t : FileTree) (measurer : Measurer) (sources : List SymbolSource)
    (projectId root : String) (paths : List String) : Except IndexError MergedExtraction :=
  let extractions := paths.filterMap fun path => (t.extractFile measurer root path).toOption
  let supplements := sources.filterMap fun source =>
    (source.symbols? root paths).map fun symbols => (source.origin, symbols)
  let merged :=
    MergedExtraction.ofParts (paths.map (Path.relative root)) extractions supplements
  if merged.extraction.symbols.isEmpty then .error (.nothingExtracted projectId) else .ok merged

end CodeAtlas
