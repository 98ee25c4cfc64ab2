/-!
# The filter of log records

Which records are logged is said by a level for everything and levels for single modules.  The
filter is one line: the general level first, then the modules in the order of their names.  A module
that is not named with its package belongs to the package `symgraph`.
-/

namespace CodeAtlas

/-- The levels of the log. -/
structure LogLevels where
  default : String
  /-- Module names and their levels. -/
  modules : List (String × String)
  deriving DecidableEq, Repr, Inhabited

namespace LogLevels

/-- The package whose modules may be named without it. -/
def package : String := "symgraph"

/-- Whether a text holds two colons in a row. -/
def hasPathSeparator : List Char → Bool
  | ':' :: ':' :: _ => true
  | _ :: cs => hasPathSeparator cs
  | [] => false

/-- The full name of a module. -/
def target (module_ : String) : String :=
  if hasPathSeparator module_.toList || module_ == package then module_
  else package ++ "::" ++ module_

/-- The filter line. -/
def directives (levels : LogLevels) : String :=
  let modules := levels.modules.mergeSort
    (fun a b => if a.1 = b.1 then decide (a.2 ≤ b.2) else decide (a.1 ≤ b.1))
  modules.foldl (fun line (m, level) => line ++ "," ++ target m ++ "=" ++ level) levels.default

end LogLevels

end CodeAtlas
