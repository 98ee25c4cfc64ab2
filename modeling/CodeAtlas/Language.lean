import CodeAtlas.Path

/-!
# Source languages

Two grammars cover the source files: one for C and one for C++.  Which of them a file is read with
depends on the extension of its path alone.
-/

namespace CodeAtlas

/-- The grammar that a source file is read with. -/
inductive Language where
  | c
  | cpp
  deriving DecidableEq, Repr

namespace Language

/-- The name of a grammar. -/
def name : Language → String
  | .c => "c"
  | .cpp => "cpp"

/-- The extensions of C++ sources and headers; a plain `h` counts as C. -/
def cppExtensions : List String :=
  ["cpp", "hpp", "cc", "cxx", "hh", "hxx", "c++", "h++", "ipp", "tpp"]

/-- The grammar of an extension, in either case. -/
def ofExtension? (ext : String) : Option Language :=
  let ext := Text.lowerAscii ext
  if ext == "c" || ext == "h" then some .c
  else if cppExtensions.contains ext then some .cpp
  else none

/-- The grammar of a path. -/
def ofPath? (p : String) : Option Language := (Path.extension? p).bind ofExtension?

end Language

end CodeAtlas
