import CodeAtlas.Text.Blank
import CodeAtlas.Text.Ascii

/-!
# Paths as texts and as components

A path is a text with `/` between its parts.  Two texts name the same path when they have the same
components: repeated and trailing slashes do not count, nor does a `.` after the first place, while
`..` is kept as it stands because resolving it needs the file system.

From the components come the file name, the extension, the order in which paths are listed and the
form relative to a project root, which is what every symbol, include and document is filed under.
-/

namespace CodeAtlas

/-- One component of a path. -/
inductive Component where
  /-- The leading slash of an absolute path. -/
  | root
  /-- A leading `.`. -/
  | current
  /-- A `..`. -/
  | parent
  /-- A name. -/
  | name (text : String)
  deriving DecidableEq, Repr, Inhabited

/-- The text of a component. -/
def Component.text : Component → String
  | .root => "/"
  | .current => "."
  | .parent => ".."
  | .name s => s

/-- The rank of a component's kind in the order of paths. -/
def Component.rank : Component → Nat
  | .root => 0
  | .current => 1
  | .parent => 2
  | .name _ => 3

/-- Components are ordered by kind, and names among themselves by their text. -/
def Component.compare (a b : Component) : Ordering :=
  (Ord.compare a.rank b.rank).then (Ord.compare a.text b.text)

namespace Component

instance : Ord Component := ⟨Component.compare⟩

theorem compare_eq (a b : Component) :
    Ord.compare a b = (Ord.compare a.rank b.rank).then (Ord.compare a.text b.text) := rfl

instance : Std.TransOrd Component :=
  inferInstanceAs (Std.TransCmp (compareLex (compareOn rank) (compareOn text)))

/-- Components of one rank and one text are the same. -/
theorem eq_of_rank_of_text {a b : Component} (hrank : a.rank = b.rank) (htext : a.text = b.text) :
    a = b := by
  cases a <;> cases b <;> simp_all [rank, text]

instance : Std.LawfulEqOrd Component where
  eq_of_compare {a b} h := by
    rw [compare_eq, Ordering.then_eq_eq] at h
    exact eq_of_rank_of_text (Std.LawfulEqOrd.eq_of_compare h.1)
      (Std.LawfulEqOrd.eq_of_compare h.2)

end Component

namespace Path

/-- Whether a path starts at the root. -/
def isAbsolute (p : String) : Bool := p.toList.head? == some '/'

/-- The component that a piece between slashes stands for, in any place but the first: an empty
piece and a `.` stand for none. -/
def componentOfPiece? (piece : List Char) : Option Component :=
  if piece = [] ∨ piece = ['.'] then none
  else if piece = ['.', '.'] then some .parent
  else some (.name (String.ofList piece))

/-- The components of a path. -/
def components (p : String) : List Component :=
  let pieces := splitAtClass (· == '/') p.toList
  let body := pieces.filterMap componentOfPiece?
  if isAbsolute p then .root :: body
  else if pieces.head? = some ['.'] then .current :: body
  else body

/-- Whether two texts name the same path. -/
def same (p q : String) : Bool := components p == components q

/-- The order of paths: component by component. -/
def compareComponents : List Component → List Component → Ordering
  | [], [] => .eq
  | [], _ :: _ => .lt
  | _ :: _, [] => .gt
  | a :: as, b :: bs => (a.compare b).then (compareComponents as bs)

/-- Whether one path is listed before or together with another. -/
def le (p q : String) : Bool := (compareComponents (components p) (components q)).isLE

/-- The last component of a path, when that is a name. -/
def fileName? (p : String) : Option String :=
  match (components p).getLast? with
  | some (.name s) => some s
  | _ => none

/-- The part of a file name behind its last dot.  A name whose only dot is its first character has
no extension. -/
def extensionOfName? (name : String) : Option String :=
  let reversed := name.toList.reverse
  let ext := reversed.takeWhile (· != '.')
  match reversed.dropWhile (· != '.') with
  | [] => none
  | [_] => none
  | _ => some (String.ofList ext.reverse)

/-- The extension of a path. -/
def extension? (p : String) : Option String := (fileName? p).bind extensionOfName?

/-- The path of `q` seen from the directory `p`; an absolute `q` is itself. -/
def join (p q : String) : String :=
  if isAbsolute q || p.isEmpty then q
  else if p.toList.getLast? = some '/' then p ++ q
  else p ++ "/" ++ q

/-- What is left of a list of components behind a given beginning. -/
def dropComponents? : List Component → List Component → Option (List Component)
  | [], cs => some cs
  | _ :: _, [] => none
  | b :: bs, c :: cs => if b = c then dropComponents? bs cs else none

/-- The components of `p` below the directory `root`. -/
def below? (root p : String) : Option (List Component) :=
  dropComponents? (components root) (components p)

/-- The texts of components joined by slashes. -/
def joinComponents (cs : List Component) : String := "/".intercalate (cs.map Component.text)

/-- The text of a path with the given components. -/
def ofComponents : List Component → String
  | .root :: cs => "/" ++ joinComponents cs
  | cs => joinComponents cs

/-- Pieces without those at the end that stand for no component. -/
def dropEmptyEnd (pieces : List (List Char)) : List (List Char) :=
  (pieces.reverse.dropWhile fun p => (componentOfPiece? p).isNone).reverse

/-- The text of pieces with slashes between them. -/
def joinPieces (pieces : List (List Char)) : String :=
  "/".intercalate (pieces.map String.ofList)

/-- The path of the directory that a path lies in: its text up to the last component but one.  The
root and the empty path lie nowhere. -/
def parent? (p : String) : Option String :=
  match splitAtClass (· == '/') p.toList with
  | [] => none
  | first :: rest =>
    match dropEmptyEnd rest with
    | [] => if first = [] then none else some ""
    | rest => some (if first = [] ∧ dropEmptyEnd rest.dropLast = [] then "/"
        else joinPieces (first :: dropEmptyEnd rest.dropLast))

/-- The text of an absolute path with the given names. -/
def ofNames (names : List String) : String := "/" ++ "/".intercalate names

/-- The form of `p` under which a project with the given root files it: the components below the
root joined by slashes, or, for a path elsewhere, its text with backslashes turned to slashes. -/
def relative (root p : String) : String :=
  match below? root p with
  | some cs => joinComponents cs
  | none => String.ofList (p.toList.map fun c => if c = '\\' then '/' else c)

/-- Whether a component names a hidden file or directory. -/
def Component.isHidden : Component → Bool
  | .name s => s.toList.head? == some '.'
  | _ => false

/-- Whether a path is hidden as seen from a root: one of its components below the root starts with
a dot. -/
def isHiddenBelow (root p : String) : Bool :=
  ((below? root p).getD (components p)).any Component.isHidden

/-- Whether the extension of a path is in a list, in either case. -/
def hasExtension (extensions : List String) (p : String) : Bool :=
  match extension? p with
  | some ext => extensions.any fun allowed => Text.lowerAscii allowed == Text.lowerAscii ext
  | none => false

end Path

end CodeAtlas
