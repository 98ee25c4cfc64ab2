/-!
# Patterns over bytes

A pattern describes a set of byte strings by the usual operations: nothing, the empty string, one
byte of a set, concatenation, choice and repetition.  A string is matched by reading it byte by byte
and keeping the list of patterns one of which the rest has to match: the partial derivatives.  There
are only finitely many of them for a pattern, so the list stays short when repeated entries are left
out.
-/

namespace CodeAtlas

/-- A set of bytes: those in one of the ranges, or the others. -/
structure ByteSet where
  negated : Bool := false
  ranges : List (UInt8 × UInt8)
  deriving DecidableEq, Repr, Inhabited

/-- Whether a byte is in a set. -/
def ByteSet.contains (s : ByteSet) (b : UInt8) : Bool :=
  s.ranges.any (fun (low, high) => low ≤ b && b ≤ high) != s.negated

/-- A set of byte strings. -/
inductive BytePattern where
  | nothing
  | empty
  | byte (set : ByteSet)
  | seq (first second : BytePattern)
  | either (left right : BytePattern)
  | many (repeated : BytePattern)
  deriving DecidableEq, Repr, Inhabited

namespace BytePattern

/-- The pattern of one given byte. -/
def ofByte (b : UInt8) : BytePattern := .byte ⟨false, [(b, b)]⟩

/-- The pattern of a given string. -/
def ofBytes (bs : List UInt8) : BytePattern :=
  bs.foldr (fun b p => .seq (ofByte b) p) .empty

/-- One of several patterns. -/
def choice (ps : List BytePattern) : BytePattern := ps.foldr .either .nothing

/-- The pattern of all strings. -/
def anything : BytePattern := .many (.byte ⟨true, []⟩)

/-- Whether a pattern matches the empty string. -/
def nullable : BytePattern → Bool
  | .nothing => false
  | .empty => true
  | .byte _ => false
  | .seq p q => p.nullable && q.nullable
  | .either p q => p.nullable || q.nullable
  | .many _ => true

/-- One pattern after another, where the first matches nothing but the empty string if it is
`empty`. -/
def andThen (p q : BytePattern) : BytePattern := if p = .empty then q else .seq p q

/-- The patterns one of which the rest of a string has to match, once a byte of it is read. -/
def after (b : UInt8) : BytePattern → List BytePattern
  | .nothing => []
  | .empty => []
  | .byte set => if set.contains b then [.empty] else []
  | .seq p q =>
    let first := (p.after b).map (·.andThen q)
    if p.nullable then first ++ q.after b else first
  | .either p q => p.after b ++ q.after b
  | .many p => (p.after b).map (·.andThen (.many p))

/-- Whether a string is matched by one of several patterns. -/
def anyMatches (ps : List BytePattern) : List UInt8 → Bool
  | [] => ps.any nullable
  | b :: bs => anyMatches (ps.flatMap (·.after b)).eraseDups bs

/-- Whether a pattern matches a string. -/
def isMatch (p : BytePattern) (bs : List UInt8) : Bool := anyMatches [p] bs

end BytePattern

end CodeAtlas
