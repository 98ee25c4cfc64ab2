import Std.Data.ExtTreeMap
import Std.Data.ExtTreeSet
import CodeAtlas.Digest.Sha256
import CodeAtlas.Symbol.Kind

/-!
# Identifiers of symbols

A symbol is identified by sixteen hexadecimal digits taken from a digest of its content: the method
that reported it, its kind, name, file and line, and an ordinal that tells apart the symbols of one
file.  An unchanged file therefore gives the same identifiers on every build.

The content is encoded as bytes with a zero byte behind each of the four texts and four bytes for
each of the two numbers, so that texts without zero characters are encoded unambiguously.
-/

namespace CodeAtlas

/-- The identifier of a symbol. -/
structure SymbolId where
  text : String
  deriving DecidableEq, Repr, Inhabited, Hashable

namespace SymbolId

instance : Ord SymbolId := ⟨fun a b => compare a.text b.text⟩

theorem compare_eq (a b : SymbolId) : compare a b = compare a.text b.text := rfl

instance : Std.TransOrd SymbolId where
  eq_swap {a b} := by
    rw [compare_eq, compare_eq]
    exact Std.OrientedOrd.eq_swap
  isLE_trans {a b c} h h' := by
    rw [compare_eq] at *
    exact Std.TransOrd.isLE_trans h h'

instance : Std.LawfulEqOrd SymbolId where
  eq_of_compare {a b} h := by
    have := Std.LawfulEqOrd.eq_of_compare (compare_eq a b ▸ h)
    cases a; cases b; simp_all

instance : ToString SymbolId := ⟨SymbolId.text⟩

/-- Whether one identifier is listed before or together with another. -/
def le (a b : SymbolId) : Bool := (compare a b).isLE

/-- The number of digits of an identifier. -/
def length : Nat := 16

/-- The content that an identifier is derived from. -/
structure Content where
  origin : Origin
  kind : SymbolKind
  name : String
  file : String
  line : UInt32
  ordinal : UInt32
  deriving DecidableEq

/-- The four bytes of a number, least significant first. -/
def word32Bytes (w : UInt32) : List UInt8 :=
  [w.toUInt8, (w >>> 8).toUInt8, (w >>> 16).toUInt8, (w >>> 24).toUInt8]

/-- A text with the zero byte that ends it. -/
def terminated (s : String) : List UInt8 := s.toUTF8.toList ++ [0]

/-- The bytes that stand for a content. -/
def Content.encode (c : Content) : List UInt8 :=
  terminated c.origin.name ++ terminated c.kind.name ++ terminated c.name ++ terminated c.file ++
    word32Bytes c.line ++ word32Bytes c.ordinal

/-- The identifier of a content. -/
def derive (c : Content) : SymbolId :=
  ⟨String.ofList (((Sha256.digest c.encode).take (length / 2)).flatMap Text.hexByte)⟩

end SymbolId

end CodeAtlas
