/-!
# Words

Numbers that are kept or exchanged in a fixed number of bits, and the bounds that this sets on what
may be read.
-/

namespace CodeAtlas

/-- The number of values of a word of so many bits. -/
def wordValues (bits : Nat) : Nat := Nat.pow 2 bits

/-- The 32-bit word for a number; a number that is too large becomes the largest word. -/
def saturatedWord (n : Nat) : UInt32 := (min n (wordValues 32 - 1)).toUInt32

end CodeAtlas
