import CodeAtlas.Text.Utf8
import Mathlib.Data.Nat.Init
import Mathlib.Tactic.Lemma
import Mathlib.Tactic.SplitIfs

/-!
# Texts as bytes

The bytes of a text are those of its characters, one character after the other (`toList_toUTF8`).
An ASCII character is a single byte, and such a byte stands for nothing else
(`toNat_eq_of_mem_utf8EncodeChar`); so what is looked for among bytes, such as the end of a line, is
found where the character stands and nowhere inside another one.
-/

namespace CodeAtlas.Text

/-- The loop has put the bytes before its index into the accumulator. -/
lemma toList_loop (bytes : ByteArray) (i : Nat) (r : List UInt8) :
    ByteArray.toList.loop bytes i r = r.reverse ++ bytes.data.toList.drop i := by
  fun_induction ByteArray.toList.loop bytes i r with
  | case1 i r hi ih =>
    have hlength : i < bytes.data.toList.length := by rwa [Array.length_toList]
    have hget : bytes.get! i = bytes.data.toList[i] := by
      rw [Array.getElem_toList]
      exact getElem!_pos bytes.data i hi
    rw [ih, List.reverse_cons, List.append_assoc, hget, List.drop_eq_getElem_cons hlength,
      List.singleton_append]
  | case2 i r hi =>
    have hend : bytes.data.toList.length ≤ i := by
      rw [Array.length_toList]
      exact Nat.le_of_not_lt hi
    rw [List.drop_eq_nil_of_le hend, List.append_nil]

/-- A byte array as the list of its bytes. -/
lemma toList_byteArray (bytes : ByteArray) : bytes.toList = bytes.data.toList :=
  toList_loop bytes 0 []

/-- The bytes of a text are those of its characters. -/
lemma toList_toUTF8 (s : String) :
    s.toUTF8.toList = s.toList.flatMap String.utf8EncodeChar := by
  rw [toList_byteArray, String.toUTF8_eq_toByteArray, ← String.utf8Encode_toList, List.utf8Encode,
    List.data_toByteArray]

/-- The bytes of a text are read as the text. -/
lemma fromUTF8?_toList_toUTF8 (s : String) :
    String.fromUTF8? ⟨s.toUTF8.toList.toArray⟩ = some s := by
  rw [toList_byteArray, Array.toArray_toList]
  exact dif_pos s.isValidUTF8

/-- An ASCII byte stands for the character of its number. -/
lemma toNat_eq_of_mem_utf8EncodeChar {b : UInt8} {c : Char} (hb : b.toNat < 128)
    (h : b ∈ String.utf8EncodeChar c) : c.toNat = b.toNat := by
  simp only [String.utf8EncodeChar] at h
  -- The bytes of a longer sequence have their highest bit set.
  split_ifs at h with hone
  · obtain rfl := List.mem_singleton.mp h
    have hvalue : (UInt8.ofNat c.val.toNat).toNat = c.val.toNat := Nat.mod_eq_of_lt (by omega)
    exact hvalue.symm
  all_goals
    simp only [List.mem_cons, List.not_mem_nil, or_false] at h
    exfalso
    rcases h with rfl | rfl | rfl | rfl <;> simp only [UInt8.toNat_ofNat'] at hb <;> omega

/-- A text without a certain ASCII character has no such byte. -/
lemma not_mem_toUTF8 {s : String} {x : Char} (hx : x.toNat < 128) (h : x ∉ s.toList) :
    x.toNat.toUInt8 ∉ s.toUTF8.toList := by
  rw [toList_toUTF8, List.mem_flatMap]
  rintro ⟨c, hc, hmem⟩
  have hvalue : x.toNat.toUInt8.toNat = x.toNat := Nat.mod_eq_of_lt (by omega)
  have heq : c.toNat = x.toNat := by
    rw [← hvalue]
    exact toNat_eq_of_mem_utf8EncodeChar (by rwa [hvalue]) hmem
  have hchar : c = x := by rw [← Char.ofNat_toNat c, heq, Char.ofNat_toNat]
  exact h (hchar ▸ hc)

end CodeAtlas.Text
