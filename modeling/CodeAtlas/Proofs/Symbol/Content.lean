import CodeAtlas.Proofs.Text.Search
import CodeAtlas.Proofs.Text.Utf8
import CodeAtlas.Symbol.Id
import Mathlib.Data.List.Basic
import Mathlib.Logic.Function.Basic

/-!
# What identifiers are derived from

An identifier is derived from the bytes of a content: four texts that are ended by a zero byte, and
two numbers of four bytes each, which may hold zero bytes themselves.  Two contents with the same
bytes are therefore compared from both ends.  At the front, the names of the origin and of the kind
end at the first zero byte and the second, because neither has one of its own; at the back, the
numbers are the last eight bytes.  What is left between them is the name and the file with a zero
character between them (`encode_eq_encode_iff`), and this text falls apart at its first zero
character if the name has none.
-/

namespace CodeAtlas

/-- A kind is known by its written name. -/
lemma SymbolKind.name_injective : Function.Injective SymbolKind.name := by
  intro k k' h
  exact Option.some.inj (by rw [← ofName?_name k, h, ofName?_name])

/-- An origin is known by its written name. -/
lemma Origin.name_injective : Function.Injective Origin.name := by
  intro o o' h
  exact Option.some.inj (by rw [← ofName?_name o, h, ofName?_name])

namespace SymbolId

/-! ### The parts of an encoding -/

/-- A text is known by its bytes. -/
lemma eq_of_bytes_eq {s t : String} (h : s.toUTF8.toList = t.toUTF8.toList) : s = t := by
  have hread := Text.fromUTF8?_toList_toUTF8 s
  rw [h, Text.fromUTF8?_toList_toUTF8] at hread
  exact (Option.some.inj hread).symm

/-- The zero byte behind a text without zero characters ends it, whatever follows. -/
lemma eq_of_terminated_append_eq {s t : String} {r r' : List UInt8} (hs : '\x00' ∉ s.toList)
    (ht : '\x00' ∉ t.toList) (h : terminated s ++ r = terminated t ++ r') : s = t ∧ r = r' := by
  have hzero : ∀ {u : String}, '\x00' ∉ u.toList → (0 : UInt8) ∉ u.toUTF8.toList := fun hu =>
    Text.not_mem_toUTF8 (x := '\x00') (by decide) hu
  simp only [terminated, List.append_assoc, List.singleton_append] at h
  obtain ⟨hbytes, hrest⟩ := append_cons_inj_of_not_mem (hzero hs) (hzero ht) h
  exact ⟨eq_of_bytes_eq hbytes, hrest⟩

/-- Two texts with a zero byte behind each are one text with a zero character between the two. -/
lemma terminated_append_terminated (s t : String) :
    terminated s ++ terminated t = terminated (s ++ "\x00" ++ t) := by
  have hzero : "\x00".toList.flatMap String.utf8EncodeChar = [0] := by decide
  rw [terminated, terminated, terminated, Text.toList_toUTF8, Text.toList_toUTF8,
    Text.toList_toUTF8, String.toList_append, String.toList_append, List.flatMap_append,
    List.flatMap_append, hzero, List.append_assoc, List.append_assoc, List.append_assoc]

/-- The four bytes of a number are its digits to the base 256. -/
lemma toNat_word32Bytes (w : UInt32) : (word32Bytes w).map UInt8.toNat =
    [w.toNat % 256, w.toNat / 256 % 256, w.toNat / 65536 % 256, w.toNat / 16777216 % 256] := by
  simp [word32Bytes, Nat.shiftRight_eq_div_pow]

/-- A number is known by its four bytes. -/
lemma word32Bytes_injective : Function.Injective word32Bytes := by
  intro w v h
  have hdigits := congrArg (List.map UInt8.toNat) h
  rw [toNat_word32Bytes, toNat_word32Bytes] at hdigits
  simp only [List.cons.injEq, and_true] at hdigits
  obtain ⟨h0, h1, h2, h3⟩ := hdigits
  have hw := w.toNat_lt
  have hv := v.toNat_lt
  apply UInt32.toNat_inj.mp
  omega

namespace Content

/-- The name of an origin holds no zero character. -/
lemma zero_notMem_originName (o : Origin) : '\x00' ∉ o.name.toList := by
  cases o <;> decide

/-- The name of a kind holds no zero character. -/
lemma zero_notMem_kindName (k : SymbolKind) : '\x00' ∉ k.name.toList := by
  cases k <;> decide

/-- Two contents have the same bytes exactly if they agree in all but their texts, and their texts
agree with a zero character between the name and the file. -/
lemma encode_eq_encode_iff (c d : Content) :
    c.encode = d.encode ↔ c.origin = d.origin ∧ c.kind = d.kind ∧
      c.name ++ "\x00" ++ c.file = d.name ++ "\x00" ++ d.file ∧
      c.line = d.line ∧ c.ordinal = d.ordinal := by
  have hencode : ∀ c : Content, c.encode = terminated c.origin.name ++ (terminated c.kind.name ++
      (terminated (c.name ++ "\x00" ++ c.file) ++
        (word32Bytes c.line ++ word32Bytes c.ordinal))) := by
    intro c
    simp only [encode, ← terminated_append_terminated, List.append_assoc]
  rw [hencode, hencode]
  constructor
  · intro h
    obtain ⟨horigin, h⟩ := eq_of_terminated_append_eq (zero_notMem_originName _)
      (zero_notMem_originName _) h
    obtain ⟨hkind, h⟩ := eq_of_terminated_append_eq (zero_notMem_kindName _)
      (zero_notMem_kindName _) h
    -- The texts may hold zero characters, but eight bytes stand behind them.
    obtain ⟨htexts, hnumbers⟩ := List.append_inj' h rfl
    obtain ⟨hline, hordinal⟩ := List.append_inj hnumbers rfl
    refine ⟨Origin.name_injective horigin, SymbolKind.name_injective hkind, ?_,
      word32Bytes_injective hline, word32Bytes_injective hordinal⟩
    exact eq_of_bytes_eq (List.append_cancel_right htexts)
  · rintro ⟨horigin, hkind, htexts, hline, hordinal⟩
    rw [horigin, hkind, htexts, hline, hordinal]

/-- A zero character can stand in the name or in the file. -/
example : encode ⟨.ctags, .function, "a\x00b", "c", 1, 0⟩ =
    encode ⟨.ctags, .function, "a", "b\x00c", 1, 0⟩ :=
  (encode_eq_encode_iff _ _).mpr (by decide)

/-- Contents whose names hold no zero character have the same bytes exactly if they are equal.  The
files are free to hold zero characters: where they end is known from the back. -/
theorem encode_eq_iff {c d : Content} (hc : '\x00' ∉ c.name.toList) (hd : '\x00' ∉ d.name.toList) :
    c.encode = d.encode ↔ c = d := by
  refine ⟨fun h => ?_, congrArg encode⟩
  obtain ⟨horigin, hkind, htexts, hline, hordinal⟩ := (encode_eq_encode_iff c d).mp h
  have hchars : c.name.toList ++ '\x00' :: c.file.toList =
      d.name.toList ++ '\x00' :: d.file.toList := by
    simpa using congrArg String.toList htexts
  obtain ⟨hname, hfile⟩ := append_cons_inj_of_not_mem hc hd hchars
  rw [String.toList_inj] at hname hfile
  cases c
  cases d
  simp_all

/-- A letter that moves from the name to the file makes another content. -/
theorem encode_ne_movedLetter :
    '\x00' ∉ "ab".toList ∧ '\x00' ∉ "a".toList ∧
      encode ⟨.ctags, .function, "ab", "c", 256, 0⟩ ≠
        encode ⟨.ctags, .function, "a", "bc", 256, 0⟩ :=
  ⟨by decide, by decide, fun h => absurd ((encode_eq_iff (by decide) (by decide)).mp h) (by decide)⟩

end Content

end SymbolId

end CodeAtlas
