import CodeAtlas.Proofs.SyntaxTree.Nodes

/-!
# Where the nodes of a tree stand in the text

A range of bytes can be cut out of a text if its ends stand in this order and each of them between
two characters, or at an end of the text (`Span.Fits`).  Only then does the reading of the text give
the bytes of the range; it gives the empty text for any other.

A tree is *placed* in a text if every node covers such a range, within the range of its parent.
Nothing is asked of the ranges of siblings: they may overlap or stand in any order, and a node may
be empty, as those are which a parser adds where something is missing.  From the start of a node to
either end of one of its children there is then a range that can be cut out as well.
-/

namespace CodeAtlas

/-- A range that can be cut out of a text.  An offset on a boundary of characters is within the
text. -/
structure Span.Fits (text : String) (s : Span) : Prop where
  start_le_stop : s.start ≤ s.stop
  start_isValid : String.Pos.Raw.IsValid text ⟨s.start⟩
  stop_isValid : String.Pos.Raw.IsValid text ⟨s.stop⟩

lemma Span.fits_iff {text : String} {s : Span} : s.Fits text ↔ s.start ≤ s.stop ∧
    String.Pos.Raw.IsValid text ⟨s.start⟩ ∧ String.Pos.Raw.IsValid text ⟨s.stop⟩ :=
  ⟨fun h => ⟨h.start_le_stop, h.start_isValid, h.stop_isValid⟩, fun ⟨h, h', h''⟩ => ⟨h, h', h''⟩⟩

instance {text : String} {s : Span} : Decidable (s.Fits text) :=
  decidable_of_iff' _ Span.fits_iff

/-- The text in a range, if that can be cut out. -/
def cut? (text : String) (s : Span) : Option String :=
  if s.Fits text then Text.sliceBytes? text.toUTF8 s.start s.stop else none

/-- In a range that fits stand the bytes of a text. -/
lemma sliceBytes?_of_fits {text : String} {s : Span} (h : s.Fits text) :
    ∃ piece, Text.sliceBytes? text.toUTF8 s.start s.stop = some piece := by
  have hsize : s.stop ≤ text.toUTF8.size := h.stop_isValid.le_rawEndPos
  have hutf8 : (text.toUTF8.extract s.start s.stop).IsValidUTF8 :=
    (String.Pos.Raw.isValidUTF8_extract_iff _ _ h.start_le_stop h.stop_isValid.le_rawEndPos).mpr
      (.inr ⟨h.start_isValid, h.stop_isValid⟩)
  refine ⟨String.fromUTF8 _ hutf8, ?_⟩
  rw [Text.sliceBytes?, if_pos ⟨h.start_le_stop, hsize⟩, String.fromUTF8?, dif_pos hutf8]

/-- A range that fits is cut out, and what is cut out is its reading. -/
theorem cut?_of_fits {text : String} {s : Span} (h : s.Fits text) :
    cut? text s = some (readingOf text s) := by
  obtain ⟨piece, hpiece⟩ := sliceBytes?_of_fits h
  simp only [cut?, if_pos h, readingOf, hpiece, Option.getD_some]

namespace SyntaxNode

variable {text : String} {tree n c : SyntaxNode}

/-- Every node covers a range that can be cut out of the text, and its children stand within it. -/
def IsPlaced (text : String) (tree : SyntaxNode) : Prop :=
  ∀ n ∈ tree.preorder, n.span.Fits text ∧
    ∀ c ∈ n.children, n.span.start ≤ c.span.start ∧ c.span.stop ≤ n.span.stop

instance : Decidable (tree.IsPlaced text) :=
  inferInstanceAs (Decidable (∀ n ∈ tree.preorder, _))

/-- A child of a placed tree covers a range that can be cut out. -/
lemma IsPlaced.fits_child (h : tree.IsPlaced text) (hn : n ∈ tree.preorder) (hc : c ∈ n.children) :
    c.span.Fits text :=
  (h c ((sublist_preorder tree n hn).subset
    (preorder_subset_of_mem hc (mem_preorder_self c)))).1

/-- What stands before a child of a node can be cut out. -/
lemma IsPlaced.fits_before (h : tree.IsPlaced text) (hn : n ∈ tree.preorder)
    (hc : c ∈ n.children) : Span.Fits text ⟨n.span.start, c.span.start⟩ :=
  ⟨((h n hn).2 c hc).1, (h n hn).1.start_isValid, (h.fits_child hn hc).start_isValid⟩

/-- What stands from the start of a node to the end of a child can be cut out. -/
lemma IsPlaced.fits_through (h : tree.IsPlaced text) (hn : n ∈ tree.preorder)
    (hc : c ∈ n.children) : Span.Fits text ⟨n.span.start, c.span.stop⟩ :=
  ⟨Nat.le_trans ((h n hn).2 c hc).1 (h.fits_child hn hc).start_le_stop, (h n hn).1.start_isValid,
    (h.fits_child hn hc).stop_isValid⟩

end SyntaxNode

end CodeAtlas
