import Std.Data.ExtTreeMap
import CodeAtlas.Change.Kind
import CodeAtlas.Path

/-!
# The queue of pending changes

An editor that saves a file causes a burst of events.  The queue keeps one entry for each path, with
the folded kind of its changes and the time of the latest; an entry may leave once its path has been
quiet for a window of time.

The entries stand in a map, whose order says nothing about when they came.  Every record of a change
therefore takes the next sequence number, and its entry is marked with it.  A batch walks the map,
sorts the ready paths that it meets by these numbers, keeps as many as its limit allows, and removes
them from the map one by one.  So the path that was touched longest ago leaves first, and every
later batch continues where it stopped.  Sequence numbers are words of 64 bits, and start again at
zero behind the largest.

The keys of the map are components: two texts with the same components are one path, and its entry
keeps the text that was recorded first.
-/

namespace CodeAtlas

open Std (ExtTreeMap)

/-- A pending change, the time, in milliseconds, at which its path was last touched, and the
sequence number of the record that touched it. -/
structure PendingChange where
  change : Change
  touched : Nat
  seq : UInt64
  deriving DecidableEq, Repr, Inhabited

/-- Whether an entry has been quiet for a window of time. -/
def PendingChange.isReady (window now : Nat) (e : PendingChange) : Bool :=
  window ≤ now - e.touched

/-- The pending changes by their paths, the time for which a path must be quiet, and the sequence
number of the next record.  An entry stands under the components of its own path. -/
structure ChangeQueue where
  window : Nat
  pending : ExtTreeMap (List Component) PendingChange := ∅
  nextSeq : UInt64 := 0
  keyed : ∀ key e, pending[key]? = some e → Path.components e.change.path = key := by simp

namespace ChangeQueue

/-- A queue without changes. -/
def ofWindow (window : Nat) : ChangeQueue where
  window := window

instance : Inhabited ChangeQueue := ⟨ofWindow 0⟩

/-- The entry of a path. -/
def find? (q : ChangeQueue) (path : String) : Option PendingChange :=
  q.pending[Path.components path]?

/-- Forgets a path. -/
def remove (q : ChangeQueue) (path : String) : ChangeQueue where
  window := q.window
  pending := q.pending.erase (Path.components path)
  nextSeq := q.nextSeq
  keyed key e h := by
    rw [ExtTreeMap.getElem?_erase] at h
    split at h
    · cases h
    · exact q.keyed key e h

/-- The entry that a record makes of the one that its path has already: that one keeps its text and
folds the kind of the change into its own. -/
def entryAfter (old : Option PendingChange) (path : String) (kind : ChangeKind) (now : Nat)
    (seq : UInt64) : PendingChange :=
  match old with
  | some e => ⟨⟨e.change.path, e.change.kind.coalesce kind⟩, now, seq⟩
  | none => ⟨⟨path, kind⟩, now, seq⟩

/-- The entry that a record makes is one of its path. -/
theorem components_entryAfter (q : ChangeQueue) (path : String) (kind : ChangeKind) (now : Nat)
    (seq : UInt64) :
    Path.components (entryAfter (q.find? path) path kind now seq).change.path =
      Path.components path := by
  cases hfind : q.find? path with
  | none => rfl
  | some e => exact q.keyed _ e hfind

/-- Records a change, which takes the next sequence number. -/
def record (q : ChangeQueue) (path : String) (kind : ChangeKind) (now : Nat) : ChangeQueue where
  window := q.window
  pending := q.pending.insert (Path.components path)
    (entryAfter (q.find? path) path kind now q.nextSeq)
  nextSeq := q.nextSeq + 1
  keyed key e h := by
    rw [ExtTreeMap.getElem?_insert] at h
    split at h
    · obtain rfl := Option.some.inj h
      rw [components_entryAfter]
      exact Std.LawfulEqOrd.eq_of_compare ‹_›
    · exact q.keyed key e h

/-- The entries in the order in which a walk of the map meets them. -/
def walk (q : ChangeQueue) : List PendingChange := q.pending.toList.map (·.2)

/-- Items without their sequence numbers, in the order of these. -/
def bySeq {α : Type} (items : List (UInt64 × α)) : List α :=
  (items.mergeSort fun a b => a.1 ≤ b.1).map (·.2)

/-- The paths of the ready entries that a walk meets, in the order of their sequence numbers and up
to a limit. -/
def readyPaths (window now limit : Nat) (walk : List PendingChange) : List String :=
  (bySeq ((walk.filter (·.isReady window now)).map fun e => (e.seq, e.change.path))).take limit

/-- Removes paths one after the other, and lists the changes of those that were pending. -/
def takePaths : List String → ChangeQueue → List Change × ChangeQueue
  | [], q => ([], q)
  | path :: paths, q =>
    let (taken, left) := takePaths paths (q.remove path)
    match q.find? path with
    | some e => (⟨path, e.change.kind⟩ :: taken, left)
    | none => (taken, left)

/-- Takes up to a limit of ready changes out of the queue, the path touched longest ago first. -/
def takeReady (q : ChangeQueue) (limit now : Nat) : List Change × ChangeQueue :=
  takePaths (readyPaths q.window now limit q.walk) q

/-- Forgets everything. -/
def clear (q : ChangeQueue) : ChangeQueue where
  window := q.window
  nextSeq := q.nextSeq

/-- Takes out everything, ready or not. -/
def drain (q : ChangeQueue) : List Change × ChangeQueue :=
  (bySeq (q.walk.map fun e => (e.seq, e.change)), q.clear)

/-- The number of pending changes. -/
def size (q : ChangeQueue) : Nat := q.pending.size

end ChangeQueue

end CodeAtlas
