import CodeAtlas.Proofs.Files.Extension
import CodeAtlas.Proofs.Files.Walk

/-!
# Directories that are listed and cleared

In a well-formed tree without links on the way to a place, a text that names the place leads there
and shows what stands there, be it nothing (`lookup?_of_isStraight`).  A directory lists the names
of its entries, each once.

Files and directories at such places can be removed, and what is gone then is exact: everything at
the places of a set, and nothing else (`Removed`).  A loop that removes one thing after another
removes all of them if no removal is in the way of a later one (`exists_forM_removed`).
-/

namespace CodeAtlas.FileTree

open CodeAtlas.Action

open Std (ExtTreeMap)

variable {t t' t'' : FileTree} {place directory : Place} {S T : Set Place}
  {name path : String}

/-! ### What a path shows -/

/-- Where no links are on the way, a text that names a place shows what stands there. -/
lemma lookup?_of_isStraight (hwf : t.WellFormed) (hstraight : t.IsStraight place)
    (hpath : t.Names path place) (haddressable : t.entry? place ≠ none → Path.IsAddressable path) :
    t.lookup? path = t.entry? place := by
  rw [lookup?]
  cases hentry : t.entry? place with
  | some e =>
    have hlink : ∀ target, e ≠ .link target := by
      rintro target rfl
      exact hstraight.ne_link target hentry
    rw [hpath.find?_eq (haddressable (by simp [hentry])) hwf hentry hlink]
  | none =>
    cases hfind : t.find? path with
    | error e => rfl
    | ok found =>
      obtain ⟨p, e⟩ := found
      obtain ⟨hlocate, he⟩ := find?_eq_ok_iff.mp hfind
      rw [hstraight.eq_of_locate hpath.toSpells hlocate, hentry] at he
      cases he

/-! ### What a directory lists -/

/-- A directory lists the names of what stands in it. -/
lemma mem_namesIn : name ∈ t.namesIn directory ↔ ∃ e, t.entry? (directory ++ [name]) = some e := by
  simp only [namesIn, List.mem_filterMap, Prod.exists, mem_below]
  constructor
  · rintro ⟨names, e, ⟨-, he⟩, hname⟩
    split at hname
    · obtain rfl := Option.some.inj hname
      exact ⟨e, he⟩
    · cases hname
  · rintro ⟨e, he⟩
    exact ⟨[name], e, ⟨by simp, he⟩, rfl⟩

/-- A directory lists no name twice. -/
lemma nodup_namesIn (t : FileTree) (directory : Place) : (t.namesIn directory).Nodup := by
  refine List.Pairwise.filterMap _ (fun p q hpq b hb b' hb' heq => ?_) (pairwise_below t directory)
  obtain ⟨names, e⟩ := p
  obtain ⟨names', e'⟩ := q
  simp only at hb hb'
  split at hb
  · split at hb'
    · obtain rfl := Option.some.inj hb
      obtain rfl := Option.some.inj hb'
      exact ne_of_compare_eq_lt hpq (congrArg (fun name => [name]) heq)
    · cases hb'
  · cases hb

/-- There is nothing to list where no directory stands. -/
lemma WellFormed.namesIn_eq_nil (h : t.WellFormed) (hdir : t.entry? directory ≠ some .directory) :
    t.namesIn directory = [] := by
  refine List.eq_nil_iff_forall_not_mem.mpr fun name hname => hdir ?_
  obtain ⟨e, he⟩ := mem_namesIn.mp hname
  exact h.parent directory name e he

/-! ### Exact removals -/

/-- Everything at the places of a set is gone, and nothing else. -/
structure Removed (t t' : FileTree) (S : Set Place) : Prop extends RemovedOnly t t' S where
  gone : ∀ place ∈ S, t'.entry? place = none

namespace Removed

/-- Nothing is gone if nothing was to go. -/
lemma empty (t : FileTree) : t.Removed t ∅ := ⟨.refl t ∅, fun _ h => h.elim⟩

/-- What two removals have taken away, one after the other. -/
lemma trans (h : t.Removed t' S) (h' : t'.Removed t'' T) : t.Removed t'' (S ∪ T) where
  toRemovedOnly := h.toRemovedOnly.trans h'.toRemovedOnly
  gone place hplace := by
    rcases hplace with hS | hT
    · by_contra hne
      obtain ⟨e, he⟩ := Option.ne_none_iff_exists'.mp hne
      have hbetween := h'.restricts.entry?_eq place e he
      rw [h.gone place hS] at hbetween
      cases hbetween
    · exact h'.gone place hT

/-- A set of places may be described otherwise. -/
lemma congr (h : t.Removed t' S) (hST : ∀ place, place ∈ S ↔ place ∈ T) : t.Removed t' T :=
  Set.ext hST ▸ h

/-- What is left of a well-formed tree is well formed if nothing is left below what is gone. -/
lemma wellFormed (h : t.Removed t' S) (hwf : t.WellFormed)
    (hbelow : ∀ place ∈ S, ∀ name, t.entry? (place ++ [name]) ≠ none → place ++ [name] ∈ S) :
    t'.WellFormed where
  writable place e he := hwf.writable place e (h.restricts.entry?_eq place e he)
  parent place name e he := by
    have hbefore := h.restricts.entry?_eq _ e he
    have hkept : place ∉ S := by
      intro hplace
      have hgone := h.gone _ (hbelow place hplace name (by simp [hbefore]))
      rw [he] at hgone
      cases hgone
    rw [h.unchanged place hkept]
    exact hwf.parent place name e hbefore

end Removed

/-- Erasing an entry below the root leaves nothing there. -/
lemma removed_erase (t : FileTree) (hplace : place ≠ []) : t.Removed (t.erase place) {place} where
  toRemovedOnly := removedOnly_erase t place
  gone p hp := by
    rw [Set.mem_singleton_iff.mp hp, entry?_erase, if_pos ⟨rfl, hplace⟩]

/-- Emptying a directory leaves nothing below it, and the directory. -/
lemma removed_eraseBelow (t : FileTree) (place : Place) :
    t.Removed (t.eraseBelow place) {p | ∃ names, names ≠ [] ∧ p = place ++ names} where
  restricts := (removedOnly_eraseBelow t place).restricts
  unchanged p hp := by
    by_cases hbelow : place <+: p
    · obtain ⟨names, rfl⟩ := hbelow
      have hnames : names = [] := by
        by_contra hne
        exact hp ⟨names, hne, rfl⟩
      have hself : namesBelow? place place = some [] :=
        namesBelow?_eq_some_iff.mpr (List.append_nil place).symm
      rw [hnames, List.append_nil]
      simp only [eraseBelow, entry?, ExtTreeMap.getElem?_filter', hself]
      cases t.entries[place]? <;> rfl
    · exact (removedOnly_eraseBelow t place).unchanged p hbelow
  gone p hp := by
    obtain ⟨names, hne, rfl⟩ := hp
    exact entry?_eraseBelow_append t place hne

/-! ### Files and directories that are removed -/

/-- The last piece of a text that names a place, without the slashes at its end, is the last name of
the place. -/
lemma Names.getLast?_splitAt_trimRightChar (h : t.Names path (place ++ [name])) :
    (Text.splitAt '/' (Text.trimRightChar '/' path)).getLast? = some name := by
  have hchars : path.toList ≠ [] := fun hnil =>
    h.endsInStep.ne_empty (String.toList_eq_nil_iff.mp hnil)
  obtain ⟨front, c, hc⟩ := List.eq_nil_or_concat path.toList |>.resolve_left hchars
  have hslash : c ≠ '/' := by
    rintro rfl
    exact h.endsInStep.getLast?_ne_slash (by simp [hc])
  have htrim : Text.trimRightChar '/' path = path := by
    rw [Text.trimRightChar, trimRightBy, hc]
    simp [hslash, ← String.toList_inj, hc]
  rw [htrim]
  exact h.getLast?_pieces

/-- A file is removed. -/
lemma exists_removeFile (hwf : t.WellFormed) (hpath : t.Names path place)
    (haddressable : Path.IsAddressable path) {content : FileContent}
    (hfile : t.entry? place = some (.file content)) :
    ∃ t', t.removeFile path = .ok t' ∧ t.Removed t' {place} := by
  refine ⟨t.erase place, ?_, removed_erase t ?_⟩
  · rw [removeFile, hpath.find?_eq haddressable hwf hfile (by simp)]
  · rintro rfl
    cases hfile

/-- A directory is removed with all that is in it. -/
lemma exists_runOn_removeDirectory (hwf : t.WellFormed) (hpath : t.Names path (place ++ [name]))
    (haddressable : Path.IsAddressable path)
    (hdir : t.entry? (place ++ [name]) = some .directory) :
    ∃ t', (removeDirectory path).runOn t = (.ok (), t') ∧
      t.Removed t' {p | place ++ [name] <+: p} := by
  have hempty := removed_eraseBelow t (place ++ [name])
  have hkept : FileTree.entry? (t.eraseBelow (place ++ [name])) (place ++ [name]) =
      some .directory := by
    rw [hempty.unchanged, hdir]
    rintro ⟨names, hne, heq⟩
    exact hne (List.self_eq_append_right.mp heq)
  have hwf' : WellFormed (t.eraseBelow (place ++ [name])) := by
    refine hempty.wellFormed hwf ?_
    rintro p ⟨names, -, rfl⟩ n -
    exact ⟨names ++ [n], by simp, by simp⟩
  -- The text starts above the directory, where nothing was removed.
  have hpath' : Names (t.eraseBelow (place ++ [name])) path (place ++ [name]) := by
    refine ⟨hpath.toSpells.congr rfl ?_, hpath.endsInStep⟩
    rw [hempty.unchanged, hpath.start]
    rintro ⟨names, hne, heq⟩
    have hlength := hpath.start_isPrefix.length_le
    rw [heq, List.length_append] at hlength
    exact hne (List.eq_nil_of_length_eq_zero (by omega))
  have hname : Path.IsPlainName name := (hwf.writable _ _ hdir).plain name (by simp)
  have hlast : (t.eraseBelow (place ++ [name])).removeEmptied path =
      .ok ((t.eraseBelow (place ++ [name])).erase (place ++ [name])) := by
    rw [removeEmptied, hpath'.find?_eq haddressable hwf' hkept (by simp)]
    simp only [hpath.getLast?_splitAt_trimRightChar]
    split
    · rename_i hdot
      exact absurd (Option.some.inj hdot) hname.2.1
    · rename_i hdots
      exact absurd (Option.some.inj hdots) hname.2.2.1
    · simp
  have hroot : place ++ [name] ≠ [] := by simp
  refine ⟨_, ?_, (hempty.trans (removed_erase _ hroot)).congr fun p => ?_⟩
  · simp only [removeDirectory, runOn_bind, runOn_get,
      hpath.find?_eq haddressable hwf hdir (by simp), runOn_set, change, runOn_ofRun, hlast]
  · constructor
    · rintro (⟨names, -, rfl⟩ | hself)
      · exact List.prefix_append _ names
      · exact Set.mem_singleton_iff.mp hself ▸ List.prefix_rfl
    · rintro ⟨names, rfl⟩
      by_cases hne : names = []
      · right
        rw [hne, List.append_nil]
        rfl
      · exact Or.inl ⟨names, hne, rfl⟩

/-- Things that do not stand in the way of one another are removed one by one. -/
lemma exists_forM_removed {ε : Type} {f : α → FileAction ε Unit} {kept : FileTree → Prop}
    {stands : FileTree → α → Prop} {places : α → Set Place}
    (hstep : ∀ t x, kept t → stands t x → ∃ t', (f x).runOn t = (.ok (), t') ∧ kept t' ∧
      t.Removed t' (places x) ∧ ∀ y, y ≠ x → stands t y → stands t' y) {xs : List α}
    (hnodup : xs.Nodup) (hkept : kept t) (hstands : ∀ x ∈ xs, stands t x) :
    ∃ t', (xs.forM f).runOn t = (.ok (), t') ∧ kept t' ∧
      t.Removed t' {place | ∃ x ∈ xs, place ∈ places x} := by
  induction xs generalizing t with
  | nil => exact ⟨t, rfl, hkept, (Removed.empty t).congr (by simp)⟩
  | cons x xs ih =>
    rw [List.nodup_cons] at hnodup
    rw [List.forall_mem_cons] at hstands
    obtain ⟨between, hfirst, hbetween, hgone, hothers⟩ := hstep t x hkept hstands.1
    have hrest : ∀ y ∈ xs, stands between y := by
      intro y hy
      apply hothers y
      · rintro rfl
        exact hnodup.1 hy
      · exact hstands.2 y hy
    obtain ⟨t', hrun, ht', hgone'⟩ := ih hnodup.2 hbetween hrest
    refine ⟨t', ?_, ht', (hgone.trans hgone').congr fun place => ?_⟩
    · exact (runOn_bind_of_ok hfirst).trans hrun
    · simp

end CodeAtlas.FileTree
