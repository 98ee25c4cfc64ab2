import CodeAtlas.Files.Update
import CodeAtlas.Proofs.Files.Locate
import Mathlib.Data.Set.Basic
import Mathlib.Data.Set.Insert

/-!
# What a removal takes away

A removal is described by its frame: it puts nothing in, and all that is gone lay at places of a
given set (`RemovedOnly`).  Removing a file takes away the entry to which its path leads, removing a
directory that entry and those below it.  A removal of a directory takes two steps and may fail at
the second; the frame is that of the first step, because the emptied directory is looked up again in
a tree with fewer entries and therefore found where it was, if it is found at all.
-/

namespace CodeAtlas.FileTree

open Std (ExtTreeMap)

variable {t t' t'' : FileTree} {S T : Set Place}

/-- Nothing was put in, and what is gone lay at places of a set. -/
structure RemovedOnly (t t' : FileTree) (S : Set Place) : Prop where
  restricts : t'.Restricts t
  unchanged : ∀ place, place ∉ S → t'.entry? place = t.entry? place

namespace RemovedOnly

/-- Nothing is gone where nothing was done. -/
lemma refl (t : FileTree) (S : Set Place) : t.RemovedOnly t S := ⟨.refl t, fun _ _ => rfl⟩

/-- The frame of two removals, one after the other. -/
lemma trans (h : t.RemovedOnly t' S) (h' : t'.RemovedOnly t'' T) :
    t.RemovedOnly t'' (S ∪ T) where
  restricts := h'.restricts.trans h.restricts
  unchanged place hplace :=
    (h'.unchanged place fun hT => hplace (Or.inr hT)).trans
      (h.unchanged place fun hS => hplace (Or.inl hS))

/-- A frame may be widened. -/
lemma mono (h : t.RemovedOnly t' S) (hST : S ⊆ T) : t.RemovedOnly t' T :=
  ⟨h.restricts, fun place hplace => h.unchanged place fun hS => hplace (hST hS)⟩

/-- Where a place looks different something stood before. -/
lemma exists_of_ne (h : t.RemovedOnly t' S) {place : Place}
    (hne : t'.entry? place ≠ t.entry? place) : ∃ e, t.entry? place = some e := by
  cases hold : t.entry? place with
  | some e => exact ⟨e, rfl⟩
  | none =>
    cases hnew : t'.entry? place with
    | none => exact absurd (hnew.trans hold.symm) hne
    | some e =>
      rw [h.restricts.entry?_eq place e hnew] at hold
      cases hold

end RemovedOnly

/-! ### Entries that are taken away -/

/-- Erasing an entry takes away that entry. -/
lemma removedOnly_erase (t : FileTree) (p : Place) : t.RemovedOnly (t.erase p) {p} := by
  have hget : ∀ place, place ≠ p → FileTree.entry? (t.erase p) place = t.entry? place := by
    intro place hne
    simp [erase, entry?, ExtTreeMap.getElem?_erase, Ne.symm hne]
  refine ⟨⟨rfl, fun place e he => ?_⟩, hget⟩
  by_cases hp : place = p
  · subst hp
    unfold entry? at he ⊢
    split_ifs at he ⊢
    · exact he
    · simp [erase] at he
  · rwa [hget place hp] at he

/-- The names below a directory are those that a place adds to it. -/
lemma namesBelow?_eq_some_iff {d p : Place} {names : List String} :
    namesBelow? d p = some names ↔ p = d ++ names := by
  induction d generalizing p with
  | nil => simp [namesBelow?, eq_comm]
  | cons n d ih =>
    cases p with
    | nil => simp [namesBelow?]
    | cons m p =>
      by_cases hnm : n = m
      · simp [namesBelow?, hnm, ih]
      · simp [namesBelow?, hnm, Ne.symm hnm]

/-- Emptying a directory takes away entries below it. -/
lemma removedOnly_eraseBelow (t : FileTree) (p : Place) :
    t.RemovedOnly (t.eraseBelow p) {place | p <+: place} := by
  refine ⟨⟨rfl, fun place e he => ?_⟩, fun place hplace => ?_⟩
  · unfold entry? at he ⊢
    split_ifs at he ⊢
    · exact he
    · simp only [eraseBelow, ExtTreeMap.getElem?_filter'] at he
      exact (Option.filter_eq_some_iff.mp he).1
  · have hnone : namesBelow? p place = none := by
      cases h : namesBelow? p place with
      | none => rfl
      | some names => exact absurd ⟨names, (namesBelow?_eq_some_iff.mp h).symm⟩ hplace
    unfold entry?
    split_ifs
    · rfl
    · simp only [eraseBelow, ExtTreeMap.getElem?_filter', hnone]
      cases t.entries[place]? <;> rfl

/-- Nothing is left below a directory that was emptied. -/
lemma entry?_eraseBelow_append (t : FileTree) (p : Place) {names : List String}
    (hnames : names ≠ []) : FileTree.entry? (t.eraseBelow p) (p ++ names) = none := by
  obtain ⟨n, ns, rfl⟩ := List.exists_cons_of_ne_nil hnames
  have hbelow : namesBelow? p (p ++ n :: ns) = some (n :: ns) := namesBelow?_eq_some_iff.mpr rfl
  simp only [eraseBelow, entry?, ExtTreeMap.getElem?_filter', hbelow]
  cases t.entries[p ++ n :: ns]? <;> simp

/-! ### The operations -/

/-- Erasing the entry to which a path leads. -/
lemma removedOnly_erase_of_locate {path : String} {p : Place} (hp : t.locate path false = .ok p) :
    t.RemovedOnly (t.erase p) {place | t.locate path false = .ok place} :=
  (removedOnly_erase t p).mono fun place hplace => by
    rw [Set.mem_singleton_iff.mp hplace]
    exact hp

/-- Removing a file takes away what stands where its path leads. -/
lemma removedOnly_removeFile {path : String} (h : t.removeFile path = .ok t') :
    t.RemovedOnly t' {place | t.locate path false = .ok place} := by
  unfold removeFile at h
  split at h
  next => cases h
  next => cases h
  next p e hdir hfound =>
    exact Except.ok.inj h ▸ removedOnly_erase_of_locate (find?_eq_ok_iff.mp hfound).1

/-- Removing an emptied directory takes away what stands where its path leads. -/
lemma removedOnly_removeEmptied {path : String} (h : t.removeEmptied path = .ok t') :
    t.RemovedOnly t' {place | t.locate path false = .ok place} := by
  unfold removeEmptied at h
  split at h
  next => exact Except.ok.inj h ▸ .refl t _
  next => cases h
  next p e hfound =>
    split at h
    next => cases h
    next => cases h
    next =>
      split_ifs at h
      exact Except.ok.inj h ▸ removedOnly_erase_of_locate (find?_eq_ok_iff.mp hfound).1

/-- Removing a directory takes away what stands where its path leads and below, also where it
fails half-way. -/
lemma removedOnly_removeDirectory (t : FileTree) (path : String) :
    t.RemovedOnly ((removeDirectory path).runOn t).2
      {place | ∃ p, t.locate path false = .ok p ∧ p <+: place} := by
  simp only [removeDirectory, Action.runOn_bind, Action.runOn_get]
  cases hfound : t.find? path false with
  | error e => exact .refl t _
  | ok found =>
    obtain ⟨p, e⟩ := found
    have hp : t.locate path false = .ok p := (find?_eq_ok_iff.mp hfound).1
    cases e with
    | file content => exact .refl t _
    | link target =>
      refine (removedOnly_erase_of_locate hp).mono fun place hplace => ?_
      exact ⟨place, hplace, List.prefix_refl place⟩
    | directory =>
      have hbelow : t.RemovedOnly (t.eraseBelow p)
          {place | ∃ p, t.locate path false = .ok p ∧ p <+: place} :=
        (removedOnly_eraseBelow t p).mono fun place hplace => ⟨p, hp, hplace⟩
      simp only [Action.runOn_bind, Action.runOn_set, Action.change, Action.runOn_ofRun]
      cases hlast : (t.eraseBelow p).removeEmptied path with
      | error e => exact hbelow
      | ok t' =>
        -- The emptied directory is found again where it was in the tree before.
        refine (hbelow.trans (removedOnly_removeEmptied hlast)).mono ?_
        rintro place (hplace | hplace)
        · exact hplace
        · exact ⟨place, hbelow.restricts.locate_eq hplace, List.prefix_refl place⟩

/-- Removing a directory leaves nothing below it. -/
lemma entry?_removeDirectory_append {path : String} {p : Place}
    (hfound : t.find? path false = .ok (p, .directory)) {names : List String}
    (hnames : names ≠ []) :
    FileTree.entry? ((removeDirectory path).runOn t).2 (p ++ names) = none := by
  have hempty : FileTree.entry? (t.eraseBelow p) (p ++ names) = none :=
    entry?_eraseBelow_append t p hnames
  simp only [removeDirectory, Action.runOn_bind, Action.runOn_get, hfound, Action.runOn_set,
    Action.change, Action.runOn_ofRun]
  cases hlast : (t.eraseBelow p).removeEmptied path with
  | error e => exact hempty
  | ok t' =>
    by_contra hne
    obtain ⟨e, he⟩ := Option.ne_none_iff_exists'.mp hne
    rw [(removedOnly_removeEmptied hlast).restricts.entry?_eq _ _ he] at hempty
    cases hempty

end CodeAtlas.FileTree
