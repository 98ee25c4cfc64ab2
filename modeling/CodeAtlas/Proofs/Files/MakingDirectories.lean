import CodeAtlas.Proofs.Files.Extension

/-!
# Making directories

A directory is made together with those above it that are missing.  The paths that are tried for
that are not the text that was given but its beginnings, written without what is no step; they climb
from the place up to where the text starts (`climbs_pathsUpward`).

Directories that are there need not be made (`runOn_makeFirst_of_isOpen`), a directory that was made
is open to whoever walks down to it (`isOpen_of_makeFirst`), and making a directory with those above
it is making those first (`runOn_makeFirst_cons`).
-/

namespace CodeAtlas

open CodeAtlas.Action

namespace Path

/-- The paths of components and of what they begin with, the longest first. -/
def pathsAbove (cs : List Component) : List String :=
  (List.range cs.length).map fun dropped => ofComponents (cs.take (cs.length - dropped))

/-- The piece of a path that a component is written as. -/
def pieceOf : Component → String
  | .root => ""
  | c => c.text

variable {names : List String} {head : List Component} {p : String}

/-- The way up from a path begins with the path and goes on from what is above it. -/
lemma pathsAbove_append (cs : List Component) (c : Component) :
    pathsAbove (cs ++ [c]) = ofComponents (cs ++ [c]) :: pathsAbove cs := by
  rw [pathsAbove, List.length_append, List.length_singleton, List.range_succ_eq_map, List.map_cons,
    List.map_map, Nat.sub_zero]
  congr 1
  · rw [List.take_of_length_le (by simp)]
  · refine List.map_congr_left fun dropped hdropped => ?_
    rw [List.mem_range] at hdropped
    rw [Function.comp_apply, Nat.succ_eq_add_one, Nat.add_sub_add_right,
      List.take_append_of_le_length (by omega)]

/-- The path of components begins with that of what is above them. -/
lemma exists_ofComponents_append {cs : List Component} (hne : cs ≠ []) (c : Component) :
    ∃ rest, ofComponents (cs ++ [c]) = ofComponents cs ++ rest := by
  have hjoin : ∀ cs : List Component,
      ∃ rest, joinComponents (cs ++ [c]) = joinComponents cs ++ rest := by
    intro cs
    by_cases hcs : cs = []
    · exact ⟨c.text, by rw [hcs]; simp [joinComponents]⟩
    · refine ⟨"/" ++ c.text, ?_⟩
      rw [joinComponents, List.map_append,
        String.intercalate_append_of_ne_nil (by simpa using hcs) (by simp)]
      simp [joinComponents, String.append_assoc]
  obtain ⟨first, cs, rfl⟩ := List.exists_cons_of_ne_nil hne
  obtain ⟨rest, hrest⟩ := hjoin cs
  obtain ⟨rest', hrest'⟩ := hjoin (first :: cs)
  cases first with
  | root => exact ⟨rest, by simp only [List.cons_append, ofComponents, hrest, String.append_assoc]⟩
  | current | parent | name => exact ⟨rest', hrest'⟩

/-- Where a path is not refused, none of those above it is. -/
lemma isAddressable_of_mem_pathsAbove {cs : List Component} (h : IsAddressable (ofComponents cs))
    (hp : p ∈ pathsAbove cs) : IsAddressable p := by
  induction cs using List.reverseRecOn with
  | nil => cases hp
  | append_singleton cs c ih =>
    rw [pathsAbove_append, List.mem_cons] at hp
    rcases hp with rfl | hp
    · exact h
    · have hne : cs ≠ [] := by
        rintro rfl
        cases hp
      obtain ⟨rest, hrest⟩ := exists_ofComponents_append hne c
      rw [hrest] at h
      exact ih h.of_append hp

/-- A path is written from names and what it begins with. -/
lemma pieces_ofComponents (hhead : head = [.root] ∨ head = [.current] ∨ head = [])
    (hne : names ≠ []) (hplain : ∀ name ∈ names, IsPlainName name) :
    pieces (ofComponents (head ++ names.map .name)) = head.map pieceOf ++ names ∧
      isAbsolute (ofComponents (head ++ names.map .name)) = decide (head = [.root]) := by
  have hslash : ∀ name ∈ names, '/' ∉ name.toList := fun name hname => (hplain name hname).2.2.2
  have htexts : (names.map Component.name).map Component.text = names := by
    rw [List.map_map]
    exact List.map_id names
  rcases hhead with rfl | rfl | rfl
  · have hpath : ofComponents ([.root] ++ names.map .name) = ofNames names := by
      rw [List.singleton_append, ofComponents, joinComponents, htexts, ofNames]
    rw [hpath, pieces_ofNames hne hslash]
    exact ⟨rfl, isAbsolute_ofNames names⟩
  · have hpath : ofComponents ([.current] ++ names.map .name) = "/".intercalate ("." :: names) := by
      rw [List.singleton_append, ofComponents, joinComponents, List.map_cons, htexts]
      · rfl
      · simp
    rw [hpath, pieces_intercalate (by simp)]
    · exact ⟨rfl, isAbsolute_intercalate (by decide) (by decide)⟩
    · rw [List.forall_mem_cons]
      exact ⟨by decide, hslash⟩
  · obtain ⟨name, rest, rfl⟩ := List.exists_cons_of_ne_nil hne
    have hpath : ofComponents ([] ++ (name :: rest).map .name) =
        "/".intercalate (name :: rest) := by
      rw [List.nil_append, List.map_cons, ofComponents, ← List.map_cons, joinComponents, htexts]
      simp
    rw [hpath, pieces_intercalate hne hslash]
    exact ⟨rfl, isAbsolute_intercalate (hplain name (by simp)).1 (hslash name (by simp))⟩

/-- The components of a path whose steps are names: the names, and what is before them. -/
lemma exists_components_eq (hplain : ∀ name ∈ steps p, IsPlainName name) :
    ∃ head, (head = [.root] ∨ head = [.current] ∨ head = []) ∧
      components p = head ++ (steps p).map .name ∧ isAbsolute p = decide (head = [.root]) := by
  have hid : (fun piece : String => componentOfPiece? piece.toList) ∘ String.ofList =
      componentOfPiece? := funext fun cs => by simp
  have hbody : (splitAtClass (· == '/') p.toList).filterMap componentOfPiece? =
      (steps p).map .name := by
    have hsteps := filterMap_eq_map_componentOfStep (pieces p)
    rw [pieces, Text.splitAt, List.filterMap_map, hid] at hsteps
    rw [hsteps]
    exact List.map_congr_left fun name hname => if_neg (hplain name hname).2.2.1
  simp only [components, hbody]
  split_ifs with habs hcurrent
  · exact ⟨[.root], by simp, rfl, by simpa using habs⟩
  · exact ⟨[.current], by simp, rfl, by simpa using habs⟩
  · exact ⟨[], by simp, rfl, by simpa using habs⟩

end Path

namespace FileTree

variable {t t' : FileTree} {place start : Place} {name path above : String} {paths : List String}
  {touched : Set Place}

/-! ### Making one directory -/

/-- Makes a directory that may be there already. -/
def makeOne (path : String) : FileAction OsError Unit := do
  let t ← get
  match t.makeDirectory path with
  | .ok t => set t
  | .error e => if t.isDirectory path then return else throw e

/-- Where the way to a directory is missing, the directories on it are made first. -/
lemma runOn_makeFirst_of_notFound (h : t.makeDirectory path = .error .notFound) :
    (makeFirst (path :: parents)).runOn t =
      (makeFirst parents >>= fun _ => makeOne path).runOn t := by
  rw [makeFirst, runOn_bind_of_ok (runOn_get t), h]
  rfl

/-- Where the way to a directory is there, the directory alone is made. -/
lemma runOn_makeFirst_of_ne (h : t.makeDirectory path ≠ .error .notFound) :
    (makeFirst (path :: parents)).runOn t = (makeOne path).runOn t := by
  rw [makeFirst, runOn_bind_of_ok (runOn_get t)]
  split
  · exact absurd ‹_› h
  · rfl

/-- A directory is made where nothing stands. -/
lemma runOn_makeOne_of_ok (h : t.makeDirectory path = .ok t') :
    (makeOne path).runOn t = (.ok (), t') := by
  rw [makeOne, runOn_bind_of_ok (runOn_get t), h]
  rfl

/-- What is in the way of a directory is an obstacle, unless it is a directory itself. -/
lemma runOn_makeOne_of_error {e : OsError} (h : t.makeDirectory path = .error e) :
    (makeOne path).runOn t = (if t.isDirectory path then .ok () else .error e, t) := by
  rw [makeOne, runOn_bind_of_ok (runOn_get t), h]
  dsimp only
  split_ifs <;> rfl

/-- A directory is made at the end of a path where nothing stands. -/
lemma runOn_makeOne_of_none (hlocate : t.locate path false = .ok place)
    (hnone : t.entry? place = none) :
    (makeOne path).runOn t = (.ok (), t.put place .directory) := by
  refine runOn_makeOne_of_ok ?_
  rw [makeDirectory, hlocate]
  simp only [hnone]

/-- What stands at the end of a path is an obstacle, unless it is a directory. -/
lemma runOn_makeOne_of_some {e : FileEntry} (hlocate : t.locate path false = .ok place)
    (hfollow : t.locate path = .ok place) (he : t.entry? place = some e) :
    (makeOne path).runOn t = (if e.isDirectory then .ok () else .error .exists, t) := by
  have hmake : t.makeDirectory path = .error .exists := by
    rw [makeDirectory, hlocate]
    simp only [he]
  rw [runOn_makeOne_of_error hmake, isDirectory, lookup?, find?_eq_ok_iff.mpr ⟨hfollow, he⟩]
  cases e <;> rfl

/-- A path that leads nowhere leads to no directory. -/
lemma runOn_makeOne_of_locate {e : OsError} (h : t.locate path false = .error e)
    (hsame : t.locate path = t.locate path false) : (makeOne path).runOn t = (.error e, t) := by
  have hmake : t.makeDirectory path = .error e := by rw [makeDirectory, h]
  have hdir : t.isDirectory path = false := by rw [isDirectory, lookup?, find?, hsame, h]
  rw [runOn_makeOne_of_error hmake, hdir]
  rfl

/-! ### Directories that are there -/

/-- A directory is there, and whoever walks down by name to it from another one gets to it. -/
structure IsOpen (t : FileTree) (start place : Place) : Prop where
  walk : ∃ names, place = start ++ names ∧ t.locatePieces true maxLinks start names = .ok place
  directory : t.entry? place = some .directory

namespace IsOpen

/-- A directory is open from itself. -/
lemma here (h : t.entry? start = some .directory) : t.IsOpen start start :=
  ⟨⟨[], (List.append_nil start).symm, locatePieces_nil t _ _ _⟩, h⟩

/-- A directory is open also when the tree has grown. -/
lemma grows (h : t.IsOpen start place) (hgrows : Grows touched t t') : t'.IsOpen start place := by
  obtain ⟨names, hplace, hwalk⟩ := h.walk
  exact ⟨⟨names, hplace, hgrows.locatePieces_eq hwalk⟩, hgrows.directory place h.directory⟩

/-- The steps of a text that spells the place lead to it. -/
lemma walk_steps (h : t.IsOpen (t.startOf path) place) (hpath : t.Spells path place) :
    t.locatePieces true maxLinks (t.startOf path) (Path.steps path) = .ok place := by
  obtain ⟨names, rfl, hwalk⟩ := h.walk
  rwa [hpath.steps_eq]

/-- A text that names the place finds the directory, unless the text is refused. -/
lemma find?_eq (h : t.IsOpen (t.startOf path) place) (hpath : t.Names path place)
    (haddressable : Path.IsAddressable path) : t.find? path = .ok (place, .directory) :=
  find?_eq_ok_iff.mpr
    ⟨(hpath.locate_eq haddressable true).trans (h.walk_steps hpath.toSpells), h.directory⟩

/-- A name in a directory that is there leads into it, unless it is too long. -/
lemma locate_name (h : t.IsOpen (t.startOf path) place) (hpath : t.Names path (place ++ [name]))
    (haddressable : Path.IsAddressable path)
    (hlink : ∀ target, t.entry? (place ++ [name]) ≠ some (.link target)) (followLast : Bool) :
    t.locate path followLast =
      if maxNameBytes < name.utf8ByteSize then .error .nameTooLong else .ok (place ++ [name]) := by
  have hdir := h.directory
  obtain ⟨names, rfl, hwalk⟩ := h.walk
  rw [List.append_assoc] at hpath
  have hsteps := hpath.steps_eq
  obtain ⟨hempty, hcurrent, hup, -⟩ := hpath.plain name (by simp [hsteps])
  have hdot : ¬(name = "" ∨ name = ".") := fun h => h.elim hempty hcurrent
  obtain ⟨left, hleft⟩ := (locatePieces_append t maxLinks (t.startOf path) names).1 _ hwalk
  rw [hpath.locate_eq haddressable, hsteps, hleft followLast [name] (by simp)]
  split_ifs with hlong
  · exact locatePieces_tooLong hdir hdot hup hlong
  · rw [locatePieces_name hdir hdot hup hlong hlink, locatePieces_nil]

end IsOpen

/-- Trees in which a directory is there agree on what a text finds that names it. -/
lemma find?_eq_of_isOpen (hpath : t.Names path place) (hpath' : t'.Names path place)
    (h : t.IsOpen (t.startOf path) place) (h' : t'.IsOpen (t.startOf path) place) :
    t'.find? path = t.find? path := by
  by_cases haddressable : Path.IsAddressable path
  · rw [← hpath.toSpells.startOf_eq hpath'.toSpells] at h'
    rw [h.find?_eq hpath haddressable, h'.find?_eq hpath' haddressable]
  · obtain ⟨e, -, he⟩ := exists_locate_eq_error haddressable
    rw [find?, find?, he, he]

/-- Trees in which a directory is there agree on where a name in it leads. -/
lemma locate_eq_of_isOpen (hpath : t.Names path (place ++ [name]))
    (hpath' : t'.Names path (place ++ [name]))
    (h : t.IsOpen (t.startOf path) place) (h' : t'.IsOpen (t.startOf path) place)
    (hlink : ∀ target, t.entry? (place ++ [name]) ≠ some (.link target))
    (hlink' : ∀ target, t'.entry? (place ++ [name]) ≠ some (.link target)) (followLast : Bool) :
    t'.locate path followLast = t.locate path followLast := by
  by_cases haddressable : Path.IsAddressable path
  · rw [← hpath.toSpells.startOf_eq hpath'.toSpells] at h'
    rw [h.locate_name hpath haddressable hlink, h'.locate_name hpath' haddressable hlink']
  · obtain ⟨e, -, he⟩ := exists_locate_eq_error haddressable
    rw [he, he]

/-! ### Paths that climb -/

/-- Paths that climb from a place to the directory above it where they start: texts that name the
places in between, and at the end at most texts that have no steps.  None of them is refused for its
length before one that is longer. -/
inductive Climbs (t : FileTree) (start : Place) : Place → List String → Prop
  | here {paths : List String} (hdir : t.entry? start = some .directory)
      (hpaths : ∀ path ∈ paths, t.startOf path = start ∧ Path.steps path = [] ∧ path ≠ "" ∧
        Path.IsAddressable path) : Climbs t start start paths
  | step {place : Place} {name path : String} {paths : List String}
      (h : Climbs t start place paths) (hpath : t.Names path (place ++ [name]))
      (hstart : t.startOf path = start)
      (haddressable : Path.IsAddressable path → ∀ above ∈ paths, Path.IsAddressable above) :
      Climbs t start (place ++ [name]) (path :: paths)

/-- The paths that are tried for a directory climb from it. -/
lemma climbs_pathsUpward (hpath : t.Spells path place) :
    t.Climbs (t.startOf path) place (pathsUpward path) := by
  obtain ⟨head, hhead, hcomponents, habs⟩ := Path.exists_components_eq hpath.plain
  have hstart : t.startOf path = if head = [.root] then [] else t.workingDirectory := by
    rw [startOf, habs]
    simp
  have hclimbs : ∀ names : List String, (∀ name ∈ names, Path.IsPlainName name) →
      t.Climbs (t.startOf path) (t.startOf path ++ names)
        (Path.pathsAbove (head ++ names.map .name)) := by
    intro names hplain
    induction names using List.reverseRecOn with
    | nil =>
      rw [List.append_nil, List.map_nil, List.append_nil]
      refine .here hpath.start fun above habove => ?_
      rcases hhead with rfl | rfl | rfl
      · obtain rfl : above = "/" := List.mem_singleton.mp habove
        exact ⟨hstart.symm ▸ rfl, by decide, by decide, by decide, by decide⟩
      · obtain rfl : above = "." := List.mem_singleton.mp habove
        exact ⟨hstart.symm ▸ rfl, by decide, by decide, by decide, by decide⟩
      · cases habove
    | append_singleton names name ih =>
      have hplain' : ∀ n ∈ names, Path.IsPlainName n := fun n hn =>
        hplain n (List.mem_append_left _ hn)
      obtain ⟨hpieces, habs'⟩ := Path.pieces_ofComponents hhead (by simp) hplain
      rw [List.map_append, ← List.append_assoc, List.map_singleton] at hpieces habs'
      rw [List.map_append, ← List.append_assoc, ← List.append_assoc, List.map_singleton,
        Path.pathsAbove_append]
      have hstart' : t.startOf (Path.ofComponents (head ++ names.map .name ++ [.name name])) =
          t.startOf path := by rw [startOf, habs', startOf, habs]
      have hsteps : Path.steps (Path.ofComponents (head ++ names.map .name ++ [.name name])) =
          names ++ [name] := by
        have hnone : (head.map Path.pieceOf).filter Path.IsStep = [] := by
          rcases hhead with rfl | rfl | rfl <;> decide
        rw [Path.steps, hpieces, List.filter_append, hnone, List.nil_append,
          Path.filter_isStep_of_plain hplain]
      refine .step (ih hplain') ⟨⟨hstart' ▸ hpath.start, ?_, hsteps ▸ hplain⟩,
        head.map Path.pieceOf ++ names, name, by rw [hpieces, List.append_assoc], ?_⟩ hstart' ?_
      · rw [hstart', hsteps, List.append_assoc]
      · exact (hplain name (by simp)).isStep
      · intro haddressable above habove
        exact Path.isAddressable_of_mem_pathsAbove haddressable
          (Path.pathsAbove_append _ _ ▸ List.mem_cons_of_mem _ habove)
  have hall := hclimbs (Path.steps path) hpath.plain
  rwa [← hcomponents, hpath.place_eq] at hall

namespace Climbs

/-- Paths climb also when the tree has grown. -/
lemma grows (h : t.Climbs start place paths) (hgrows : Grows touched t t') :
    t'.Climbs start place paths := by
  induction h with
  | here hdir hpaths =>
    refine .here (hgrows.directory _ hdir) fun path hpath => ?_
    rw [hgrows.startOf_eq path]
    exact hpaths path hpath
  | step h hpath hstart haddressable ih =>
    exact .step ih (hpath.grows hgrows) ((hgrows.startOf_eq _).trans hstart) haddressable

/-- The place that they climb from is below the one where they start. -/
lemma exists_append (h : t.Climbs start place paths) : ∃ names, place = start ++ names := by
  induction h with
  | here => exact ⟨[], (List.append_nil start).symm⟩
  | @step place name path paths _ _ _ _ ih =>
    obtain ⟨names, rfl⟩ := ih
    exact ⟨names ++ [name], List.append_assoc start names [name]⟩

/-- Each of the paths spells a place on the way. -/
lemma exists_of_mem (h : t.Climbs start place paths) (hpath : path ∈ paths) :
    ∃ above below, place = above ++ below ∧ t.Spells path above := by
  induction h with
  | here hdir hpaths =>
    obtain ⟨rfl, hsteps, -, -⟩ := hpaths path hpath
    exact ⟨_, [], (List.append_nil _).symm, hdir, by rw [hsteps, List.append_nil],
      by simp [hsteps]⟩
  | @step place name path' paths h hpath' hstart haddressable ih =>
    rcases List.mem_cons.mp hpath with rfl | hpath
    · exact ⟨place ++ [name], [], (List.append_nil _).symm, hpath'.toSpells⟩
    · obtain ⟨above, below, rfl, habove⟩ := ih hpath
      exact ⟨above, below ++ [name], by simp, habove⟩

end Climbs

/-! ### Directories with those above them -/

/-- A directory is not made where something is found. -/
lemma makeDirectory_of_find? {e : FileEntry} (h : t.find? path false = .ok (place, e)) :
    t.makeDirectory path = .error .exists := by
  obtain ⟨hlocate, he⟩ := find?_eq_ok_iff.mp h
  rw [makeDirectory, hlocate]
  simp only [he]

/-- A directory that is found need not be made. -/
lemma runOn_makeFirst_of_find?
    (hthere : ∀ followLast, t.find? path followLast = .ok (place, .directory)) :
    (makeFirst (path :: paths)).runOn t = (.ok (), t) := by
  have hmake := makeDirectory_of_find? (hthere false)
  have hisDirectory : t.isDirectory path = true := by rw [isDirectory, lookup?, hthere true]
  rw [runOn_makeFirst_of_ne (by simp [hmake]), runOn_makeOne_of_error hmake, if_pos hisDirectory]

/-- A path that leads nowhere, and not because a directory on the way is missing, stops the making
of directories. -/
lemma runOn_makeFirst_of_locate {e : OsError} (h : t.locate path false = .error e)
    (hne : e ≠ .notFound) (hsame : t.locate path = t.locate path false) :
    (makeFirst (path :: paths)).runOn t = (.error e, t) := by
  rw [runOn_makeFirst_of_ne, runOn_makeOne_of_locate h hsame]
  rw [makeDirectory, h]
  exact fun heq => hne (Except.error.inj heq)

/-- Where the paths start there is a directory, which need not be made. -/
lemma runOn_makeFirst_here (hdir : t.entry? start = some .directory)
    (hpaths : ∀ path ∈ paths, t.startOf path = start ∧ Path.steps path = [] ∧ path ≠ "" ∧
      Path.IsAddressable path) : (makeFirst paths).runOn t = (.ok (), t) := by
  cases paths with
  | nil => rfl
  | cons path paths =>
    obtain ⟨rfl, hsteps, hne, haddressable⟩ := hpaths path (by simp)
    refine runOn_makeFirst_of_find? fun followLast => find?_eq_ok_iff.mpr ⟨?_, hdir⟩
    rw [locate_eq_of_isAddressable hne haddressable]
    exact locatePieces_of_filter_eq_nil hdir hsteps

namespace Climbs

/-- Directories that are there need not be made. -/
lemma runOn_makeFirst_of_isOpen (h : t.Climbs start place paths) (hstraight : t.IsStraight place)
    (haddressable : ∀ path ∈ paths, Path.IsAddressable path) (hopen : t.IsOpen start place) :
    (makeFirst paths).runOn t = (.ok (), t) := by
  cases h with
  | here hdir hpaths => exact runOn_makeFirst_here hdir hpaths
  | @step place name path paths h hpath hstart _ =>
    have hfind := (hstart.symm ▸ hopen).find?_eq hpath (haddressable path (by simp))
    have hthere (followLast : Bool) :
        t.find? path followLast = .ok (place ++ [name], .directory) := by
      rw [find?, hstraight.locate_eq hpath followLast, ← find?, hfind]
    exact runOn_makeFirst_of_find? hthere

/-- A directory that was made is open. -/
lemma isOpen_of_makeOne (hpath : t.Names path place) (hstraight : t.IsStraight place)
    (hrun : (makeOne path).runOn t = (.ok (), t')) : t'.IsOpen (t.startOf path) place := by
  have hlast := hstraight.locate_eq hpath false
  cases hlocate : t.locate path with
  | error e =>
    rw [runOn_makeOne_of_locate (hlast.trans hlocate) hlast.symm] at hrun
    cases (Prod.mk.inj hrun).1
  | ok p =>
    obtain rfl := hstraight.eq_of_locate hpath.toSpells hlocate
    have haddressable : Path.IsAddressable path := by
      by_contra hrefused
      obtain ⟨e, -, he⟩ := exists_locate_eq_error hrefused
      rw [he] at hlocate
      cases hlocate
    have hwalk : ∃ names, p = t.startOf path ++ names ∧
        t.locatePieces true maxLinks (t.startOf path) names = .ok p :=
      ⟨_, hpath.place_eq.symm, (hpath.locate_eq haddressable true).symm.trans hlocate⟩
    cases hentry : t.entry? p with
    | none =>
      rw [runOn_makeOne_of_none (hlast.trans hlocate) hentry] at hrun
      obtain ⟨-, rfl⟩ := Prod.mk.inj hrun
      have hne : p ≠ [] := fun hnil => by simp [hnil] at hentry
      have hgrows : Grows ∅ t (t.put p .directory) := Grows.put_directory hentry
      obtain ⟨names, hp, hnames⟩ := hwalk
      exact ⟨⟨names, hp, hgrows.locatePieces_eq hnames⟩, entry?_put_self hne⟩
    | some e =>
      rw [runOn_makeOne_of_some (hlast.trans hlocate) hlocate hentry] at hrun
      obtain ⟨houtcome, rfl⟩ := Prod.mk.inj hrun
      cases e with
      | directory => exact ⟨hwalk, hentry⟩
      | file content => cases houtcome
      | link target => cases houtcome

/-- A directory that was made with those above it is open. -/
lemma isOpen_of_makeFirst (h : t.Climbs start place paths) (hstraight : t.IsStraight place)
    (hrun : (makeFirst paths).runOn t = (.ok (), t')) : t'.IsOpen start place := by
  cases h with
  | here hdir hpaths =>
    rw [runOn_makeFirst_here hdir hpaths] at hrun
    obtain ⟨-, rfl⟩ := Prod.mk.inj hrun
    exact .here hdir
  | @step place name path paths h hpath hstart _ =>
    subst hstart
    by_cases hmake : t.makeDirectory path = .error .notFound
    · rw [runOn_makeFirst_of_notFound hmake] at hrun
      obtain ⟨_, between, habove, hrun⟩ := runOn_bind_eq_ok_iff.mp hrun
      have hgrows : Keeps (Grows ∅) (makeFirst paths) :=
        keeps_makeFirst fun _ _ _ _ h => grows_makeDirectory h
      have hbetween := hgrows t
      rw [habove] at hbetween
      rw [← hbetween.startOf_eq path]
      exact isOpen_of_makeOne (hpath.grows hbetween) (hstraight.grows hbetween) hrun
    · rw [runOn_makeFirst_of_ne hmake] at hrun
      exact isOpen_of_makeOne hpath hstraight hrun

/-- Making a directory with those above it is making those first.  So it is where they are missing,
where they are there already and where a name is too long. -/
lemma runOn_makeFirst_cons (h : t.Climbs (t.startOf path) place paths)
    (hpath : t.Names path (place ++ [name])) (hstraight : t.IsStraight (place ++ [name]))
    (haddressable : Path.IsAddressable path) (habove : ∀ above ∈ paths, Path.IsAddressable above)
    (hlocate : t.locate path false = .error .notFound ∨
      t.locate path false = .ok (place ++ [name]) ∨ t.locate path false = .error .nameTooLong) :
    (makeFirst (path :: paths)).runOn t = (makeFirst paths >>= fun _ => makeOne path).runOn t := by
  rcases hlocate with hlocate | hlocate
  · exact runOn_makeFirst_of_notFound (by rw [makeDirectory, hlocate])
  have hne : t.makeDirectory path ≠ .error .notFound := by
    rw [makeDirectory]
    rcases hlocate with h | h
    · cases hentry : t.entry? (place ++ [name]) <;> simp [h, hentry]
    · simp [h]
  rw [runOn_makeFirst_of_ne hne]
  have hstraight' := hstraight.of_append
  obtain ⟨names, hplace⟩ : ∃ names, place = t.startOf path ++ names := h.exists_append
  rw [hplace, List.append_assoc] at hpath
  have hsteps := hpath.steps_eq
  rw [hpath.locate_eq haddressable, hsteps] at hlocate
  have hwalk := locatePieces_append t maxLinks (t.startOf path) names
  cases hdown : t.locatePieces true maxLinks (t.startOf path) names with
  | ok base =>
    obtain rfl : base = place := by
      refine (eq_of_locatePieces_names (fun n hn => hpath.plain n ?_)
        (fun first rest hsplit _ => ?_) hdown).trans hplace.symm
      · rw [hsteps]
        exact List.mem_append_left _ hn
      · exact hstraight' _ rest (by rw [hplace, hsplit, List.append_assoc])
    obtain ⟨left, hleft⟩ := hwalk.1 base hdown
    rw [hleft false [name] (by simp)] at hlocate
    have hdir : t.entry? base = some .directory := by
      rcases hlocate with h | h
      · exact entry?_of_locatePieces_ok (by simp) h
      · cases hentry : t.entry? base with
        | none => simp [locatePieces_of_none hentry] at h
        | some e =>
          by_cases he : e = .directory
          · rw [he]
          · simp [locatePieces_of_ne_directory hentry he] at h
    have hopen : t.IsOpen _ _ := ⟨⟨names, hplace, hdown⟩, hdir⟩
    rw [runOn_bind_of_ok (h.runOn_makeFirst_of_isOpen hstraight' habove hopen)]
  | error e =>
    rw [hwalk.2 e hdown false [name] (by simp)] at hlocate
    have hnot : e ≠ .notFound := by
      rintro rfl
      simp at hlocate
    have herror : t.locate path false = .error e := by
      rw [hpath.locate_eq haddressable, hsteps, hwalk.2 e hdown false [name] (by simp)]
    rw [hplace, List.append_assoc] at hstraight
    rw [runOn_makeOne_of_locate herror (hstraight.locate_eq hpath false).symm, runOn_bind]
    cases h with
    | here =>
      rw [List.self_eq_append_right.mp hplace, locatePieces_nil] at hdown
      cases hdown
    | @step place' name' above rest _ hnames hstart _ =>
      rw [← hstart] at hplace hdown
      have hplace' : t.locate above = .error e := by
        rw [hnames.locate_eq (habove above (by simp)), Spells.steps_eq (hplace ▸ hnames.toSpells),
          hdown]
      rw [runOn_makeFirst_of_locate ((hstraight'.locate_eq hnames false).trans hplace') hnot
        (hstraight'.locate_eq hnames false).symm]

end Climbs

end FileTree

end CodeAtlas
