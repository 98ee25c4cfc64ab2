import CodeAtlas.Proofs.Action
import CodeAtlas.Proofs.Files.WellFormed
import CodeAtlas.Files.Update

/-!
# Trees that grow

Making directories and writing regular files lets a tree of files grow: its directories and links
stay what they are, no link is added, and the files that are not written to keep their contents
(`FileTree.Grows`).  What a walk passes are directories and links, so a path that led somewhere
leads to the same place in the grown tree, whatever was written (`Grows.locate_eq`).

A document *stands* at a place if its path leads to a regular file there.  It stands there until
that place is written to, and it can be read.
-/

namespace CodeAtlas.FileTree

open CodeAtlas.Action

variable {t t' t'' : FileTree} {place : Place} {touched more : Set Place} {path : String}
  {content : FileContent}

/-- A tree in which directories were made and regular files written, the latter at some places
alone. -/
structure Grows (touched : Set Place) (t t' : FileTree) : Prop where
  workingDirectory_eq : t'.workingDirectory = t.workingDirectory
  directory : ∀ place, t.entry? place = some .directory → t'.entry? place = some .directory
  link_iff : ∀ place target,
    t'.entry? place = some (.link target) ↔ t.entry? place = some (.link target)
  fileAt?_eq : ∀ place, place ∉ touched → t'.fileAt? place = t.fileAt? place

namespace Grows

/-- Nothing needs to be written. -/
lemma refl (touched : Set Place) (t : FileTree) : t.Grows touched t :=
  ⟨rfl, fun _ h => h, fun _ _ => Iff.rfl, fun _ _ => rfl⟩

/-- A tree can grow again. -/
lemma trans (h : Grows touched t t') (h' : Grows touched t' t'') : Grows touched t t'' where
  workingDirectory_eq := h'.workingDirectory_eq.trans h.workingDirectory_eq
  directory place hdir := h'.directory place (h.directory place hdir)
  link_iff place target := (h'.link_iff place target).trans (h.link_iff place target)
  fileAt?_eq place hplace := (h'.fileAt?_eq place hplace).trans (h.fileAt?_eq place hplace)

instance : Std.Refl (Grows touched) := ⟨refl touched⟩

instance : IsTrans FileTree (Grows touched) := ⟨fun _ _ _ => trans⟩

/-- More places may be written to. -/
lemma mono (h : Grows touched t t') (hmore : touched ⊆ more) : Grows more t t' :=
  ⟨h.workingDirectory_eq, h.directory, h.link_iff,
    fun place hplace => h.fileAt?_eq place fun hin => hplace (hmore hin)⟩

/-- A directory can be made where nothing stands. -/
lemma put_directory (h : t.entry? place = none) : Grows touched t (t.put place .directory) := by
  have hne : place ≠ [] := by
    rintro rfl
    cases h
  have hself := entry?_put_self (t := t) (e := .directory) hne
  refine ⟨rfl, fun p hp => ?_, fun p target => ?_, fun p _ => ?_⟩
  · by_cases hpp : p = place
    · rw [hpp, hself]
    · rwa [entry?_put_of_ne _ hpp]
  · by_cases hpp : p = place
    · simp [hpp, hself, h]
    · rw [entry?_put_of_ne _ hpp]
  · by_cases hpp : p = place
    · simp [fileAt?, hpp, hself, h]
    · rw [fileAt?, entry?_put_of_ne _ hpp, fileAt?]

/-- A regular file can be written where neither a directory nor a link stands. -/
lemma put_file (hdir : t.entry? place ≠ some .directory)
    (hlink : ∀ target, t.entry? place ≠ some (.link target)) :
    Grows {place} t (t.put place (.file content)) := by
  have hne : place ≠ [] := by
    rintro rfl
    exact hdir rfl
  have hself := entry?_put_self (t := t) (e := .file content) hne
  refine ⟨rfl, fun p hp => ?_, fun p target => ?_, fun p hp => ?_⟩
  · have hpp : p ≠ place := by
      rintro rfl
      exact hdir hp
    rw [entry?_put_of_ne _ hpp, hp]
  · by_cases hpp : p = place
    · simp [hpp, hself, hlink]
    · rw [entry?_put_of_ne _ hpp]
  · rw [fileAt?, entry?_put_of_ne _ hp, fileAt?]

/-- A walk leads to the same place in the grown tree. -/
lemma locatePieces_eq (h : Grows touched t t') {followLast : Bool} {links : Nat}
    {start : Place} {ps : List String} (hp : t.locatePieces followLast links start ps = .ok place) :
    t'.locatePieces followLast links start ps = .ok place := by
  fun_induction locatePieces t followLast links start ps with
  | case1 links start => rwa [locatePieces_nil]
  | case2 | case3 | case4 | case7 | case9 => cases hp
  | case5 links start piece pieces hdir hdot ih =>
    rw [locatePieces_dot (h.directory _ hdir) hdot]
    exact ih hp
  | case6 links start pieces hdir hdot ih =>
    rw [locatePieces_parent (h.directory _ hdir)]
    exact ih hp
  | case8 links start piece pieces hdir hdot hup hshort target hlink hlast =>
    obtain ⟨hnil, hstop⟩ := hlast
    obtain rfl : followLast = false := by simpa using hstop
    rw [List.isEmpty_iff.mp hnil, locatePieces_lastLink (h.directory _ hdir) hdot hup hshort
      ((h.link_iff _ _).mpr hlink), hp]
  | case10 links start piece pieces hdir hdot hup hshort target hlink hlast hlinks ih =>
    have hfollow : pieces ≠ [] ∨ followLast = true := by
      by_contra hnot
      rw [not_or, not_not] at hnot
      exact hlast ⟨by simp [hnot.1], hnot.2⟩
    rw [locatePieces_link (h.directory _ hdir) hdot hup hshort ((h.link_iff _ _).mpr hlink) hfollow,
      if_neg hlinks]
    exact ih hp
  | case11 links start piece pieces hdir hdot hup hshort hlink ih =>
    rw [locatePieces_name (h.directory _ hdir) hdot hup hshort]
    · exact ih hp
    · exact fun target htarget => hlink target ((h.link_iff _ _).mp htarget)

/-- A path leads to the same place in the grown tree. -/
lemma locate_eq (h : Grows touched t t') {followLast : Bool}
    (hp : t.locate path followLast = .ok place) : t'.locate path followLast = .ok place := by
  unfold locate at hp ⊢
  split_ifs at hp ⊢
  · exact h.locatePieces_eq hp
  · rw [h.workingDirectory_eq]
    exact h.locatePieces_eq hp

/-- A directory that was found is found in the grown tree. -/
lemma find?_directory (h : Grows touched t t') (hfind : t.find? path = .ok (place, .directory)) :
    t'.find? path = .ok (place, .directory) := by
  obtain ⟨hlocate, hdir⟩ := find?_eq_ok_iff.mp hfind
  exact find?_eq_ok_iff.mpr ⟨h.locate_eq hlocate, h.directory place hdir⟩

/-- A directory that a path leads to is found in the grown tree. -/
lemma placeOf_eq (h : Grows touched t t') (hp : t.placeOf path = .ok place) :
    t'.placeOf path = .ok place := by
  unfold placeOf at hp ⊢
  rw [h.workingDirectory_eq]
  exact h.locatePieces_eq hp

end Grows

/-- The directories on the way to a place are still there when the tree has grown. -/
lemma Reaches.grows (h : t.Reaches place) (hgrows : Grows touched t t') : t'.Reaches place :=
  fun above below hplace hne => hgrows.directory above (h above below hplace hne)

/-! ### Documents that stand -/

/-- A walk that leads to no link leads there too if a link at its end would be followed. -/
lemma locatePieces_followLast {links : Nat} {start : Place} {ps : List String}
    (hp : t.locatePieces false links start ps = .ok place)
    (hlink : ∀ target, t.entry? place ≠ some (.link target)) :
    t.locatePieces true links start ps = .ok place := by
  fun_induction locatePieces t false links start ps with
  | case1 links start => rwa [locatePieces_nil]
  | case2 | case3 | case4 | case7 | case9 => cases hp
  | case5 links start piece pieces hdir hdot ih =>
    rw [locatePieces_dot hdir hdot]
    exact ih hp
  | case6 links start pieces hdir hdot ih =>
    rw [locatePieces_parent hdir]
    exact ih hp
  | case8 links start piece pieces hdir hdot hup hshort target htarget hlast =>
    rw [← Except.ok.inj hp] at hlink
    exact absurd htarget (hlink target)
  | case10 links start piece pieces hdir hdot hup hshort target htarget hlast hlinks ih =>
    rw [locatePieces_link hdir hdot hup hshort htarget (Or.inr rfl), if_neg hlinks]
    exact ih hp
  | case11 links start piece pieces hdir hdot hup hshort hnone ih =>
    rw [locatePieces_name hdir hdot hup hshort fun target htarget => hnone target htarget]
    exact ih hp

/-- A path leads to a regular file, which is not reached through a link of its own name. -/
structure Stands (t : FileTree) (path : String) (place : Place) (content : FileContent) : Prop where
  locate_eq : t.locate path false = .ok place
  entry?_eq : t.entry? place = some (.file content)

/-- The bytes of a text are read as the text. -/
lemma fromUTF8?_toUTF8 (text : String) :
    String.fromUTF8? text.toUTF8 = some text := dif_pos text.isValidUTF8

namespace Stands

/-- A document is found also where links are followed. -/
lemma find?_eq (h : t.Stands path place content) :
    t.find? path = .ok (place, .file content) := by
  have hwalk := h.locate_eq
  rw [find?_eq_ok_iff]
  refine ⟨?_, h.entry?_eq⟩
  unfold locate at hwalk ⊢
  split_ifs at hwalk ⊢
  all_goals exact locatePieces_followLast hwalk (by simp [h.entry?_eq])

/-- A document is a file. -/
lemma isFile (h : t.Stands path place content) : t.isFile path = true := by
  rw [FileTree.isFile, lookup?, h.find?_eq]

/-- A document is there. -/
lemma exists? (h : t.Stands path place content) : t.exists? path = true := by
  rw [FileTree.exists?, lookup?, h.find?_eq]
  rfl

/-- The text of a document is read. -/
lemma readText {text : String} (h : t.Stands path place content)
    (htext : content.bytes = text.toUTF8) : t.readText path = .ok text := by
  have hdecode : String.fromUTF8? content.bytes = some text := by rw [htext, fromUTF8?_toUTF8]
  rw [FileTree.readText, FileTree.read, h.find?_eq]
  simp only [hdecode]

/-- A document stands until its place is written to. -/
lemma grows (h : t.Stands path place content) (hgrows : Grows touched t t')
    (hplace : place ∉ touched) : t'.Stands path place content := by
  refine ⟨hgrows.locate_eq h.locate_eq, ?_⟩
  rw [← fileAt?_eq_some_iff, hgrows.fileAt?_eq place hplace, fileAt?_eq_some_iff, h.entry?_eq]

end Stands

/-! ### Making directories -/

/-- A directory is made where nothing stands. -/
lemma grows_makeDirectory (h : t.makeDirectory path = .ok t') : Grows touched t t' := by
  unfold makeDirectory at h
  cases hlocate : t.locate path false with
  | error e => simp [hlocate] at h
  | ok place =>
    cases hentry : t.entry? place with
    | some e => simp [hlocate, hentry] at h
    | none =>
      simp only [hlocate, hentry, Except.ok.injEq] at h
      exact h ▸ Grows.put_directory hentry

/-- Making directories one after the other keeps what making one of them keeps, however many of them
can be made. -/
lemma keeps_makeFirst {r : FileTree → FileTree → Prop} [Std.Refl r] [IsTrans FileTree r]
    {paths : List String}
    (hmake : ∀ path ∈ paths, ∀ t t', FileTree.makeDirectory t path = .ok t' → r t t') :
    Keeps r (makeFirst paths) := by
  induction paths with
  | nil => exact Keeps.pure ()
  | cons path parents ih =>
    rw [List.forall_mem_cons] at hmake
    rw [makeFirst]
    refine Keeps.bind Keeps.get fun t => ?_
    split
    on_goal 1 => refine Keeps.bind (ih hmake.2) fun _ => ?_
    -- Either way the first directory is made in the end.
    all_goals
      intro t
      rw [runOn_bind, runOn_get]
      cases hmade : t.makeDirectory path with
      | ok t' => simpa [hmade] using hmake.1 t t' hmade
      | error e =>
        simp only [hmade]
        split_ifs
        · exact Std.Refl.refl t
        · exact Std.Refl.refl t

end CodeAtlas.FileTree
