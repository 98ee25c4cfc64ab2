import CodeAtlas.Proofs.Files.Documents
import CodeAtlas.Proofs.Files.Spelling

/-!
# Looking into a tree that was extended

When directories were made at some places and files written at others, whoever asks for a third
place gets the answer that the tree gave before (`Extends.find?_cases`).  The walk to it may get
further than it did: a directory that was missing on the way may have been made in the meantime.
But in a tree whose entries lie in directories there was nothing behind the missing one, so the walk
still finds nothing.
-/

namespace CodeAtlas.FileTree

open Std (ExtTreeMap)

variable {t t' t'' : FileTree} {place : Place} {made written more : Set Place} {names : List String}
  {settings : IndexingSettings} {start : Place} {path : String}

/-! ### Single entries -/

/-- Putting an entry changes what stands at its place, unless this is the root. -/
lemma entry?_put (t : FileTree) (place : Place) (e : FileEntry) (p : Place) :
    FileTree.entry? (t.put place e) p = if p = place ∧ place ≠ [] then some e else t.entry? p := by
  by_cases hp : p = place
  · by_cases hnil : place = []
    · simp [hp, hnil]
    · rw [hp, entry?_put_self hnil, if_pos ⟨rfl, hnil⟩]
  · rw [entry?_put_of_ne e hp, if_neg fun h => hp h.1]

/-- Erasing an entry changes what stands at its place, unless this is the root. -/
lemma entry?_erase (t : FileTree) (place p : Place) :
    FileTree.entry? (t.erase place) p = if p = place ∧ place ≠ [] then none else t.entry? p := by
  by_cases hp : p = place
  · by_cases hnil : place = []
    · simp [hp, hnil]
    · simp [hp, hnil, erase, entry?]
  · simp [erase, entry?, ExtTreeMap.getElem?_erase, hp, Ne.symm hp]

/-- Every entry lies in a directory. -/
def IsClosed (t : FileTree) : Prop :=
  ∀ place name e, t.entry? (place ++ [name]) = some e → t.entry? place = some .directory

/-- Nothing lies below a place where nothing stands. -/
lemma IsClosed.entry?_append (h : t.IsClosed) (hnone : t.entry? place = none)
    (names : List String) :
    t.entry? (place ++ names) = none := by
  induction names using List.reverseRecOn with
  | nil => rwa [List.append_nil]
  | append_singleton names name ih =>
    cases hentry : t.entry? (place ++ (names ++ [name])) with
    | none => rfl
    | some e =>
      rw [← List.append_assoc] at hentry
      rw [h _ _ _ hentry] at ih
      cases ih

/-- Nothing is put but into a directory. -/
lemma IsClosed.put (h : t.IsClosed) {name : String} {e : FileEntry}
    (hdir : t.entry? place = some .directory)
    (hkind : t.entry? (place ++ [name]) = some .directory → e = .directory) :
    (t.put (place ++ [name]) e).IsClosed := by
  intro p n e' he'
  have hp : t.entry? p = some .directory := by
    rw [entry?_put] at he'
    split_ifs at he' with hpn
    · rwa [(List.append_inj' hpn.1 rfl).1]
    · exact h p n e' he'
  rw [entry?_put]
  split_ifs with hsame
  · rw [hkind (hsame.1 ▸ hp)]
  · exact hp

/-! ### Extended trees -/

/-- A tree in which directories were made at some places alone and files written at others. -/
structure Extends (made written : Set Place) (t t' : FileTree) : Prop
    extends Grows written t t' where
  made_of_directory : ∀ place, t'.entry? place = some .directory →
    t.entry? place = some .directory ∨ place ∈ made

namespace Extends

/-- Nothing needs to happen. -/
lemma refl (made written : Set Place) (t : FileTree) : Extends made written t t :=
  ⟨Grows.refl written t, fun _ h => Or.inl h⟩

/-- A tree can be extended again. -/
lemma trans (h : Extends made written t t') (h' : Extends made written t' t'') :
    Extends made written t t'' :=
  ⟨h.toGrows.trans h'.toGrows, fun place hdir =>
    (h'.made_of_directory place hdir).elim (h.made_of_directory place) Or.inr⟩

/-- Where no file was written, what stands there is what stood there, or a directory was made. -/
lemma entry?_cases (h : Extends made written t t') (hplace : place ∉ written) :
    t'.entry? place = t.entry? place ∨
      place ∈ made ∧ t.entry? place = none ∧ t'.entry? place = some .directory := by
  have hfile := h.fileAt?_eq place hplace
  cases hentry : t.entry? place with
  | none =>
    cases hentry' : t'.entry? place with
    | none => exact Or.inl rfl
    | some e =>
      cases e with
      | file content =>
        rw [fileAt?, hentry', fileAt?, hentry] at hfile
        cases hfile
      | link target =>
        rw [(h.link_iff place target).mp hentry'] at hentry
        cases hentry
      | directory =>
        rcases h.made_of_directory place hentry' with hdir | hmade
        · rw [hdir] at hentry
          cases hentry
        · exact Or.inr ⟨hmade, rfl, rfl⟩
  | some e =>
    left
    cases e with
    | file content =>
      rw [fileAt?_eq_some_iff.mpr hentry, fileAt?_eq_some_iff] at hfile
      exact hfile
    | directory => exact h.directory place hentry
    | link target => exact (h.link_iff place target).mpr hentry

/-- Where nothing was made or written, what stands there is what stood there. -/
lemma entry?_eq (h : Extends made written t t') (hmade : place ∉ made) (hplace : place ∉ written) :
    t'.entry? place = t.entry? place :=
  (h.entry?_cases hplace).resolve_right fun hnew => hmade hnew.1

/-- More places may be written to. -/
lemma mono (h : Extends made written t t') (hmore : written ⊆ more) : Extends made more t t' :=
  ⟨h.toGrows.mono hmore, h.made_of_directory⟩

/-- Where none but documents were written, documents were added. -/
lemma addsDocuments (h : Extends made written t t') (hwritten : ∀ q ∈ written, IsDocument q) :
    t.AddsDocuments t' where
  directory := h.directory
  kept p e hp he := by
    rcases h.entry?_cases fun hin => hp (hwritten p hin) with hsame | ⟨-, hnone, -⟩
    · rw [hsame, he]
    · rw [hnone] at he
      cases he
  added p e hp he := by
    rcases h.entry?_cases fun hin => hp (hwritten p hin) with hsame | ⟨-, hnone, hdir⟩
    · exact Or.inl (hsame ▸ he)
    · rw [hdir] at he
      exact Or.inr ⟨hnone, (Option.some.inj he).symm⟩
  link p target := (h.link_iff p target).mp

/-- The same entry can be put into both trees. -/
lemma put_both (h : Extends made written t t') (place : Place) (e : FileEntry) :
    Extends made written (t.put place e) (t'.put place e) where
  workingDirectory_eq := h.workingDirectory_eq
  directory p hdir := by
    rw [entry?_put] at hdir ⊢
    split_ifs at hdir ⊢
    · exact hdir
    · exact h.directory p hdir
  link_iff p target := by
    rw [entry?_put, entry?_put]
    split_ifs
    · exact Iff.rfl
    · exact h.link_iff p target
  fileAt?_eq p hp := by
    have hfile := h.fileAt?_eq p hp
    rw [fileAt?, fileAt?] at hfile ⊢
    rw [entry?_put, entry?_put]
    split_ifs
    · rfl
    · exact hfile
  made_of_directory p hdir := by
    rw [entry?_put] at hdir ⊢
    split_ifs at hdir ⊢
    · exact Or.inl hdir
    · exact h.made_of_directory p hdir

/-- The same entry can be erased from both trees. -/
lemma erase_both (h : Extends made written t t') (place : Place) :
    Extends made written (t.erase place) (t'.erase place) where
  workingDirectory_eq := h.workingDirectory_eq
  directory p hdir := by
    rw [entry?_erase] at hdir ⊢
    split_ifs at hdir ⊢
    exact h.directory p hdir
  link_iff p target := by
    rw [entry?_erase, entry?_erase]
    split_ifs
    · exact Iff.rfl
    · exact h.link_iff p target
  fileAt?_eq p hp := by
    have hfile := h.fileAt?_eq p hp
    rw [fileAt?, fileAt?] at hfile ⊢
    rw [entry?_erase, entry?_erase]
    split_ifs
    · rfl
    · exact hfile
  made_of_directory p hdir := by
    rw [entry?_erase] at hdir ⊢
    split_ifs at hdir ⊢
    exact h.made_of_directory p hdir

/-- A directory that was made already can be made in the smaller tree too. -/
lemma put_left (h : Extends made written t t') (hnone : t.entry? place = none)
    (hdir : t'.entry? place = some .directory) :
    Extends made written (t.put place .directory) t' where
  workingDirectory_eq := h.workingDirectory_eq
  directory p hp := by
    rw [entry?_put] at hp
    split_ifs at hp with hsame
    · rw [hsame.1, hdir]
    · exact h.directory p hp
  link_iff p target := by
    rw [entry?_put]
    split_ifs with hsame
    · rw [hsame.1, hdir]
    · exact h.link_iff p target
  fileAt?_eq p hp := by
    have hfile := h.fileAt?_eq p hp
    rw [hfile, fileAt?, fileAt?, entry?_put]
    split_ifs with hsame
    · rw [hsame.1, hnone]
    · rfl
  made_of_directory p hp := by
    rw [entry?_put]
    split_ifs
    · exact Or.inl rfl
    · exact h.made_of_directory p hp

end Extends

/-! ### Ways without links -/

/-- No link stands on the way to a place or at it. -/
def IsStraight (t : FileTree) (place : Place) : Prop :=
  ∀ above below, place = above ++ below → ∀ target, t.entry? above ≠ some (.link target)

/-- The way to a place above is straight too. -/
lemma IsStraight.of_append {above below : Place} (h : t.IsStraight (above ++ below)) :
    t.IsStraight above := fun first rest hsplit =>
  h first (rest ++ below) (by rw [hsplit, List.append_assoc])

/-- A way without links stays one when the tree grows. -/
lemma IsStraight.grows {touched : Set Place} (h : t.IsStraight place)
    (hgrows : Grows touched t t') :
    t'.IsStraight place := fun above below hsplit target htarget =>
  h above below hsplit target ((hgrows.link_iff above target).mp htarget)

/-- No link stands at the end of a straight way. -/
lemma IsStraight.ne_link (h : t.IsStraight place) (target : String) :
    t.entry? place ≠ some (.link target) := h place [] (List.append_nil place).symm target

/-- Where there are no links it does not matter whether they would be followed. -/
lemma locatePieces_of_no_link {followLast : Bool} {links : Nat}
    (hplain : ∀ name ∈ names, Path.IsPlainName name)
    (hlink : ∀ above below, names = above ++ below → above ≠ [] →
      ∀ target, t.entry? (place ++ above) ≠ some (.link target)) :
    t.locatePieces followLast links place names = t.locatePieces true links place names := by
  induction names generalizing place with
  | nil => rw [locatePieces_nil, locatePieces_nil]
  | cons name names ih =>
    rw [List.forall_mem_cons] at hplain
    by_cases hdir : t.entry? place = some .directory
    · have hdot : ¬(name = "" ∨ name = ".") := fun h => h.elim hplain.1.1 hplain.1.2.1
      have hfirst := hlink [name] names rfl (by simp)
      by_cases hlong : maxNameBytes < name.utf8ByteSize
      · rw [locatePieces_tooLong hdir hdot hplain.1.2.2.1 hlong,
          locatePieces_tooLong hdir hdot hplain.1.2.2.1 hlong]
      · rw [locatePieces_name hdir hdot hplain.1.2.2.1 hlong hfirst,
          locatePieces_name hdir hdot hplain.1.2.2.1 hlong hfirst]
        refine ih hplain.2 fun above below hsplit hne target => ?_
        rw [List.append_assoc]
        exact hlink (name :: above) below (by rw [hsplit, List.cons_append]) (by simp) target
    · cases hentry : t.entry? place with
      | none => rw [locatePieces_of_none hentry, locatePieces_of_none hentry]
      | some e =>
        have he : e ≠ .directory := fun heq => hdir (heq ▸ hentry)
        rw [locatePieces_of_ne_directory hentry he, locatePieces_of_ne_directory hentry he]

/-- A walk along names that passes neither files nor links gets to the end unless a directory is
missing or a name is too long. -/
lemma locatePieces_cases {followLast : Bool} {links : Nat}
    (hplain : ∀ name ∈ names, Path.IsPlainName name)
    (h : ∀ above below, names = above ++ below →
      t.entry? (place ++ above) = none ∨ t.entry? (place ++ above) = some .directory) :
    t.locatePieces followLast links place names = .ok (place ++ names) ∨
      t.locatePieces followLast links place names = .error .notFound ∨
      t.locatePieces followLast links place names = .error .nameTooLong := by
  induction names generalizing place with
  | nil =>
    rw [locatePieces_nil, List.append_nil]
    exact Or.inl rfl
  | cons name names ih =>
    rw [List.forall_mem_cons] at hplain
    rcases h [] (name :: names) rfl with hnone | hdir
    · rw [List.append_nil] at hnone
      exact Or.inr (Or.inl (locatePieces_of_none hnone))
    · rw [List.append_nil] at hdir
      have hdot : ¬(name = "" ∨ name = ".") := fun h => h.elim hplain.1.1 hplain.1.2.1
      by_cases hlong : maxNameBytes < name.utf8ByteSize
      · exact Or.inr (Or.inr (locatePieces_tooLong hdir hdot hplain.1.2.2.1 hlong))
      · have hsplit : place ++ name :: names = (place ++ [name]) ++ names := by simp
        rw [locatePieces_name hdir hdot hplain.1.2.2.1 hlong, hsplit]
        · refine ih hplain.2 fun above below heq => ?_
          have hnext := h (name :: above) below (by rw [heq, List.cons_append])
          rwa [List.append_assoc]
        · intro target htarget
          rcases h [name] names rfl with hnone | hdir <;> simp_all

/-- A walk along names in an extended tree.  It goes as it went before, or it gets further, and then
nothing stood at its end. -/
lemma Extends.locatePieces_cases (h : Extends made written t t') (hclosed : t.IsClosed)
    {followLast : Bool} {links : Nat} (hplain : ∀ name ∈ names, Path.IsPlainName name)
    (hlink : ∀ above below, names = above ++ below → above ≠ [] →
      ∀ target, t.entry? (place ++ above) ≠ some (.link target))
    (hwritten : ∀ above below, names = above ++ below → place ++ above ∉ written) :
    t'.locatePieces followLast links place names = t.locatePieces followLast links place names ∨
      t.locatePieces followLast links place names = .error .notFound ∧
        t.entry? (place ++ names) = none ∧
        (t'.locatePieces followLast links place names = .ok (place ++ names) ∨
          t'.locatePieces followLast links place names = .error .nameTooLong) := by
  induction names generalizing place with
  | nil =>
    rw [locatePieces_nil, locatePieces_nil]
    exact Or.inl rfl
  | cons name names ih =>
    have hplain' := hplain
    rw [List.forall_mem_cons] at hplain
    have hhere : place ∉ written := by simpa using hwritten [] (name :: names) rfl
    rcases h.entry?_cases hhere with hsame | ⟨-, hnone, hdir⟩
    · by_cases hdir : t.entry? place = some .directory
      · rw [hdir] at hsame
        have hdot : ¬(name = "" ∨ name = ".") := fun h => h.elim hplain.1.1 hplain.1.2.1
        have hfirst := hlink [name] names rfl (by simp)
        have hfirst' : ∀ target, t'.entry? (place ++ [name]) ≠ some (.link target) :=
          fun target htarget => hfirst target ((h.link_iff _ target).mp htarget)
        by_cases hlong : maxNameBytes < name.utf8ByteSize
        · rw [locatePieces_tooLong hdir hdot hplain.1.2.2.1 hlong,
            locatePieces_tooLong hsame hdot hplain.1.2.2.1 hlong]
          exact Or.inl rfl
        · have hsplit : place ++ name :: names = (place ++ [name]) ++ names := by simp
          rw [locatePieces_name hdir hdot hplain.1.2.2.1 hlong hfirst,
            locatePieces_name hsame hdot hplain.1.2.2.1 hlong hfirst', hsplit]
          refine ih hplain.2 (fun above below heq hne target => ?_) fun above below heq => ?_
          · rw [List.append_assoc]
            exact hlink (name :: above) below (by rw [heq, List.cons_append]) (by simp) target
          · rw [List.append_assoc]
            exact hwritten (name :: above) below (by rw [heq, List.cons_append])
      · left
        cases hentry : t.entry? place with
        | none => rw [locatePieces_of_none hentry, locatePieces_of_none (hsame.trans hentry)]
        | some e =>
          have he : e ≠ .directory := fun heq => hdir (heq ▸ hentry)
          rw [locatePieces_of_ne_directory hentry he,
            locatePieces_of_ne_directory (hsame.trans hentry) he]
    · -- A directory was made here; there was nothing behind it, so all that is there was made too.
      have hbelow := hclosed.entry?_append hnone
      have hnew : ∀ above below, name :: names = above ++ below →
          t'.entry? (place ++ above) = none ∨ t'.entry? (place ++ above) = some .directory := by
        intro above below heq
        rcases h.entry?_cases (hwritten above below heq) with hsame | ⟨-, -, hdir⟩
        · exact Or.inl (hsame.trans (hbelow above))
        · exact Or.inr hdir
      rw [locatePieces_of_none hnone]
      rcases FileTree.locatePieces_cases hplain' hnew with hok | hnotFound | hlong
      · exact Or.inr ⟨rfl, hbelow _, Or.inl hok⟩
      · exact Or.inl hnotFound
      · exact Or.inr ⟨rfl, hbelow _, Or.inr hlong⟩

/-! ### Texts of places -/

/-- A text that spells a place leads to it or nowhere, if there are no links on the way. -/
lemma IsStraight.eq_of_locate (h : t.IsStraight place) (hpath : t.Spells path place)
    {followLast : Bool} {p : Place} (hp : t.locate path followLast = .ok p) : p = place := by
  have hplace := hpath.place_eq
  refine (eq_of_locatePieces_steps hpath.plain (fun above below hsplit _ => ?_)
    (locatePieces_of_locate hp)).trans hplace
  refine h _ below ?_
  rw [← hplace, startOf, List.append_assoc, ← hsplit]
  rfl

/-- Where there are no links on the way it does not matter whether one at the end is followed. -/
lemma IsStraight.locate_eq (h : t.IsStraight place) (hpath : t.Names path place)
    (followLast : Bool) : t.locate path followLast = t.locate path := by
  by_cases haddressable : Path.IsAddressable path
  · rw [hpath.locate_eq haddressable, hpath.locate_eq haddressable]
    refine locatePieces_of_no_link hpath.plain fun above below hsplit _ => h _ below ?_
    rw [← hpath.place_eq, List.append_assoc, ← hsplit]
  · obtain ⟨e, -, he⟩ := exists_locate_eq_error haddressable
    rw [he, he]

namespace Extends

/-- A text that names a place, in an extended tree where nothing was written on the way.  It leads
where it led, or it led nowhere because a directory was missing. -/
lemma locate_cases (h : Extends made written t t') (hclosed : t.IsClosed)
    (hstraight : t.IsStraight place) (hpath : t.Names path place)
    (hwritten : ∀ above below, place = above ++ below → above ∉ written) (followLast : Bool) :
    t'.locate path followLast = t.locate path followLast ∨
      Path.IsAddressable path ∧ t.locate path followLast = .error .notFound ∧
        t.entry? place = none ∧
        (t'.locate path followLast = .ok place ∨
          t'.locate path followLast = .error .nameTooLong) := by
  by_cases haddressable : Path.IsAddressable path
  · have hsplit : ∀ {above below}, Path.steps path = above ++ below →
        place = t.startOf path ++ above ++ below := fun heq => by
      rw [← hpath.place_eq, heq, List.append_assoc]
    rw [hpath.locate_eq haddressable, (hpath.grows h.toGrows).locate_eq haddressable,
      h.startOf_eq path, ← hpath.place_eq]
    refine Or.imp_right (fun hnew => ⟨haddressable, hnew⟩) (h.locatePieces_cases hclosed
      hpath.plain (fun above below heq _ => hstraight _ below (hsplit heq)) ?_)
    exact fun above below heq => hwritten _ below (hsplit heq)
  · obtain ⟨e, -, he⟩ := exists_locate_eq_error haddressable
    rw [he, he]
    exact Or.inl rfl

/-- Whoever looks for a place where nothing was made, and on the way to which nothing was written,
finds what was there before or still nothing. -/
lemma find?_cases (h : Extends made written t t') (hclosed : t.IsClosed)
    (hstraight : t.IsStraight place) (hpath : t.Names path place)
    (hwritten : ∀ above below, place = above ++ below → above ∉ written) (hmade : place ∉ made) :
    t'.find? path = t.find? path ∨
      (∃ e, t.find? path = .error e) ∧ ∃ e, t'.find? path = .error e := by
  have hentry := h.entry?_eq hmade (hwritten place [] (by simp))
  rcases h.locate_cases hclosed hstraight hpath hwritten true with
    hsame | ⟨-, hnotFound, hnone, hok | hlong⟩
  · left
    cases hlocate : t.locate path with
    | error e => rw [find?, find?, hsame, hlocate]
    | ok p =>
      obtain rfl := hstraight.eq_of_locate hpath.toSpells hlocate
      rw [find?, find?, hsame, hlocate]
      simp only [hentry]
  · refine Or.inr ⟨⟨.notFound, by rw [find?, hnotFound]⟩, .notFound, ?_⟩
    rw [find?, hok]
    simp only [hentry, hnone]
  · exact Or.inr ⟨⟨.notFound, by rw [find?, hnotFound]⟩, .nameTooLong, by rw [find?, hlong]⟩

/-- What a path leads to is what it led to. -/
lemma lookup?_eq (h : Extends made written t t') (hclosed : t.IsClosed)
    (hstraight : t.IsStraight place) (hpath : t.Names path place)
    (hwritten : ∀ above below, place = above ++ below → above ∉ written) (hmade : place ∉ made) :
    t'.lookup? path = t.lookup? path := by
  rw [lookup?, lookup?]
  rcases h.find?_cases hclosed hstraight hpath hwritten hmade with hsame | ⟨⟨e, he⟩, e', he'⟩
  · rw [hsame]
  · rw [he, he']

/-- What was found is found. -/
lemma find?_eq (h : Extends made written t t') (hclosed : t.IsClosed)
    (hstraight : t.IsStraight place) (hpath : t.Names path place)
    (hwritten : ∀ above below, place = above ++ below → above ∉ written) (hmade : place ∉ made)
    (hthere : t.exists? path = true) : t'.find? path = t.find? path := by
  rcases h.find?_cases hclosed hstraight hpath hwritten hmade with hsame | ⟨⟨e, he⟩, -⟩
  · exact hsame
  · rw [exists?, lookup?, he] at hthere
    cases hthere

end Extends

end CodeAtlas.FileTree
