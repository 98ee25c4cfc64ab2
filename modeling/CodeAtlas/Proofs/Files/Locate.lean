import CodeAtlas.Files.Basic
import CodeAtlas.Proofs.Files.PathPieces
import Mathlib.Tactic.SplitIfs

/-!
# Walking the pieces of a path

The walk along the pieces of a path is described by how it composes.  A walk along pieces with more
behind them first goes where the pieces lead, following a link at their end too, and then on from
there with whatever budget of links is left (`locatePieces_append`); a plain name at which no link
stands is one step down (`locatePieces_name`).

Taking entries away can make a walk fail, but it cannot lead it elsewhere, as long as a link at its
end is not followed (`Restricts.locatePieces_eq`): what a walk passes are directories and links, and
those it still finds are those that were there.
-/

namespace CodeAtlas

/-- A path that is not refused before it is walked. -/
def Path.IsAddressable (p : String) : Prop :=
  '\x00' ∉ p.toList ∧ p.utf8ByteSize ≤ FileTree.maxPathBytes

/-- What a path that is not refused begins with is not refused either. -/
lemma Path.IsAddressable.of_append {p q : String} (h : IsAddressable (p ++ q)) :
    IsAddressable p := by
  obtain ⟨hzero, hshort⟩ := h
  rw [String.toList_append, List.mem_append, not_or] at hzero
  rw [String.utf8ByteSize_append] at hshort
  exact ⟨hzero.1, by omega⟩

namespace FileTree

variable {t t' : FileTree}

/-- The place from which a path is walked. -/
def startOf (t : FileTree) (path : String) : Place :=
  if Path.isAbsolute path then [] else t.workingDirectory

/-- The place that a path leads to, a link at its end being followed, however long the path is. -/
def placeOf (t : FileTree) (path : String) : Except OsError Place :=
  t.locatePieces true maxLinks (if Path.isAbsolute path then [] else t.workingDirectory)
    (Path.pieces path)

/-! ### One step of a walk -/

section

variable {followLast : Bool} {links : Nat} {place : Place} {piece : String} {pieces : List String}

/-- A walk without pieces stays where it is. -/
@[simp] lemma locatePieces_nil (t : FileTree) (followLast : Bool) (links : Nat) (place : Place) :
    t.locatePieces followLast links place [] = .ok place := by
  rw [locatePieces]

/-- Nothing can be reached from a place without an entry. -/
lemma locatePieces_of_none (h : t.entry? place = none) :
    t.locatePieces followLast links place (piece :: pieces) = .error .notFound := by
  simp [locatePieces, h]

/-- Nothing can be reached from a file or a link. -/
lemma locatePieces_of_ne_directory {e : FileEntry} (h : t.entry? place = some e)
    (he : e ≠ .directory) :
    t.locatePieces followLast links place (piece :: pieces) = .error .notADirectory := by
  cases e with
  | file content => simp [locatePieces, h]
  | directory => exact absurd rfl he
  | link target => simp [locatePieces, h]

/-- A piece that is empty or a `.` stays where it is. -/
lemma locatePieces_dot (h : t.entry? place = some .directory) (hp : piece = "" ∨ piece = ".") :
    t.locatePieces followLast links place (piece :: pieces) =
      t.locatePieces followLast links place pieces := by
  rw [locatePieces, h]
  simp [hp]

/-- A `..` leads up. -/
lemma locatePieces_parent (h : t.entry? place = some .directory) :
    t.locatePieces followLast links place (".." :: pieces) =
      t.locatePieces followLast links place.dropLast pieces := by
  rw [locatePieces, h]
  simp

/-- A name that is too long leads nowhere. -/
lemma locatePieces_tooLong (h : t.entry? place = some .directory)
    (hp : ¬(piece = "" ∨ piece = ".")) (hup : piece ≠ "..")
    (hlong : maxNameBytes < piece.utf8ByteSize) :
    t.locatePieces followLast links place (piece :: pieces) = .error .nameTooLong := by
  rw [locatePieces, h]
  simp [hp, hup, hlong]

/-- A name at which no link stands leads down. -/
lemma locatePieces_name (h : t.entry? place = some .directory)
    (hp : ¬(piece = "" ∨ piece = ".")) (hup : piece ≠ "..")
    (hshort : ¬maxNameBytes < piece.utf8ByteSize)
    (hlink : ∀ target, t.entry? (place ++ [piece]) ≠ some (.link target)) :
    t.locatePieces followLast links place (piece :: pieces) =
      t.locatePieces followLast links (place ++ [piece]) pieces := by
  rw [locatePieces, h]
  simp only [hp, hup, hshort, if_false]

/-- A link that ends a walk which does not follow it is what the walk leads to. -/
lemma locatePieces_lastLink {target : String} (h : t.entry? place = some .directory)
    (hp : ¬(piece = "" ∨ piece = ".")) (hup : piece ≠ "..")
    (hshort : ¬maxNameBytes < piece.utf8ByteSize)
    (hlink : t.entry? (place ++ [piece]) = some (.link target)) :
    t.locatePieces false links place [piece] = .ok (place ++ [piece]) := by
  rw [locatePieces, h]
  simp [hp, hup, hshort, hlink]

/-- A link that is followed is replaced by the pieces of its target. -/
lemma locatePieces_link {target : String} (h : t.entry? place = some .directory)
    (hp : ¬(piece = "" ∨ piece = ".")) (hup : piece ≠ "..")
    (hshort : ¬maxNameBytes < piece.utf8ByteSize)
    (hlink : t.entry? (place ++ [piece]) = some (.link target))
    (hfollow : pieces ≠ [] ∨ followLast = true) :
    t.locatePieces followLast links place (piece :: pieces) =
      if links = 0 then .error .tooManyLinks
      else t.locatePieces followLast (links - 1) (if Path.isAbsolute target then [] else place)
        (Text.splitAt '/' target ++ pieces) := by
  have hnot : ¬(pieces.isEmpty = true ∧ ¬followLast = true) := by
    rintro ⟨hnil, hstop⟩
    exact hfollow.elim (fun h => h (List.isEmpty_iff.mp hnil)) hstop
  rw [locatePieces, h]
  simp only [hp, hup, hshort, hlink, hnot, if_false]

end

/-! ### Composing walks -/

/-- A walk that ends at a place goes on from there with the links that are left to it; a walk that
fails fails whatever comes behind. -/
lemma locatePieces_append (t : FileTree) (links : Nat) (place : Place) (ps : List String) :
    (∀ base, t.locatePieces true links place ps = .ok base →
      ∃ left, ∀ (followLast : Bool) (qs : List String), qs ≠ [] →
        t.locatePieces followLast links place (ps ++ qs) =
          t.locatePieces followLast left base qs) ∧
    (∀ e, t.locatePieces true links place ps = .error e →
      ∀ (followLast : Bool) (qs : List String), qs ≠ [] →
        t.locatePieces followLast links place (ps ++ qs) = .error e) := by
  fun_induction locatePieces t true links place ps with
  | case1 links place =>
    refine ⟨fun base hbase => ⟨links, fun followLast qs _ => ?_⟩, fun e he => by cases he⟩
    rw [List.nil_append, Except.ok.inj hbase]
  | case2 links place piece pieces h =>
    refine ⟨fun base hbase => (by cases hbase), fun e he followLast qs _ => ?_⟩
    rw [List.cons_append, locatePieces_of_none h, ← he]
  | case3 links place piece pieces content h =>
    refine ⟨fun base hbase => (by cases hbase), fun e he followLast qs _ => ?_⟩
    rw [List.cons_append, locatePieces_of_ne_directory h (by simp), ← he]
  | case4 links place piece pieces target h =>
    refine ⟨fun base hbase => (by cases hbase), fun e he followLast qs _ => ?_⟩
    rw [List.cons_append, locatePieces_of_ne_directory h (by simp), ← he]
  | case5 links place piece pieces h hp ih =>
    simpa only [List.cons_append, locatePieces_dot h hp] using ih
  | case6 links place pieces h hp ih =>
    simpa only [List.cons_append, locatePieces_parent h] using ih
  | case7 links place piece pieces h hp hup hlong =>
    refine ⟨fun base hbase => (by cases hbase), fun e he followLast qs _ => ?_⟩
    rw [List.cons_append, locatePieces_tooLong h hp hup hlong, ← he]
  | case8 links place piece pieces h hp hup hshort target hlink hlast =>
    exact absurd rfl hlast.2
  | case9 place piece pieces h hp hup hshort target hlink hlast =>
    refine ⟨fun base hbase => (by cases hbase), fun e he followLast qs hqs => ?_⟩
    rw [List.cons_append, locatePieces_link h hp hup hshort hlink (Or.inl (by simp [hqs])), ← he]
    rfl
  | case10 links place piece pieces h hp hup hshort target hlink hlast hlinks ih =>
    have hstep : ∀ (followLast : Bool) (qs : List String), qs ≠ [] →
        t.locatePieces followLast links place (piece :: pieces ++ qs) =
          t.locatePieces followLast (links - 1) (if Path.isAbsolute target then [] else place)
            (Text.splitAt '/' target ++ pieces ++ qs) := by
      intro followLast qs hqs
      rw [List.cons_append, locatePieces_link h hp hup hshort hlink (Or.inl (by simp [hqs])),
        if_neg hlinks, List.append_assoc]
    refine ⟨fun base hbase => ?_, fun e he followLast qs hqs => ?_⟩
    · obtain ⟨left, hleft⟩ := ih.1 base hbase
      exact ⟨left,
        fun followLast qs hqs => (hstep followLast qs hqs).trans (hleft followLast qs hqs)⟩
    · exact (hstep followLast qs hqs).trans (ih.2 e he followLast qs hqs)
  | case11 links place piece pieces h hp hup hshort hlink ih =>
    simpa only [List.cons_append, locatePieces_name h hp hup hshort fun target heq =>
      hlink target heq] using ih

/-- A walk that goes on starts at a directory. -/
lemma entry?_of_locatePieces_ok {followLast : Bool} {links : Nat} {place p : Place}
    {ps : List String} (hps : ps ≠ []) (hp : t.locatePieces followLast links place ps = .ok p) :
    t.entry? place = some .directory := by
  obtain ⟨piece, pieces, rfl⟩ := List.exists_cons_of_ne_nil hps
  cases h : t.entry? place with
  | none =>
    rw [locatePieces_of_none h] at hp
    cases hp
  | some e =>
    by_cases he : e = .directory
    · rw [he]
    · rw [locatePieces_of_ne_directory h he] at hp
      cases hp

/-- A path leads where its pieces lead. -/
lemma locatePieces_of_locate {followLast : Bool} {path : String} {p : Place}
    (hp : t.locate path followLast = .ok p) :
    t.locatePieces followLast maxLinks (if Path.isAbsolute path then [] else t.workingDirectory)
      (Path.pieces path) = .ok p := by
  unfold locate at hp
  by_cases hzero : path.toList.contains '\x00'
  · rw [if_pos hzero] at hp
    cases hp
  · by_cases hempty : path.isEmpty
    · rw [if_neg hzero, if_pos hempty] at hp
      cases hp
    · by_cases hlong : maxPathBytes < path.utf8ByteSize
      · rw [if_neg hzero, if_neg hempty, if_pos hlong] at hp
        cases hp
      · rwa [if_neg hzero, if_neg hempty, if_neg hlong] at hp

/-- A path that is not refused leads where its pieces lead. -/
lemma locate_eq_of_isAddressable {followLast : Bool} {path : String} (hne : path ≠ "")
    (h : Path.IsAddressable path) : t.locate path followLast =
      t.locatePieces followLast maxLinks (t.startOf path) (Path.pieces path) := by
  have hzero : ¬path.toList.contains '\x00' = true := by
    rw [List.contains_iff_mem]
    exact h.1
  have hempty : ¬path.isEmpty = true := fun heq => hne (String.isEmpty_iff.mp heq)
  unfold locate
  rw [if_neg hzero, if_neg hempty, if_neg (Nat.not_lt.mpr h.2), startOf]

/-- A path that is refused is refused by every tree, and not because it leads nowhere. -/
lemma exists_locate_eq_error {path : String} (h : ¬Path.IsAddressable path) :
    ∃ e, e ≠ .notFound ∧ ∀ (t : FileTree) followLast, t.locate path followLast = .error e := by
  have hempty : ¬path.isEmpty = true := by
    intro heq
    refine h ?_
    rw [String.isEmpty_iff.mp heq]
    exact ⟨by decide, by decide⟩
  by_cases hzero : path.toList.contains '\x00' = true
  · exact ⟨.zeroInName, by simp, fun t followLast => by rw [locate, if_pos hzero]⟩
  · refine ⟨.nameTooLong, by simp, fun t followLast => ?_⟩
    have hlong : maxPathBytes < path.utf8ByteSize := by
      rw [List.contains_iff_mem] at hzero
      by_contra hshort
      exact h ⟨hzero, Nat.not_lt.mp hshort⟩
    rw [locate, if_neg hzero, if_neg hempty, if_pos hlong]

/-- What a path finds is the entry at the place to which it leads. -/
lemma find?_eq_ok_iff {followLast : Bool} {path : String} {p : Place} {e : FileEntry} :
    t.find? path followLast = .ok (p, e) ↔
      t.locate path followLast = .ok p ∧ t.entry? p = some e := by
  unfold find?
  cases t.locate path followLast with
  | error e' => simp
  | ok p' =>
    rw [Except.ok.injEq]
    constructor
    · intro h
      cases he : t.entry? p' with
      | none => simp [he] at h
      | some e' =>
        simp only [he, Except.ok.injEq, Prod.mk.injEq] at h
        exact ⟨h.1, by rw [← h.1, he, h.2]⟩
    · rintro ⟨rfl, he⟩
      simp [he]

/-- What lies behind the stem of a path is seen from the place that the path leads to. -/
lemma locatePieces_stem {followLast : Bool} {path : String} {qs : List String} {p : Place}
    (hqs : qs ≠ [])
    (hp : t.locatePieces followLast maxLinks
      (if Path.isAbsolute path then [] else t.workingDirectory) (Path.stem path ++ qs) = .ok p) :
    ∃ base left, t.placeOf path = .ok base ∧ t.entry? base = some .directory ∧
      t.locatePieces followLast left base qs = .ok p := by
  have hwalk := locatePieces_append t maxLinks
    (if Path.isAbsolute path then [] else t.workingDirectory) (Path.stem path)
  cases hstem : t.locatePieces true maxLinks
      (if Path.isAbsolute path then [] else t.workingDirectory) (Path.stem path) with
  | error e =>
    rw [hwalk.2 e hstem followLast qs hqs] at hp
    cases hp
  | ok base =>
    obtain ⟨left, hleft⟩ := hwalk.1 base hstem
    rw [hleft followLast qs hqs] at hp
    have hdir : t.entry? base = some .directory := entry?_of_locatePieces_ok hqs hp
    refine ⟨base, left, ?_, hdir, hp⟩
    rcases Path.pieces_eq_stem_or path with hpieces | hpieces
    · rw [placeOf, hpieces, hstem]
    · rw [placeOf, hpieces, hleft true [""] (by simp), locatePieces_dot hdir (Or.inl rfl),
        locatePieces_nil]

/-- One plain name leads down, unless a link stands there that is followed. -/
lemma locatePieces_plainName {followLast : Bool} {links : Nat} {base p : Place} {name : String}
    (hname : Path.IsPlainName name) (hp : t.locatePieces followLast links base [name] = .ok p)
    (hlink : followLast = true → ∀ target, t.entry? (base ++ [name]) ≠ some (.link target)) :
    p = base ++ [name] := by
  have hdir : t.entry? base = some .directory := entry?_of_locatePieces_ok (by simp) hp
  have hdot : ¬(name = "" ∨ name = ".") := fun h => h.elim hname.1 hname.2.1
  have hup : name ≠ ".." := hname.2.2.1
  by_cases hshort : maxNameBytes < name.utf8ByteSize
  · rw [locatePieces_tooLong hdir hdot hup hshort] at hp
    cases hp
  · by_cases hthere : ∃ target, t.entry? (base ++ [name]) = some (.link target)
    · obtain ⟨target, htarget⟩ := hthere
      have hstop : followLast = false := by
        cases followLast with
        | false => rfl
        | true => exact absurd htarget (hlink rfl target)
      rw [hstop, locatePieces_lastLink hdir hdot hup hshort htarget] at hp
      exact (Except.ok.inj hp).symm
    · rw [locatePieces_name hdir hdot hup hshort fun target heq => hthere ⟨target, heq⟩,
        locatePieces_nil] at hp
      exact (Except.ok.inj hp).symm

/-- A directory named inside another one lies there, unless a link of that name leads elsewhere. -/
lemma placeOf_join {path name : String} {p : Place} (hname : Path.IsPlainName name)
    (hp : t.placeOf (Path.join path name) = .ok p) :
    ∃ base, t.placeOf path = .ok base ∧
      ((∀ target, t.entry? (base ++ [name]) ≠ some (.link target)) → p = base ++ [name]) := by
  have habs := Path.isAbsolute_of_slash_not_mem hname.2.2.2
  rw [placeOf, Path.isAbsolute_join path habs, Path.pieces_join path habs,
    Path.pieces_of_slash_not_mem hname.2.2.2] at hp
  obtain ⟨base, left, hbase, -, hwalk⟩ := locatePieces_stem (by simp) hp
  exact ⟨base, hbase, fun hlink => locatePieces_plainName hname hwalk fun _ => hlink⟩

/-- What a plain name in a directory stands for, a link not being followed, lies in that
directory. -/
lemma locate_join {path name : String} {p : Place} (hname : Path.IsPlainName name)
    (hp : t.locate (Path.join path name) false = .ok p) :
    ∃ base, t.placeOf path = .ok base ∧ p = base ++ [name] := by
  have habs := Path.isAbsolute_of_slash_not_mem hname.2.2.2
  have hwalk := locatePieces_of_locate hp
  rw [Path.isAbsolute_join path habs, Path.pieces_join path habs,
    Path.pieces_of_slash_not_mem hname.2.2.2] at hwalk
  obtain ⟨base, left, hbase, -, hwalk⟩ := locatePieces_stem (by simp) hwalk
  exact ⟨base, hbase, locatePieces_plainName hname hwalk fun h => absurd h (by simp)⟩

/-! ### Trees with fewer entries -/

/-- A tree seen from the same directory that has no entries but those of another. -/
structure Restricts (t' t : FileTree) : Prop where
  workingDirectory_eq : t'.workingDirectory = t.workingDirectory
  entry?_eq : ∀ place e, t'.entry? place = some e → t.entry? place = some e

namespace Restricts

/-- A tree has no entries but its own. -/
lemma refl (t : FileTree) : t.Restricts t := ⟨rfl, fun _ _ h => h⟩

/-- Fewer than fewer entries are fewer. -/
lemma trans {t'' : FileTree} (h : t''.Restricts t') (h' : t'.Restricts t) : t''.Restricts t :=
  ⟨h.workingDirectory_eq.trans h'.workingDirectory_eq,
    fun place e he => h'.entry?_eq place e (h.entry?_eq place e he)⟩

/-- A walk that does not follow a link at its end leads to the same place where there are more
entries.  Only the last piece may lead to a place without an entry, and then it does not matter what
stands there in the other tree. -/
lemma locatePieces_eq (h : t'.Restricts t) {links : Nat} {place p : Place} {ps : List String}
    (hp : t'.locatePieces false links place ps = .ok p) :
    t.locatePieces false links place ps = .ok p := by
  fun_induction locatePieces t' false links place ps with
  | case1 links place => rwa [locatePieces_nil]
  | case2 | case3 | case4 | case7 | case9 => cases hp
  | case5 links place piece pieces hdir hdot ih =>
    rw [locatePieces_dot (h.entry?_eq _ _ hdir) hdot]
    exact ih hp
  | case6 links place pieces hdir hdot ih =>
    rw [locatePieces_parent (h.entry?_eq _ _ hdir)]
    exact ih hp
  | case8 links place piece pieces hdir hdot hup hshort target hlink hlast =>
    rw [List.isEmpty_iff.mp hlast.1, locatePieces_lastLink (h.entry?_eq _ _ hdir) hdot hup hshort
      (h.entry?_eq _ _ hlink), hp]
  | case10 links place piece pieces hdir hdot hup hshort target hlink hlast hlinks ih =>
    have hmore : pieces ≠ [] := fun hnil => hlast ⟨by simp [hnil], by simp⟩
    rw [locatePieces_link (h.entry?_eq _ _ hdir) hdot hup hshort (h.entry?_eq _ _ hlink)
      (Or.inl hmore), if_neg hlinks]
    exact ih hp
  | case11 links place piece pieces hdir hdot hup hshort hlink ih =>
    have hdir' := h.entry?_eq _ _ hdir
    cases hentry : t'.entry? (place ++ [piece]) with
    | some e =>
      rw [locatePieces_name hdir' hdot hup hshort]
      · exact ih hp
      · intro target heq
        rw [h.entry?_eq _ _ hentry] at heq
        exact hlink target (hentry.trans heq)
    | none =>
      cases pieces with
      | cons piece' pieces =>
        rw [locatePieces_of_none hentry] at hp
        cases hp
      | nil =>
        rw [locatePieces_nil] at hp
        by_cases hthere : ∃ target, t.entry? (place ++ [piece]) = some (.link target)
        · obtain ⟨target, htarget⟩ := hthere
          rw [locatePieces_lastLink hdir' hdot hup hshort htarget, hp]
        · rw [locatePieces_name hdir' hdot hup hshort fun target heq => hthere ⟨target, heq⟩,
            locatePieces_nil, hp]

/-- A path whose last link is not followed leads to the same place where there are more entries. -/
lemma locate_eq (h : t'.Restricts t) {path : String} {p : Place}
    (hp : t'.locate path false = .ok p) : t.locate path false = .ok p := by
  unfold locate at hp ⊢
  split_ifs at hp ⊢
  · exact h.locatePieces_eq hp
  · rw [← h.workingDirectory_eq]
    exact h.locatePieces_eq hp

end Restricts

end FileTree

end CodeAtlas
