import CodeAtlas.Proofs.Files.Locate
import CodeAtlas.Proofs.Files.Steps
import Mathlib.Data.List.Induction

/-!
# Well-formed trees and the paths of their entries

In a tree of files as it stands on a disk, every entry lies in a directory, its names are plain and
its path is not too long (`FileTree.WellFormed`).  The way down to an entry then leads through
directories only (`FileTree.Reaches`), so its path leads to it and reads what stands there.

The same way is taken by any other spelling of the path.  What an extra slash or a `.` adds to the
walk depends on nothing but the directories on the way, so two trees with the same way to a file
agree on which spellings lead to it (`locate_eq_of_locate`).
-/

namespace CodeAtlas.FileTree

variable {t t' : FileTree} {place : Place}

/-- An entry that was put at a place stands there. -/
lemma entry?_put_self {e : FileEntry} (h : place ≠ []) :
    FileTree.entry? (t.put place e) place = some e := by
  simp [put, entry?, h]

/-- Putting an entry at a place leaves the others alone. -/
lemma entry?_put_of_ne {p : Place} (e : FileEntry) (h : p ≠ place) :
    FileTree.entry? (t.put place e) p = t.entry? p := by
  simp [put, entry?, Std.ExtTreeMap.getElem?_insert, Ne.symm h]

/-- The content of the file at a place. -/
def fileAt? (t : FileTree) (place : Place) : Option FileContent :=
  match t.entry? place with
  | some (.file content) => some content
  | _ => none

/-- There is a content where a file stands. -/
lemma fileAt?_eq_some_iff {content : FileContent} :
    t.fileAt? place = some content ↔ t.entry? place = some (.file content) := by
  unfold fileAt?
  split <;> simp_all

/-- The directories on the way to a place are there. -/
def Reaches (t : FileTree) (place : Place) : Prop :=
  ∀ above below, place = above ++ below → below ≠ [] → t.entry? above = some .directory

/-- Names that can stand on a disk. -/
structure IsWritable (place : Place) : Prop where
  plain : ∀ name ∈ place, Path.IsPlainName name
  zero_not_mem : '\x00' ∉ (pathOf place).toList
  shortNames : ∀ name ∈ place, name.utf8ByteSize ≤ maxNameBytes
  shortPath : (pathOf place).utf8ByteSize ≤ maxPathBytes

instance (place : Place) : Decidable (IsWritable place) :=
  decidable_of_iff ((∀ name ∈ place, Path.IsPlainName name) ∧ '\x00' ∉ (pathOf place).toList ∧
      (∀ name ∈ place, name.utf8ByteSize ≤ maxNameBytes) ∧
      (pathOf place).utf8ByteSize ≤ maxPathBytes)
    ⟨fun ⟨h, h', h'', h'''⟩ => ⟨h, h', h'', h'''⟩,
      fun h => ⟨h.plain, h.zero_not_mem, h.shortNames, h.shortPath⟩⟩

/-- The path of a place begins with that of any place above it but the root. -/
lemma exists_pathOf_append (above : Place) {below : Place} (hbelow : below ≠ []) :
    above = [] ∨ ∃ rest, pathOf (above ++ below) = pathOf above ++ rest := by
  by_cases habove : above = []
  · exact Or.inl habove
  · refine Or.inr ⟨"/" ++ "/".intercalate below, ?_⟩
    rw [pathOf, pathOf, Path.ofNames, Path.ofNames,
      String.intercalate_append_of_ne_nil habove hbelow]
    simp only [String.append_assoc]

/-- The path of a place above one whose path is not refused is not refused either. -/
lemma isAddressable_pathOf_of_append {above below : Place}
    (h : Path.IsAddressable (pathOf (above ++ below))) : Path.IsAddressable (pathOf above) := by
  by_cases hbelow : below = []
  · rwa [hbelow, List.append_nil] at h
  rcases exists_pathOf_append above hbelow with rfl | ⟨rest, hrest⟩
  · exact ⟨by decide, by decide⟩
  · rw [hrest] at h
    exact h.of_append

/-- A place above one that can be written can be written. -/
lemma IsWritable.of_append {above below : Place} (h : IsWritable (above ++ below)) :
    IsWritable above := by
  have haddressable : Path.IsAddressable (pathOf above) :=
    isAddressable_pathOf_of_append ⟨h.zero_not_mem, h.shortPath⟩
  exact ⟨fun name hname => h.plain name (List.mem_append_left _ hname), haddressable.1,
    fun name hname => h.shortNames name (List.mem_append_left _ hname), haddressable.2⟩

/-- A tree whose entries lie in directories and can be written down. -/
structure WellFormed (t : FileTree) : Prop where
  writable : ∀ place e, t.entry? place = some e → IsWritable place
  parent : ∀ place name e, t.entry? (place ++ [name]) = some e →
    t.entry? place = some .directory

/-- The way to an entry leads through directories. -/
lemma WellFormed.reaches (h : t.WellFormed) {e : FileEntry} (he : t.entry? place = some e) :
    t.Reaches place := by
  induction place using List.reverseRecOn generalizing e with
  | nil =>
    intro above below hplace hbelow
    exact absurd (List.append_eq_nil_iff.mp hplace.symm).2 hbelow
  | append_singleton place name ih =>
    intro above below hplace hbelow
    have hdir : t.entry? place = some .directory := h.parent place name e he
    obtain ⟨front, last, rfl⟩ := List.eq_nil_or_concat below |>.resolve_left hbelow
    rw [List.concat_eq_append, ← List.append_assoc] at hplace
    obtain ⟨hfront, -⟩ := List.append_inj' hplace rfl
    by_cases hnil : front = []
    · rw [hnil, List.append_nil] at hfront
      rwa [← hfront]
    · exact ih hdir above front hfront hnil

/-- The tree with nothing but the root is well formed. -/
lemma wellFormed_empty : empty.WellFormed := by
  have hnil : ∀ place e, empty.entry? place = some e → place = [] := by
    intro place e he
    by_contra hne
    simp [empty, entry?, hne] at he
  refine ⟨fun place e he => ?_, fun place name e he => ?_⟩
  · rw [hnil place e he]
    exact ⟨by simp, by decide, by simp, by decide⟩
  · exact absurd (hnil _ e he) (by simp)

/-- An entry can be put into a directory where nothing stands. -/
lemma WellFormed.put (h : t.WellFormed) {name : String} (e : FileEntry)
    (hdir : t.entry? place = some .directory) (hnone : t.entry? (place ++ [name]) = none)
    (hplace : IsWritable (place ++ [name])) : (t.put (place ++ [name]) e).WellFormed := by
  have hother : ∀ q, q ≠ place ++ [name] →
      FileTree.entry? (t.put (place ++ [name]) e) q = t.entry? q :=
    fun q hq => entry?_put_of_ne e hq
  refine ⟨fun q e' he' => ?_, fun q n e' he' => ?_⟩
  · by_cases hq : q = place ++ [name]
    · exact hq ▸ hplace
    · exact h.writable q e' (hother q hq ▸ he')
  · have hdirq : t.entry? q = some .directory := by
      by_cases hqn : q ++ [n] = place ++ [name]
      · exact (List.append_inj' hqn rfl).1 ▸ hdir
      · exact h.parent q n e' (hother _ hqn ▸ he')
    rw [hother q fun hq => ?_, hdirq]
    rw [hq, hnone] at hdirq
    cases hdirq

/-- The way to an entry of a directory leads on from the way to the directory. -/
lemma Reaches.append_name {name : String} (h : t.Reaches place)
    (hdir : t.entry? place = some .directory) : t.Reaches (place ++ [name]) := by
  intro above below hplace hne
  obtain ⟨front, last, rfl⟩ := List.eq_nil_or_concat below |>.resolve_left hne
  rw [List.concat_eq_append, ← List.append_assoc] at hplace
  obtain ⟨hfront, -⟩ := List.append_inj' hplace rfl
  by_cases hnil : front = []
  · rw [hnil, List.append_nil] at hfront
    exact hfront ▸ hdir
  · exact h above front hfront hnil

/-- The way to a place is the way to the directory that it lies in, and this directory. -/
lemma Reaches.parent {name : String} {names : List String}
    (h : t.Reaches (place ++ name :: names)) : t.entry? place = some .directory :=
  h place (name :: names) rfl (by simp)

/-- A plain name is one step of a walk. -/
lemma locatePieces_step {followLast : Bool} {links : Nat} {name : String} {pieces : List String}
    (hdir : t.entry? place = some .directory) (hname : Path.IsPlainName name)
    (hshort : name.utf8ByteSize ≤ maxNameBytes)
    (hlink : ∀ target, t.entry? (place ++ [name]) ≠ some (.link target)) :
    t.locatePieces followLast links place (name :: pieces) =
      t.locatePieces followLast links (place ++ [name]) pieces :=
  locatePieces_name hdir (fun h => h.elim hname.1 hname.2.1) hname.2.2.1 (Nat.not_lt.mpr hshort)
    hlink

/-- Names lead down through the directories that they name. -/
lemma locatePieces_names {followLast : Bool} {links : Nat} {names : List String}
    (hplain : ∀ name ∈ names, Path.IsPlainName name)
    (hshort : ∀ name ∈ names, name.utf8ByteSize ≤ maxNameBytes)
    (hdirs : t.Reaches (place ++ names))
    (hlink : ∀ target, t.entry? (place ++ names) ≠ some (.link target)) :
    t.locatePieces followLast links place names = .ok (place ++ names) := by
  induction names generalizing place with
  | nil => rw [locatePieces_nil, List.append_nil]
  | cons name names ih =>
    rw [List.forall_mem_cons] at hplain hshort
    have hsplit : place ++ name :: names = (place ++ [name]) ++ names := by simp
    have hlink' : ∀ target, t.entry? (place ++ [name]) ≠ some (.link target) := by
      intro target htarget
      by_cases hnil : names = []
      · rw [hnil] at hlink
        exact hlink target htarget
      · rw [hdirs (place ++ [name]) names hsplit hnil] at htarget
        cases htarget
    rw [locatePieces_step hdirs.parent hplain.1 hshort.1 hlink', hsplit]
    exact ih hplain.2 hshort.2 (hsplit ▸ hdirs) (hsplit ▸ hlink)

/-- Steps down that pass no link lead nowhere but down, whatever lies between them. -/
lemma eq_of_locatePieces_steps {followLast : Bool} {links : Nat} {pieces : List String} {p : Place}
    (hplain : ∀ name ∈ pieces.filter Path.IsStep, Path.IsPlainName name)
    (hlink : ∀ above below, pieces.filter Path.IsStep = above ++ below → above ≠ [] →
      ∀ target, t.entry? (place ++ above) ≠ some (.link target))
    (hp : t.locatePieces followLast links place pieces = .ok p) :
    p = place ++ pieces.filter Path.IsStep := by
  induction pieces generalizing place with
  | nil =>
    rw [locatePieces_nil] at hp
    rw [List.filter_nil, List.append_nil]
    exact (Except.ok.inj hp).symm
  | cons piece pieces ih =>
    have hdir : t.entry? place = some .directory := entry?_of_locatePieces_ok (by simp) hp
    by_cases hstep : Path.IsStep piece
    · rw [Path.filter_isStep_cons, if_pos hstep] at hplain hlink ⊢
      rw [List.forall_mem_cons] at hplain
      have hdot := hstep.not_dot
      by_cases hshort : maxNameBytes < piece.utf8ByteSize
      · rw [locatePieces_tooLong hdir hdot hplain.1.2.2.1 hshort] at hp
        cases hp
      · rw [locatePieces_name hdir hdot hplain.1.2.2.1 hshort
          (hlink [piece] _ rfl (by simp))] at hp
        rw [ih hplain.2 (fun above below heq hne target => ?_) hp, List.append_assoc]
        · rfl
        · rw [List.append_assoc]
          exact hlink (piece :: above) below (by rw [heq, List.cons_append]) (by simp) target
    · rw [Path.filter_isStep_cons, if_neg hstep] at hplain hlink ⊢
      rw [locatePieces_dot hdir (Path.eq_of_not_isStep hstep)] at hp
      exact ih hplain hlink hp

/-- Names that pass no link lead nowhere but down. -/
lemma eq_of_locatePieces_names {followLast : Bool} {links : Nat} {names : List String} {p : Place}
    (hplain : ∀ name ∈ names, Path.IsPlainName name)
    (hlink : ∀ above below, names = above ++ below → above ≠ [] →
      ∀ target, t.entry? (place ++ above) ≠ some (.link target))
    (hp : t.locatePieces followLast links place names = .ok p) : p = place ++ names := by
  have hsteps : names.filter Path.IsStep = names := Path.filter_isStep_of_plain hplain
  rw [← hsteps] at hplain hlink
  have heq := eq_of_locatePieces_steps hplain hlink hp
  rwa [hsteps] at heq

/-! ### Paths of places -/

/-- The pieces of the path of a place lead where its names lead. -/
lemma locatePieces_pathOf {followLast : Bool} {links : Nat}
    (hplain : ∀ name ∈ place, Path.IsPlainName name) :
    t.locatePieces followLast links [] (Path.pieces (pathOf place)) =
      t.locatePieces followLast links [] place := by
  by_cases hnil : place = []
  · have hpieces : Path.pieces (pathOf []) = ["", ""] := by decide
    rw [hnil, hpieces, locatePieces_dot (entry?_nil t) (Or.inl rfl),
      locatePieces_dot (entry?_nil t) (Or.inl rfl)]
  · rw [pathOf, Path.pieces_ofNames hnil fun name hname => (hplain name hname).2.2.2,
      locatePieces_dot (entry?_nil t) (Or.inl rfl)]

/-- The path of a place is not empty. -/
lemma pathOf_ne_empty (place : Place) : pathOf place ≠ "" := by
  intro hempty
  have habs := Path.isAbsolute_ofNames place
  rw [pathOf] at hempty
  rw [hempty] at habs
  cases habs

/-- A path that can be written is not refused. -/
lemma IsWritable.isAddressable (h : IsWritable place) : Path.IsAddressable (pathOf place) :=
  ⟨h.zero_not_mem, h.shortPath⟩

/-- A path that can be written leads where its pieces lead. -/
lemma locate_pathOf_eq {followLast : Bool} (hplace : IsWritable place) :
    t.locate (pathOf place) followLast = t.locatePieces followLast maxLinks [] place := by
  have habs : Path.isAbsolute (pathOf place) = true := Path.isAbsolute_ofNames place
  rw [locate_eq_of_isAddressable (pathOf_ne_empty place) hplace.isAddressable, startOf, if_pos habs,
    locatePieces_pathOf hplace.plain]

/-- The path of a place leads to it. -/
lemma locate_pathOf {followLast : Bool} (hplace : IsWritable place) (hdirs : t.Reaches place)
    (hlink : ∀ target, t.entry? place ≠ some (.link target)) :
    t.locate (pathOf place) followLast = .ok place := by
  rw [locate_pathOf_eq hplace]
  have hwalk : t.locatePieces followLast maxLinks [] place = .ok ([] ++ place) :=
    locatePieces_names hplace.plain hplace.shortNames hdirs hlink
  exact hwalk

/-- The path of an entry that is no link finds it. -/
lemma find?_pathOf {followLast : Bool} {e : FileEntry} (hplace : IsWritable place)
    (hdirs : t.Reaches place) (he : t.entry? place = some e) (hlink : ∀ target, e ≠ .link target) :
    t.find? (pathOf place) followLast = .ok (place, e) := by
  rw [find?_eq_ok_iff]
  refine ⟨locate_pathOf hplace hdirs fun target htarget => ?_, he⟩
  rw [he] at htarget
  exact hlink target (Option.some.inj htarget)

/-- The path of a file reads it. -/
lemma read_pathOf {content : FileContent} (hplace : IsWritable place) (hdirs : t.Reaches place)
    (he : t.entry? place = some (.file content)) : t.read (pathOf place) = .ok content := by
  rw [read, find?_pathOf hplace hdirs he (by simp)]

namespace WellFormed

/-- In a well-formed tree the path of an entry that is no link finds it. -/
lemma find?_pathOf (h : t.WellFormed) {followLast : Bool} {e : FileEntry}
    (he : t.entry? place = some e) (hlink : ∀ target, e ≠ .link target) :
    t.find? (pathOf place) followLast = .ok (place, e) :=
  FileTree.find?_pathOf (h.writable place e he) (h.reaches he) he hlink

/-- In a well-formed tree the path of a file reads it. -/
lemma read_pathOf (h : t.WellFormed) {content : FileContent}
    (he : t.entry? place = some (.file content)) : t.read (pathOf place) = .ok content :=
  FileTree.read_pathOf (h.writable place _ he) (h.reaches he) he

/-- In a well-formed tree the path of a file is one of a file. -/
lemma isFile_pathOf (h : t.WellFormed) {content : FileContent}
    (he : t.entry? place = some (.file content)) : t.isFile (pathOf place) = true := by
  rw [isFile, lookup?, h.find?_pathOf he (by simp)]

end WellFormed

/-- What a path without links on its way reads is the file at its place. -/
lemma entry?_of_read_pathOf {content : FileContent}
    (hplain : ∀ name ∈ place, Path.IsPlainName name)
    (hlink : ∀ above below, place = above ++ below → above ≠ [] →
      ∀ target, t.entry? above ≠ some (.link target))
    (hread : t.read (pathOf place) = .ok content) : t.entry? place = some (.file content) := by
  unfold read at hread
  cases hfind : t.find? (pathOf place) with
  | error e =>
    rw [hfind] at hread
    cases hread
  | ok found =>
    obtain ⟨p, e⟩ := found
    obtain ⟨hlocate, hentry⟩ := find?_eq_ok_iff.mp hfind
    have hwalk := locatePieces_of_locate hlocate
    have habs : Path.isAbsolute (pathOf place) = true := Path.isAbsolute_ofNames place
    rw [if_pos habs, locatePieces_pathOf hplain] at hwalk
    have hp : p = [] ++ place := eq_of_locatePieces_names hplain hlink hwalk
    rw [hfind] at hread
    cases e with
    | file c => rw [← Except.ok.inj hread, ← hentry, hp, List.nil_append]
    | directory => cases hread
    | link target => cases hread

/-! ### Other spellings -/

/-- Pieces that spell the way to a file are walked alike in all trees that have this way. -/
lemma locatePieces_congr {followLast : Bool} {links : Nat} {names pieces : List String}
    {content content' : FileContent}
    (hpieces : pieces.filterMap (fun piece => Path.componentOfPiece? piece.toList) =
      names.map .name)
    (hdirs : t.Reaches (place ++ names)) (hdirs' : t'.Reaches (place ++ names))
    (hfile : t.entry? (place ++ names) = some (.file content))
    (hfile' : t'.entry? (place ++ names) = some (.file content')) :
    t.locatePieces followLast links place pieces =
      t'.locatePieces followLast links place pieces := by
  induction pieces generalizing place names with
  | nil => rw [locatePieces_nil, locatePieces_nil]
  | cons piece pieces ih =>
    cases names with
    | nil =>
      -- The file is reached already, and whatever follows finds no directory.
      rw [List.append_nil] at hfile hfile'
      rw [locatePieces_of_ne_directory hfile (by simp),
        locatePieces_of_ne_directory hfile' (by simp)]
    | cons name names =>
      have hdir : t.entry? place = some .directory := hdirs.parent
      have hdir' : t'.entry? place = some .directory := hdirs'.parent
      rcases Path.componentOfPiece?_cases piece with ⟨hdot, hnone⟩ | ⟨-, hup⟩ | ⟨hdot, hup, hname⟩
      · rw [List.filterMap_cons, hnone] at hpieces
        rw [locatePieces_dot hdir hdot, locatePieces_dot hdir' hdot]
        exact ih hpieces hdirs hdirs' hfile hfile'
      · rw [List.filterMap_cons, hup] at hpieces
        simp at hpieces
      · rw [List.filterMap_cons, hname, List.map_cons] at hpieces
        obtain ⟨hpiece, hrest⟩ := List.cons.inj hpieces
        obtain rfl := Component.name.inj hpiece
        have hsplit : place ++ piece :: names = (place ++ [piece]) ++ names := by simp
        rw [hsplit] at hdirs hdirs' hfile hfile'
        have hlink : ∀ {s : FileTree} {c : FileContent}, s.Reaches (place ++ [piece] ++ names) →
            s.entry? (place ++ [piece] ++ names) = some (.file c) →
            ∀ target, s.entry? (place ++ [piece]) ≠ some (.link target) := by
          intro s c hs hc target htarget
          by_cases hnil : names = []
          · rw [hnil, List.append_nil, htarget] at hc
            cases hc
          · rw [hs (place ++ [piece]) names rfl hnil] at htarget
            cases htarget
        by_cases hshort : maxNameBytes < piece.utf8ByteSize
        · rw [locatePieces_tooLong hdir hdot hup hshort, locatePieces_tooLong hdir' hdot hup hshort]
        · rw [locatePieces_name hdir hdot hup hshort (hlink hdirs hfile),
            locatePieces_name hdir' hdot hup hshort (hlink hdirs' hfile')]
          exact ih hrest hdirs hdirs' hfile hfile'

/-- A spelling of the path of a file leads to it in every tree that has the way to it. -/
lemma locate_eq_of_locate {path : String} {content content' : FileContent}
    (hplace : IsWritable place)
    (hpath : Path.components path = Path.components (pathOf place))
    (hdirs : t.Reaches place) (hdirs' : t'.Reaches place)
    (hfile : t.entry? place = some (.file content))
    (hfile' : t'.entry? place = some (.file content')) (hp : t.locate path = .ok place) :
    t'.locate path = .ok place := by
  have hcomponents := Path.components_ofNames hplace.plain
  rw [pathOf, hcomponents] at hpath
  have habs : Path.isAbsolute path = true := by
    rw [← Path.root_mem_components_iff, hpath]
    exact List.mem_cons_self
  rw [Path.components_of_isAbsolute habs] at hpath
  have hwalk : t.locatePieces true maxLinks [] (Path.pieces path) =
      t'.locatePieces true maxLinks [] (Path.pieces path) :=
    locatePieces_congr (List.cons.inj hpath).2 hdirs hdirs' hfile hfile'
  unfold locate at hp ⊢
  split_ifs at hp ⊢
  rw [← hwalk]
  exact hp

/-- In a tree without links, pieces whose last component is a name lead to an entry of that name. -/
lemma getLast?_of_locatePieces {followLast : Bool} {links : Nat} {pieces : List String} {p : Place}
    {name : String} (hlink : ∀ q target, t.entry? q ≠ some (.link target))
    (hname : (pieces.filterMap fun piece => Path.componentOfPiece? piece.toList).getLast? =
        some (.name name) ∨
      pieces.filterMap (fun piece => Path.componentOfPiece? piece.toList) = [] ∧
        place.getLast? = some name)
    (hp : t.locatePieces followLast links place pieces = .ok p) : p.getLast? = some name := by
  induction pieces generalizing place with
  | nil =>
    rw [locatePieces_nil] at hp
    rcases hname with hname | ⟨-, hname⟩
    · cases hname
    · rwa [← Except.ok.inj hp]
  | cons piece pieces ih =>
    have hdir : t.entry? place = some .directory := entry?_of_locatePieces_ok (by simp) hp
    -- What the rest of the pieces has to do is decided by whether they name anything.
    have hrest : ∀ c : Component, (c :: pieces.filterMap fun piece =>
        Path.componentOfPiece? piece.toList).getLast? = some (.name name) →
        (pieces.filterMap fun piece => Path.componentOfPiece? piece.toList).getLast? =
          some (.name name) ∨
        pieces.filterMap (fun piece => Path.componentOfPiece? piece.toList) = [] ∧
          c = .name name := by
      intro c hlast
      by_cases hnil : pieces.filterMap (fun piece => Path.componentOfPiece? piece.toList) = []
      · rw [hnil] at hlast
        exact Or.inr ⟨hnil, Option.some.inj hlast⟩
      · rw [List.getLast?_cons_of_ne_nil hnil] at hlast
        exact Or.inl hlast
    rcases Path.componentOfPiece?_cases piece with ⟨hdot, hnone⟩ | ⟨rfl, hup⟩ | ⟨hdot, hup, hsome⟩
    · rw [List.filterMap_cons, hnone] at hname
      rw [locatePieces_dot hdir hdot] at hp
      exact ih hname hp
    · rw [List.filterMap_cons, hup] at hname
      rw [locatePieces_parent hdir] at hp
      refine ih ?_ hp
      rcases hrest _ (hname.resolve_right (by simp)) with hlast | ⟨-, hparent⟩
      · exact Or.inl hlast
      · cases hparent
    · rw [List.filterMap_cons, hsome] at hname
      by_cases hshort : maxNameBytes < piece.utf8ByteSize
      · rw [locatePieces_tooLong hdir hdot hup hshort] at hp
        cases hp
      · rw [locatePieces_name hdir hdot hup hshort (hlink _)] at hp
        refine ih ?_ hp
        rcases hrest _ (hname.resolve_right (by simp)) with hlast | ⟨hnil, hsame⟩
        · exact Or.inl hlast
        · rw [← Component.name.inj hsame]
          exact Or.inr ⟨hnil, List.getLast?_concat⟩

/-- In a tree without links, a path leads to an entry of its own name. -/
lemma getLast?_of_locate {followLast : Bool} {path name : String} {p : Place}
    (hlink : ∀ q target, t.entry? q ≠ some (.link target)) (hname : Path.fileName? path = some name)
    (hp : t.locate path followLast = .ok p) : p.getLast? = some name := by
  refine getLast?_of_locatePieces hlink (Or.inl ?_) (locatePieces_of_locate hp)
  exact Path.getLast?_pieces_of_fileName? hname

end CodeAtlas.FileTree
