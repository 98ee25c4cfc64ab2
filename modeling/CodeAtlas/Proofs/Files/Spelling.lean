import CodeAtlas.Proofs.Files.Growth

/-!
# Texts that spell a place

A place can be given by many texts: from the root or from the working directory, with dots and more
than one slash between the names.  A text *spells* a place if its steps lead down to it by name from
where the text starts (`FileTree.Spells`), and it *names* the place if it ends in a step, so that
nothing behind the last name asks for a directory (`FileTree.Names`).

What lies between the steps of a path does not show in where it leads
(`locatePieces_filter_append`).  So all texts that name one place lead to it, unless they are
refused for their length, and a text to which a name is joined names the place of that name
(`Spells.join`).
-/

namespace CodeAtlas

namespace Path

variable {p name : String}

/-- The last piece of a path is a step. -/
def EndsInStep (p : String) : Prop := ∃ front name, pieces p = front ++ [name] ∧ IsStep name

/-- A path that ends in a step is not empty. -/
lemma EndsInStep.ne_empty (h : EndsInStep p) : p ≠ "" := by
  rintro rfl
  obtain ⟨front, name, hpieces, hstep⟩ := h
  have hlast := congrArg List.getLast? hpieces
  rw [List.getLast?_concat] at hlast
  exact hstep.1 (Option.some.inj hlast).symm

/-- A path that ends in a step has no slash at its end. -/
lemma EndsInStep.getLast?_ne_slash (h : EndsInStep p) : p.toList.getLast? ≠ some '/' := by
  intro hslash
  obtain ⟨front, name, hpieces, hstep⟩ := h
  obtain ⟨p', -, htrailing⟩ := pieces_of_trailing_slash hslash
  have hlast := congrArg List.getLast? (hpieces.symm.trans htrailing)
  rw [List.getLast?_concat, List.getLast?_concat] at hlast
  exact hstep.1 (Option.some.inj hlast)

/-- A path that ends in a step has it for its last piece. -/
lemma EndsInStep.getLast?_pieces (h : EndsInStep p) : (pieces p).getLast? = (steps p).getLast? := by
  obtain ⟨front, name, hpieces, hstep⟩ := h
  rw [steps, hpieces, List.filter_append, filter_isStep_cons, if_pos hstep, List.filter_nil,
    List.getLast?_concat, List.getLast?_concat]

/-- A path that ends in a step has a step. -/
lemma EndsInStep.steps_ne_nil (h : EndsInStep p) : steps p ≠ [] := by
  intro hnil
  have hlast := h.getLast?_pieces
  obtain ⟨front, name, hpieces, -⟩ := h
  rw [hnil, hpieces, List.getLast?_concat] at hlast
  cases hlast

/-- A name that is joined to a path is the step in which it ends. -/
lemma endsInStep_join (p : String) (hname : IsPlainName name) : EndsInStep (join p name) := by
  have hpieces := pieces_join p (isAbsolute_of_slash_not_mem hname.2.2.2)
  rw [pieces_of_slash_not_mem hname.2.2.2] at hpieces
  exact ⟨stem p, name, hpieces, hname.isStep⟩

/-- Pieces of which the last stands for a component are kept. -/
lemma dropEmptyEnd_append (pieces : List (List Char)) {piece : List Char} {c : Component}
    (h : componentOfPiece? piece = some c) :
    dropEmptyEnd (pieces ++ [piece]) = pieces ++ [piece] := by
  simp [dropEmptyEnd, h]

/-- A name that is joined to a path which ends in a step lies in the directory of this path. -/
lemma parent?_join (h : EndsInStep p) (hname : IsPlainName name) :
    parent? (join p name) = some p := by
  have hne : p.isEmpty = false := by
    rw [Bool.eq_false_iff]
    exact fun hempty => h.ne_empty (String.isEmpty_iff.mp hempty)
  have hstem : stem p = pieces p := by
    rw [stem, hne, if_neg (by simp), if_neg h.getLast?_ne_slash]
  have hback : ∀ q, (pieces q).map String.toList = splitAtClass (· == '/') q.toList := by
    intro q
    rw [pieces, Text.splitAt, List.map_map]
    simp [Function.comp_def]
  have hjoin := congrArg (List.map String.toList)
    (pieces_join p (isAbsolute_of_slash_not_mem hname.2.2.2))
  rw [hstem, pieces_of_slash_not_mem hname.2.2.2, List.map_append, hback, hback] at hjoin
  obtain ⟨front, last, hpieces, hstep⟩ := h
  have hlast : componentOfPiece? last.toList = some (componentOfStep last) := by
    rw [componentOfPiece?_eq, if_pos hstep]
  have hchars := hback p
  rw [hpieces, List.map_append] at hchars
  have htext : joinPieces (front.map String.toList ++ [last.toList]) = p := by
    have hself : String.ofList ∘ String.toList = id := funext fun s => String.ofList_toList
    rw [joinPieces, List.map_append, List.map_map, hself, List.map_id, List.map_singleton,
      String.ofList_toList, ← hpieces, intercalate_pieces]
  rw [← hchars] at hjoin
  unfold parent?
  rw [hjoin]
  cases front with
  | nil =>
    have hfirst : last.toList ≠ [] := fun hnil => hstep.1 (String.toList_eq_nil_iff.mp hnil)
    simp [dropEmptyEnd, componentOfPiece?_plain hname, hfirst, ← htext]
  | cons first front =>
    have hrest := dropEmptyEnd_append (front.map String.toList ++ [last.toList])
      (componentOfPiece?_plain hname)
    have hfront := dropEmptyEnd_append (front.map String.toList) hlast
    rw [List.map_cons, List.map_singleton, List.cons_append, List.cons_append]
    simp only [List.map_cons, List.map_nil, hrest]
    obtain ⟨piece, rest, hcons⟩ := List.exists_cons_of_ne_nil
      (List.append_ne_nil_of_right_ne_nil (front.map String.toList ++ [last.toList])
        (List.cons_ne_nil name.toList []))
    rw [hcons]
    simp only [← hcons, List.dropLast_concat, hfront]
    rw [if_neg (by simp), ← List.cons_append, ← List.map_cons, htext]

/-- A name that is joined to a path is one step more. -/
lemma steps_join_name (p : String) (hname : IsPlainName name) :
    steps (join p name) = steps p ++ [name] := by
  have hself : steps name = [name] := by
    rw [steps, pieces_of_slash_not_mem hname.2.2.2, filter_isStep_cons, if_pos hname.isStep]
    rfl
  rw [steps_join p (isAbsolute_of_slash_not_mem hname.2.2.2), hself]

end Path

namespace FileTree

variable {t t' : FileTree} {place start p : Place} {path name : String} {touched : Set Place}

/-! ### Walks along steps -/

/-- Nothing can be reached from where no directory stands. -/
lemma locatePieces_eq_of_ne_directory (h : t.entry? place ≠ some .directory) {followLast : Bool}
    {links : Nat} {ps qs : List String} (hps : ps ≠ []) (hqs : qs ≠ []) :
    t.locatePieces followLast links place ps = t.locatePieces followLast links place qs := by
  obtain ⟨piece, pieces, rfl⟩ := List.exists_cons_of_ne_nil hps
  obtain ⟨piece', pieces', rfl⟩ := List.exists_cons_of_ne_nil hqs
  cases hentry : t.entry? place with
  | none => rw [locatePieces_of_none hentry, locatePieces_of_none hentry]
  | some e =>
    have he : e ≠ .directory := fun heq => h (heq ▸ hentry)
    rw [locatePieces_of_ne_directory hentry he, locatePieces_of_ne_directory hentry he]

/-- Walks that go on alike from wherever they are go on alike behind the same pieces. -/
lemma locatePieces_append_congr {followLast : Bool} {qs qs' : List String} (hqs : qs ≠ [])
    (hqs' : qs' ≠ []) (h : ∀ links place, t.locatePieces followLast links place qs =
      t.locatePieces followLast links place qs') (links : Nat) (place : Place) (ps : List String) :
    t.locatePieces followLast links place (ps ++ qs) =
      t.locatePieces followLast links place (ps ++ qs') := by
  have hwalk := t.locatePieces_append links place ps
  cases hps : t.locatePieces true links place ps with
  | error e => rw [hwalk.2 e hps followLast qs hqs, hwalk.2 e hps followLast qs' hqs']
  | ok base =>
    obtain ⟨left, hleft⟩ := hwalk.1 base hps
    rw [hleft followLast qs hqs, hleft followLast qs' hqs', h left base]

/-- What is no step makes no difference to a walk that goes on behind it. -/
lemma locatePieces_filter_append (t : FileTree) (followLast : Bool) (links : Nat) (place : Place)
    (ps : List String) {qs : List String} (hqs : qs ≠ []) :
    t.locatePieces followLast links place (ps ++ qs) =
      t.locatePieces followLast links place (ps.filter Path.IsStep ++ qs) := by
  induction ps generalizing links place with
  | nil => rfl
  | cons piece ps ih =>
    by_cases hdir : t.entry? place = some .directory
    · by_cases hstep : Path.IsStep piece
      · rw [Path.filter_isStep_cons, if_pos hstep, List.cons_append, List.cons_append]
        have hdot := hstep.not_dot
        by_cases hup : piece = ".."
        · rw [hup, locatePieces_parent hdir, locatePieces_parent hdir]
          exact ih links place.dropLast
        by_cases hlong : maxNameBytes < piece.utf8ByteSize
        · rw [locatePieces_tooLong hdir hdot hup hlong, locatePieces_tooLong hdir hdot hup hlong]
        by_cases hthere : ∃ target, t.entry? (place ++ [piece]) = some (.link target)
        · obtain ⟨target, htarget⟩ := hthere
          rw [locatePieces_link hdir hdot hup hlong htarget (Or.inl (by simp [hqs])),
            locatePieces_link hdir hdot hup hlong htarget (Or.inl (by simp [hqs])),
            locatePieces_append_congr (by simp [hqs]) (by simp [hqs]) ih]
        · have hname : ∀ target, t.entry? (place ++ [piece]) ≠ some (.link target) :=
            fun target htarget => hthere ⟨target, htarget⟩
          rw [locatePieces_name hdir hdot hup hlong hname,
            locatePieces_name hdir hdot hup hlong hname]
          exact ih links (place ++ [piece])
      · rw [Path.filter_isStep_cons, if_neg hstep, List.cons_append,
          locatePieces_dot hdir (Path.eq_of_not_isStep hstep)]
        exact ih links place
    · exact locatePieces_eq_of_ne_directory hdir (by simp) (by simp [hqs])

/-- A path that ends in a step leads where its steps lead. -/
lemma locatePieces_steps {followLast : Bool} {links : Nat} (h : Path.EndsInStep path) :
    t.locatePieces followLast links place (Path.pieces path) =
      t.locatePieces followLast links place (Path.steps path) := by
  obtain ⟨front, name, hpieces, hstep⟩ := h
  have hsteps : Path.steps path = front.filter Path.IsStep ++ [name] := by
    rw [Path.steps, hpieces, List.filter_append, Path.filter_isStep_cons, if_pos hstep,
      List.filter_nil]
  rw [hpieces, hsteps, locatePieces_filter_append _ _ _ _ _ (by simp)]

/-- A path without steps stays where it starts. -/
lemma locatePieces_of_filter_eq_nil {followLast : Bool} {links : Nat} {ps : List String}
    (hdir : t.entry? place = some .directory) (h : ps.filter Path.IsStep = []) :
    t.locatePieces followLast links place ps = .ok place := by
  induction ps with
  | nil => exact locatePieces_nil t followLast links place
  | cons piece ps ih =>
    rw [Path.filter_isStep_cons] at h
    split_ifs at h with hstep
    rw [locatePieces_dot hdir (Path.eq_of_not_isStep hstep)]
    exact ih h

/-! ### Texts of a place -/

/-- A text spells a place: its steps lead down to it by name from the directory where the text
starts. -/
structure Spells (t : FileTree) (path : String) (place : Place) : Prop where
  start : t.entry? (t.startOf path) = some .directory
  place_eq : t.startOf path ++ Path.steps path = place
  plain : ∀ name ∈ Path.steps path, Path.IsPlainName name

/-- A text names a place: it spells it, and ends in its last name. -/
structure Names (t : FileTree) (path : String) (place : Place) : Prop
    extends t.Spells path place where
  endsInStep : Path.EndsInStep path

/-- Paths start where they started when the tree has grown. -/
lemma Grows.startOf_eq (h : Grows touched t t') (path : String) :
    t'.startOf path = t.startOf path := by
  rw [startOf, startOf, h.workingDirectory_eq]

/-- A text to which a name is joined starts where the text does. -/
lemma startOf_join (t : FileTree) (path : String) (hname : Path.IsPlainName name) :
    t.startOf (Path.join path name) = t.startOf path := by
  rw [startOf, startOf, Path.isAbsolute_join path (Path.isAbsolute_of_slash_not_mem hname.2.2.2)]

namespace Spells

/-- The way to a place begins where a text that spells it starts. -/
lemma start_isPrefix (h : t.Spells path place) : t.startOf path <+: place :=
  ⟨_, h.place_eq⟩

/-- Where a text spells the same place it starts at the same directory. -/
lemma startOf_eq (h : t.Spells path place) (h' : t'.Spells path place) :
    t'.startOf path = t.startOf path :=
  List.append_cancel_right (h'.place_eq.trans h.place_eq.symm)

/-- A text spells the same place in every tree in which it starts at the same directory. -/
lemma congr (h : t.Spells path place) (hstart : t'.startOf path = t.startOf path)
    (hdir : t'.entry? (t.startOf path) = some .directory) : t'.Spells path place :=
  ⟨hstart ▸ hdir, hstart ▸ h.place_eq, h.plain⟩

/-- A text spells the same place when the tree has grown. -/
lemma grows (h : t.Spells path place) (hgrows : Grows touched t t') : t'.Spells path place :=
  h.congr (hgrows.startOf_eq path) (hgrows.directory _ h.start)

/-- A text to which a name is joined names the place of that name. -/
lemma join (h : t.Spells path place) (hname : Path.IsPlainName name) :
    t.Names (Path.join path name) (place ++ [name]) where
  start := t.startOf_join path hname ▸ h.start
  place_eq := by
    rw [t.startOf_join path hname, Path.steps_join_name path hname, ← List.append_assoc, h.place_eq]
  plain n hn := by
    rw [Path.steps_join_name path hname, List.mem_append, List.mem_singleton] at hn
    rcases hn with hn | rfl
    · exact h.plain n hn
    · exact hname
  endsInStep := Path.endsInStep_join path hname

/-- A text to which names are joined, one after another, names the place of the last of them. -/
lemma foldl_join {names : List String} (h : t.Spells path place) (hne : names ≠ [])
    (hplain : ∀ name ∈ names, Path.IsPlainName name) :
    t.Names (names.foldl Path.join path) (place ++ names) := by
  induction names generalizing path place with
  | nil => exact absurd rfl hne
  | cons name names ih =>
    rw [List.forall_mem_cons] at hplain
    have hname := h.join hplain.1
    by_cases hnil : names = []
    · rw [hnil]
      exact hname
    · have hrest := ih hname.toSpells hnil hplain.2
      rwa [List.append_assoc] at hrest

/-- Names that lead on from a text are the steps behind its own. -/
lemma steps_eq {names : List String} (h : t.Spells path (t.startOf path ++ names)) :
    Path.steps path = names := List.append_cancel_left h.place_eq

end Spells

/-- The steps of the path of a place are its names. -/
lemma steps_pathOf (hplain : ∀ name ∈ place, Path.IsPlainName name) :
    Path.steps (pathOf place) = place := by
  by_cases hne : place = []
  · rw [hne]
    decide
  · rw [Path.steps, pathOf, Path.pieces_ofNames hne fun name hname => (hplain name hname).2.2.2,
      Path.filter_isStep_cons, if_neg (by decide), Path.filter_isStep_of_plain hplain]

/-- The path of a place spells it. -/
lemma spells_pathOf (t : FileTree) (hplain : ∀ name ∈ place, Path.IsPlainName name) :
    t.Spells (pathOf place) place := by
  have hsteps := steps_pathOf hplain
  have hstart : t.startOf (pathOf place) = [] := if_pos (Path.isAbsolute_ofNames place)
  exact ⟨hstart ▸ entry?_nil t, by rw [hstart, hsteps, List.nil_append], hsteps.symm ▸ hplain⟩

namespace Names

/-- A text names the same place when the tree has grown. -/
lemma grows (h : t.Names path place) (hgrows : Grows touched t t') : t'.Names path place :=
  ⟨h.toSpells.grows hgrows, h.endsInStep⟩

/-- A text that names a place leads where its steps lead, unless it is refused. -/
lemma locate_eq (h : t.Names path place) (haddressable : Path.IsAddressable path)
    (followLast : Bool) : t.locate path followLast =
      t.locatePieces followLast maxLinks (t.startOf path) (Path.steps path) := by
  rw [locate_eq_of_isAddressable h.endsInStep.ne_empty haddressable,
    locatePieces_steps h.endsInStep]

/-- A text that names a place ends in the last name of the place. -/
lemma getLast?_pieces (h : t.Names path (place ++ [name])) :
    (Path.pieces path).getLast? = some name := by
  rw [h.endsInStep.getLast?_pieces, ← List.getLast?_append_of_ne_nil (t.startOf path)
    h.endsInStep.steps_ne_nil, h.place_eq, List.getLast?_concat]

/-- In a well-formed tree a text that names an entry finds it, if the entry is no link. -/
lemma find?_eq (h : t.Names path place) (haddressable : Path.IsAddressable path)
    (hwf : t.WellFormed) {followLast : Bool} {e : FileEntry} (he : t.entry? place = some e)
    (hlink : ∀ target, e ≠ .link target) : t.find? path followLast = .ok (place, e) := by
  have hshort := (hwf.writable place e he).shortNames
  have hreaches := hwf.reaches he
  have hne : ∀ target, t.entry? place ≠ some (.link target) := fun target htarget =>
    hlink target (Option.some.inj (he.symm.trans htarget))
  rw [← h.place_eq] at hshort hreaches hne
  rw [find?_eq_ok_iff, h.locate_eq haddressable, locatePieces_names h.plain
    (fun name hname => hshort name (List.mem_append_right _ hname)) hreaches hne, h.place_eq]
  exact ⟨rfl, he⟩

end Names

end FileTree

end CodeAtlas
