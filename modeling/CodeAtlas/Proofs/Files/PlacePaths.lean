import CodeAtlas.Proofs.Files.PathPieces

/-!
# The paths of places

A place is a list of names, and its path is the text with a slash before each of them.  Where the
names are plain, nothing is lost on the way from the names to the text and back: the pieces of the
text are the names (`pieces_intercalate`), and its components are the root and the names.

What is asked about the path of a place is therefore answered by its names.  Seen from a directory
above it, the path is filed under the names below that directory, it is hidden if one of these names
is, and its extension is that of the last name.  All of this is read off the components of a path,
so it holds of any other spelling of the path too.
-/

namespace CodeAtlas.Path

/-! ### Names joined by slashes -/

/-- Names joined by slashes have these names as their pieces. -/
lemma pieces_intercalate {names : List String} (hne : names ≠ [])
    (h : ∀ name ∈ names, '/' ∉ name.toList) : pieces ("/".intercalate names) = names := by
  induction names with
  | nil => exact absurd rfl hne
  | cons name names ih =>
    rw [List.forall_mem_cons] at h
    by_cases hnames : names = []
    · rw [hnames, String.intercalate_singleton, pieces_of_slash_not_mem h.1]
    · rw [String.intercalate_cons_of_ne_nil hnames, pieces_append_slash,
        pieces_of_slash_not_mem h.1, ih hnames h.2]
      rfl

/-- Pieces joined by slashes are the list that was cut. -/
lemma intercalate_splitAtClass (cs : List Char) :
    ['/'].intercalate (splitAtClass (· == '/') cs) = cs := by
  induction cs with
  | nil => rfl
  | cons c cs ih =>
    cases hpieces : splitAtClass (· == '/') cs with
    | nil => exact absurd hpieces (splitAtClass_ne_nil _ cs)
    | cons piece pieces =>
      rw [hpieces] at ih
      by_cases hc : c = '/'
      · simp [splitAtClass, hc, hpieces, List.intercalate_cons_cons, ih]
      · simp only [splitAtClass, beq_iff_eq, hc, if_false, hpieces]
        rw [List.intercalate_cons_cons_left, ih]

/-- A path is its pieces joined by slashes. -/
lemma intercalate_pieces (p : String) : "/".intercalate (pieces p) = p := by
  rw [← String.toList_inj, String.toList_intercalate, pieces, Text.splitAt, List.map_map]
  have hid : String.toList ∘ String.ofList = id := funext fun cs => String.toList_ofList
  rw [hid, List.map_id]
  exact intercalate_splitAtClass p.toList

/-- Plain names are told apart by the text that joins them. -/
lemma intercalate_inj {names names' : List String} (hne : names ≠ []) (hne' : names' ≠ [])
    (h : ∀ name ∈ names, '/' ∉ name.toList) (h' : ∀ name ∈ names', '/' ∉ name.toList)
    (heq : "/".intercalate names = "/".intercalate names') : names = names' := by
  rw [← pieces_intercalate hne h, heq, pieces_intercalate hne' h']

/-- The path of names is absolute. -/
@[simp] lemma isAbsolute_ofNames (names : List String) : isAbsolute (ofNames names) = true := by
  simp [isAbsolute, ofNames]

/-- The pieces of the path of names: an empty one before the first slash, and the names. -/
lemma pieces_ofNames {names : List String} (hne : names ≠ [])
    (h : ∀ name ∈ names, '/' ∉ name.toList) : pieces (ofNames names) = "" :: names := by
  have hslash := pieces_append_slash "" ("/".intercalate names)
  rw [String.empty_append, pieces_intercalate hne h] at hslash
  exact hslash

/-- A path made of names is not absolute: it begins with the first of them. -/
lemma isAbsolute_intercalate {name : String} {names : List String} (hempty : name ≠ "")
    (hslash : '/' ∉ name.toList) : isAbsolute ("/".intercalate (name :: names)) = false := by
  have hhead : ("/".intercalate (name :: names)).toList.head? = name.toList.head? := by
    have hcs : name.toList ≠ [] := fun hnil => hempty (by
      rw [← String.toList_inj]
      simpa using hnil)
    obtain ⟨c, cs, hcs⟩ := List.exists_cons_of_ne_nil hcs
    by_cases hnames : names = []
    · rw [hnames, String.intercalate_singleton]
    · rw [String.intercalate_cons_of_ne_nil hnames]
      simp [hcs]
  have habs := isAbsolute_of_slash_not_mem hslash
  unfold isAbsolute at habs ⊢
  rwa [hhead]

/-- The path of names seen from the directory of the names before them. -/
lemma join_ofNames (root : List String) {names : List String} (hne : names ≠ [])
    (hroot : ∀ name ∈ root, IsPlainName name) (h : ∀ name ∈ names, IsPlainName name) :
    join (ofNames root) ("/".intercalate names) = ofNames (root ++ names) := by
  obtain ⟨name, rest, rfl⟩ := List.exists_cons_of_ne_nil hne
  have hrelative : isAbsolute ("/".intercalate (name :: rest)) = false :=
    isAbsolute_intercalate (h name (by simp)).1 (h name (by simp)).2.2.2
  have hempty : (ofNames root).isEmpty = false := by
    rw [Bool.eq_false_iff]
    intro hempty
    have habs := isAbsolute_ofNames root
    rw [String.isEmpty_iff.mp hempty] at habs
    cases habs
  unfold join
  rw [hrelative, hempty, Bool.or_self, if_neg (by simp)]
  by_cases hnil : root = []
  · simp [hnil, ofNames]
  · -- A plain name does not end in a slash, so the join puts one in.
    have hlast : (ofNames root).toList.getLast? ≠ some '/' := by
      intro hslash
      obtain ⟨p', -, hp'⟩ := pieces_of_trailing_slash hslash
      rw [pieces_ofNames hnil fun n hn => (hroot n hn).2.2.2] at hp'
      have hlast : ("" :: root).getLast? = some "" := by simp [hp']
      rw [List.getLast?_cons_of_ne_nil hnil] at hlast
      exact (hroot "" (List.mem_of_getLast? hlast)).1 rfl
    rw [if_neg hlast, ofNames, ofNames, String.intercalate_append_of_ne_nil hnil hne,
      String.append_assoc, String.append_assoc, String.append_assoc]

/-! ### Components -/

/-- A piece stands for no component, for the way up, or for a name. -/
lemma componentOfPiece?_cases (piece : String) :
    ((piece = "" ∨ piece = ".") ∧ componentOfPiece? piece.toList = none) ∨
    (piece = ".." ∧ componentOfPiece? piece.toList = some .parent) ∨
    (¬(piece = "" ∨ piece = ".") ∧ piece ≠ ".." ∧
      componentOfPiece? piece.toList = some (.name piece)) := by
  by_cases hdot : piece = "" ∨ piece = "."
  · left
    refine ⟨hdot, ?_⟩
    rcases hdot with rfl | rfl <;> decide
  · right
    by_cases hup : piece = ".."
    · left
      refine ⟨hup, ?_⟩
      rw [hup]
      decide
    · right
      have hne : ∀ s : String, piece ≠ s → piece.toList ≠ s.toList := fun s hs heq =>
        hs (String.toList_inj.mp heq)
      have h1 : piece.toList ≠ [] := hne "" fun h => hdot (Or.inl h)
      have h2 : piece.toList ≠ ['.'] := hne "." fun h => hdot (Or.inr h)
      have h3 : piece.toList ≠ ['.', '.'] := hne ".." hup
      exact ⟨hdot, hup, by simp [componentOfPiece?, h1, h2, h3]⟩

/-- The component of a plain name. -/
lemma componentOfPiece?_plain {name : String} (h : IsPlainName name) :
    componentOfPiece? name.toList = some (.name name) := by
  rcases componentOfPiece?_cases name with ⟨hdot, -⟩ | ⟨hup, -⟩ | ⟨-, -, hname⟩
  · exact absurd hdot fun hdot => hdot.elim h.1 h.2.1
  · exact absurd hup h.2.2.1
  · exact hname

/-- The components of an absolute path are the root and those of its pieces. -/
lemma components_of_isAbsolute {p : String} (h : isAbsolute p = true) :
    components p = .root :: (pieces p).filterMap fun piece => componentOfPiece? piece.toList := by
  have hid : (fun piece : String => componentOfPiece? piece.toList) ∘ String.ofList =
      componentOfPiece? := funext fun cs => by simp
  rw [components, if_pos h, pieces, Text.splitAt, List.filterMap_map, hid]

/-- The root is a component of the absolute paths alone. -/
lemma root_mem_components_iff {p : String} : .root ∈ components p ↔ isAbsolute p = true := by
  refine ⟨fun hroot => ?_,
    fun habs => by rw [components_of_isAbsolute habs]; exact List.mem_cons_self⟩
  by_contra habs
  have hbody : ∀ pieces : List (List Char),
      Component.root ∉ pieces.filterMap componentOfPiece? := by
    intro pieces hmem
    obtain ⟨piece, -, hpiece⟩ := List.mem_filterMap.mp hmem
    unfold componentOfPiece? at hpiece
    split_ifs at hpiece
    · cases hpiece
    · cases hpiece
  rw [components, if_neg habs] at hroot
  split_ifs at hroot
  · exact hbody _ (List.mem_of_ne_of_mem (by simp) hroot)
  · exact hbody _ hroot

/-- Plain names are the components of their own pieces. -/
lemma filterMap_componentOfPiece? {names : List String} (h : ∀ name ∈ names, IsPlainName name) :
    names.filterMap (fun piece => componentOfPiece? piece.toList) = names.map .name := by
  induction names with
  | nil => rfl
  | cons name names ih =>
    rw [List.forall_mem_cons] at h
    rw [List.filterMap_cons, componentOfPiece?_plain h.1, ih h.2, List.map_cons]

/-- The components of the path of names are the root and the names. -/
lemma components_ofNames {names : List String} (h : ∀ name ∈ names, IsPlainName name) :
    components (ofNames names) = .root :: names.map .name := by
  rw [components_of_isAbsolute (isAbsolute_ofNames names)]
  by_cases hne : names = []
  · rw [hne]
    decide
  · rw [pieces_ofNames hne fun name hname => (h name hname).2.2.2,
      List.filterMap_cons_none (by decide), filterMap_componentOfPiece? h]

/-- What is left behind a beginning is the end. -/
lemma dropComponents?_append (cs ds : List Component) :
    dropComponents? cs (cs ++ ds) = some ds := by
  induction cs with
  | nil => rfl
  | cons c cs ih => simp [dropComponents?, ih]

section

variable {root names : List String} {p : String}

/-- The components below a root of a path that spells a place below it. -/
lemma below?_ofNames (hroot : ∀ name ∈ root, IsPlainName name)
    (h : ∀ name ∈ names, IsPlainName name)
    (hp : components p = components (ofNames (root ++ names))) :
    below? (ofNames root) p = some (names.map .name) := by
  have happend : ∀ name ∈ root ++ names, IsPlainName name := fun name hname =>
    (List.mem_append.mp hname).elim (hroot name) (h name)
  rw [below?, hp, components_ofNames hroot, components_ofNames happend, List.map_append,
    ← List.cons_append, dropComponents?_append]

/-- A path that spells a place below a root is filed under the names below the root. -/
lemma relative_ofNames (hroot : ∀ name ∈ root, IsPlainName name)
    (h : ∀ name ∈ names, IsPlainName name)
    (hp : components p = components (ofNames (root ++ names))) :
    relative (ofNames root) p = "/".intercalate names := by
  have htexts : names.map (Component.text ∘ Component.name) = names := List.map_id names
  rw [relative, below?_ofNames hroot h hp]
  simp only [joinComponents, List.map_map, htexts]

end

/-- Spellings of one path have one extension. -/
lemma hasExtension_congr (extensions : List String) {p q : String}
    (h : components p = components q) : hasExtension extensions p = hasExtension extensions q := by
  rw [hasExtension, hasExtension, extension?, extension?, fileName?, fileName?, h]

/-- The last name of a path is what stands behind its last slash. -/
lemma fileName?_append (p : String) {name : String} (h : IsPlainName name) :
    fileName? (p ++ "/" ++ name) = some name := by
  have hlast : ∀ cs : List Component, (cs ++ [Component.name name]).getLast? = some (.name name) :=
    fun cs => List.getLast?_concat
  have hbody : ((splitAtClass (· == '/') (p ++ "/" ++ name).toList).filterMap componentOfPiece?) =
      (splitAtClass (· == '/') p.toList).filterMap componentOfPiece? ++ [.name name] := by
    have hchars : (p ++ "/" ++ name).toList = p.toList ++ '/' :: name.toList := by simp
    rw [hchars, splitAtClass_append_cons (by decide), splitAtClass_of_not_mem h.2.2.2,
      List.filterMap_append, List.filterMap_cons_some (componentOfPiece?_plain h),
      List.filterMap_nil]
  simp only [fileName?, components, hbody]
  split_ifs
  · rw [← List.cons_append, hlast]
  · rw [← List.cons_append, hlast]
  · rw [hlast]

/-- A plain name is called by itself. -/
lemma fileName?_of_isPlainName (h : IsPlainName name) : fileName? name = some name := by
  have hbody : [name.toList].filterMap componentOfPiece? = [.name name] :=
    List.filterMap_cons_some (componentOfPiece?_plain h)
  simp only [fileName?, components, splitAtClass_of_not_mem h.2.2.2, hbody]
  split_ifs <;> rfl

/-- A path to which a plain name is joined is called by the name. -/
lemma fileName?_join (p : String) {name : String} (h : IsPlainName name) :
    fileName? (join p name) = some name := by
  unfold join
  rw [isAbsolute_of_slash_not_mem h.2.2.2, Bool.false_or]
  split_ifs with hempty hslash
  · exact fileName?_of_isPlainName h
  · obtain ⟨p', hp', -⟩ := pieces_of_trailing_slash hslash
    rw [hp', fileName?_append p' h]
  · exact fileName?_append p h

/-- The last of names joined by slashes is the file name of the path that they make. -/
lemma fileName?_join_intercalate (root : List String) {names : List String} {name : String}
    (hlast : names.getLast? = some name) (hname : IsPlainName name) :
    fileName? (join (ofNames root) ("/".intercalate names)) = some name := by
  obtain ⟨front, rfl⟩ := List.getLast?_eq_some_iff.mp hlast
  by_cases hfront : front = []
  · rw [hfront, List.nil_append, String.intercalate_singleton]
    exact fileName?_join _ hname
  · have hjoin : ∃ p, join (ofNames root) ("/".intercalate (front ++ [name])) =
        p ++ "/" ++ name := by
      rw [String.intercalate_append_of_ne_nil hfront (by simp), String.intercalate_singleton]
      unfold join
      split_ifs
      · exact ⟨_, rfl⟩
      · exact ⟨ofNames root ++ "/".intercalate front, by simp only [String.append_assoc]⟩
      · exact ⟨ofNames root ++ "/" ++ "/".intercalate front, by simp only [String.append_assoc]⟩
    obtain ⟨p, hp⟩ := hjoin
    rw [hp, fileName?_append p hname]

/-- Behind a beginning that is dropped is what is left. -/
lemma eq_append_of_dropComponents? {cs ds es : List Component}
    (h : dropComponents? cs ds = some es) : ds = cs ++ es := by
  induction cs generalizing ds with
  | nil => exact Option.some.inj h
  | cons c cs ih =>
    cases ds with
    | nil => cases h
    | cons d ds =>
      rw [dropComponents?] at h
      split_ifs at h with hcd
      rw [ih h, hcd, List.cons_append]

/-- Components whose text is a plain name are this name. -/
lemma eq_of_joinComponents {cs : List Component} (hname : IsPlainName name)
    (h : joinComponents cs = name) : cs = [.name name] := by
  match cs with
  | [] => exact absurd h.symm hname.1
  | [.root] =>
    refine absurd ?_ hname.2.2.2
    rw [← h]
    decide
  | [.current] => exact absurd h.symm hname.2.1
  | [.parent] => exact absurd h.symm hname.2.2.1
  | [.name text] =>
    have htext : text = name := h
    rw [htext]
  | c :: d :: cs =>
    refine absurd ?_ hname.2.2.2
    rw [← h, joinComponents, List.map_cons, List.map_cons, String.intercalate_cons_cons]
    simp

/-- A path that is filed under a plain name is called by it. -/
lemma fileName?_of_relative {root : String} (hname : IsPlainName name)
    (h : relative root p = name) :
    fileName? p = some name := by
  unfold relative at h
  cases hbelow : below? root p with
  | some cs =>
    rw [hbelow] at h
    have hcomponents : components p = components root ++ cs := eq_append_of_dropComponents? hbelow
    rw [fileName?, hcomponents, eq_of_joinComponents hname h, List.getLast?_concat]
  | none =>
    rw [hbelow] at h
    -- Nothing was turned to a slash, as there is none in the name.
    have hchars : p.toList.map (fun c => if c = '\\' then '/' else c) = name.toList := by
      rw [← h, String.toList_ofList]
    have hsame : p.toList.map (fun c => if c = '\\' then '/' else c) = p.toList := by
      refine (List.map_congr_left fun c hc => ?_).trans (List.map_id p.toList)
      refine if_neg fun hslash => hname.2.2.2 ?_
      rw [← hchars, List.mem_map]
      exact ⟨c, hc, if_pos hslash⟩
    obtain rfl : p = name := String.toList_inj.mp (hsame.symm.trans hchars)
    exact fileName?_of_isPlainName hname

/-- The file name of a path is the last component of its pieces. -/
lemma getLast?_pieces_of_fileName? (h : fileName? p = some name) :
    ((pieces p).filterMap fun piece => componentOfPiece? piece.toList).getLast? =
      some (.name name) := by
  have hlast : (components p).getLast? = some (.name name) := by
    unfold fileName? at h
    split at h
    · rename_i text htext
      rw [htext, Option.some.inj h]
    · cases h
  have hid : (fun piece : String => componentOfPiece? piece.toList) ∘ String.ofList =
      componentOfPiece? := funext fun cs => by simp
  rw [pieces, Text.splitAt, List.filterMap_map, hid]
  -- The component before those of the pieces, if there is one, is no name.
  have hcons : ∀ c body, c ≠ .name name → (c :: body).getLast? = some (Component.name name) →
      body.getLast? = some (.name name) := by
    intro c body hne hbody
    by_cases hnil : body = []
    · rw [hnil] at hbody
      exact absurd (Option.some.inj hbody) hne
    · rwa [List.getLast?_cons_of_ne_nil hnil] at hbody
  simp only [components] at hlast
  split_ifs at hlast
  · exact hcons _ _ (by simp) hlast
  · exact hcons _ _ (by simp) hlast
  · exact hlast

/-- The extension of a name that ends in `.json`. -/
lemma extensionOfName?_json {stem ext : String}
    (h : extensionOfName? (stem ++ ".json") = some ext) : ext = "json" := by
  have hreversed : (stem ++ ".json").toList.reverse =
      ['n', 'o', 's', 'j'] ++ '.' :: stem.toList.reverse := by simp
  have htake : (['n', 'o', 's', 'j'] ++ '.' :: stem.toList.reverse).takeWhile (· != '.') =
      ['n', 'o', 's', 'j'] := by simp
  simp only [extensionOfName?, hreversed, htake] at h
  split at h
  · cases h
  · cases h
  · exact (Option.some.inj h).symm

end CodeAtlas.Path
