import CodeAtlas.Files.Walk
import CodeAtlas.Proofs.Files.Removal
import CodeAtlas.Proofs.Files.WellFormed
import CodeAtlas.Proofs.OrderedMap

/-!
# What a search for source files lists

A search from a directory goes over the files below it.  `FileTree.Listed` says of one file that the
search lists it: it stands there, it is small enough and has a source extension, and the rules keep
it.  The paths that are found are those of the listed files, each once (`perm_walk`).

Whether the rules keep a file depends on the settings and on the rules of the directories on the way
to it (`WalkRules.keeps_congr`), which the search knows because it has met them
(`getElem?_directories`).  So what happens to other files does not matter, even where directories
come and go.
-/

namespace CodeAtlas

open Std (ExtTreeMap ReflCmp)

namespace WalkRules

variable {r r' : WalkRules} {place : Place} {names : List String}

/-- The directory in a split of a place lies above it. -/
lemma exists_of_mem_splits {p : Place × List String} (hp : p ∈ splits place) :
    place = p.1 ++ p.2 ∧ p.2 ≠ [] := by
  simp only [splits, List.mem_map, List.mem_reverse, List.mem_range] at hp
  obtain ⟨n, hn, rfl⟩ := hp
  exact ⟨(List.take_append_drop n place).symm, by simpa using hn⟩

/-- The opinion of the ignore files about a place is that of the directories above it. -/
lemma ignoreFiles?_congr (isDirectory : Bool)
    (h : ∀ above below, place = above ++ below → below ≠ [] →
      r.directories[above]? = r'.directories[above]?) :
    r.ignoreFiles? place isDirectory = r'.ignoreFiles? place isDirectory := by
  have hopinion : ∀ kind, r.opinion? kind place isDirectory =
      r'.opinion? kind place isDirectory := by
    intro kind
    rw [opinion?, opinion?, ← List.head?_filterMap, ← List.head?_filterMap]
    refine congrArg List.head? (List.filterMap_congr fun p hp => ?_)
    obtain ⟨directory, rest⟩ := p
    obtain ⟨hplace, hne⟩ := exists_of_mem_splits hp
    simp only [h directory rest hplace hne]
  simp only [ignoreFiles?, hopinion]

/-- Whether a file is listed depends on the directories on the way to it. -/
lemma keeps_congr (hstart : r.start = r'.start) (hexcluded : r.excluded = r'.excluded)
    (h : ∀ above below, r.start ++ names = above ++ below → below ≠ [] →
      r.directories[above]? = r'.directories[above]?) :
    r.keeps names = r'.keeps names := by
  have hverdict : ∀ n isDirectory,
      r.verdict (names.take n) isDirectory = r'.verdict (names.take n) isDirectory := by
    intro n isDirectory
    rw [verdict, verdict, hexcluded, ← hstart, ignoreFiles?_congr isDirectory]
    intro above below hplace hne
    refine h above (below ++ names.drop n) ?_ fun hnil => hne (List.append_eq_nil_iff.mp hnil).1
    rw [← List.append_assoc, ← hplace, List.append_assoc, List.take_append_drop]
  simp only [keeps, hverdict]

/-- Without rules all files are listed but those with hidden names on the way. -/
lemma keeps_of_no_rules (hexcluded : r.excluded = [])
    (hdirectories : ∀ (d : Place) (rules : DirectoryRules), r.directories[d]? = some rules →
      rules = {})
    (hnames : ∀ name ∈ names, isHiddenName name = false) : r.keeps names = true := by
  have hopinion : ∀ kind ∈ [DirectoryRules.own, DirectoryRules.plain, DirectoryRules.git,
      DirectoryRules.gitExclude], ∀ place isDirectory,
      r.opinion? kind place isDirectory = none := by
    intro kind hkind place isDirectory
    rw [opinion?, List.findSome?_eq_none_iff]
    rintro ⟨directory, names⟩ -
    cases hget : r.directories[directory]? with
    | none => simp only [hget, Option.bind_none]
    | some rules =>
      simp only [hget, Option.bind_some, hdirectories directory rules hget]
      simp only [List.mem_cons, List.not_mem_nil, or_false] at hkind
      rcases hkind with rfl | rfl | rfl | rfl <;> rfl
  have hverdict : ∀ n isDirectory, r.verdict (names.take n) isDirectory = .keep := by
    intro n isDirectory
    have hfiles : r.ignoreFiles? (r.start ++ names.take n) isDirectory = none := by
      rw [ignoreFiles?, List.findSome?_eq_none_iff]
      exact fun kind hkind => hopinion kind hkind _ _
    have hhidden : ((names.take n).getLast?.map isHiddenName).getD false = false := by
      cases hlast : (names.take n).getLast? with
      | none => rfl
      | some name => exact hnames name (List.mem_of_mem_take (List.mem_of_getLast? hlast))
    rw [verdict, hfiles, hexcluded, hhidden]
    rfl
  simp [keeps, hverdict]

end WalkRules

namespace FileTree

variable {t t' : FileTree} {settings : IndexingSettings} {start : Place} {names : List String}
  {content : FileContent}

/-! ### The rules that a search knows -/

/-- What lies below a directory are the entries at longer places. -/
lemma mem_below {e : FileEntry} :
    (names, e) ∈ t.below start ↔ names ≠ [] ∧ t.entry? (start ++ names) = some e := by
  have hentry : names ≠ [] → t.entry? (start ++ names) = t.entries[start ++ names]? := by
    intro hne
    simp [hne, entry?]
  simp only [below, List.mem_filterMap, Prod.exists, ExtTreeMap.mem_toList_iff_getElem?_eq_some]
  constructor
  · rintro ⟨place, e', he', hnames⟩
    split at hnames
    · rename_i name rest hbelow
      obtain ⟨rfl, rfl⟩ := Prod.mk.inj (Option.some.inj hnames)
      rw [namesBelow?_eq_some_iff] at hbelow
      refine ⟨by simp, ?_⟩
      rw [hentry (by simp), ← hbelow, he']
    · cases hnames
  · rintro ⟨hne, he⟩
    refine ⟨start ++ names, e, (hentry hne) ▸ he, ?_⟩
    obtain ⟨name, rest, rfl⟩ := List.exists_cons_of_ne_nil hne
    rw [namesBelow?_eq_some_iff.mpr rfl]

/-- A search knows the rules of each directory above or below its start. -/
lemma getElem?_directories {above below : Place} (hplace : start ++ names = above ++ below)
    (hdir : t.entry? above = some .directory) :
    (t.walkRules settings start).directories[above]? = some (t.directoryRules above) := by
  simp only [walkRules, getElem?_ofList_map]
  refine if_pos ?_
  rw [List.mem_append]
  rcases List.append_eq_append_iff.mp hplace with ⟨ns, rfl, -⟩ | ⟨ns, rfl, -⟩
  · by_cases hns : ns = []
    · left
      rw [hns, List.mem_map]
      exact ⟨start.length, by simp⟩
    · right
      rw [List.mem_filterMap]
      exact ⟨(ns, .directory), mem_below.mpr ⟨hns, hdir⟩, by simp [FileEntry.isDirectory]⟩
  · left
    rw [List.mem_map]
    refine ⟨above.length, ?_, List.take_left⟩
    rw [List.mem_range, List.length_append]
    omega

/-- The rules that a search knows are those of directories. -/
lemma eq_of_getElem?_directories {d : Place} {rules : DirectoryRules}
    (hstart : t.Reaches start) (hdir : t.entry? start = some .directory)
    (h : (t.walkRules settings start).directories[d]? = some rules) :
    t.entry? d = some .directory ∧ rules = t.directoryRules d := by
  simp only [walkRules, getElem?_ofList_map] at h
  split_ifs at h with hmem
  refine ⟨?_, (Option.some.inj h).symm⟩
  rcases List.mem_append.mp hmem with hmem | hmem
  · obtain ⟨n, -, rfl⟩ := List.mem_map.mp hmem
    by_cases hdrop : start.drop n = []
    · have htake := List.take_append_drop n start
      rw [hdrop, List.append_nil] at htake
      rwa [htake]
    · exact hstart _ _ (List.take_append_drop n start).symm hdrop
  · obtain ⟨⟨ns, e⟩, hbelow, hd⟩ := List.mem_filterMap.mp hmem
    cases e with
    | directory =>
      simp only [FileEntry.isDirectory, if_true, Option.some.injEq] at hd
      exact hd ▸ (mem_below.mp hbelow).2
    | file content => cases hd
    | link target => cases hd

/-- Trees with the same directories on the way to a file, and the same rules in them, keep it alike.
-/
lemma keeps_walkRules_congr (hdirs : t.Reaches (start ++ names))
    (hdirs' : t'.Reaches (start ++ names))
    (hrules : ∀ d, t.entry? d = some .directory → t'.entry? d = some .directory →
      t.directoryRules d = t'.directoryRules d) :
    (t.walkRules settings start).keeps names = (t'.walkRules settings start).keeps names := by
  refine WalkRules.keeps_congr rfl rfl fun above below hplace hne => ?_
  change start ++ names = above ++ below at hplace
  have hdir := hdirs above below hplace hne
  have hdir' := hdirs' above below hplace hne
  rw [getElem?_directories hplace hdir, getElem?_directories hplace hdir', hrules above hdir hdir']

/-! ### The files that a search lists -/

/-- A search from a directory lists the file at some names below it. -/
structure Listed (t : FileTree) (settings : IndexingSettings) (start : Place) (names : List String)
    (content : FileContent) : Prop where
  entry : t.entry? (start ++ names) = some (.file content)
  indexed : isIndexed settings (Path.join (pathOf start) ("/".intercalate names)) content = true
  kept : (t.walkRules settings start).keeps names = true

/-- The files that a search from a directory lists, in the order in which it meets them. -/
def listedFiles (t : FileTree) (settings : IndexingSettings) (start : Place) :
    List (List String × FileContent) :=
  (t.below start).filterMap fun (names, e) =>
    match e with
    | .file content =>
      if isIndexed settings (Path.join (pathOf start) ("/".intercalate names)) content &&
          (t.walkRules settings start).keeps names then some (names, content)
      else none
    | _ => none

/-- The files that are met are those that are listed. -/
lemma mem_listedFiles (hstart : t.entry? start = some .directory) :
    (names, content) ∈ t.listedFiles settings start ↔ t.Listed settings start names content := by
  simp only [listedFiles, List.mem_filterMap, Prod.exists, mem_below]
  constructor
  · rintro ⟨names', e, ⟨-, he⟩, hfile⟩
    split at hfile
    · split_ifs at hfile with hkept
      obtain ⟨rfl, rfl⟩ := Prod.mk.inj (Option.some.inj hfile)
      rw [Bool.and_eq_true] at hkept
      exact ⟨he, hkept.1, hkept.2⟩
    · cases hfile
  · rintro ⟨he, hindexed, hkept⟩
    refine ⟨names, .file content, ⟨fun hnil => ?_, he⟩, by simp [hindexed, hkept]⟩
    rw [hnil, List.append_nil, hstart] at he
    cases he

/-- What lies below a directory comes in the order of places. -/
lemma pairwise_below (t : FileTree) (start : Place) :
    (t.below start).Pairwise fun p q => compare (start ++ p.1) (start ++ q.1) = .lt := by
  refine List.Pairwise.filterMap _ (fun p q hpq b hb b' hb' => ?_)
    (ExtTreeMap.ordered_keys_toList (t := t.entries))
  obtain ⟨place, e⟩ := p
  obtain ⟨place', e'⟩ := q
  simp only at hb hb'
  split at hb
  · rename_i hnames
    split at hb'
    · rename_i hnames'
      rw [← Option.some.inj hb, ← Option.some.inj hb', ← namesBelow?_eq_some_iff.mp hnames,
        ← namesBelow?_eq_some_iff.mp hnames']
      exact hpq
    · cases hb'
  · cases hb

/-- Places one after the other have different names. -/
lemma ne_of_compare_eq_lt {names' : List String}
    (h : compare (start ++ names) (start ++ names') = .lt) : names ≠ names' := by
  rintro rfl
  have hself : compare (start ++ names) (start ++ names) = .eq := ReflCmp.compare_self
  rw [h] at hself
  cases hself

/-- The files are met in the order of their places. -/
lemma pairwise_listedFiles (t : FileTree) (settings : IndexingSettings) (start : Place) :
    (t.listedFiles settings start).Pairwise fun p q =>
      compare (start ++ p.1) (start ++ q.1) = .lt := by
  refine List.Pairwise.filterMap _ (fun p q hpq b hb b' hb' => ?_)
    (pairwise_below t start)
  obtain ⟨names, e⟩ := p
  obtain ⟨names', e'⟩ := q
  cases e with
  | file content =>
    cases e' with
    | file content' =>
      simp only at hb hb'
      split_ifs at hb hb'
      rw [← Option.some.inj hb, ← Option.some.inj hb']
      exact hpq
    | directory => cases hb'
    | link target => cases hb'
  | directory => cases hb
  | link target => cases hb

/-- No file is met twice. -/
lemma nodup_listedFiles (t : FileTree) (settings : IndexingSettings) (start : Place) :
    ((t.listedFiles settings start).map Prod.fst).Nodup := by
  rw [List.Nodup, List.pairwise_map]
  exact (pairwise_listedFiles t settings start).imp ne_of_compare_eq_lt

/-- What a search finds are the paths of the listed files, in the order of paths. -/
lemma walk_eq (hstart : t.find? (pathOf start) = .ok (start, .directory)) :
    t.walk settings (pathOf start) = ((t.listedFiles settings start).map fun p =>
      Path.join (pathOf start) ("/".intercalate p.1)).mergeSort Path.le := by
  rw [walk, hstart]
  refine congrArg (fun l : List String => l.mergeSort Path.le) ?_
  rw [listedFiles, List.map_filterMap]
  refine List.filterMap_congr fun p _ => ?_
  obtain ⟨names, e⟩ := p
  cases e with
  | file content => simp only [Option.map_if]
  | directory => rfl
  | link target => rfl

/-- The paths that a search finds are those of the listed files. -/
lemma perm_walk (hstart : t.find? (pathOf start) = .ok (start, .directory)) :
    (t.walk settings (pathOf start)).Perm ((t.listedFiles settings start).map fun p =>
      Path.join (pathOf start) ("/".intercalate p.1)) :=
  walk_eq hstart ▸ List.mergeSort_perm _ _

end FileTree

end CodeAtlas
