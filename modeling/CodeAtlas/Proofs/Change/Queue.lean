import CodeAtlas.Change.Queue
import Mathlib.Data.List.Perm.Basic
import Mathlib.Tactic.Lemma

/-!
# What the queue of changes holds

The map of a queue is read as a list: its entries in the order of their sequence numbers
(`entries`).  Recording a change takes away the entry of its path and adds one, whose text is the
one recorded first and whose kind is the folded one; what is pending about other paths stays
pending.  As long as the next number is above all that were given, the new entry stands at the end
of the list (`recordLast`, `record_refines`).

A batch walks the map, sorts what is ready, cuts the list off at its limit and removes the paths
that are left one by one.  Of the list this splits off the first entries that are ready
(`splitReady`, `takeReady_refines`): a filter of a sorted list is the sorted list of what passes the
filter, and the second pass finds every path that the first pass has met.
-/

namespace CodeAtlas

/-- Two texts name the same path if they have the same components. -/
lemma Path.same_iff {p q : String} : Path.same p q = true ↔ components p = components q := by
  simp [Path.same]

/-- Texts of one path are the same as the same texts. -/
lemma Path.same_congr {p q : String} (h : Path.same p q = true) (r : String) :
    Path.same r p = Path.same r q := by
  rw [Path.same, Path.same, Path.same_iff.mp h]

/-- Whether two texts name the same path does not depend on their order. -/
lemma Path.same_comm (p q : String) : Path.same p q = Path.same q p := by
  rw [Path.same, Path.same, BEq.comm]

/-- Whether a test passes over what is sorted or sorts what it lets pass is the same. -/
lemma filter_mergeSort {α : Type} {le : α → α → Bool}
    (htrans : ∀ a b c, le a b = true → le b c = true → le a c = true)
    (htotal : ∀ a b, (le a b || le b a) = true) (p : α → Bool) (as : List α) :
    (as.mergeSort le).filter p = (as.filter p).mergeSort le := by
  induction as with
  | nil => rw [List.mergeSort_nil, List.filter_nil, List.mergeSort_nil]
  | cons a as ih =>
    obtain ⟨before, after, hcons, hsplit, hbefore⟩ := List.mergeSort_cons htrans htotal a as
    have hsorted := List.pairwise_mergeSort htrans htotal (a :: as)
    rw [hcons] at hsorted
    have hafter := (List.pairwise_cons.mp (List.pairwise_append.mp hsorted).2.1).1
    rw [hcons, List.filter_append]
    cases hp : p a with
    | false =>
      rw [List.filter_cons_of_neg (by simp [hp]), List.filter_cons_of_neg (by simp [hp]), ← ih,
        hsplit, List.filter_append]
    | true =>
      rw [List.filter_cons_of_pos hp, List.filter_cons_of_pos hp]
      obtain ⟨before', after', hcons', hsplit', hbefore'⟩ :=
        List.mergeSort_cons htrans htotal a (as.filter p)
      have hsorted' := List.pairwise_mergeSort htrans htotal (a :: as.filter p)
      rw [hcons'] at hsorted' ⊢
      have hafter' := (List.pairwise_cons.mp (List.pairwise_append.mp hsorted').2.1).1
      -- Before the new item stands, in both lists, what it is not before.
      have hsame : before.filter p ++ after.filter p = before' ++ after' := by
        rw [← List.filter_append, ← hsplit, ih, hsplit']
      have hcut : ∀ front back : List α, (∀ b ∈ front, (!le a b) = true) →
          (∀ b ∈ back, le a b = true) →
          (front ++ back).filter (fun b => !le a b) = front ∧
            (front ++ back).filter (le a) = back := by
        intro front back hfront hback
        rw [List.filter_append, List.filter_append, List.filter_eq_self.mpr hfront,
          List.filter_eq_self.mpr hback,
          List.filter_eq_nil_iff.mpr fun b hb => by simp [hback b hb],
          List.filter_eq_nil_iff.mpr fun b hb => by simpa using hfront b hb]
        exact ⟨List.append_nil _, List.nil_append _⟩
      have hleft := hcut (before.filter p) (after.filter p)
        (fun b hb => hbefore b (List.mem_of_mem_filter hb))
        (fun b hb => hafter b (List.mem_of_mem_filter hb))
      have hright := hcut before' after' hbefore' hafter'
      rw [hsame] at hleft
      rw [← hleft.1, ← hleft.2, hright.1, hright.2]

namespace ChangeQueue

variable {q : ChangeQueue} {path : String} {kind : ChangeKind} {now : Nat} {e : PendingChange}

/-! ### The entries of the map -/

/-- The entry of a path is one of its texts. -/
lemma same_of_find? (h : q.find? path = some e) : Path.same e.change.path path = true :=
  Path.same_iff.mpr (q.keyed _ e h)

/-- Texts of one path have the same entry. -/
lemma find?_congr {p : String} (h : Path.same p path = true) : q.find? p = q.find? path := by
  rw [find?, find?, Path.same_iff.mp h]

/-- A path that is forgotten has no entry, and every other keeps its own. -/
lemma find?_remove (q : ChangeQueue) (path p : String) :
    (q.remove path).find? p = if Path.same path p then none else q.find? p := by
  simp only [find?, remove, Std.ExtTreeMap.getElem?_erase, Std.compare_eq_iff_eq, Path.same_iff]

/-- A path that is recorded has the entry that the record makes, and every other keeps its own. -/
lemma find?_record (q : ChangeQueue) (path : String) (kind : ChangeKind) (now : Nat) (p : String) :
    (q.record path kind now).find? p =
      if Path.same path p then some (entryAfter (q.find? path) path kind now q.nextSeq)
      else q.find? p := by
  simp only [find?, record, Std.ExtTreeMap.getElem?_insert, Std.compare_eq_iff_eq, Path.same_iff]

/-- A walk meets exactly the entries that are found under their paths. -/
lemma mem_walk : e ∈ q.walk ↔ q.find? e.change.path = some e := by
  rw [walk, List.mem_map, find?]
  constructor
  · rintro ⟨⟨key, e⟩, hmem, rfl⟩
    have hfind := Std.ExtTreeMap.mem_toList_iff_getElem?_eq_some.mp hmem
    rwa [q.keyed key e hfind]
  · intro h
    exact ⟨⟨_, e⟩, Std.ExtTreeMap.mem_toList_iff_getElem?_eq_some.mpr h, rfl⟩

/-- A walk meets no path twice. -/
lemma pairwise_walk (q : ChangeQueue) :
    q.walk.Pairwise fun e e' => Path.same e.change.path e'.change.path = false := by
  rw [walk, List.pairwise_map]
  refine Std.ExtTreeMap.distinct_keys_toList.imp_of_mem fun {x y} hx hy hne => ?_
  rw [Bool.eq_false_iff]
  intro hsame
  have hkeys := Path.same_iff.mp hsame
  rw [q.keyed _ _ (Std.ExtTreeMap.mem_toList_iff_getElem?_eq_some.mp hx),
    q.keyed _ _ (Std.ExtTreeMap.mem_toList_iff_getElem?_eq_some.mp hy)] at hkeys
  exact hne (Std.compare_eq_iff_eq.mpr hkeys)

/-! ### The entries in the order of their sequence numbers -/

/-- The entries in the order of their sequence numbers. -/
def entries (q : ChangeQueue) : List PendingChange :=
  q.walk.mergeSort fun e e' => e.seq ≤ e'.seq

/-- A queue without changes has no entries. -/
@[simp] lemma entries_ofWindow (window : Nat) : (ofWindow window).entries = [] :=
  List.mergeSort_nil

/-- The entries are those that a walk meets. -/
lemma entries_perm (q : ChangeQueue) : q.entries.Perm q.walk := List.mergeSort_perm _ _

/-- An entry is what is found under its path. -/
lemma mem_entries : e ∈ q.entries ↔ q.find? e.change.path = some e :=
  q.entries_perm.mem_iff.trans mem_walk

/-- Two queues are the same if they have the same window, next number and entries. -/
lemma ext_of_mem_entries {q r : ChangeQueue} (hwindow : q.window = r.window)
    (hnext : q.nextSeq = r.nextSeq)
    (h : ∀ e, e ∈ q.entries ↔ e ∈ r.entries) : q = r := by
  have hpending : q.pending = r.pending := by
    refine Std.ExtTreeMap.ext_getElem? fun key => Option.ext fun e => ?_
    have hkey : ∀ q : ChangeQueue, q.pending[key]? = some e ↔
        e ∈ q.entries ∧ Path.components e.change.path = key := by
      intro q
      rw [mem_entries, find?]
      refine ⟨fun hfind => ?_, fun ⟨hfind, hkey⟩ => hkey ▸ hfind⟩
      have hkey := q.keyed key e hfind
      exact ⟨hkey.symm ▸ hfind, hkey⟩
    rw [hkey q, hkey r, h e]
  cases q
  cases r
  cases hwindow
  cases hnext
  cases hpending
  rfl

/-- No two entries are of one path. -/
lemma pairwise_entries (q : ChangeQueue) :
    q.entries.Pairwise fun e e' => Path.same e.change.path e'.change.path = false :=
  q.pairwise_walk.perm q.entries_perm.symm fun {e e'} h => by rw [Path.same_comm, h]

/-- No entry is listed twice. -/
lemma nodup_entries (q : ChangeQueue) : q.entries.Nodup :=
  q.pairwise_entries.imp fun {e e'} hne heq => by simp [heq, Path.same] at hne

/-- The sequence numbers of the entries never decrease. -/
lemma sorted_entries (q : ChangeQueue) : q.entries.Pairwise fun e e' => e.seq ≤ e'.seq := by
  refine (List.pairwise_mergeSort (fun a b c hab hbc => ?_) (fun a b => ?_) q.walk).imp
    fun {e e'} h => by simpa using h
  · simp only [decide_eq_true_eq] at *
    exact UInt64.le_trans hab hbc
  · simpa using UInt64.le_total a.seq b.seq

/-- What passes a test, in the order of the sequence numbers. -/
lemma filter_entries (p : PendingChange → Bool) (q : ChangeQueue) :
    q.entries.filter p = (q.walk.filter p).mergeSort fun e e' => e.seq ≤ e'.seq := by
  refine filter_mergeSort (fun a b c hab hbc => ?_) (fun a b => ?_) p q.walk
  · simp only [decide_eq_true_eq] at *
    exact UInt64.le_trans hab hbc
  · simpa using UInt64.le_total a.seq b.seq

/-- The entries of the other paths are left when a path is forgotten. -/
lemma entries_remove (q : ChangeQueue) (path : String) :
    (q.remove path).entries = q.entries.filter fun e => !Path.same e.change.path path := by
  have herase : (q.remove path).pending =
      q.pending.filter fun key _ => key != Path.components path := by
    refine Std.ExtTreeMap.ext_getElem? fun key => ?_
    simp only [remove, Std.ExtTreeMap.getElem?_erase, Std.ExtTreeMap.getElem?_filter',
      Std.compare_eq_iff_eq]
    by_cases hkey : Path.components path = key
    · simp [hkey]
    · have hother : (key != Path.components path) = true := bne_iff_ne.mpr (Ne.symm hkey)
      cases q.pending[key]? <;> simp [hkey, Option.filter, hother]
  rw [filter_entries, entries, walk, herase, Std.ExtTreeMap.toList_filter, walk, List.filter_map]
  congr 2
  refine List.filter_congr fun x hx => ?_
  rw [Function.comp_apply, Path.same,
    q.keyed _ _ (Std.ExtTreeMap.mem_toList_iff_getElem?_eq_some.mp hx)]
  rfl

/-- What is left of the entries when a path is forgotten. -/
lemma mem_entries_remove :
    e ∈ (q.remove path).entries ↔ e ∈ q.entries ∧ Path.same e.change.path path = false := by
  simp [entries_remove]

/-- Recording a change adds one entry to those of the other paths. -/
lemma entries_record_perm (q : ChangeQueue) (path : String) (kind : ChangeKind) (now : Nat) :
    (q.record path kind now).entries.Perm
      (entryAfter (q.find? path) path kind now q.nextSeq :: (q.remove path).entries) := by
  have hsame : Path.same (entryAfter (q.find? path) path kind now q.nextSeq).change.path path =
      true := Path.same_iff.mpr (q.components_entryAfter path kind now q.nextSeq)
  refine (List.perm_ext_iff_of_nodup (nodup_entries _) ?_).mpr fun e => ?_
  · refine List.nodup_cons.mpr ⟨fun hmem => ?_, nodup_entries _⟩
    rw [mem_entries_remove, hsame] at hmem
    exact absurd hmem.2 (by simp)
  · rw [List.mem_cons, mem_entries_remove, mem_entries, mem_entries, find?_record, Path.same_comm]
    cases he : Path.same e.change.path path with
    | true => simp [eq_comm]
    | false =>
      have hne : e ≠ entryAfter (q.find? path) path kind now q.nextSeq := by
        rintro rfl
        rw [hsame] at he
        cases he
      simp [hne]

/-- The first record leaves one entry. -/
lemma entries_record_ofWindow (window : Nat) (path : String) (kind : ChangeKind) (now : Nat) :
    ((ofWindow window).record path kind now).entries = [⟨⟨path, kind⟩, now, 0⟩] := by
  have hperm := (ofWindow window).entries_record_perm path kind now
  have hnone : (ofWindow window).find? path = none := Std.ExtTreeMap.getElem?_empty
  rw [entries_remove, entries_ofWindow, List.filter_nil, hnone] at hperm
  exact hperm.eq_singleton

/-- The first entry of a path is the one that is found under it. -/
lemma find?_entries (q : ChangeQueue) (path : String) :
    (q.entries.find? fun e => Path.same e.change.path path) = q.find? path := by
  cases hfind : q.entries.find? fun e => Path.same e.change.path path with
  | none =>
    rw [List.find?_eq_none] at hfind
    cases hpath : q.find? path with
    | none => rfl
    | some e =>
      have hsame := same_of_find? hpath
      exact absurd hsame (hfind e (mem_entries.mpr ((find?_congr hsame).trans hpath)))
  | some e =>
    have hsame := List.find?_some hfind
    rw [← find?_congr hsame, mem_entries.mp (List.mem_of_find?_eq_some hfind)]

/-- Takes the entry of a path out of a list, and puts at its end the one that a record makes. -/
def recordLast (path : String) (kind : ChangeKind) (now : Nat) (seq : UInt64)
    (es : List PendingChange) : List PendingChange :=
  (es.filter fun e => !Path.same e.change.path path) ++
    [entryAfter (es.find? fun e => Path.same e.change.path path) path kind now seq]

/-- Recording is a refinement of putting the entry of the path at the end of the list of entries, if
these have different numbers and the next number is above them. -/
theorem record_refines (hsorted : q.entries.Pairwise fun e e' => e.seq < e'.seq)
    (hnext : ∀ e ∈ q.entries, e.seq < q.nextSeq) (path : String) (kind : ChangeKind) (now : Nat) :
    (q.record path kind now).entries = recordLast path kind now q.nextSeq q.entries := by
  set new := entryAfter (q.find? path) path kind now q.nextSeq with hnew
  have hseq : new.seq = q.nextSeq := by
    rw [hnew]
    cases q.find? path <;> rfl
  have hlast : ((q.remove path).entries ++ [new]).Pairwise fun e e' => e.seq < e'.seq := by
    refine List.pairwise_append.mpr ⟨?_, List.pairwise_singleton _ _, fun e he e' he' => ?_⟩
    · rw [entries_remove]
      exact hsorted.filter _
    · rw [List.mem_singleton.mp he', hseq]
      exact hnext e (mem_entries_remove.mp he).1
  have hperm := (q.entries_record_perm path kind now).trans (List.perm_append_singleton _ _).symm
  have hne : (q.record path kind now).entries.Pairwise fun e e' => e.seq ≠ e'.seq :=
    (hlast.imp UInt64.ne_of_lt).perm hperm.symm Ne.symm
  have hrecord : (q.record path kind now).entries.Pairwise fun e e' => e.seq < e'.seq :=
    ((q.record path kind now).sorted_entries.and hne).imp fun h => UInt64.lt_of_le_of_ne h.1 h.2
  rw [recordLast, find?_entries, ← entries_remove]
  exact List.Perm.eq_of_pairwise (fun e e' _ _ h h' => absurd h' (UInt64.lt_asymm h)) hrecord hlast
    hperm

/-- The change that a record leaves pending beside those of the other paths: the recorded one, or
what an entry of the same path becomes by it. -/
lemma exists_entries_record (q : ChangeQueue) (path : String) (kind : ChangeKind) (now : Nat) :
    ∃ new : PendingChange,
      (q.record path kind now).entries.Perm (new :: (q.remove path).entries) ∧
      (new.change = ⟨path, kind⟩ ∨ ∃ old ∈ q.entries, Path.same old.change.path path = true ∧
        new.change = ⟨old.change.path, old.change.kind.coalesce kind⟩) := by
  refine ⟨_, q.entries_record_perm path kind now, ?_⟩
  cases hfind : q.find? path with
  | none => exact Or.inl rfl
  | some old =>
    have hsame := same_of_find? hfind
    exact Or.inr ⟨old, mem_entries.mpr ((find?_congr hsame).trans hfind), hsame, rfl⟩

/-- All entries are forgotten. -/
@[simp] lemma entries_clear (q : ChangeQueue) : q.clear.entries = [] := entries_ofWindow q.window

/-- Draining delivers all changes in the order of the sequence numbers. -/
lemma drain_eq (q : ChangeQueue) : q.drain = (q.entries.map (·.change), q.clear) := by
  have hsort := List.map_mergeSort (l := q.walk) (f := fun e : PendingChange => (e.seq, e.change))
    (r := fun e e' => e.seq ≤ e'.seq) (s := fun a b => a.1 ≤ b.1) fun _ _ _ _ => rfl
  rw [drain, bySeq, ← hsort, List.map_map]
  rfl

/-! ### Batches as beginnings of a list -/

/-- Splits off the first entries of a list that are ready, up to a limit. -/
def splitReady (window now : Nat) : Nat → List PendingChange → List Change × List PendingChange
  | _, [] => ([], [])
  | 0, es => ([], es)
  | limit + 1, e :: es =>
    if e.isReady window now then
      let (taken, left) := splitReady window now limit es
      (e.change :: taken, left)
    else
      let (taken, left) := splitReady window now (limit + 1) es
      (taken, e :: left)

/-- If everything is ready, the first entries are taken. -/
lemma splitReady_of_ready {window now : Nat} (limit : Nat) {es : List PendingChange}
    (h : ∀ e ∈ es, e.isReady window now = true) :
    splitReady window now limit es = ((es.take limit).map (·.change), es.drop limit) := by
  induction es generalizing limit with
  | nil => simp [splitReady]
  | cons e es ih =>
    rw [List.forall_mem_cons] at h
    cases limit with
    | zero => simp [splitReady]
    | succ limit => simp [splitReady, h.1, ih limit h.2]

/-- Splitting off parts a list into the first entries that are ready and what is left, in the order
in which it stood. -/
lemma splitReady_split (window now limit : Nat) (es : List PendingChange) :
    (splitReady window now limit es).1 =
      ((es.filter (·.isReady window now)).take limit).map (·.change) ∧
    es.Perm ((es.filter (·.isReady window now)).take limit ++ (splitReady window now limit es).2) ∧
    (splitReady window now limit es).2.Sublist es := by
  induction es generalizing limit with
  | nil => simp [splitReady]
  | cons e es ih =>
    cases limit with
    | zero => simp [splitReady]
    | succ limit =>
      rw [splitReady]
      by_cases hready : e.isReady window now = true
      · obtain ⟨htaken, hperm, hleft⟩ := ih limit
        rw [if_pos hready, List.filter_cons_of_pos hready, List.take_succ_cons]
        exact ⟨congrArg (e.change :: ·) htaken, hperm.cons e, hleft.cons e⟩
      · obtain ⟨htaken, hperm, hleft⟩ := ih (limit + 1)
        rw [if_neg hready, List.filter_cons_of_neg hready]
        exact ⟨htaken, (hperm.cons e).trans List.perm_middle.symm, hleft.cons_cons e⟩

/-- If the entries of a list are of different paths, what is left are those whose paths were not
split off. -/
lemma splitReady_left_eq (window now limit : Nat) {es : List PendingChange}
    (h : es.Pairwise fun e e' => Path.same e.change.path e'.change.path = false) :
    (splitReady window now limit es).2 = es.filter fun e =>
      !((es.filter (·.isReady window now)).take limit).any fun e' =>
        Path.same e.change.path e'.change.path := by
  obtain ⟨-, hperm, hleft⟩ := splitReady_split window now limit es
  set gone := (es.filter (·.isReady window now)).take limit
  set left := (splitReady window now limit es).2
  have hapart := (List.pairwise_append.mp
    (h.perm hperm fun {e e'} hne => by rw [Path.same_comm, hne])).2.2
  have hstays : (left.filter fun e => !gone.any fun e' =>
      Path.same e.change.path e'.change.path) = left := by
    refine List.filter_eq_self.mpr fun e he => ?_
    rw [Bool.not_eq_true', List.any_eq_false]
    intro e' he'
    rw [Path.same_comm, hapart e' he' e he]
    exact Bool.false_ne_true
  have hgoes : (gone.filter fun e => !gone.any fun e' =>
      Path.same e.change.path e'.change.path) = [] := by
    refine List.filter_eq_nil_iff.mpr fun e he => ?_
    rw [Bool.not_eq_true', Bool.not_eq_false]
    exact List.any_eq_true.mpr ⟨e, he, Path.same_iff.mpr rfl⟩
  have hsub := hleft.filter fun e => !gone.any fun e' => Path.same e.change.path e'.change.path
  rw [hstays] at hsub
  refine hsub.eq_of_length ?_
  have hlength := (hperm.filter fun e => !gone.any fun e' =>
    Path.same e.change.path e'.change.path).length_eq
  rw [hlength, List.filter_append, hgoes, hstays, List.nil_append]

/-! ### The passes of a batch -/

/-- The entries that are ready. -/
def readyEntries (q : ChangeQueue) (now : Nat) : List PendingChange :=
  q.entries.filter (·.isReady q.window now)

/-- The first entries that are ready are entries. -/
lemma take_readyEntries_sublist (q : ChangeQueue) (limit now : Nat) :
    ((q.readyEntries now).take limit).Sublist q.entries :=
  (List.take_sublist _ _).trans List.filter_sublist

/-- The first pass finds the paths of the first entries that are ready. -/
lemma readyPaths_eq (q : ChangeQueue) (limit now : Nat) :
    readyPaths q.window now limit q.walk =
      ((q.readyEntries now).take limit).map (·.change.path) := by
  have hsort := List.map_mergeSort (l := q.walk.filter (·.isReady q.window now))
    (f := fun e : PendingChange => (e.seq, e.change.path))
    (r := fun e e' => e.seq ≤ e'.seq) (s := fun a b => a.1 ≤ b.1) fun _ _ _ _ => rfl
  rw [readyPaths, bySeq, ← hsort, ← filter_entries, List.map_map, ← List.map_take, readyEntries]
  rfl

/-- The second pass removes every path that it is given. -/
lemma takePaths_snd (paths : List String) (q : ChangeQueue) :
    (takePaths paths q).2 = paths.foldl remove q := by
  induction paths generalizing q with
  | nil => rfl
  | cons path paths ih =>
    rw [takePaths, List.foldl_cons, ← ih]
    cases q.find? path <;> rfl

/-- The second pass delivers the changes of the entries whose paths it is given. -/
lemma takePaths_fst {gone : List PendingChange} (hmem : ∀ e ∈ gone, e ∈ q.entries)
    (h : gone.Pairwise fun e e' => Path.same e.change.path e'.change.path = false) :
    (takePaths (gone.map (·.change.path)) q).1 = gone.map (·.change) := by
  induction gone generalizing q with
  | nil => rfl
  | cons e gone ih =>
    rw [List.forall_mem_cons] at hmem
    rw [List.pairwise_cons] at h
    have hrest : ∀ e' ∈ gone, e' ∈ (q.remove e.change.path).entries := fun e' he' =>
      mem_entries_remove.mpr ⟨hmem.2 e' he', by rw [Path.same_comm, h.1 e' he']⟩
    rw [List.map_cons, takePaths, mem_entries.mp hmem.1, List.map_cons, ← ih hrest h.2]

/-- What removing paths one after the other leaves. -/
lemma entries_foldl_remove (paths : List String) (q : ChangeQueue) :
    (paths.foldl remove q).entries =
      q.entries.filter fun e => !paths.any fun path => Path.same e.change.path path := by
  induction paths generalizing q with
  | nil => simp
  | cons path paths ih =>
    rw [List.foldl_cons, ih, entries_remove, List.filter_filter]
    refine List.filter_congr fun e _ => ?_
    rw [List.any_cons, Bool.not_or, Bool.and_comm]

/-- Paths that were removed have no entry, and all others keep their own. -/
lemma find?_foldl_remove (paths : List String) (q : ChangeQueue) (p : String) :
    (paths.foldl remove q).find? p =
      if paths.any fun path => Path.same path p then none else q.find? p := by
  induction paths generalizing q with
  | nil => simp
  | cons path paths ih =>
    rw [List.foldl_cons, ih, find?_remove, List.any_cons]
    cases Path.same path p <;> simp

/-- Removing paths changes neither the window nor the next number. -/
lemma foldl_remove_keeps (paths : List String) (q : ChangeQueue) :
    (paths.foldl remove q).window = q.window ∧ (paths.foldl remove q).nextSeq = q.nextSeq := by
  induction paths generalizing q with
  | nil => exact ⟨rfl, rfl⟩
  | cons path paths ih => exact ih (q.remove path)

/-- A batch delivers the changes of the entries that it takes, and removes their paths. -/
lemma takeReady_eq (q : ChangeQueue) (limit now : Nat) :
    q.takeReady limit now = (((q.readyEntries now).take limit).map (·.change),
      (((q.readyEntries now).take limit).map (·.change.path)).foldl remove q) := by
  have hsub := q.take_readyEntries_sublist limit now
  rw [takeReady, readyPaths_eq]
  refine Prod.ext ?_ (takePaths_snd _ q)
  exact takePaths_fst (fun e he => hsub.subset he) (q.pairwise_entries.sublist hsub)

/-- A batch keeps the window and the next number. -/
lemma takeReady_keeps (q : ChangeQueue) (limit now : Nat) :
    (q.takeReady limit now).2.window = q.window ∧
      (q.takeReady limit now).2.nextSeq = q.nextSeq := by
  rw [takeReady_eq]
  exact foldl_remove_keeps _ q

/-- A batch is a refinement of splitting the list of entries. -/
theorem takeReady_refines (q : ChangeQueue) (limit now : Nat) :
    ((q.takeReady limit now).1, (q.takeReady limit now).2.entries) =
      splitReady q.window now limit q.entries := by
  rw [takeReady_eq, entries_foldl_remove]
  refine Prod.ext (splitReady_split q.window now limit q.entries).1.symm ?_
  rw [splitReady_left_eq _ _ _ q.pairwise_entries]
  refine List.filter_congr fun e _ => ?_
  rw [List.any_map]
  rfl

/-- If everything is ready, a batch takes the first entries and leaves the others. -/
lemma takeReady_of_ready {now : Nat} (limit : Nat)
    (h : ∀ e ∈ q.entries, e.isReady q.window now = true) :
    (q.takeReady limit now).1 = (q.entries.take limit).map (·.change) ∧
      (q.takeReady limit now).2.entries = q.entries.drop limit := by
  rw [← Prod.mk.injEq, takeReady_refines, splitReady_of_ready limit h]

/-- A pending change is taken with a batch or stays pending. -/
lemma mem_takeReady (limit now : Nat) (he : e ∈ q.entries) :
    e.change ∈ (q.takeReady limit now).1 ∨ e ∈ (q.takeReady limit now).2.entries := by
  obtain ⟨htaken, hperm, -⟩ := splitReady_split q.window now limit q.entries
  rw [← takeReady_refines] at htaken hperm
  rcases List.mem_append.mp (hperm.mem_iff.mp he) with hgone | hleft
  · left
    rw [htaken]
    exact List.mem_map_of_mem hgone
  · exact Or.inr hleft

end ChangeQueue

end CodeAtlas
