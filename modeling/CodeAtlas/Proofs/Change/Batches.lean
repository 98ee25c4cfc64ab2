import CodeAtlas.Proofs.Change.History
import Mathlib.Data.List.Pairwise

/-!
# Batches of ready changes

A batch takes the first of the entries that are ready, up to its limit, and leaves all others as
they were.  Two batches at one time therefore take what one batch takes whose limit is the sum of
theirs (`splitReady_add`), and any number of batches with one limit is a single batch with the
product (`takeBatches_eq`).  If the limit is not zero, so many batches as the ready entries need
take all of them.

That the entries which are taken first are those whose paths were touched first is a fact about the
history of the queue (`Follows.takesFirst`): the entries of a queue that follows its history stand
in the order of their last records, and the time for which a path has been quiet is the time since
its last record.  It needs that no sequence number has been given to two records.  Then, too, the
order in which the map is walked makes no difference (`Follows.readyPaths_of_perm`).
-/

namespace CodeAtlas

open List (Perm)

namespace ChangeQueue

variable {q : ChangeQueue} {history : List QueueEvent} {limit now : Nat}

/-! ### Taking what is ready -/

/-- The entries that are not ready. -/
def restlessEntries (q : ChangeQueue) (now : Nat) : List PendingChange :=
  q.entries.filter fun e => !e.isReady q.window now

/-- Batches with one limit in a row, and the changes that they take one after the other. -/
def takeBatches (limit now : Nat) : Nat → ChangeQueue → List Change × ChangeQueue
  | 0, q => ([], q)
  | count + 1, q =>
    let first := q.takeReady limit now
    let others := takeBatches limit now count first.2
    (first.1 ++ others.1, others.2)

/-- What is split off is the first entries that are ready.  Of the ready ones the others are left,
and all that are not ready. -/
lemma splitReady_parts (window now limit : Nat) (es : List PendingChange) :
    (splitReady window now limit es).1 =
      ((es.filter fun e => e.isReady window now).take limit).map (·.change) ∧
    ((splitReady window now limit es).2.filter fun e => e.isReady window now) =
      (es.filter fun e => e.isReady window now).drop limit ∧
    ((splitReady window now limit es).2.filter fun e => !e.isReady window now) =
      es.filter fun e => !e.isReady window now := by
  induction es generalizing limit with
  | nil => simp [splitReady]
  | cons e es ih =>
    cases limit with
    | zero => simp [splitReady]
    | succ limit =>
      rw [splitReady]
      by_cases hready : e.isReady window now = true
      · simp [hready, ih]
      · simp [hready, ih]

/-- A batch takes the first entries that are ready, and leaves the others and all that are not. -/
lemma takeReady_parts (q : ChangeQueue) (limit now : Nat) :
    (q.takeReady limit now).1 = ((q.readyEntries now).take limit).map (·.change) ∧
    (q.takeReady limit now).2.readyEntries now = (q.readyEntries now).drop limit ∧
    (q.takeReady limit now).2.restlessEntries now = q.restlessEntries now := by
  obtain ⟨htaken, hready, hrest⟩ := splitReady_parts q.window now limit q.entries
  have hwindow := (q.takeReady_keeps limit now).1
  rw [← takeReady_refines] at htaken hready hrest
  refine ⟨htaken, ?_, ?_⟩
  · rw [readyEntries, hwindow]
    exact hready
  · rw [restlessEntries, hwindow]
    exact hrest

/-- Splitting off twice is splitting off once. -/
lemma splitReady_add (window now n m : Nat) (es : List PendingChange) :
    splitReady window now (n + m) es =
      ((splitReady window now n es).1 ++ (splitReady window now m (splitReady window now n es).2).1,
        (splitReady window now m (splitReady window now n es).2).2) := by
  induction es generalizing n with
  | nil => simp [splitReady]
  | cons e es ih =>
    cases n with
    | zero => simp [splitReady]
    | succ n =>
      rw [Nat.succ_add, splitReady, splitReady]
      by_cases hready : e.isReady window now = true
      · simp [hready, ih]
      · -- The entry is passed by both times.
        have hpass : ∀ es, splitReady window now m (e :: es) =
            ((splitReady window now m es).1, e :: (splitReady window now m es).2) := by
          intro es
          cases m with
          | zero => cases es <;> rfl
          | succ m => rw [splitReady, if_neg hready]
        rw [if_neg hready, if_neg hready, show n + m + 1 = (n + 1) + m by omega, ih (n + 1)]
        simp only [hpass]

/-- Two batches take what one batch takes. -/
lemma takeReady_add (q : ChangeQueue) (n m now : Nat) :
    q.takeReady (n + m) now =
      ((q.takeReady n now).1 ++ ((q.takeReady n now).2.takeReady m now).1,
        ((q.takeReady n now).2.takeReady m now).2) := by
  have hwindow := (q.takeReady_keeps n now).1
  have hsum := q.takeReady_refines (n + m) now
  have hfirst := q.takeReady_refines n now
  have hsecond := (q.takeReady n now).2.takeReady_refines m now
  rw [splitReady_add, ← hfirst, ← hwindow, ← hsecond, Prod.mk.injEq] at hsum
  refine Prod.ext hsum.1 (ext_of_mem_entries ?_ ?_ fun e => by rw [hsum.2])
  · rw [(takeReady_keeps _ _ _).1, (takeReady_keeps _ _ _).1, hwindow]
  · rw [(takeReady_keeps _ _ _).2, (takeReady_keeps _ _ _).2, (takeReady_keeps _ _ _).2]

/-- Batches in a row take what one batch takes. -/
lemma takeBatches_eq (limit now count : Nat) (q : ChangeQueue) :
    takeBatches limit now count q = q.takeReady (count * limit) now := by
  induction count generalizing q with
  | zero =>
    rw [takeBatches, Nat.zero_mul, takeReady_eq, List.take_zero, List.map_nil, List.map_nil,
      List.foldl_nil]
  | succ count ih =>
    rw [takeBatches, ih, Nat.succ_mul, Nat.add_comm, takeReady_add]

/-- A batch whose limit is not too small takes all that is ready. -/
lemma takeReady_of_length_le (h : (q.readyEntries now).length ≤ limit) :
    (q.takeReady limit now).1 = (q.readyEntries now).map (·.change) ∧
      (q.takeReady limit now).2.entries = q.restlessEntries now := by
  obtain ⟨htaken, hready, hrest⟩ := takeReady_parts q limit now
  rw [List.take_of_length_le h] at htaken
  rw [List.drop_of_length_le h, readyEntries, List.filter_eq_nil_iff] at hready
  rw [restlessEntries, List.filter_eq_self.mpr fun e he => by simpa using hready e he] at hrest
  exact ⟨htaken, hrest⟩

/-- Items with different sequence numbers are sorted in one way, in whatever order they come. -/
lemma bySeq_of_perm {α : Type} {items others : List (UInt64 × α)} (hperm : others.Perm items)
    (hne : items.Pairwise fun a b => a.1 ≠ b.1) : bySeq others = bySeq items := by
  have hsorted : ∀ items : List (UInt64 × α),
      (items.mergeSort fun a b => a.1 ≤ b.1).Pairwise fun a b => a.1 ≤ b.1 := fun items =>
    (List.pairwise_mergeSort (fun a b c hab hbc => by
      simp only [decide_eq_true_eq] at *
      exact UInt64.le_trans hab hbc)
      (fun a b => by simpa using UInt64.le_total a.1 b.1) items).imp fun h => by simpa using h
  rw [bySeq, bySeq]
  refine congrArg _ (List.Perm.eq_of_pairwise (fun a b ha hb hab hba => ?_) (hsorted others)
    (hsorted items) ?_)
  · rw [(List.mergeSort_perm _ _).mem_iff, hperm.mem_iff] at ha
    rw [(List.mergeSort_perm _ _).mem_iff] at hb
    by_contra hother
    have : Std.Symm fun a b : UInt64 × α => a.1 ≠ b.1 := ⟨fun _ _ => Ne.symm⟩
    exact hne.forall ha hb hother (UInt64.le_antisymm hab hba)
  · exact (List.mergeSort_perm _ _).trans (hperm.trans (List.mergeSort_perm _ _).symm)

/-! ### Batches and the history -/

/-- A path has been quiet for a window of time since its last record. -/
def QuietSince (history : List QueueEvent) (window now : Nat) (path : String) : Prop :=
  ∃ r, (recordsSince path history).getLast? = some r ∧ window ≤ now - r.time

/-- A batch takes the entries of the paths that have been quiet for long enough and were touched
first, as many as its limit allows, and leaves all others as they are. -/
structure TakesFirst (history : List QueueEvent) (q : ChangeQueue) (limit now : Nat)
    (taken : List PendingChange) (left : ChangeQueue) : Prop where
  length_eq : taken.length = min limit (q.readyEntries now).length
  perm : q.entries.Perm (taken ++ left.entries)
  ordered : taken.Pairwise (RecordedBefore history)
  quiet : ∀ e ∈ taken, QuietSince history q.window now e.change.path
  later : ∀ e ∈ taken, ∀ e' ∈ left.entries, QuietSince history q.window now e'.change.path →
    RecordedBefore history e e'
  untouched : left.restlessEntries now = q.restlessEntries now
  window_eq : left.window = q.window

/-- No two paths were recorded last before each other. -/
lemma RecordedBefore.asymm {e e' : PendingChange} (h : RecordedBefore history e e') :
    ¬RecordedBefore history e' e := by
  obtain ⟨r, r', hr, hr', hlt⟩ := h
  rintro ⟨s', s, hs', hs, hlt'⟩
  rw [hr] at hs
  rw [hr'] at hs'
  obtain rfl := Option.some.inj hs
  obtain rfl := Option.some.inj hs'
  exact Nat.lt_asymm hlt hlt'

namespace Follows

/-- An entry is ready exactly if its path has been quiet since its last record. -/
lemma isReady_iff (h : q.Follows history) {e : PendingChange} (he : e ∈ q.entries)
    (window now : Nat) :
    e.isReady window now = true ↔ QuietSince history window now e.change.path := by
  obtain ⟨r, hlast, htime, -⟩ := exists_getLast?_of_foldRecords (h.foldRecords_eq he)
  rw [PendingChange.isReady, decide_eq_true_eq, htime]
  refine ⟨fun hquiet => ⟨r, hlast, hquiet⟩, fun ⟨r', hlast', hquiet⟩ => ?_⟩
  rw [hlast] at hlast'
  rwa [Option.some.inj hlast']

/-- The ready entries stand in the order of their last records. -/
lemma ready_ordered (h : q.Follows history) (hcount : recordCount history ≤ UInt64.size)
    (now : Nat) : (q.readyEntries now).Pairwise (RecordedBefore history) :=
  (h.ordered hcount).sublist List.filter_sublist

/-- A batch from a queue that follows a history takes what was touched first. -/
lemma takesFirst (h : q.Follows history) (hcount : recordCount history ≤ UInt64.size)
    (limit now : Nat) : TakesFirst history q limit now ((q.readyEntries now).take limit)
      (q.takeReady limit now).2 := by
  obtain ⟨-, hready, hrest⟩ := takeReady_parts q limit now
  have hwindow := (q.takeReady_keeps limit now).1
  obtain ⟨-, hperm, hleft⟩ := splitReady_split q.window now limit q.entries
  rw [← takeReady_refines] at hperm hleft
  constructor
  · rw [List.length_take]
  · exact hperm
  · exact (h.ready_ordered hcount now).sublist (List.take_sublist limit _)
  · intro e he
    obtain ⟨hmem, hquiet⟩ := List.mem_filter.mp (List.mem_of_mem_take he)
    exact (h.isReady_iff hmem _ _).mp hquiet
  · intro e he e' he' hquiet
    have hdrop : e' ∈ (q.readyEntries now).drop limit := by
      rw [← hready]
      refine List.mem_filter.mpr ⟨he', (h.isReady_iff (hleft.subset he') _ _).mpr ?_⟩
      rwa [hwindow]
    have hordered := h.ready_ordered hcount now
    rw [← List.take_append_drop limit (q.readyEntries now)] at hordered
    exact (List.pairwise_append.mp hordered).2.2 e he e' hdrop
  · exact hrest
  · exact hwindow

/-- The ready entries are the only list of them in the order of their last records. -/
lemma eq_readyEntries (h : q.Follows history) (hcount : recordCount history ≤ UInt64.size)
    {ready : List PendingChange} (hperm : ready.Perm (q.readyEntries now))
    (hordered : ready.Pairwise (RecordedBefore history)) : ready = q.readyEntries now := by
  refine hperm.eq_of_pairwise (fun e e' _ _ hbefore hafter => ?_) hordered
    (h.ready_ordered hcount now)
  exact absurd hafter hbefore.asymm

/-- The sequence numbers that a walk meets are different. -/
lemma walk_seq_ne (h : q.Follows history) (hcount : recordCount history ≤ UInt64.size) :
    q.walk.Pairwise fun e e' => e.seq ≠ e'.seq :=
  ((h.strictlySorted hcount).imp fun hlt => UInt64.ne_of_lt hlt).perm q.entries_perm
    fun hne => Ne.symm hne

/-- The first pass of a batch finds the same paths in whatever order the map is walked. -/
lemma readyPaths_of_perm (h : q.Follows history) (hcount : recordCount history ≤ UInt64.size)
    {walk : List PendingChange} (hperm : walk.Perm q.walk) (window now limit : Nat) :
    readyPaths window now limit walk = readyPaths window now limit q.walk := by
  rw [readyPaths, readyPaths, bySeq_of_perm ((hperm.filter _).map _)]
  exact List.pairwise_map.mpr ((h.walk_seq_ne hcount).filter _)

/-- Draining delivers the same changes in whatever order the map is walked. -/
lemma drain_of_perm (h : q.Follows history) (hcount : recordCount history ≤ UInt64.size)
    {walk : List PendingChange} (hperm : walk.Perm q.walk) :
    bySeq (walk.map fun e => (e.seq, e.change)) = q.drain.1 := by
  rw [drain, bySeq_of_perm (hperm.map _)]
  exact List.pairwise_map.mpr (h.walk_seq_ne hcount)

end Follows

/-- Along every run of calls on a queue without changes, two batches at one time take what one batch
takes whose limit is the sum of theirs, and leave the same queue.  If the limit is not zero, as many
batches as the quiet entries need take all of these and leave all others as they are, and if all
entries are quiet, they do what draining the queue does.

While there are not more records than sequence numbers, it makes no difference in which order the
map is walked.  A batch takes, in the order of their last records, the entries that have been quiet
for the window of time and were touched first, as many as its limit allows: that is the beginning of
the only list of the quiet entries in this order.  It leaves those that were touched later, and
those that are not quiet as they are. -/
theorem takeReady_in_batches (window : Nat) (calls : List QueueCall) (now : Nat) :
    let history := (run window calls).1
    let q := (run window calls).2
    let ready := q.readyEntries now
    (∀ n m, q.takeReady (n + m) now =
      ((q.takeReady n now).1 ++ ((q.takeReady n now).2.takeReady m now).1,
        ((q.takeReady n now).2.takeReady m now).2)) ∧
    (∀ e, e ∈ ready ↔ e ∈ q.entries ∧ QuietSince history window now e.change.path) ∧
    (∀ limit, 0 < limit →
      let batches := takeBatches limit now ((ready.length + limit - 1) / limit) q
      batches.1 = ready.map (·.change) ∧ batches.2.entries = q.restlessEntries now ∧
      ((∀ e ∈ q.entries, QuietSince history window now e.change.path) → batches = q.drain)) ∧
    (recordCount history ≤ UInt64.size →
      (∀ walk, Perm walk q.walk →
        (∀ limit, takePaths (readyPaths window now limit walk) q = q.takeReady limit now) ∧
        bySeq (walk.map fun e => (e.seq, e.change)) = q.drain.1) ∧
      (∀ limit, ∃ taken, (q.takeReady limit now).1 = taken.map (·.change) ∧
        TakesFirst history q limit now taken (q.takeReady limit now).2) ∧
      ready.Pairwise (RecordedBefore history) ∧
      ∀ sorted, Perm sorted ready → sorted.Pairwise (RecordedBefore history) →
        ∀ limit, (q.takeReady limit now).1 = (sorted.take limit).map (·.change)) := by
  intro history q ready
  have h : q.Follows history := follows_run window calls
  have hwindow : q.window = window := window_run window calls
  have htaken : ∀ limit, (q.takeReady limit now).1 = (ready.take limit).map (·.change) :=
    fun limit => (takeReady_parts q limit now).1
  refine ⟨fun n m => takeReady_add q n m now, fun e => ?_, fun limit hlimit => ?_,
    fun hcount => ⟨fun walk hperm => ⟨fun limit => ?_, h.drain_of_perm hcount hperm⟩,
      fun limit => ⟨_, htaken limit, h.takesFirst hcount limit now⟩, h.ready_ordered hcount now,
      fun sorted hperm hordered limit => ?_⟩⟩
  · rw [← hwindow]
    exact List.mem_filter.trans (and_congr_right fun he => h.isReady_iff he _ _)
  · intro batches
    -- The quotient is rounded up, so that many batches have room for all.
    have hroom : ready.length ≤ (ready.length + limit - 1) / limit * limit := by
      have hdiv := Nat.div_add_mod (ready.length + limit - 1) limit
      have hmod := Nat.mod_lt (ready.length + limit - 1) hlimit
      rw [Nat.mul_comm] at hdiv
      omega
    have hone : batches = q.takeReady ((ready.length + limit - 1) / limit * limit) now :=
      takeBatches_eq limit now _ q
    rw [hone]
    obtain ⟨hall, hleft⟩ := takeReady_of_length_le hroom
    refine ⟨hall, hleft, fun hquiet => ?_⟩
    have hready : ∀ e ∈ q.entries, e.isReady q.window now = true := fun e he =>
      (h.isReady_iff he _ _).mpr (hwindow ▸ hquiet e he)
    have hentries : ready = q.entries := List.filter_eq_self.mpr hready
    have hrestless : q.restlessEntries now = [] :=
      List.filter_eq_nil_iff.mpr fun e he => by simp [hready e he]
    have hkeeps := q.takeReady_keeps ((ready.length + limit - 1) / limit * limit) now
    rw [drain_eq, ← hentries, ← hall]
    refine Prod.ext rfl (ext_of_mem_entries hkeeps.1 hkeeps.2 fun e => ?_)
    rw [hleft, hrestless, entries_clear]
  · rw [takeReady, ← h.readyPaths_of_perm hcount hperm, hwindow]
  · rw [h.eq_readyEntries hcount hperm hordered]
    exact htaken limit

/-- Three paths of which the first is touched again: two batches of two take all of them, the first
path last, and leave nothing. -/
theorem takeReady_in_batches_touchedAgain :
    let calls : List QueueCall := [.record "a.c" .created 0, .record "b.c" .modified 1,
      .record "c.c" .deleted 2, .record "a.c" .modified 3]
    let q := (run 10 calls).2
    0 < 2 ∧ recordCount (run 10 calls).1 ≤ UInt64.size ∧
      (takeBatches 2 20 2 q).1 =
        [⟨"b.c", .modified⟩, ⟨"c.c", .deleted⟩, ⟨"a.c", .created⟩] ∧
      (takeBatches 2 20 2 q).2.entries = [] ∧
      (q.readyEntries 20).Pairwise (RecordedBefore (run 10 calls).1) := by
  intro calls q
  obtain ⟨-, -, hall, hordered⟩ := takeReady_in_batches 10 calls 20
  have hcount : recordCount (run 10 calls).1 ≤ UInt64.size := by
    have hfour : recordCount (run 10 calls).1 = 4 := by decide +kernel
    rw [hfour]
    decide
  have hwindow : q.window = 10 := window_run 10 calls
  have hentries : q.entries = [⟨⟨"b.c", .modified⟩, 1, 1⟩, ⟨⟨"c.c", .deleted⟩, 2, 2⟩,
      ⟨⟨"a.c", .created⟩, 3, 3⟩] :=
    (congrArg (·.2.2) (run_refines 10 calls hcount)).trans (by decide)
  have hready : q.readyEntries 20 = q.entries := by
    rw [readyEntries, hwindow, hentries]
    rfl
  have hrestless : q.restlessEntries 20 = [] := by
    rw [restlessEntries, hwindow, hentries]
    rfl
  obtain ⟨htaken, hleft, -⟩ := hall 2 (by decide)
  change (takeBatches 2 20 (((q.readyEntries 20).length + 2 - 1) / 2) q).1 =
    (q.readyEntries 20).map (·.change) at htaken
  change (takeBatches 2 20 (((q.readyEntries 20).length + 2 - 1) / 2) q).2.entries =
    q.restlessEntries 20 at hleft
  rw [hready, hentries] at htaken hleft
  rw [hrestless] at hleft
  exact ⟨by decide, hcount, htaken, hleft, (hordered hcount).2.2.1⟩

end ChangeQueue

end CodeAtlas
