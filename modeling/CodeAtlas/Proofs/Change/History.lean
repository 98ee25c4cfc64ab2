import CodeAtlas.Proofs.Change.Queue
import Mathlib.Data.List.DropRight
import Mathlib.Data.List.Perm.Basic
import Mathlib.Tactic.SplitIfs

/-!
# The queue of changes and its history

What a queue holds is decided by what happened to it: the calls, each with the changes that it
delivered.  Of a path only the records count that came after the last call with which it left the
queue, be it delivered, removed or cleared (`recordsSince`).  They fold into one entry: the kinds
are folded from the left, time and sequence number are those of the last record, and the text is
that of the first (`foldRecords`).

A queue *follows* a history (`Follows`) if its map holds exactly these entries and its next sequence
number is the number of all records.  Each call keeps that, and what it delivers are entries of the
queue that it found; so along every run of calls no change is lost, none is delivered twice, and
none with a kind that its records do not fold into.

While no sequence number has been given to two records, that is for as many of them as there are
words of 64 bits, the entries have different numbers, and these are in the order of the last records
(`Follows.seq_lt_iff`, `Follows.strictlySorted`).  The queue is then a refinement of a list in which
a record puts the entry of its path at the end, and from which a batch splits off what is ready
(`runList`, `run_refines`).
-/

namespace CodeAtlas

/-! ### Histories -/

/-- What can be asked of a queue. -/
inductive QueueCall where
  | record (path : String) (kind : ChangeKind) (time : Nat)
  | takeReady (limit time : Nat)
  | drain
  | remove (path : String)
  | clear
  deriving DecidableEq, Repr

/-- What a call does to a queue, and the changes that it delivers. -/
def QueueCall.onQueue (q : ChangeQueue) : QueueCall → List Change × ChangeQueue
  | .record path kind time => ([], q.record path kind time)
  | .takeReady limit time => q.takeReady limit time
  | .drain => q.drain
  | .remove path => ([], q.remove path)
  | .clear => ([], q.clear)

/-- What a call does where only the next number and a list of entries are kept, and the changes that
it delivers. -/
def QueueCall.onList (window : Nat) (seq : UInt64) (es : List PendingChange) :
    QueueCall → List Change × UInt64 × List PendingChange
  | .record path kind time => ([], seq + 1, ChangeQueue.recordLast path kind time seq es)
  | .takeReady limit time =>
    let (taken, left) := ChangeQueue.splitReady window time limit es
    (taken, seq, left)
  | .drain => (es.map (·.change), seq, [])
  | .remove path => ([], seq, es.filter fun e => !Path.same e.change.path path)
  | .clear => ([], seq, [])

/-- A call that was made, and the changes that it delivered. -/
structure QueueEvent where
  call : QueueCall
  delivered : List Change
  deriving DecidableEq, Repr

/-- Whether a path leaves the queue with a call: it is delivered, it is removed, or everything is
cleared. -/
def QueueEvent.dismisses (event : QueueEvent) (path : String) : Bool :=
  match event.call with
  | .record .. => false
  | .takeReady .. | .drain => event.delivered.any fun c => Path.same c.path path
  | .remove removed => Path.same removed path
  | .clear => true

/-- Whether a call records a change. -/
def QueueEvent.isRecord (event : QueueEvent) : Bool :=
  match event.call with
  | .record .. => true
  | .takeReady .. | .drain | .remove _ | .clear => false

/-- The number of changes that were recorded. -/
def recordCount (history : List QueueEvent) : Nat := history.countP (·.isRecord)

/-- The events of a history, each with the number of changes that were recorded before it. -/
def withRecordCounts (history : List QueueEvent) : List (QueueEvent × Nat) :=
  history.mapIdx fun i event => (event, recordCount (history.take i))

/-- A record of a change, and the number of records that were made before it. -/
structure ChangeRecord where
  number : Nat
  change : Change
  time : Nat
  deriving DecidableEq, Repr

/-- The record of a path that a call makes. -/
def QueueEvent.record? (path : String) (event : QueueEvent) (number : Nat) : Option ChangeRecord :=
  match event.call with
  | .record recorded kind time =>
    if Path.same recorded path then some ⟨number, ⟨recorded, kind⟩, time⟩ else none
  | _ => none

/-- The records of a path since it last left the queue. -/
def recordsSince (path : String) (history : List QueueEvent) : List ChangeRecord :=
  ((withRecordCounts history).rtakeWhile fun x => !x.1.dismisses path).filterMap fun x =>
    x.1.record? path x.2

/-- The entry that records in a row make: the text of the first, the kinds folded from the left, and
the time and the sequence number of the last, which is the word for its number. -/
def foldRecords : List ChangeRecord → Option PendingChange
  | [] => none
  | first :: rest =>
    let last := (first :: rest).getLast (List.cons_ne_nil first rest)
    let kind := (rest.map (·.change.kind)).foldl ChangeKind.coalesce first.change.kind
    some ⟨⟨first.change.path, kind⟩, last.time, UInt64.ofNat last.number⟩

/-- The queue after calls on a queue without changes, and what happened. -/
def ChangeQueue.run (window : Nat) (calls : List QueueCall) : List QueueEvent × ChangeQueue :=
  calls.foldl (fun (history, q) call =>
    let (delivered, q) := call.onQueue q
    (history ++ [⟨call, delivered⟩], q)) ([], ofWindow window)

variable {path p : String} {history : List QueueEvent} {event : QueueEvent}

/-- One more call is one more record, or none. -/
lemma recordCount_append (history : List QueueEvent) (event : QueueEvent) :
    recordCount (history ++ [event]) = recordCount history + if event.isRecord then 1 else 0 := by
  rw [recordCount, List.countP_append, List.countP_singleton, recordCount]

/-- The counts of the calls stay as they are when one more call is made. -/
lemma withRecordCounts_append (history : List QueueEvent) (event : QueueEvent) :
    withRecordCounts (history ++ [event]) =
      withRecordCounts history ++ [(event, recordCount history)] := by
  rw [withRecordCounts, List.mapIdx_append, withRecordCounts]
  congr 1
  · refine List.mapIdx_eq_mapIdx_iff.mpr fun i hi => ?_
    rw [List.take_append_of_le_length (Nat.le_of_lt hi)]
  · simp

/-- What one more call adds to the records of a path. -/
lemma recordsSince_append (path : String) (history : List QueueEvent) (event : QueueEvent) :
    recordsSince path (history ++ [event]) =
      if event.dismisses path then []
      else recordsSince path history ++ (event.record? path (recordCount history)).toList := by
  rw [recordsSince, withRecordCounts_append, List.rtakeWhile_concat]
  cases hleaves : event.dismisses path with
  | true => simp
  | false =>
    rw [if_pos (by simp), List.filterMap_append, if_neg (by simp)]
    cases hrecord : event.record? path (recordCount history) with
    | none => simp [recordsSince, hrecord]
    | some r => simp [recordsSince, hrecord]

/-- Texts of one path have the same records. -/
lemma recordsSince_congr (h : Path.same p path = true) (history : List QueueEvent) :
    recordsSince p history = recordsSince path history := by
  have hsame := Path.same_congr h
  induction history using List.reverseRecOn with
  | nil => rfl
  | append_singleton history event ih =>
    have hleaves : event.dismisses p = event.dismisses path := by
      unfold QueueEvent.dismisses
      cases event.call <;> simp only [hsame]
    have hrecord : event.record? p (recordCount history) =
        event.record? path (recordCount history) := by
      unfold QueueEvent.record?
      cases event.call <;> simp only [hsame]
    rw [recordsSince_append, recordsSince_append, ih, hleaves, hrecord]

/-- What a call records about a path has the number that it is given. -/
lemma isRecord_of_record? {r : ChangeRecord} {number : Nat}
    (h : event.record? path number = some r) :
    event.isRecord = true ∧ r.number = number ∧ Path.same r.change.path path = true := by
  rw [QueueEvent.record?] at h
  split at h
  · rename_i hcall
    split_ifs at h with hsame
    obtain rfl := Option.some.inj h
    exact ⟨by rw [QueueEvent.isRecord, hcall], rfl, hsame⟩
  · cases h

/-- A record of a path after one more call is an old one, or the call has made it. -/
lemma mem_recordsSince_append {r : ChangeRecord} (h : r ∈ recordsSince path (history ++ [event])) :
    r ∈ recordsSince path history ∨ event.record? path (recordCount history) = some r := by
  rw [recordsSince_append] at h
  split_ifs at h
  · cases h
  · exact (List.mem_append.mp h).imp_right Option.mem_toList.mp

/-- A record was made by one of the calls. -/
lemma number_lt {r : ChangeRecord} (h : r ∈ recordsSince path history) :
    r.number < recordCount history := by
  induction history using List.reverseRecOn with
  | nil => cases h
  | append_singleton history event ih =>
    rw [recordCount_append]
    rcases mem_recordsSince_append h with hold | hnew
    · exact Nat.lt_of_lt_of_le (ih hold) (Nat.le_add_right _ _)
    · obtain ⟨hrecord, hnumber, -⟩ := isRecord_of_record? hnew
      rw [if_pos hrecord, hnumber]
      exact Nat.lt_succ_self _

/-- No two paths have a record of one number. -/
lemma same_of_number_eq {r r' : ChangeRecord} (h : r ∈ recordsSince path history)
    (h' : r' ∈ recordsSince p history) (hnumber : r.number = r'.number) :
    Path.same path p = true := by
  induction history using List.reverseRecOn with
  | nil => cases h
  | append_singleton history event ih =>
    rcases mem_recordsSince_append h with hold | hnew <;>
      rcases mem_recordsSince_append h' with hold' | hnew'
    · exact ih hold hold'
    · have hlt := number_lt hold
      rw [hnumber, (isRecord_of_record? hnew').2.1] at hlt
      exact absurd hlt (Nat.lt_irrefl _)
    · have hlt := number_lt hold'
      rw [← hnumber, (isRecord_of_record? hnew).2.1] at hlt
      exact absurd hlt (Nat.lt_irrefl _)
    · rw [QueueEvent.record?] at hnew hnew'
      cases hcall : event.call with
      | record recorded kind time =>
        simp only [hcall] at hnew hnew'
        split_ifs at hnew with hsame
        split_ifs at hnew' with hsame'
        rw [← Path.same_congr hsame', Path.same_comm, hsame]
      | takeReady | drain | remove | clear => simp [hcall] at hnew

/-- One more record is folded into those before it. -/
lemma foldRecords_append (records : List ChangeRecord) (r : ChangeRecord) :
    foldRecords (records ++ [r]) = some (ChangeQueue.entryAfter (foldRecords records)
      r.change.path r.change.kind r.time (UInt64.ofNat r.number)) := by
  cases records with
  | nil => rfl
  | cons first rest => simp [foldRecords, ChangeQueue.entryAfter]

/-- Records make an entry exactly if there are any. -/
lemma foldRecords_eq_none_iff {records : List ChangeRecord} :
    foldRecords records = none ↔ records = [] := by
  cases records <;> simp [foldRecords]

/-- Records make a deletion exactly if the last of them is one. -/
lemma kind_eq_deleted_iff {records : List ChangeRecord} {e : PendingChange}
    (h : foldRecords records = some e) :
    e.change.kind = .deleted ↔ ∃ r, records.getLast? = some r ∧ r.change.kind = .deleted := by
  induction records using List.reverseRecOn with
  | nil => cases h
  | append_singleton records r ih =>
    rw [foldRecords_append] at h
    rw [← Option.some.inj h, List.getLast?_concat]
    cases foldRecords records <;> simp [ChangeQueue.entryAfter]

/-- Records make an entry with the time of the last, and with the word for its number. -/
lemma exists_getLast?_of_foldRecords {records : List ChangeRecord} {e : PendingChange}
    (h : foldRecords records = some e) :
    ∃ r, records.getLast? = some r ∧ e.touched = r.time ∧ e.seq = UInt64.ofNat r.number := by
  cases records with
  | nil => cases h
  | cons first rest =>
    refine ⟨_, List.getLast?_eq_some_getLast (List.cons_ne_nil first rest), ?_⟩
    rw [← Option.some.inj h]
    exact ⟨rfl, rfl⟩

namespace ChangeQueue

/-! ### Queues that follow a history -/

variable {q : ChangeQueue}

/-- The entries of a path. -/
def entriesOf (q : ChangeQueue) (path : String) : List PendingChange :=
  q.entries.filter fun e => Path.same e.change.path path

/-- A path has the entry that is found under it, and no other. -/
lemma entriesOf_eq_find? (q : ChangeQueue) (path : String) :
    q.entriesOf path = (q.find? path).toList := by
  have hmem : ∀ e, e ∈ q.entriesOf path ↔ e ∈ (q.find? path).toList := by
    intro e
    rw [entriesOf, List.mem_filter, mem_entries, Option.mem_toList]
    exact ⟨fun ⟨hfind, hsame⟩ => (find?_congr hsame).symm.trans hfind,
      fun hfind => ⟨(find?_congr (same_of_find? hfind)).trans hfind, same_of_find? hfind⟩⟩
  have hnodup : (q.find? path).toList.Nodup := by
    cases q.find? path <;> simp
  have hperm := (List.perm_ext_iff_of_nodup (q.nodup_entries.filter _) hnodup).mpr hmem
  change (q.entriesOf path).Perm _ at hperm
  cases hfind : q.find? path with
  | none =>
    rw [hfind] at hperm
    exact hperm.eq_nil
  | some e =>
    rw [hfind] at hperm
    exact hperm.eq_singleton

/-- One path was recorded last before another. -/
def RecordedBefore (history : List QueueEvent) (e e' : PendingChange) : Prop :=
  ∃ r r', (recordsSince e.change.path history).getLast? = some r ∧
    (recordsSince e'.change.path history).getLast? = some r' ∧ r.number < r'.number

/-- The map of a queue holds, for each path, the entry that its records make, and the next record
takes the word for the number of all records. -/
structure Follows (q : ChangeQueue) (history : List QueueEvent) : Prop where
  find?_eq : ∀ path, q.find? path = foldRecords (recordsSince path history)
  nextSeq_eq : q.nextSeq = UInt64.ofNat (recordCount history)

/-- A queue without changes follows the empty history. -/
lemma follows_nil (window : Nat) : (ofWindow window).Follows [] where
  find?_eq _ := Std.ExtTreeMap.getElem?_empty
  nextSeq_eq := rfl

namespace Follows

/-- The entries of a path are what its records make. -/
lemma entriesOf_eq (h : q.Follows history) (path : String) :
    q.entriesOf path = (foldRecords (recordsSince path history)).toList := by
  rw [entriesOf_eq_find?, h.find?_eq]

/-- A path is pending exactly if it was recorded since it last left. -/
lemma exists_pending_iff (h : q.Follows history) (path : String) :
    (∃ e ∈ q.entries, Path.same e.change.path path = true) ↔ recordsSince path history ≠ [] := by
  have hmem : (∃ e ∈ q.entries, Path.same e.change.path path = true) ↔ q.entriesOf path ≠ [] := by
    rw [entriesOf, ne_eq, List.filter_eq_nil_iff]
    simp
  rw [hmem, h.entriesOf_eq, ne_eq, Option.toList_eq_nil_iff, foldRecords_eq_none_iff]

/-- An entry is the one that the records of its path make. -/
lemma foldRecords_eq (h : q.Follows history) {e : PendingChange} (he : e ∈ q.entries) :
    foldRecords (recordsSince e.change.path history) = some e := by
  rw [← h.find?_eq, mem_entries.mp he]

/-- The sequence number of an entry is the word for the number of the last record of its path. -/
lemma exists_seq_eq (h : q.Follows history) {e : PendingChange} (he : e ∈ q.entries) :
    ∃ r, (recordsSince e.change.path history).getLast? = some r ∧
      e.seq = UInt64.ofNat r.number := by
  obtain ⟨r, hlast, -, hseq⟩ := exists_getLast?_of_foldRecords (h.foldRecords_eq he)
  exact ⟨r, hlast, hseq⟩

/-- While no sequence number has been given twice, one entry has a smaller number than another
exactly if its path was recorded last before that of the other. -/
lemma seq_lt_iff (h : q.Follows history) (hcount : recordCount history ≤ UInt64.size)
    {e e' : PendingChange} (he : e ∈ q.entries) (he' : e' ∈ q.entries) :
    e.seq < e'.seq ↔ RecordedBefore history e e' := by
  obtain ⟨r, hlast, hseq⟩ := h.exists_seq_eq he
  obtain ⟨r', hlast', hseq'⟩ := h.exists_seq_eq he'
  have hlt := number_lt (List.mem_of_getLast? hlast)
  have hlt' := number_lt (List.mem_of_getLast? hlast')
  rw [hseq, hseq', UInt64.ofNat_lt_iff_lt (hlt.trans_le hcount) (hlt'.trans_le hcount)]
  refine ⟨fun hbefore => ⟨r, r', hlast, hlast', hbefore⟩, ?_⟩
  rintro ⟨s, s', hs, hs', hbefore⟩
  rw [hlast] at hs
  rw [hlast'] at hs'
  rwa [Option.some.inj hs, Option.some.inj hs']

/-- While no sequence number has been given twice, the entries have different ones. -/
lemma strictlySorted (h : q.Follows history) (hcount : recordCount history ≤ UInt64.size) :
    q.entries.Pairwise fun e e' => e.seq < e'.seq := by
  refine (q.sorted_entries.and q.pairwise_entries).imp_of_mem fun {e e'} he he' hpair => ?_
  refine UInt64.lt_of_le_of_ne hpair.1 fun heq => ?_
  obtain ⟨r, hlast, hseq⟩ := h.exists_seq_eq he
  obtain ⟨r', hlast', hseq'⟩ := h.exists_seq_eq he'
  have hmem := List.mem_of_getLast? hlast
  have hmem' := List.mem_of_getLast? hlast'
  have hlt := number_lt hmem
  have hlt' := number_lt hmem'
  have hnumber : r.number = r'.number := by
    have hwords := congrArg UInt64.toNat (hseq.symm.trans (heq.trans hseq'))
    rwa [UInt64.toNat_ofNat_of_lt' (hlt.trans_le hcount),
      UInt64.toNat_ofNat_of_lt' (hlt'.trans_le hcount)] at hwords
  rw [same_of_number_eq hmem hmem' hnumber] at hpair
  exact absurd hpair.2 (by simp)

/-- While no sequence number has been given twice, the entries stand in the order of their last
records. -/
lemma ordered (h : q.Follows history) (hcount : recordCount history ≤ UInt64.size) :
    q.entries.Pairwise (RecordedBefore history) :=
  (h.strictlySorted hcount).imp_of_mem fun he he' => (h.seq_lt_iff hcount he he').mp

/-- Before a sequence number is given twice, the next is above those of all entries. -/
lemma lt_nextSeq (h : q.Follows history) (hcount : recordCount history < UInt64.size)
    {e : PendingChange} (he : e ∈ q.entries) : e.seq < q.nextSeq := by
  obtain ⟨r, hlast, hseq⟩ := h.exists_seq_eq he
  have hlt := number_lt (List.mem_of_getLast? hlast)
  rw [hseq, h.nextSeq_eq, UInt64.ofNat_lt_iff_lt (hlt.trans hcount) hcount]
  exact hlt

/-- A change is recorded. -/
lemma record (h : q.Follows history) (path : String) (kind : ChangeKind) (time : Nat) :
    (q.record path kind time).Follows (history ++ [⟨.record path kind time, []⟩]) where
  find?_eq p := by
    have hrecords : recordsSince p (history ++ [⟨.record path kind time, []⟩]) =
        recordsSince p history ++
          if Path.same path p then [⟨recordCount history, ⟨path, kind⟩, time⟩] else [] := by
      rw [recordsSince_append, QueueEvent.dismisses, QueueEvent.record?, if_neg (by simp)]
      by_cases hp : Path.same path p = true <;> simp [hp]
    rw [find?_record, hrecords, h.find?_eq, h.find?_eq]
    split_ifs with hp
    · rw [foldRecords_append, recordsSince_congr hp, h.nextSeq_eq]
    · rw [List.append_nil]
  nextSeq_eq := by
    change q.nextSeq + 1 = _
    rw [h.nextSeq_eq, recordCount_append, QueueEvent.isRecord, if_pos rfl, UInt64.ofNat_add]
    rfl

/-- Entries leave the queue. -/
lemma dismiss (h : q.Follows history) {event : QueueEvent} {left : ChangeQueue}
    (hrecord : event.isRecord = false) (hnext : left.nextSeq = q.nextSeq)
    (hleft : ∀ path, left.find? path = if event.dismisses path then none else q.find? path) :
    left.Follows (history ++ [event]) where
  find?_eq path := by
    have hnone : event.record? path (recordCount history) = none := by
      cases hnew : event.record? path (recordCount history) with
      | none => rfl
      | some r => exact absurd (isRecord_of_record? hnew).1 (by simp [hrecord])
    rw [recordsSince_append, hnone, Option.toList_none, List.append_nil, hleft]
    split_ifs
    · rfl
    · exact h.find?_eq path
  nextSeq_eq := by
    rw [hnext, h.nextSeq_eq, recordCount_append, if_neg (by simp [hrecord]), Nat.add_zero]

end Follows

/-! ### What a call does -/

/-- The changes that a call delivers are entries of the queue that it finds. -/
lemma exists_delivered (call : QueueCall) (q : ChangeQueue) :
    ∃ gone : List PendingChange, (call.onQueue q).1 = gone.map (·.change) ∧
      gone.Sublist q.entries := by
  cases call with
  | record | remove | clear => exact ⟨[], rfl, List.nil_sublist _⟩
  | drain => exact ⟨q.entries, congrArg Prod.fst q.drain_eq, .refl _⟩
  | takeReady limit time =>
    exact ⟨_, congrArg Prod.fst (q.takeReady_eq limit time), q.take_readyEntries_sublist limit time⟩

/-- With what a call delivers its path leaves the queue. -/
lemma dismisses_of_delivered {call : QueueCall} {c : Change} (hc : c ∈ (call.onQueue q).1) :
    QueueEvent.dismisses ⟨call, (call.onQueue q).1⟩ c.path = true := by
  cases call with
  | record | remove | clear => cases hc
  | drain | takeReady limit time => exact List.any_eq_true.mpr ⟨c, hc, Path.same_iff.mpr rfl⟩

/-- A path that is drained has no entry: whatever was pending was delivered. -/
lemma find?_drain (q : ChangeQueue) (path : String) :
    q.drain.2.find? path =
      if q.drain.1.any fun c => Path.same c.path path then none else q.find? path := by
  rw [drain_eq]
  have hnone : q.clear.find? path = none := Std.ExtTreeMap.getElem?_empty
  rw [hnone]
  split_ifs with hany
  · rfl
  · cases hfind : q.find? path with
    | none => rfl
    | some e =>
      have hsame := same_of_find? hfind
      refine absurd (List.any_eq_true.mpr ⟨e.change, List.mem_map_of_mem ?_, hsame⟩) hany
      exact mem_entries.mpr ((find?_congr hsame).trans hfind)

/-- One call keeps queue and history together. -/
lemma Follows.onQueue (h : q.Follows history) (call : QueueCall) :
    (call.onQueue q).2.Follows (history ++ [⟨call, (call.onQueue q).1⟩]) := by
  cases call with
  | record path kind time => exact h.record path kind time
  | takeReady limit time =>
    refine h.dismiss rfl (q.takeReady_keeps limit time).2 fun path => ?_
    change (q.takeReady limit time).2.find? path = _
    rw [QueueEvent.dismisses, QueueCall.onQueue, takeReady_eq, find?_foldl_remove, List.any_map,
      List.any_map]
    rfl
  | drain => exact h.dismiss rfl rfl q.find?_drain
  | remove removed => exact h.dismiss rfl rfl fun path => q.find?_remove removed path
  | clear => exact h.dismiss rfl rfl fun path => Std.ExtTreeMap.getElem?_empty

/-- What an event delivers is what the records before it make, each path once, and it leaves no
record of these paths behind; a drained queue has no records at all. -/
structure Delivers (before : List QueueEvent) (event : QueueEvent) : Prop where
  distinct : event.delivered.Pairwise fun c c' => Path.same c.path c'.path = false
  folded : ∀ c ∈ event.delivered,
    ∃ e, foldRecords (recordsSince c.path before) = some e ∧ e.change = c
  gone : ∀ c ∈ event.delivered, recordsSince c.path (before ++ [event]) = []
  drained : event.call = .drain → ∀ path, recordsSince path (before ++ [event]) = []

/-- A call delivers what the records make. -/
lemma Follows.delivers (h : q.Follows history) (call : QueueCall) :
    Delivers history ⟨call, (call.onQueue q).1⟩ := by
  obtain ⟨gone, hdelivered, hsub⟩ := exists_delivered call q
  constructor
  · change (call.onQueue q).1.Pairwise _
    rw [hdelivered, List.pairwise_map]
    exact q.pairwise_entries.sublist hsub
  · intro c hc
    change c ∈ (call.onQueue q).1 at hc
    rw [hdelivered] at hc
    obtain ⟨e, he, rfl⟩ := List.mem_map.mp hc
    exact ⟨e, h.foldRecords_eq (hsub.subset he), rfl⟩
  · intro c hc
    rw [recordsSince_append, if_pos (dismisses_of_delivered hc)]
  · intro hdrain path
    obtain rfl : call = .drain := hdrain
    by_contra hne
    have hrest : (QueueCall.onQueue q .drain).2.Follows
        (history ++ [⟨.drain, (QueueCall.onQueue q .drain).1⟩]) := h.onQueue .drain
    obtain ⟨e, he, -⟩ := (hrest.exists_pending_iff path).mpr hne
    change e ∈ q.clear.entries at he
    rw [entries_clear] at he
    cases he

/-! ### Runs -/

/-- A run goes on with one more call. -/
lemma run_append (window : Nat) (calls : List QueueCall) (call : QueueCall) :
    run window (calls ++ [call]) =
      ((run window calls).1 ++ [⟨call, (call.onQueue (run window calls).2).1⟩],
        (call.onQueue (run window calls).2).2) := by
  simp [run]

/-- The calls of the history are those that were made. -/
lemma map_call_run (window : Nat) (calls : List QueueCall) :
    (run window calls).1.map (·.call) = calls := by
  induction calls using List.reverseRecOn with
  | nil => rfl
  | append_singleton calls call ih => rw [run_append, List.map_append, ih, List.map_singleton]

/-- Queue and history stay together along every run. -/
lemma follows_run (window : Nat) (calls : List QueueCall) :
    (run window calls).2.Follows (run window calls).1 := by
  induction calls using List.reverseRecOn with
  | nil => exact follows_nil window
  | append_singleton calls call ih =>
    rw [run_append]
    exact ih.onQueue call

/-- The window of time stays as it was when the queue was made. -/
lemma window_run (window : Nat) (calls : List QueueCall) :
    (run window calls).2.window = window := by
  induction calls using List.reverseRecOn with
  | nil => rfl
  | append_singleton calls call ih =>
    rw [run_append]
    cases call with
    | takeReady limit time => exact (takeReady_keeps _ limit time).1.trans ih
    | record | drain | remove | clear => exact ih

/-- All that is delivered along a run is what the records before it make. -/
lemma delivers_of_run {window : Nat} {calls : List QueueCall} {before after : List QueueEvent}
    {event : QueueEvent} (h : (run window calls).1 = before ++ event :: after) :
    Delivers before event := by
  induction calls using List.reverseRecOn generalizing after with
  | nil => simp [run] at h
  | append_singleton calls call ih =>
    rw [run_append] at h
    rcases List.eq_nil_or_concat after with rfl | ⟨after, last, rfl⟩
    · obtain ⟨rfl, hevent⟩ := List.append_inj' h rfl
      rw [← List.singleton_inj.mp hevent]
      exact (follows_run window calls).delivers call
    · rw [List.concat_eq_append, ← List.cons_append, ← List.append_assoc] at h
      apply ih
      exact (List.append_inj' h rfl).1

/-! ### Runs of a list -/

/-- What calls on an empty list deliver, and the next number and the list after them. -/
def runList (window : Nat) (calls : List QueueCall) :
    List (List Change) × UInt64 × List PendingChange :=
  calls.foldl (fun (delivered, seq, es) call =>
    let (changes, seq, es) := call.onList window seq es
    (delivered ++ [changes], seq, es)) ([], 0, [])

/-- A run of the list goes on with one more call. -/
lemma runList_append (window : Nat) (calls : List QueueCall) (call : QueueCall) :
    runList window (calls ++ [call]) =
      let after := call.onList window (runList window calls).2.1 (runList window calls).2.2
      ((runList window calls).1 ++ [after.1], after.2) := by
  simp [runList]

/-- While no sequence number has been given twice, a call does to the entries what it does to their
list. -/
lemma Follows.onQueue_refines (h : q.Follows history) (call : QueueCall)
    (hcount : recordCount (history ++ [⟨call, (call.onQueue q).1⟩]) ≤ UInt64.size) :
    ((call.onQueue q).1, (call.onQueue q).2.nextSeq, (call.onQueue q).2.entries) =
      call.onList q.window q.nextSeq q.entries := by
  cases call with
  | record path kind time =>
    rw [recordCount_append] at hcount
    change recordCount history + 1 ≤ UInt64.size at hcount
    have hlast := record_refines (h.strictlySorted (Nat.le_of_succ_le hcount))
      (fun e he => h.lt_nextSeq hcount he) path kind time
    exact Prod.ext rfl (Prod.ext rfl hlast)
  | takeReady limit time =>
    have hsplit := Prod.mk.inj (q.takeReady_refines limit time)
    exact Prod.ext hsplit.1 (Prod.ext (q.takeReady_keeps limit time).2 hsplit.2)
  | drain =>
    rw [QueueCall.onQueue, drain_eq]
    exact Prod.ext rfl (Prod.ext rfl q.entries_clear)
  | remove path => exact Prod.ext rfl (Prod.ext rfl (q.entries_remove path))
  | clear => exact Prod.ext rfl (Prod.ext rfl q.entries_clear)

/-- The queue refines the list: while there are not more records than sequence numbers, every run
delivers what the run of the list delivers, and leaves its entries. -/
theorem run_refines (window : Nat) (calls : List QueueCall)
    (hcount : recordCount (run window calls).1 ≤ UInt64.size) :
    ((run window calls).1.map (·.delivered), (run window calls).2.nextSeq,
      (run window calls).2.entries) = runList window calls := by
  induction calls using List.reverseRecOn with
  | nil => exact Prod.ext rfl (Prod.ext rfl (entries_ofWindow window))
  | append_singleton calls call ih =>
    rw [run_append] at hcount ⊢
    have hbefore : recordCount (run window calls).1 ≤ UInt64.size := by
      rw [recordCount_append] at hcount
      exact (Nat.le_add_right _ _).trans hcount
    have hcall := (follows_run window calls).onQueue_refines call hcount
    rw [window_run] at hcall
    rw [runList_append, ← ih hbefore, ← hcall, List.map_append]
    rfl

/-! ### What is pending and what is delivered -/

/-- Along every run of calls on a queue without changes, with any paths, kinds and times: a path is
pending exactly if it was recorded since it last left the queue.  Then the map has exactly one entry
of it, which has the text of the first of these records, the kinds of all of them folded from the
left and the time of the last, and is a deletion exactly if the last record is one.  Its sequence
number is the word for the number of records that were made before the last one.  So while there are
not more records than words of 64 bits, no two entries have one number, and their numbers are in the
order of the last records.  What a call delivers are such entries, each path once and gone
afterwards, and a call that drains the queue leaves nothing. -/
theorem pending_iff_recorded (window : Nat) (calls : List QueueCall) :
    let history := (run window calls).1
    let q := (run window calls).2
    history.map (·.call) = calls ∧
    (∀ path, (∃ e ∈ q.entries, Path.same e.change.path path = true) ↔
      recordsSince path history ≠ []) ∧
    (∀ path, q.find? path = foldRecords (recordsSince path history)) ∧
    (∀ path, q.entries.filter (fun e => Path.same e.change.path path) =
      (foldRecords (recordsSince path history)).toList) ∧
    (∀ e ∈ q.entries, e.change.kind = .deleted ↔
      ∃ r, (recordsSince e.change.path history).getLast? = some r ∧ r.change.kind = .deleted) ∧
    (∀ e ∈ q.entries, ∃ r, (recordsSince e.change.path history).getLast? = some r ∧
      e.touched = r.time ∧ e.seq = UInt64.ofNat r.number) ∧
    (recordCount history ≤ UInt64.size →
      q.entries.Pairwise (fun e e' => e.seq < e'.seq) ∧
      ∀ e ∈ q.entries, ∀ e' ∈ q.entries, e.seq < e'.seq ↔ RecordedBefore history e e') ∧
    ∀ before event after, history = before ++ event :: after → Delivers before event := by
  intro history q
  have h : q.Follows history := follows_run window calls
  refine ⟨map_call_run window calls, h.exists_pending_iff, h.find?_eq, h.entriesOf_eq, ?_, ?_, ?_,
    ?_⟩
  · intro e he
    exact kind_eq_deleted_iff (h.foldRecords_eq he)
  · intro e he
    exact exists_getLast?_of_foldRecords (h.foldRecords_eq he)
  · intro hcount
    exact ⟨h.strictlySorted hcount, fun e he e' he' => h.seq_lt_iff hcount he he'⟩
  · intro before event after hsplit
    exact delivers_of_run hsplit

/-- Two paths of which the first is touched again: its entry folds two records and has the number of
the second, so it stands behind the other path. -/
theorem pending_iff_recorded_touchedAgain :
    let calls : List QueueCall := [.record "a.c" .created 0, .record "b.c" .modified 1,
      .record "a.c" .modified 3]
    recordCount (run 10 calls).1 ≤ UInt64.size ∧
      (run 10 calls).2.find? "a.c" = some ⟨⟨"a.c", .created⟩, 3, 2⟩ ∧
      (run 10 calls).2.entries.Pairwise fun e e' => e.seq < e'.seq := by
  intro calls
  obtain ⟨-, -, hfind, -, -, -, hordered, -⟩ := pending_iff_recorded 10 calls
  have hthree : recordCount (run 10 calls).1 = 3 := by decide +kernel
  have hcount : recordCount (run 10 calls).1 ≤ UInt64.size := by
    rw [hthree]
    decide
  have hrecords : recordsSince "a.c" (run 10 calls).1 =
      [⟨0, ⟨"a.c", .created⟩, 0⟩, ⟨2, ⟨"a.c", .modified⟩, 3⟩] := by decide +kernel
  refine ⟨hcount, (hfind "a.c").trans ?_, (hordered hcount).1⟩
  rw [hrecords]
  rfl

end ChangeQueue

end CodeAtlas
