import CodeAtlas.Index.Metadata
import CodeAtlas.Index.Snapshot
import CodeAtlas.Proofs.Json.RoundTrip
import CodeAtlas.Proofs.OrderedMap

/-!
# Snapshots and graphs are read back as they were written

A value is faithful if it fits into a document and is read back as it is.  Whatever is written of a
symbol is faithful, because all its numbers are words of 32 bits, and so are snapshots and graphs;
and from the values their readers make the snapshot and the graph again.

The description of an index has counts that could be too large to be read back.  If a description is
read back at all, it is one of the same project.
-/

namespace CodeAtlas

open Std (ExtTreeMap ExtTreeSet)

namespace Json

/-! ### Faithful values -/

/-- A value that nests no deeper than there is room and is read back as it is. -/
structure Faithful (room : Nat) (j : Json) : Prop where
  fits : Fits room j
  reread?_eq : reread? j = some j

/-- All items fit if each of them does. -/
lemma itemsFit_of_forall {room : Nat} {items : List Json} (h : ∀ v ∈ items, Fits room v) :
    ItemsFit room items := by
  induction items with
  | nil => trivial
  | cons v items ih =>
    exact ⟨h v List.mem_cons_self, ih fun w hw => h w (List.mem_cons_of_mem _ hw)⟩

/-- All members fit if the value of each of them does. -/
lemma membersFit_of_forall {room : Nat} {members : List (String × Json)}
    (h : ∀ m ∈ members, Fits room m.2) : MembersFit room members := by
  induction members with
  | nil => trivial
  | cons m members ih =>
    exact ⟨h m List.mem_cons_self, ih fun n hn => h n (List.mem_cons_of_mem _ hn)⟩

namespace Faithful

variable {room : Nat}

/-- A text. -/
lemma str (s : String) : Faithful room (.str s) := ⟨trivial, rfl⟩

/-- A Boolean. -/
lemma bool (b : Bool) : Faithful room (.bool b) := ⟨trivial, rfl⟩

/-- Nothing. -/
lemma null : Faithful room .null := ⟨trivial, rfl⟩

/-- A number below 2 ^ 64. -/
lemma nat {n : Nat} (h : n < wordValues 64) : Faithful room (.nat n) :=
  ⟨trivial, (wordValue?_nat h : _)⟩

/-- An array of faithful items. -/
lemma arr {items : List Json} (h : ∀ v ∈ items, Faithful room v) :
    Faithful (room + 1) (.arr items) := by
  have hitems : rereadItems? items = some items := by
    induction items with
    | nil => rfl
    | cons v items ih =>
      rw [rereadItems?, (h v List.mem_cons_self).reread?_eq, Option.bind_some,
        ih fun w hw => h w (List.mem_cons_of_mem _ hw)]
      rfl
  refine ⟨⟨Nat.succ_pos room, itemsFit_of_forall fun v hv => (h v hv).fits⟩, ?_⟩
  rw [reread?, hitems]
  rfl

/-- An object whose members have faithful values. -/
lemma obj {members : List (String × Json)} (h : ∀ m ∈ members, Faithful room m.2) :
    Faithful (room + 1) (.obj members) := by
  have hmembers : rereadMembers? members = some members := by
    induction members with
    | nil => rfl
    | cons m members ih =>
      rw [rereadMembers?, (h m List.mem_cons_self).reread?_eq, Option.bind_some,
        ih fun n hn => h n (List.mem_cons_of_mem _ hn)]
      rfl
  refine ⟨⟨Nat.succ_pos room, membersFit_of_forall fun m hm => (h m hm).fits⟩, ?_⟩
  rw [reread?, hmembers]
  rfl

/-- An array of what is written of the entries of a list. -/
lemma arr_map {as : List α} {write : α → Json} (h : ∀ a ∈ as, Faithful room (write a)) :
    Faithful (room + 1) (.arr (as.map write)) := by
  refine arr fun v hv => ?_
  obtain ⟨a, ha, rfl⟩ := List.mem_map.mp hv
  exact h a ha

/-- An array of texts. -/
lemma strings (texts : List String) : Faithful (room + 1) (.strings texts) :=
  arr_map fun s _ => str s

/-- A faithful document is read back as it is. -/
lemma parse?_pretty {j : Json} (h : Faithful maxDepth j) : parse? j.pretty = some j :=
  (parse?_renderAt true h.fits).trans h.reread?_eq

end Faithful

/-! ### Reading lists and maps -/

/-- Reading what is written of every entry of a list. -/
lemma mapM_map_eq_some {read : β → Option α} {write : α → β} (as : List α)
    (h : ∀ a ∈ as, read (write a) = some a) : (as.map write).mapM read = some as := by
  induction as with
  | nil => rfl
  | cons a as ih =>
    have hrest := ih fun b hb => h b (List.mem_cons_of_mem _ hb)
    simp [h a List.mem_cons_self, hrest]

/-- An array is read back item by item. -/
lemma listOf?_map {read : Json → Option α} {write : α → Json} (as : List α)
    (h : ∀ a ∈ as, read (write a) = some a) : listOf? read (.arr (as.map write)) = some as :=
  mapM_map_eq_some as h

/-- Texts are read back. -/
lemma strings?_strings (texts : List String) : strings? (.strings texts) = some texts :=
  mapM_map_eq_some texts fun _ _ => rfl

/-- A word of 32 bits is read back. -/
lemma word32?_nat (w : UInt32) : word32? (.nat w.toNat) = some w := by
  have hlt : (w.toNat : Int) < (wordValues 32 : Nat) := by
    have hw := w.toNat_lt
    have hbound : wordValues 32 = 4294967296 := by decide
    rw [hbound]
    omega
  have hread : natBelow? (wordValues 32) (.nat w.toNat) = some w.toNat := by
    simp [natBelow?, nat, hlt]
  rw [word32?, hread]
  simp

end Json

/-! ### Symbols and relations -/

/-- A word of 32 bits can be read back. -/
lemma toNat_lt_wordValues (w : UInt32) : w.toNat < wordValues 64 := by
  have hw := w.toNat_lt
  have hbound : wordValues 64 = 18446744073709551616 := by decide
  omega

/-- An identifier is read back. -/
lemma SymbolId.ofJson?_toJson (id : SymbolId) : ofJson? id.toJson = some id := rfl

/-- A symbol is read back, of whatever kind it is. -/
lemma Symbol.ofJson?_toJson (s : Symbol) : ofJson? s.toJson = some s := by
  obtain ⟨id, name, file, line, declaration, origin, detail⟩ := s
  cases detail with
  | define parameters value =>
    cases parameters with
    | none =>
      simp [toJson, ofJson?, SymbolDetail.toMembers, SymbolDetail.ofMembers?, Json.required?,
        Json.defaulted?, Json.field?, Json.text?, Json.choice?, SymbolId.ofJson?_toJson,
        Json.word32?_nat, SymbolKind.ofJson?, kind, SymbolDetail.kind]
    | some parameters =>
      -- An array is not taken for the null of a definition without parameters.
      have hparameters : (Json.arr (parameters.map Json.str)).strings? = some parameters :=
        Json.strings?_strings parameters
      simp [toJson, Json.strings, ofJson?, SymbolDetail.toMembers, SymbolDetail.ofMembers?,
        Json.required?, Json.defaulted?, Json.field?, Json.text?, Json.choice?,
        SymbolId.ofJson?_toJson, Json.word32?_nat, SymbolKind.ofJson?, kind, SymbolDetail.kind,
        hparameters]
  | _ =>
    simp [toJson, ofJson?, SymbolDetail.toMembers, SymbolDetail.ofMembers?, Json.required?,
      Json.defaulted?, Json.field?, Json.text?, Json.bool?, Json.choice?, SymbolId.ofJson?_toJson,
      Json.word32?_nat, Json.strings?_strings, SymbolKind.ofJson?, kind, SymbolDetail.kind]

/-- What is written of a symbol is faithful. -/
lemma Symbol.faithful_toJson {room : Nat} (s : Symbol) : Json.Faithful (room + 2) s.toJson := by
  have hdetail : ∀ m ∈ s.detail.toMembers, Json.Faithful (room + 1) m.2 := by
    intro m hm
    cases hkind : s.detail with
    | function returnType parameters complexity score =>
      simp only [hkind, SymbolDetail.toMembers, List.mem_cons, List.not_mem_nil, or_false] at hm
      rcases hm with rfl | rfl | rfl | rfl
      · exact Json.Faithful.str _
      · exact Json.Faithful.strings _
      · exact Json.Faithful.str _
      · exact Json.Faithful.nat (toNat_lt_wordValues _)
    | record members =>
      simp only [hkind, SymbolDetail.toMembers, List.mem_singleton] at hm
      exact hm ▸ Json.Faithful.strings _
    | global dataType isStatic isConst =>
      simp only [hkind, SymbolDetail.toMembers, List.mem_cons, List.not_mem_nil, or_false] at hm
      rcases hm with rfl | rfl | rfl
      · exact Json.Faithful.str _
      · exact Json.Faithful.bool _
      · exact Json.Faithful.bool _
    | define parameters value =>
      simp only [hkind, SymbolDetail.toMembers, List.mem_cons, List.not_mem_nil, or_false] at hm
      rcases hm with rfl | rfl
      · cases parameters with
        | none => exact Json.Faithful.null
        | some parameters => exact Json.Faithful.strings _
      · exact Json.Faithful.str _
    | «alias» underlying =>
      simp only [hkind, SymbolDetail.toMembers, List.mem_singleton] at hm
      exact hm ▸ Json.Faithful.str _
    | enumeration values =>
      simp only [hkind, SymbolDetail.toMembers, List.mem_singleton] at hm
      exact hm ▸ Json.Faithful.strings _
  refine Json.Faithful.obj fun m hm => ?_
  rcases List.mem_append.mp hm with hm | hm
  · simp only [List.mem_cons, List.not_mem_nil, or_false] at hm
    rcases hm with rfl | rfl | rfl | rfl | rfl | rfl | rfl
    case inr.inr.inr.inl => exact Json.Faithful.nat (toNat_lt_wordValues _)
    all_goals exact Json.Faithful.str _
  · exact hdetail m hm

/-- A call reference is read back. -/
lemma CallReference.ofJson?_toJson (r : CallReference) : ofJson? r.toJson = some r := by
  simp [ofJson?, toJson, Json.record?, Json.required?, Json.field?, Json.text?,
    SymbolId.ofJson?_toJson]

/-- What is written of a call reference is faithful. -/
lemma CallReference.faithful_toJson {room : Nat} (r : CallReference) :
    Json.Faithful (room + 1) r.toJson := by
  refine Json.Faithful.obj fun m hm => ?_
  simp only [List.mem_cons, List.not_mem_nil, or_false] at hm
  rcases hm with rfl | rfl <;> exact Json.Faithful.str _

/-! ### Snapshots -/

/-- A snapshot is read back. -/
lemma Snapshot.ofJson?_toJson (s : Snapshot) : ofJson? s.toJson = some s := by
  have hsymbols : Json.listOf? Symbol.ofJson? (.arr (s.symbols.map Symbol.toJson)) =
      some s.symbols := Json.listOf?_map s.symbols fun s _ => s.ofJson?_toJson
  have hcalls : Json.listOf? CallReference.ofJson? (.arr (s.calls.map CallReference.toJson)) =
      some s.calls := Json.listOf?_map s.calls fun r _ => r.ofJson?_toJson
  simp [ofJson?, toJson, Json.record?, Json.required?, Json.defaulted?, Json.field?, hsymbols,
    hcalls, Json.strings?_strings]

/-- What is written of a snapshot is faithful. -/
lemma Snapshot.faithful_toJson (s : Snapshot) : Json.Faithful Json.maxDepth s.toJson := by
  refine Json.Faithful.obj fun m hm => ?_
  simp only [List.mem_cons, List.not_mem_nil, or_false] at hm
  rcases hm with rfl | rfl | rfl
  · exact Json.Faithful.arr_map fun s _ => s.faithful_toJson
  · exact Json.Faithful.arr_map fun r _ => r.faithful_toJson
  · exact Json.Faithful.strings _

/-- The document of a snapshot is read back as the snapshot. -/
theorem Snapshot.parse?_pretty (s : Snapshot) :
    (Json.parse? s.toJson.pretty).bind ofJson? = some s := by
  rw [s.faithful_toJson.parse?_pretty, Option.bind_some, s.ofJson?_toJson]

/-! ### Graphs -/

/-- The set of the entries of a set is the set. -/
lemma ofList_toList (s : ExtTreeSet SymbolId) : ExtTreeSet.ofList s.toList = s := by
  refine ExtTreeSet.ext_mem fun id => ?_
  rw [ExtTreeSet.mem_ofList, List.contains_iff_mem, ExtTreeSet.mem_toList]

/-- Reading what is written of every entry of a map. -/
lemma Json.mapOf?_map (read : Json → Option β) (write : β → Json) (name : γ → String)
    (entries : List (γ × β)) (h : ∀ p ∈ entries, read (write p.2) = some p.2) :
    mapOf? read (.obj (entries.map fun p => (name p.1, write p.2))) =
      some (entries.map fun p => (name p.1, p.2)) := by
  rw [mapOf?]
  induction entries with
  | nil => rfl
  | cons p entries ih =>
    have hrest := ih fun q hq => h q (List.mem_cons_of_mem _ hq)
    simp [h p List.mem_cons_self, hrest]

/-- One direction is read back. -/
lemma Adjacency.ofJson?_toJson (a : Adjacency) : ofJson? a.toJson = some a := by
  let read (set : Json) : Option (ExtTreeSet SymbolId) :=
    (set.listOf? SymbolId.ofJson?).map fun ids => ExtTreeSet.ofList ids
  let write (set : ExtTreeSet SymbolId) : Json := .arr (set.toList.map SymbolId.toJson)
  have hset : ∀ p ∈ a.toList, read (write p.2) = some p.2 := by
    intro p _
    change (Json.listOf? SymbolId.ofJson? (.arr (p.2.toList.map SymbolId.toJson))).map _ = _
    rw [Json.listOf?_map p.2.toList fun id _ => id.ofJson?_toJson, Option.map_some, ofList_toList]
  have hentries := Json.mapOf?_map read write SymbolId.text a.toList hset
  rw [ofJson?, toJson]
  refine (congrArg (Option.map _) hentries).trans ?_
  rw [Option.map_some, List.foldl_map]
  exact congrArg some (foldl_insert_toList a)

/-- The include relation is read back. -/
lemma CallGraph.ofJson?_includesToJson (g : CallGraph) :
    (g.includesToJson.mapOf? Json.strings?).map
      (fun entries => entries.foldl (fun m (file, targets) => m.insert file targets)
        (∅ : ExtTreeMap String (List String))) = some g.includes := by
  have hentries := Json.mapOf?_map Json.strings? Json.strings id g.includes.toList
    fun p _ => Json.strings?_strings p.2
  refine (congrArg (Option.map _) hentries).trans ?_
  rw [Option.map_some, List.foldl_map]
  exact congrArg some (foldl_insert_toList g.includes)

/-- A graph is read back. -/
lemma CallGraph.ofJson?_toJson (g : CallGraph) : ofJson? g.toJson = some g := by
  have hincludes := g.ofJson?_includesToJson
  simp only [ofJson?, toJson, Json.record?, Json.defaulted?, Json.field?] at hincludes ⊢
  simp [Adjacency.ofJson?_toJson, hincludes]

/-- What is written of a direction is faithful. -/
lemma Adjacency.faithful_toJson {room : Nat} (a : Adjacency) :
    Json.Faithful (room + 2) a.toJson := by
  refine Json.Faithful.obj fun m hm => ?_
  obtain ⟨p, -, rfl⟩ := List.mem_map.mp hm
  exact Json.Faithful.arr_map fun id _ => Json.Faithful.str id.text

/-- What is written of a graph is faithful. -/
lemma CallGraph.faithful_toJson (g : CallGraph) : Json.Faithful Json.maxDepth g.toJson := by
  refine Json.Faithful.obj fun m hm => ?_
  simp only [List.mem_cons, List.not_mem_nil, or_false] at hm
  rcases hm with rfl | rfl | rfl
  · exact g.forward.faithful_toJson
  · exact g.reverse.faithful_toJson
  · refine Json.Faithful.obj fun m hm => ?_
    obtain ⟨p, -, rfl⟩ := List.mem_map.mp hm
    exact Json.Faithful.strings _

/-- The document of a graph is read back as the graph. -/
theorem CallGraph.parse?_pretty (g : CallGraph) :
    (Json.parse? g.toJson.pretty).bind ofJson? = some g := by
  rw [g.faithful_toJson.parse?_pretty, Option.bind_some, g.ofJson?_toJson]

/-! ### Descriptions -/

/-- The members of one name are read back as the members of that name. -/
lemma Json.filter_of_rereadMembers? {ms vs : List (String × Json)} (h : rereadMembers? ms = some vs)
    (name : String) :
    rereadMembers? (ms.filter fun m => m.1 == name) = some (vs.filter fun m => m.1 == name) := by
  induction ms generalizing vs with
  | nil =>
    obtain rfl := Option.some.inj h
    rfl
  | cons m ms ih =>
    obtain ⟨v, hv, hrest⟩ := Option.bind_eq_some_iff.mp h
    obtain ⟨vs, hvs, rfl⟩ := Option.map_eq_some_iff.mp hrest
    by_cases hname : m.1 = name
    · simp [hname, rereadMembers?, hv, ih hvs]
    · simpa [hname] using ih hvs

/-- The text of a description is read as what a reader makes of its values. -/
lemma IndexMetadata.parse?_pretty (m : IndexMetadata) :
    Json.parse? m.toJson.pretty = Json.reread? m.toJson := by
  have hfits : Json.Fits Json.maxDepth m.toJson := by
    refine ⟨by decide, Json.membersFit_of_forall fun p hp => ?_⟩
    simp only [List.mem_cons, List.not_mem_nil, or_false] at hp
    rcases hp with rfl | rfl | rfl | rfl | rfl | rfl | rfl | rfl | rfl | rfl
    case inr.inr.inr.inr.inr.inr.inl => exact (Json.Faithful.strings m.origins).fits
    all_goals trivial
  exact Json.parse?_renderAt true hfits

/-- A description that can be read back is one of the same project.  Its counts may be too large for
that. -/
theorem IndexMetadata.projectId_of_parse?_pretty {m m' : IndexMetadata}
    (h : (Json.parse? m.toJson.pretty).bind ofJson? = some m') : m'.projectId = m.projectId := by
  rw [m.parse?_pretty] at h
  obtain ⟨j, hj, hm'⟩ := Option.bind_eq_some_iff.mp h
  obtain ⟨ms, hms, rfl⟩ := Option.map_eq_some_iff.mp hj
  have hfilter := Json.filter_of_rereadMembers? hms "project_id"
  have hown : ms.filter (fun m => m.1 == "project_id") = [("project_id", .str m.projectId)] := by
    refine (Option.some.inj (hfilter.symm.trans ?_))
    rfl
  have hid : Json.required? ms "project_id" Json.text? = some m.projectId := by
    rw [Json.required?, Json.field?, hown]
    rfl
  simp only [ofJson?, Json.record?, Option.bind_eq_bind, Option.bind_some,
    Option.bind_eq_some_iff, hid] at hm'
  obtain ⟨_, -, _, -, _, -, _, -, _, -, _, -, _, -, _, -, _, -, heq⟩ := hm'
  rw [← Option.some.inj heq]

end CodeAtlas
