import CodeAtlas.Tool.LanguageServer.Symbols
import Mathlib.Data.List.Basic

/-!
# Items in preorder

An answer describes the symbols of a document as items, each of which may hold further items.  The
items are taken in preorder (`Preorder`), which the recursion over the answer lists
(`preorder_itemsOf`), and which symbols they amount to is then decided item by item, for an item
does not see what stands above or below it.  Symbols that are collected on the way, each numbered by
how many there are already, are the same (`symbolsOf_eq_collectAll`).

The other form of an answer is a plain list of items whose ranges are nested in locations.  An item
can be brought into that form (`flatItem`) without a change to what is read of it
(`draftOf?_flatItem`), so an answer and the list of its items in that form describe the same symbols
(`symbolsOf_flat`).
-/

namespace CodeAtlas

namespace Json

/-- Members but those of some names. -/
def without (names : List String) (members : List (String × Json)) : List (String × Json) :=
  members.filter fun m => !names.contains m.1

/-- A member that is looked up by another name is not found. -/
lemma get?_without (names : List String) (members : List (String × Json)) (name : String) :
    (obj (without names members)).get? name =
      if name ∈ names then none else (obj members).get? name := by
  have hfind : ∀ members : List (String × Json),
      (without names members).find? (fun m => m.1 == name) =
        if name ∈ names then none else members.find? (fun m => m.1 == name) := by
    intro members
    rw [without, List.find?_filter]
    split_ifs with hname
    · refine List.find?_eq_none.mpr fun m _ => ?_
      by_cases hm : m.1 = name <;> simp [hm, hname]
    · refine congrArg (fun p => List.find? p members) (funext fun m => ?_)
      by_cases hm : m.1 = name <;> simp [hm, hname]
  have hreverse : (without names members).reverse = without names members.reverse :=
    List.filter_reverse.symm
  rw [get?, get?, hreverse, hfind]
  split_ifs <;> rfl

/-- A member that is put behind the others is found by its name. -/
lemma get?_concat (members : List (String × Json)) (name name' : String) (value : Json) :
    (obj (members ++ [(name, value)])).get? name' =
      if name = name' then some value else (obj members).get? name' := by
  rw [get?, get?, List.reverse_append, List.reverse_singleton, List.singleton_append,
    List.find?_cons]
  by_cases hname : name = name'
  · simp [hname]
  · have hne : (name == name') = false := by simpa using hname
    simp [hname, hne]

/-- The last member of a name counts. -/
lemma get?_cons (members : List (String × Json)) (name name' : String) (value : Json) :
    (obj ((name, value) :: members)).get? name' =
      if name == name' && !members.any (fun m => m.1 == name') then some value
      else (obj members).get? name' := by
  have hany : members.any (fun m => m.1 == name') =
      (members.reverse.find? (fun m => m.1 == name')).isSome := by
    rw [Bool.eq_iff_iff, List.find?_isSome, List.any_eq_true]
    simp
  rw [get?, get?, hany, List.reverse_cons, List.find?_append]
  cases members.reverse.find? (fun m => m.1 == name') <;> by_cases hname : name = name' <;>
    simp [hname]

end Json

namespace LanguageServer

/-- The items right below an item. -/
def childrenOf (item : Json) : List Json := ((item.get? "children").bind Json.items?).getD []

/-- A list of all items in preorder: each item is followed by the items below it, and these by the
items behind it. -/
inductive Preorder : List Json → List Json → Prop
  | nil : Preorder [] []
  | cons {item : Json} {items below behind : List Json} (hbelow : Preorder (childrenOf item) below)
      (hbehind : Preorder items behind) : Preorder (item :: items) (item :: (below ++ behind))

/-- The items right below an object are those of its last member of that name. -/
lemma childrenOf_cons (name : String) (value : Json) (members : List (String × Json)) :
    childrenOf (.obj ((name, value) :: members)) =
      if name == "children" && !members.any (fun m => m.1 == "children") then value.items?.getD []
      else childrenOf (.obj members) := by
  rw [childrenOf, Json.get?_cons]
  split_ifs <;> rfl

mutual

/-- An item stands before the items below it. -/
lemma preorder_itemsBelow : ∀ item : Json,
    ∃ below, itemsBelow item = item :: below ∧ Preorder (childrenOf item) below
  | .obj members => ⟨itemsInMembers members, by rw [itemsBelow], preorder_itemsInMembers members⟩
  | .arr _ | .null | .bool _ | .int _ | .decimal _ | .str _ => ⟨[], rfl, .nil⟩

/-- The items below an object are listed in preorder. -/
lemma preorder_itemsInMembers : ∀ members : List (String × Json),
    Preorder (childrenOf (.obj members)) (itemsInMembers members)
  | [] => by rw [itemsInMembers]; exact .nil
  | (name, value) :: members => by
    rw [itemsInMembers, childrenOf_cons]
    split_ifs
    · exact preorder_itemsInChildren value
    · exact preorder_itemsInMembers members

/-- The items of an array of children are listed in preorder. -/
lemma preorder_itemsInChildren : ∀ value : Json,
    Preorder (value.items?.getD []) (itemsInChildren value)
  | .arr items => by rw [itemsInChildren]; exact preorder_itemsOfAll items
  | .obj _ | .null | .bool _ | .int _ | .decimal _ | .str _ => .nil

/-- The items of a list and those below them are listed in preorder. -/
lemma preorder_itemsOfAll : ∀ items : List Json, Preorder items (itemsOfAll items)
  | [] => by rw [itemsOfAll]; exact .nil
  | item :: items => by
    obtain ⟨below, heq, hbelow⟩ := preorder_itemsBelow item
    rw [itemsOfAll, heq]
    exact .cons hbelow (preorder_itemsOfAll items)

end

/-- The items of an answer are listed in preorder. -/
lemma preorder_itemsOf (answer : Json) : Preorder (answer.items?.getD []) (itemsOf answer) := by
  cases answer with
  | arr items => exact preorder_itemsOfAll items
  | _ => exact .nil

/-- There is one list of items in preorder. -/
lemma Preorder.unique {items listed listed' : List Json} (h : Preorder items listed)
    (h' : Preorder items listed') : listed = listed' := by
  induction h generalizing listed' with
  | nil => cases h'; rfl
  | cons _ _ ihbelow ihbehind =>
    cases h' with
    | cons hbelow' hbehind' => rw [ihbelow hbelow', ihbehind hbehind']

/-! ### Items in the flat form -/

/-- A location with another range. -/
def locationWith (range : Json) : Option Json → Json
  | some (.obj members) => .obj (Json.without ["range"] members ++ [("range", range)])
  | _ => .obj [("range", range)]

/-- An item without its children and with its range in its location. -/
def flatItem (item : Json) : Json :=
  match item with
  | .obj members =>
    match item.get? "range" with
    | some range => .obj (Json.without ["children", "range", "location"] members ++
        [("location", locationWith range (item.get? "location"))])
    | none => .obj (Json.without ["children"] members)
  | _ => item

/-- The answer in the flat form that lists items. -/
def flatAnswer (items : List Json) : Json := .arr (items.map flatItem)

/-- The range of a location with another range is that. -/
lemma get?_locationWith (range : Json) (location : Option Json) :
    (locationWith range location).get? "range" = some range := by
  unfold locationWith
  split
  · rw [Json.get?_concat, if_pos rfl]
  · exact Json.get?_concat [] "range" "range" range

/-- An item in the flat form has no children. -/
lemma get?_children_flatItem (item : Json) : (flatItem item).get? "children" = none := by
  unfold flatItem
  split
  · split
    · rw [Json.get?_concat, Json.get?_without]
      rfl
    · rw [Json.get?_without]
      rfl
  · rename_i hother
    cases item with
    | obj members => exact absurd rfl (hother members)
    | _ => rfl

/-- An item in the flat form has the same members apart from its children, range and location. -/
lemma get?_flatItem (item : Json) (name : String)
    (hname : name ∉ ["children", "range", "location"]) :
    (flatItem item).get? name = item.get? name := by
  simp only [List.mem_cons, List.not_mem_nil, or_false, not_or] at hname
  unfold flatItem
  split
  · split
    · rw [Json.get?_concat, Json.get?_without]
      simp [hname, Ne.symm hname.2.2]
    · rw [Json.get?_without]
      simp [hname]
  · rfl

/-- An item in the flat form has the same range. -/
lemma rangeOf?_flatItem (item : Json) : rangeOf? (flatItem item) = rangeOf? item := by
  unfold flatItem
  split
  · rename_i members
    cases hrange : (Json.obj members).get? "range" with
    | some range =>
      simp only [rangeOf?, Json.get?_concat, Json.get?_without, hrange]
      simp [get?_locationWith]
    | none =>
      simp only [rangeOf?, Json.get?_without, hrange]
      simp
  · rfl

/-- What is read of an item is read of its flat form. -/
lemma draftOf?_flatItem (lines : List (List Char)) (item : Json) :
    draftOf? lines (flatItem item) = draftOf? lines item := by
  simp only [draftOf?, rangeOf?_flatItem, get?_flatItem item "name" (by decide),
    get?_flatItem item "kind" (by decide), get?_flatItem item "detail" (by decide)]

/-- Nothing stands below an item in the flat form. -/
lemma itemsBelow_flatItem (item : Json) : itemsBelow (flatItem item) = [flatItem item] := by
  obtain ⟨below, heq, hbelow⟩ := preorder_itemsBelow (flatItem item)
  rw [childrenOf, get?_children_flatItem] at hbelow
  rw [heq, hbelow.unique .nil]

/-- The items of an answer in the flat form are those that it lists. -/
lemma itemsOf_flatAnswer (items : List Json) : itemsOf (flatAnswer items) = items.map flatItem := by
  induction items with
  | nil => rfl
  | cons item items ih =>
    rw [flatAnswer, itemsOf] at ih ⊢
    rw [List.map_cons, itemsOfAll, itemsBelow_flatItem, ih, List.singleton_append]

/-! ### Symbols -/

/-- The symbols that items amount to, numbered from `ordinal`. -/
def symbolsFrom (lines : List (List Char)) (file : String) (ordinal : Nat) (items : List Json) :
    List Symbol :=
  ((items.filterMap (draftOf? lines)).zipIdx ordinal).map
    (fun (d, ordinal) => d.toSymbol file .clangd ordinal)

/-- The symbols of an answer are those of its items. -/
lemma symbolsOf_eq (answer : Json) (file source : String) :
    symbolsOf answer file source =
      symbolsFrom (linesOf source.toList) file 0 (itemsOf answer) := rfl

/-- Items go on where those before them have stopped counting. -/
lemma symbolsFrom_append (lines : List (List Char)) (file : String) (ordinal : Nat)
    (items items' : List Json) :
    symbolsFrom lines file ordinal (items ++ items') =
      symbolsFrom lines file ordinal items ++
        symbolsFrom lines file (ordinal + (symbolsFrom lines file ordinal items).length)
          items' := by
  simp [symbolsFrom, List.filterMap_append, List.zipIdx_append]

/-- The symbol of an item, if it is one, is put behind those before it, and their count numbers
it. -/
def pushSymbol (lines : List (List Char)) (file : String) (out : List Symbol) (item : Json) :
    List Symbol :=
  match draftOf? lines item with
  | some d => out ++ [d.toSymbol file .clangd out.length]
  | none => out

mutual

/-- Goes through an item and the items below it and puts their symbols behind those before them. -/
def collect (lines : List (List Char)) (file : String) : Json → List Symbol → List Symbol
  | .obj members, out =>
    collectInMembers lines file members (pushSymbol lines file out (.obj members))
  | j, out => pushSymbol lines file out j

/-- Goes through the items held by the last member that is named for the children. -/
def collectInMembers (lines : List (List Char)) (file : String) :
    List (String × Json) → List Symbol → List Symbol
  | [], out => out
  | (name, value) :: members, out =>
    if name == "children" && !members.any (fun m => m.1 == "children") then
      collectInChildren lines file value out
    else collectInMembers lines file members out

/-- Goes through the items of an array of children. -/
def collectInChildren (lines : List (List Char)) (file : String) :
    Json → List Symbol → List Symbol
  | .arr items, out => collectAll lines file items out
  | _, out => out

/-- Goes through the items of a list. -/
def collectAll (lines : List (List Char)) (file : String) :
    List Json → List Symbol → List Symbol
  | [], out => out
  | item :: items, out => collectAll lines file items (collect lines file item out)

end

section

variable (lines : List (List Char)) (file : String)

mutual

/-- The items of a tree are taken one after the other. -/
lemma collect_eq_foldl : ∀ (item : Json) (out : List Symbol),
    collect lines file item out = (itemsBelow item).foldl (pushSymbol lines file) out
  | .obj members, out => by
    rw [collect, itemsBelow, List.foldl_cons, collectInMembers_eq_foldl members]
  | .arr _, _ | .null, _ | .bool _, _ | .int _, _ | .decimal _, _ | .str _, _ => rfl

/-- The items below an object are taken one after the other. -/
lemma collectInMembers_eq_foldl : ∀ (members : List (String × Json)) (out : List Symbol),
    collectInMembers lines file members out =
      (itemsInMembers members).foldl (pushSymbol lines file) out
  | [], out => by rw [collectInMembers, itemsInMembers]; rfl
  | (name, value) :: members, out => by
    rw [collectInMembers, itemsInMembers]
    split_ifs
    · exact collectInChildren_eq_foldl value out
    · exact collectInMembers_eq_foldl members out

/-- The items of an array of children are taken one after the other. -/
lemma collectInChildren_eq_foldl : ∀ (value : Json) (out : List Symbol),
    collectInChildren lines file value out =
      (itemsInChildren value).foldl (pushSymbol lines file) out
  | .arr items, out => by
    rw [collectInChildren, itemsInChildren, collectAll_eq_foldl items]
  | .obj _, _ | .null, _ | .bool _, _ | .int _, _ | .decimal _, _ | .str _, _ => rfl

/-- The items of a list are taken one after the other. -/
lemma collectAll_eq_foldl : ∀ (items : List Json) (out : List Symbol),
    collectAll lines file items out = (itemsOfAll items).foldl (pushSymbol lines file) out
  | [], out => by rw [collectAll, itemsOfAll]; rfl
  | item :: items, out => by
    rw [collectAll, itemsOfAll, List.foldl_append, collect_eq_foldl item, collectAll_eq_foldl items]

end

/-- The symbols of items that are taken one after the other go on with the numbers. -/
lemma foldl_pushSymbol (items : List Json) (out : List Symbol) :
    items.foldl (pushSymbol lines file) out =
      out ++ symbolsFrom lines file out.length items := by
  induction items generalizing out with
  | nil => simp [symbolsFrom]
  | cons item items ih =>
    rw [List.foldl_cons, ih, pushSymbol]
    cases hdraft : draftOf? lines item with
    | none => simp [symbolsFrom, hdraft]
    | some d => simp [symbolsFrom, hdraft, List.zipIdx_cons]

end

/-- The symbols of an answer are those that are collected from it on the way, each numbered by how
many there are already. -/
theorem symbolsOf_eq_collectAll (items : List Json) (file source : String) :
    symbolsOf (.arr items) file source = collectAll (linesOf source.toList) file items [] := by
  rw [collectAll_eq_foldl, foldl_pushSymbol, List.nil_append, symbolsOf_eq]
  rfl

/-- The symbol at each place carries the number of the place. -/
lemma id_of_symbolsFrom {lines : List (List Char)} {file : String} {items : List Json} {i : Nat}
    {s : Symbol} (h : (symbolsFrom lines file 0 items)[i]? = some s) :
    s.id = SymbolId.derive ⟨.clangd, s.kind, s.name, file, s.line, i.toUInt32⟩ := by
  rw [symbolsFrom, List.getElem?_map, List.getElem?_zipIdx] at h
  cases hd : (items.filterMap (draftOf? lines))[i]? with
  | none => rw [hd] at h; cases h
  | some d =>
    rw [hd] at h
    simp only [Option.map_some, Nat.zero_add, Option.some.injEq] at h
    rw [← h]
    rfl

/-- An answer describes the same symbols as the flat list of all its items in preorder, of which
there is one.  Each symbol carries the number of its place, and an answer that is no list describes
none. -/
theorem symbolsOf_flat (answer : Json) (file source : String) :
    (∃ items, (∀ listed, Preorder (answer.items?.getD []) listed ↔ listed = items) ∧
      symbolsOf answer file source = symbolsOf (flatAnswer items) file source) ∧
    (∀ (i : Nat) (s : Symbol), (symbolsOf answer file source)[i]? = some s → i < wordValues 32 →
      ∃ ordinal : UInt32, ordinal.toNat = i ∧
        s.id = SymbolId.derive ⟨.clangd, s.kind, s.name, file, s.line, ordinal⟩) ∧
    (answer.items? = none → symbolsOf answer file source = []) := by
  refine ⟨⟨itemsOf answer, fun listed => ⟨fun h => h.unique (preorder_itemsOf answer), ?_⟩, ?_⟩,
    fun i s hs hi => ⟨i.toUInt32, ?_, id_of_symbolsFrom hs⟩, fun hitems => ?_⟩
  · rintro rfl
    exact preorder_itemsOf answer
  · have hdrafts : draftOf? (linesOf source.toList) ∘ flatItem = draftOf? (linesOf source.toList) :=
      funext fun item => draftOf?_flatItem _ item
    rw [symbolsOf_eq, symbolsOf_eq, itemsOf_flatAnswer, symbolsFrom, symbolsFrom,
      List.filterMap_map, hdrafts]
  · exact UInt32.toNat_ofNat_of_lt' hi
  · cases answer with
    | arr items => cases hitems
    | _ => rfl

end LanguageServer

end CodeAtlas
