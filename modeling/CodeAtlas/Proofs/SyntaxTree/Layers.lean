import CodeAtlas.Proofs.SyntaxTree.Nodes
import CodeAtlas.SyntaxTree.Declarator
import Mathlib.Tactic.SplitIfs

/-!
# The layers of a declarator

The name that a declarator declares stands inside *layers*: the pointers, arrays, pairs of
parentheses and argument lists through which the search for the name goes (`Declares`).  In C they
are read from the name outwards, so the layer next to the name says what the name is: with nothing
but parentheses between the name and an argument list it is a function, whatever stands further out
(`DeclaresFunction`), and of several argument lists the one nearest to the name is its own
(`nearestFunction`).

Two searches begin at the outermost layer instead.  `functionDeclarator?` ends at the first argument
list that it meets, and `isPrototype` only looks below the outer pointers and references
(`isPrototype_iff`).
-/

namespace CodeAtlas.SyntaxNode

variable {n c f inner name : SyntaxNode} {layers : List SyntaxNode}

/-! ### What a declarator holds -/

/-- What a declarator holds: what stands in its field, or else the first of its named children in
which a name is declared. -/
def heldDeclarator? (n : SyntaxNode) : Option SyntaxNode :=
  (n.inField? "declarator").or (n.children.find? fun c => c.named && (declaredName? c).isSome)

/-- A search goes on in what a first search finds, or else in what a second one finds. -/
lemma ite_any_bind {α : Type} (cs : List α) (p : α → Bool) (second : Option α) (f : α → Option α) :
    (if cs.any p then (cs.find? p).bind f else second.bind f) =
      ((cs.find? p).or second).bind f := by
  cases hfirst : cs.find? p with
  | none =>
    have hany : cs.any p = false := List.any_eq_false.mpr (List.find?_eq_none.mp hfirst)
    rw [hany, if_neg Bool.false_ne_true, Option.none_or]
  | some x =>
    have hany : cs.any p = true :=
      List.any_eq_true.mpr ⟨x, List.mem_of_find?_eq_some hfirst, List.find?_some hfirst⟩
    rw [hany, if_pos rfl, Option.some_or]

lemma declaredNameInField?_eq (cs : List SyntaxNode) : declaredNameInField? cs =
    (cs.find? fun c => c.field == some "declarator").bind declaredName? := by
  induction cs with
  | nil => rfl
  | cons c cs ih =>
    rw [declaredNameInField?, List.find?_cons]
    cases c.field == some "declarator" with
    | true => rfl
    | false => exact ih

lemma declaredNameInNamed?_eq (cs : List SyntaxNode) : declaredNameInNamed? cs =
    (cs.find? fun c => c.named && (declaredName? c).isSome).bind declaredName? := by
  induction cs with
  | nil => rfl
  | cons c cs ih =>
    rw [declaredNameInNamed?, List.find?_cons]
    cases c.named with
    | false => exact ih
    | true =>
      cases hname : declaredName? c with
      | none => exact ih
      | some name => simp [hname]

/-- The search for a declared name goes on in what the declarator holds. -/
lemma declaredName?_eq (n : SyntaxNode) : declaredName? n =
    if isName n.kind then some n else n.heldDeclarator?.bind declaredName? := by
  obtain ⟨kind, named, field, span, row, children⟩ := n
  rw [declaredName?, declaredNameInField?_eq, declaredNameInNamed?_eq, ite_any_bind]
  rfl

lemma mem_children_of_heldDeclarator? (h : n.heldDeclarator? = some inner) :
    inner ∈ n.children := by
  rw [heldDeclarator?, Option.or_eq_some_iff] at h
  rcases h with h | ⟨-, h⟩
  · exact List.mem_of_find?_eq_some h
  · exact List.mem_of_find?_eq_some h

/-! ### Layers -/

/-- A declarator declares a name inside layers, of which the outermost stands first. -/
inductive Declares : SyntaxNode → List SyntaxNode → SyntaxNode → Prop
  | name {n : SyntaxNode} (hname : isName n.kind = true) : Declares n [] n
  | layer {n inner name : SyntaxNode} {layers : List SyntaxNode} (hname : isName n.kind = false)
      (hheld : n.heldDeclarator? = some inner) (hinner : Declares inner layers name) :
      Declares n (n :: layers) name

/-- A name is declared inside layers if the search ends at it. -/
theorem Declares.declaredName?_eq (h : Declares n layers name) : declaredName? n = some name := by
  induction h with
  | name hname => rw [SyntaxNode.declaredName?_eq, if_pos hname]
  | layer hname hheld _ ih =>
    rw [SyntaxNode.declaredName?_eq, if_neg (by simp [hname]), hheld, Option.bind_some, ih]

/-- Where the search ends, a name is declared inside layers. -/
theorem exists_declares (n : SyntaxNode) (h : declaredName? n = some name) :
    ∃ layers, Declares n layers name := by
  rw [declaredName?_eq] at h
  split_ifs at h with hname
  · obtain rfl := Option.some.inj h
    exact ⟨[], .name hname⟩
  · -- The recursion is on the number of nodes, which a layer has more of than what it holds.
    obtain ⟨inner, hheld, hinner⟩ := Option.bind_eq_some_iff.mp h
    have hsmaller := length_preorder_lt (mem_children_of_heldDeclarator? hheld)
    obtain ⟨layers, hlayers⟩ := exists_declares inner hinner
    exact ⟨n :: layers, .layer (by simpa using hname) hheld hlayers⟩
termination_by n.preorder.length

/-- A declarator declares one name, inside one list of layers. -/
theorem Declares.unique {layers' : List SyntaxNode} {name' : SyntaxNode}
    (h : Declares n layers name) (h' : Declares n layers' name') :
    layers = layers' ∧ name = name' := by
  induction h generalizing layers' name' with
  | name hname =>
    cases h' with
    | name => exact ⟨rfl, rfl⟩
    | layer hlayer => exact absurd (hname.symm.trans hlayer) (by decide)
  | layer hlayer hheld _ ih =>
    cases h' with
    | name hname => exact absurd (hname.symm.trans hlayer) (by decide)
    | layer _ hheld' hinner' =>
      obtain rfl := Option.some.inj (hheld.symm.trans hheld')
      obtain ⟨rfl, rfl⟩ := ih hinner'
      exact ⟨rfl, rfl⟩

/-- The layers of a declarator are nodes of it. -/
lemma Declares.mem_preorder (h : Declares n layers name) : ∀ l ∈ layers, l ∈ n.preorder := by
  induction h with
  | name => exact fun _ hl => nomatch hl
  | layer _ hheld _ ih =>
    refine List.forall_mem_cons.mpr ⟨mem_preorder_self _, fun l hl => ?_⟩
    exact preorder_subset_of_mem (mem_children_of_heldDeclarator? hheld) (ih l hl)

/-- A declarator declares a function, as C reads it: around the name there is a function declarator,
with nothing but parentheses between the two. -/
def DeclaresFunction (n : SyntaxNode) : Prop :=
  ∃ outer f parens name, Declares n (outer ++ f :: parens) name ∧ f.kind = "function_declarator" ∧
    ∀ p ∈ parens, p.kind = "parenthesized_declarator"

/-! ### The outermost function declarator -/

mutual

/-- The search for a function declarator ends at one. -/
theorem kind_of_functionDeclarator? : ∀ n f : SyntaxNode, functionDeclarator? n = some f →
    f.kind = "function_declarator"
  | ⟨kind, named, field, span, row, children⟩ => by
    intro f h
    rw [functionDeclarator?] at h
    split_ifs at h with hkind
    · obtain rfl := Option.some.inj h
      exact beq_iff_eq.mp hkind
    · exact kind_of_functionDeclaratorInField? children f h
    · exact kind_of_functionDeclaratorInNamed? children f h

theorem kind_of_functionDeclaratorInField? : ∀ (cs : List SyntaxNode) (f : SyntaxNode),
    functionDeclaratorInField? cs = some f → f.kind = "function_declarator"
  | [] => fun _ h => nomatch h
  | c :: cs => by
    intro f h
    rw [functionDeclaratorInField?] at h
    split_ifs at h
    · exact kind_of_functionDeclarator? c f h
    · exact kind_of_functionDeclaratorInField? cs f h

theorem kind_of_functionDeclaratorInNamed? : ∀ (cs : List SyntaxNode) (f : SyntaxNode),
    functionDeclaratorInNamed? cs = some f → f.kind = "function_declarator"
  | [] => fun _ h => nomatch h
  | c :: cs => by
    intro f h
    rw [functionDeclaratorInNamed?] at h
    split at h
    · split at h
      next found hfound =>
        rw [← Option.some.inj h]
        exact kind_of_functionDeclarator? c found hfound
      next => exact kind_of_functionDeclaratorInNamed? cs f h
    · exact kind_of_functionDeclaratorInNamed? cs f h

end

/-- Of a function declarator and the layers inside it, the function declarator that stands nearest
to the name. -/
def nearestFunction (f : SyntaxNode) (layers : List SyntaxNode) : SyntaxNode :=
  (layers.filter fun l => l.kind == "function_declarator").getLast?.getD f

/-- A function declarator is the nearest to the name exactly if there is no other one inside it. -/
theorem nearestFunction_eq_self_iff (hinner : f.inField? "declarator" = some inner)
    (h : Declares inner layers name) :
    nearestFunction f layers = f ↔ ∀ l ∈ layers, l.kind ≠ "function_declarator" := by
  constructor
  · intro hself
    rw [nearestFunction] at hself
    cases hlast : (layers.filter fun l => l.kind == "function_declarator").getLast? with
    | none =>
      rw [List.getLast?_eq_none_iff, List.filter_eq_nil_iff] at hlast
      exact fun l hl hkind => hlast l hl (beq_iff_eq.mpr hkind)
    | some last =>
      -- The layers are smaller than what they stand in.
      rw [hlast, Option.getD_some] at hself
      subst hself
      have hlayer := (List.mem_filter.mp (List.mem_of_getLast? hlast)).1
      have hle := (sublist_preorder _ _ (h.mem_preorder _ hlayer)).length_le
      have hlt := length_preorder_lt (List.mem_of_find?_eq_some hinner)
      omega
  · intro hnone
    have hnil : (layers.filter fun l => l.kind == "function_declarator") = [] :=
      List.filter_eq_nil_iff.mpr fun l hl hkind => hnone l hl (beq_iff_eq.mp hkind)
    rw [nearestFunction, hnil]
    rfl

/-! ### Prototypes -/

/-- What a pointer or reference is taken to hold: what stands in its field, or else its first named
child. -/
def pointed? (n : SyntaxNode) : Option SyntaxNode :=
  (n.inField? "declarator").or (n.children.find? (·.named))

/-- A function declarator below nothing but pointers and references, of which the operand is not in
parentheses. -/
inductive IsBareFunction : SyntaxNode → Prop
  | function {n inner : SyntaxNode} (hkind : n.kind = "function_declarator")
      (hinner : n.inField? "declarator" = some inner)
      (hbare : inner.kind ≠ "parenthesized_declarator") : IsBareFunction n
  | pointer {n inner : SyntaxNode} (hkind : n.kind ∈ ["pointer_declarator", "reference_declarator"])
      (hheld : n.pointed? = some inner) (hinner : IsBareFunction inner) : IsBareFunction n

lemma belowPointersInField?_eq (cs : List SyntaxNode) : belowPointersInField? cs =
    (cs.find? fun c => c.field == some "declarator").bind belowPointers? := by
  induction cs with
  | nil => rfl
  | cons c cs ih =>
    rw [belowPointersInField?, List.find?_cons]
    cases c.field == some "declarator" with
    | true => rfl
    | false => exact ih

lemma belowPointersInNamed?_eq (cs : List SyntaxNode) :
    belowPointersInNamed? cs = (cs.find? (·.named)).bind belowPointers? := by
  induction cs with
  | nil => rfl
  | cons c cs ih =>
    rw [belowPointersInNamed?, List.find?_cons]
    cases c.named with
    | true => rfl
    | false => exact ih

lemma belowPointers?_eq (n : SyntaxNode) : belowPointers? n =
    if n.kind ∈ ["pointer_declarator", "reference_declarator"] then n.pointed?.bind belowPointers?
    else some n := by
  obtain ⟨kind, named, field, span, row, children⟩ := n
  rw [belowPointers?, belowPointersInField?_eq, belowPointersInNamed?_eq, ite_any_bind]
  simp only [Bool.or_eq_true, beq_iff_eq, List.mem_cons, List.not_mem_nil, or_false]
  rfl

lemma mem_children_of_pointed? (h : n.pointed? = some inner) : inner ∈ n.children := by
  rw [pointed?, Option.or_eq_some_iff] at h
  rcases h with h | ⟨-, h⟩
  · exact List.mem_of_find?_eq_some h
  · exact List.mem_of_find?_eq_some h

/-- A pointer or reference is a prototype if what it holds is one. -/
lemma isPrototype_of_pointer (hkind : n.kind ∈ ["pointer_declarator", "reference_declarator"]) :
    isPrototype n = true ↔ ∃ inner, n.pointed? = some inner ∧ isPrototype inner = true := by
  rw [isPrototype, belowPointers?_eq, if_pos hkind]
  cases n.pointed? with
  | none => simp
  | some inner => simp [isPrototype]

/-- Below pointers and references, a prototype is a function declarator with a bare operand. -/
lemma isPrototype_of_other (hkind : n.kind ∉ ["pointer_declarator", "reference_declarator"]) :
    isPrototype n = true ↔ n.kind = "function_declarator" ∧
      ∃ inner, n.inField? "declarator" = some inner ∧ inner.kind ≠ "parenthesized_declarator" := by
  rw [isPrototype, belowPointers?_eq, if_neg hkind]
  cases hinner : n.inField? "declarator" with
  | none => simp [hinner]
  | some inner => simp [hinner]

/-- The prototypes are the bare functions. -/
theorem isPrototype_iff (n : SyntaxNode) : isPrototype n = true ↔ IsBareFunction n := by
  -- The cases are the constructors of a bare function, and a pointer holds fewer nodes than it has.
  by_cases hkind : n.kind ∈ ["pointer_declarator", "reference_declarator"]
  · rw [isPrototype_of_pointer hkind]
    constructor
    · rintro ⟨inner, hheld, hinner⟩
      have hsmaller := length_preorder_lt (mem_children_of_pointed? hheld)
      exact .pointer hkind hheld ((isPrototype_iff inner).mp hinner)
    · rintro (⟨hfunction, -, -⟩ | ⟨-, hheld, hinner⟩)
      · rw [hfunction] at hkind
        exact absurd hkind (by decide)
      · have hsmaller := length_preorder_lt (mem_children_of_pointed? hheld)
        exact ⟨_, hheld, (isPrototype_iff _).mpr hinner⟩
  · rw [isPrototype_of_other hkind]
    constructor
    · rintro ⟨hfunction, inner, hinner, hbare⟩
      exact .function hfunction hinner hbare
    · rintro (⟨hfunction, hinner, hbare⟩ | ⟨hpointer, -, -⟩)
      · exact ⟨hfunction, _, hinner, hbare⟩
      · exact absurd hpointer hkind
termination_by n.preorder.length

end CodeAtlas.SyntaxNode
