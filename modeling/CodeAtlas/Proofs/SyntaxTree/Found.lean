import CodeAtlas.Proofs.SyntaxTree.Layers

/-!
# What a search finds

The searches for a declared name, for a function declarator, for the last part of a qualified name
and for the name of a callee either end at a node or go on in one of its children.  Whatever does
so finds a node of the tree in which it begins (`mem_preorder_of_search`).
-/

namespace CodeAtlas.SyntaxNode

variable {n m c : SyntaxNode} {cs : List SyntaxNode} {name : String}

/-- A search that ends at a node or goes on in one of its children finds a node of the tree. -/
theorem mem_preorder_of_search {search : SyntaxNode → Option SyntaxNode}
    (hstep : ∀ n m, search n = some m → m = n ∨ ∃ c ∈ n.children, search c = some m)
    (n m : SyntaxNode) (h : search n = some m) : m ∈ n.preorder := by
  rcases hstep n m h with rfl | ⟨c, hc, hfound⟩
  · exact mem_preorder_self m
  · have hsmaller := length_preorder_lt hc
    exact preorder_subset_of_mem hc (mem_preorder_of_search hstep c m hfound)
termination_by n.preorder.length

/-- A search of a list that looks at its members one after the other finds what is found in one of
them. -/
lemma exists_of_searchAll {search : SyntaxNode → Option SyntaxNode}
    {searchAll : List SyntaxNode → Option SyntaxNode} (hnil : searchAll [] = none)
    (hcons : ∀ c cs, searchAll (c :: cs) = search c ∨ searchAll (c :: cs) = searchAll cs)
    (h : searchAll cs = some m) : ∃ c ∈ cs, search c = some m := by
  induction cs with
  | nil => exact nomatch hnil.symm.trans h
  | cons c cs ih =>
    rcases hcons c cs with hfirst | hrest
    · exact ⟨c, List.mem_cons_self, hfirst.symm.trans h⟩
    · obtain ⟨d, hd, hfound⟩ := ih (hrest.symm.trans h)
      exact ⟨d, List.mem_cons_of_mem _ hd, hfound⟩

/-- What a node holds in a field is one of its children. -/
lemma mem_children_of_inField? (h : n.inField? name = some c) : c ∈ n.children :=
  List.mem_of_find?_eq_some h

/-- The name that a declarator declares is a node of it. -/
lemma mem_preorder_of_declaredName? (h : declaredName? n = some m) : m ∈ n.preorder := by
  refine mem_preorder_of_search (fun n m h => ?_) n m h
  rw [declaredName?_eq] at h
  split_ifs at h
  · exact .inl (Option.some.inj h).symm
  · obtain ⟨c, hheld, hc⟩ := Option.bind_eq_some_iff.mp h
    exact .inr ⟨c, mem_children_of_heldDeclarator? hheld, hc⟩

/-! ### Function declarators -/

lemma exists_of_functionDeclaratorInField? (h : functionDeclaratorInField? cs = some m) :
    ∃ c ∈ cs, functionDeclarator? c = some m := by
  refine exists_of_searchAll rfl (fun c cs => ?_) h
  rw [functionDeclaratorInField?]
  split_ifs
  · exact .inl rfl
  · exact .inr rfl

lemma exists_of_functionDeclaratorInNamed? (h : functionDeclaratorInNamed? cs = some m) :
    ∃ c ∈ cs, functionDeclarator? c = some m := by
  refine exists_of_searchAll rfl (fun c cs => ?_) h
  rw [functionDeclaratorInNamed?]
  split_ifs
  · cases functionDeclarator? c with
    | none => exact .inr rfl
    | some found => exact .inl rfl
  · exact .inr rfl

/-- The function declarator of a declarator is a node of it. -/
lemma mem_preorder_of_functionDeclarator? (h : functionDeclarator? n = some m) :
    m ∈ n.preorder := by
  refine mem_preorder_of_search (fun n m h => ?_) n m h
  obtain ⟨kind, named, field, span, row, children⟩ := n
  rw [functionDeclarator?] at h
  split_ifs at h
  · exact .inl (Option.some.inj h).symm
  · exact .inr (exists_of_functionDeclaratorInField? h)
  · exact .inr (exists_of_functionDeclaratorInNamed? h)

/-- The name of a function definition is a node of it. -/
lemma mem_preorder_of_functionNameNode? (h : functionNameNode? n = some m) : m ∈ n.preorder := by
  obtain ⟨declarator, hdeclarator, h⟩ := Option.bind_eq_some_iff.mp h
  obtain ⟨function, hfunction, h⟩ := Option.bind_eq_some_iff.mp h
  obtain ⟨inner, hinner, hname⟩ := Option.bind_eq_some_iff.mp h
  have hm := preorder_subset_of_mem (mem_children_of_inField? hinner)
    (mem_preorder_of_declaredName? hname)
  have hm := (sublist_preorder _ _ (mem_preorder_of_functionDeclarator? hfunction)).subset hm
  exact preorder_subset_of_mem (mem_children_of_inField? hdeclarator) hm

/-! ### The last part of a name -/

lemma exists_of_lastNamePartInField? (h : lastNamePartInField? cs = some m) :
    ∃ c ∈ cs, some (lastNamePart c) = some m := by
  refine exists_of_searchAll rfl (fun c cs => ?_) h
  rw [lastNamePartInField?]
  split_ifs
  · exact .inl rfl
  · exact .inr rfl

/-- The last part of a name is the name, a child of it or the last part of a child. -/
lemma lastNamePart_cases (n : SyntaxNode) : lastNamePart n = n ∨ lastNamePart n ∈ n.children ∨
    ∃ c ∈ n.children, lastNamePart c = lastNamePart n := by
  obtain ⟨kind, named, field, span, row, children⟩ := n
  rw [lastNamePart]
  dsimp only
  split_ifs
  · cases hpart : lastNamePartInField? children with
    | none => exact .inl rfl
    | some m =>
      obtain ⟨c, hc, hfound⟩ := exists_of_lastNamePartInField? hpart
      exact .inr (.inr ⟨c, hc, Option.some.inj hfound⟩)
  · cases hname : inField? ⟨kind, named, field, span, row, children⟩ "name" with
    | none => exact .inl rfl
    | some m => exact .inr (.inl (mem_children_of_inField? hname))
  · exact .inl rfl

/-- The last part of a name is a node of it. -/
theorem lastNamePart_mem_preorder (n : SyntaxNode) : lastNamePart n ∈ n.preorder := by
  rcases lastNamePart_cases n with h | h | ⟨c, hc, h⟩
  · rw [h]
    exact mem_preorder_self n
  · exact preorder_subset_of_mem h (mem_preorder_self _)
  · have hsmaller := length_preorder_lt hc
    rw [← h]
    exact preorder_subset_of_mem hc (lastNamePart_mem_preorder c)
termination_by n.preorder.length

/-! ### Callees -/

lemma exists_of_calleeInField? (h : calleeInField? name cs = some m) :
    ∃ c ∈ cs, calleeNode? c = some m := by
  refine exists_of_searchAll rfl (fun c cs => ?_) h
  rw [calleeInField?]
  split_ifs
  · exact .inl rfl
  · exact .inr rfl

lemma exists_of_calleeInNamed? (h : calleeInNamed? cs = some m) :
    ∃ c ∈ cs, calleeNode? c = some m := by
  refine exists_of_searchAll rfl (fun c cs => ?_) h
  rw [calleeInNamed?]
  split_ifs
  · exact .inl rfl
  · exact .inr rfl

/-- The name of a callee is a node of it. -/
lemma mem_preorder_of_calleeNode? (h : calleeNode? n = some m) : m ∈ n.preorder := by
  refine mem_preorder_of_search (fun n m h => ?_) n m h
  obtain ⟨kind, named, field, span, row, children⟩ := n
  rw [calleeNode?] at h
  cases hform : calleeForm kind with
  | name =>
    rw [hform] at h
    exact .inl (Option.some.inj h).symm
  | through f =>
    rw [hform] at h
    exact .inr (exists_of_calleeInField? h)
  | first =>
    rw [hform] at h
    exact .inr (exists_of_calleeInNamed? h)
  | computed =>
    rw [hform] at h
    cases h

end CodeAtlas.SyntaxNode
