import CodeAtlas.Proofs.SyntaxTree.Comments

/-!
# Callees and comments

A callee is followed to its name, through fields and into parentheses.  In parentheses the first
named child is taken, and if that is a comment the way ends there and the call has no name.  Without
the comment the way may lead on to a name; everywhere else it ends where it did
(`Uncommented.stillFinds_calleeEnd?`).  So taking out comments can only ever give names to calls.
-/

namespace CodeAtlas.SyntaxNode

variable {n n' c : SyntaxNode}

mutual

/-- The node at which following a callee ends, be it a name or not. -/
def calleeEnd? : SyntaxNode → Option SyntaxNode
  | ⟨kind, named, field, span, row, children⟩ =>
    match calleeForm kind with
    | .name => some ⟨kind, named, field, span, row, children⟩
    | .through f => calleeEndInField? f children
    | .first => calleeEndInNamed? children
    | .computed => some ⟨kind, named, field, span, row, children⟩

/-- The same for the first node that is held in a field. -/
def calleeEndInField? (name : String) : List SyntaxNode → Option SyntaxNode
  | [] => none
  | c :: cs => if c.field == some name then calleeEnd? c else calleeEndInField? name cs

/-- The same for the first named node. -/
def calleeEndInNamed? : List SyntaxNode → Option SyntaxNode
  | [] => none
  | c :: cs => if c.named then calleeEnd? c else calleeEndInNamed? cs

end

lemma IsLooseComment.calleeEnd?_eq (h : c.IsLooseComment) : calleeEnd? c = some c := by
  rw [h.eq_mk]
  rfl

/-- A comment is no call. -/
lemma IsLooseComment.calledName?_eq (h : c.IsLooseComment) (read : Reading) :
    calledName? read c = none := by
  rw [calledName?, h.kind_eq]
  rfl

/-- Whether the nodes of a kind are names that can be called. -/
def isCalleeName (kind : String) : Bool :=
  match calleeForm kind with
  | .name => true
  | _ => false

mutual

/-- A callee has a name if following it ends at one. -/
theorem calleeNode?_eq_filter : ∀ n : SyntaxNode,
    calleeNode? n = (calleeEnd? n).filter fun m => isCalleeName m.kind
  | ⟨kind, named, field, span, row, children⟩ => by
    rw [calleeNode?, calleeEnd?]
    cases hform : calleeForm kind
    case name =>
      rw [Option.filter_some, isCalleeName, hform]
      rfl
    case through name => exact calleeInField?_eq_filter name children
    case first => exact calleeInNamed?_eq_filter children
    case computed =>
      rw [Option.filter_some, isCalleeName, hform]
      rfl

theorem calleeInField?_eq_filter (name : String) : ∀ cs : List SyntaxNode,
    calleeInField? name cs = (calleeEndInField? name cs).filter fun m => isCalleeName m.kind
  | [] => rfl
  | c :: cs => by
    rw [calleeInField?, calleeEndInField?]
    split_ifs
    · exact calleeNode?_eq_filter c
    · exact calleeInField?_eq_filter name cs

theorem calleeInNamed?_eq_filter : ∀ cs : List SyntaxNode,
    calleeInNamed? cs = (calleeEndInNamed? cs).filter fun m => isCalleeName m.kind
  | [] => rfl
  | c :: cs => by
    rw [calleeInNamed?, calleeEndInNamed?]
    split_ifs
    · exact calleeNode?_eq_filter c
    · exact calleeInNamed?_eq_filter cs

end

mutual

/-- Following a callee still ends where it did. -/
theorem Uncommented.stillFinds_calleeEnd? : ∀ {n n' : SyntaxNode}, Uncommented n n' →
    StillFinds (calleeEnd? n) (calleeEnd? n')
  | _, _, @Uncommented.node kind _ _ _ _ _ _ below => by
    rw [calleeEnd?, calleeEnd?]
    cases calleeForm kind
    case name => exact .found (.node below)
    case through name => exact below.stillFinds_calleeEndInField? name
    case first => exact below.stillFinds_calleeEndInNamed?
    case computed => exact .found (.node below)

theorem UncommentedAll.stillFinds_calleeEndInField? (name : String) :
    ∀ {cs cs' : List SyntaxNode}, UncommentedAll cs cs' →
      StillFinds (calleeEndInField? name cs) (calleeEndInField? name cs')
  | _, _, .nil => .nothing
  | _, _, .keep first rest => by
    rw [calleeEndInField?, calleeEndInField?, first.field_eq]
    split_ifs
    · exact first.stillFinds_calleeEnd?
    · exact rest.stillFinds_calleeEndInField? name
  | _, _, .drop comment rest => by
    rw [calleeEndInField?, comment.field_beq, if_neg Bool.false_ne_true]
    exact rest.stillFinds_calleeEndInField? name

theorem UncommentedAll.stillFinds_calleeEndInNamed? : ∀ {cs cs' : List SyntaxNode},
    UncommentedAll cs cs' → StillFinds (calleeEndInNamed? cs) (calleeEndInNamed? cs')
  | _, _, .nil => .nothing
  | _, _, .keep first rest => by
    rw [calleeEndInNamed?, calleeEndInNamed?, first.named_eq]
    split_ifs
    · exact first.stillFinds_calleeEnd?
    · exact rest.stillFinds_calleeEndInNamed?
  | _, _, .drop comment rest => by
    rw [calleeEndInNamed?, comment.calleeEnd?_eq]
    split_ifs
    · exact .comment comment.kind_eq
    · exact rest.stillFinds_calleeEndInNamed?

end

namespace Uncommented

/-- A callee has a name as it had, unless following it ends at a comment. -/
lemma rel_calleeNode? (h : Uncommented n n')
    (hn : ∀ m, calleeEnd? n = some m → m.kind ≠ "comment") :
    Option.Rel Uncommented (calleeNode? n) (calleeNode? n') := by
  have hfinds := h.stillFinds_calleeEnd?
  rw [calleeNode?_eq_filter, calleeNode?_eq_filter]
  revert hfinds hn
  generalize calleeEnd? n = x, calleeEnd? n' = x'
  rintro hn (_ | hm | hcomment)
  · exact .none
  · rw [Option.filter_some, Option.filter_some, hm.kind_eq]
    split_ifs
    · exact .some hm
    · exact .none
  · exact absurd hcomment (hn _ rfl)

/-- A call has a name as it had, unless following its callee ends at a comment. -/
lemma calledName?_eq (h : Uncommented n n') (read : Reading)
    (hn : n.kind = "call_expression" → ∀ m, (n.inField? "function").bind calleeEnd? = some m →
      m.kind ≠ "comment") : calledName? read n' = calledName? read n := by
  unfold calledName?
  rw [h.kind_eq]
  split_ifs with hkind
  · refine map_eq_of_rel ?_ fun m m' hm => hm.text_eq read
    have hfield := h.rel_inField? "function"
    have hends := hn (beq_iff_eq.mp hkind)
    revert hfield hends
    generalize n.inField? "function" = x, n'.inField? "function" = x'
    rintro (⟨hcallee⟩ | _) hends
    · exact hcallee.rel_calleeNode? hends
    · exact .none
  · rfl

/-- A call that has a name still has it: a comment is no name that can be called. -/
lemma calledName?_of (h : Uncommented n n') (read : Reading) {name : String}
    (hname : calledName? read n = some name) : calledName? read n' = some name := by
  rw [h.calledName?_eq read, hname]
  intro _ m hm hcomment
  obtain ⟨callee, hcallee, hend⟩ := Option.bind_eq_some_iff.mp hm
  have hnone : calleeNode? callee = none := by
    rw [calleeNode?_eq_filter, hend, Option.filter_some, hcomment]
    rfl
  simp [calledName?, hcallee, hnone] at hname

end Uncommented

end CodeAtlas.SyntaxNode
