import CodeAtlas.Action
import Mathlib.Order.Defs.Unbundled
import Mathlib.Tactic.Lemma

/-!
# What actions keep

An action leaves a state whether it succeeds or fails, so some things are best said of both cases at
once: `Action.Keeps r a` says that the state which `a` leaves is related by `r` to the state in
which it began.  For a preorder the relation passes through every construct of which actions are
made.

What a successful action did is read off the construct too: a sequence succeeds if its parts do, one
after the other (`runOn_bind_eq_ok_iff`).

Where two states are to be compared, `Action.Alike r a b` says that `a` in one of them and `b` in
the other come to the same outcome and leave states that are related by `r`.  This too passes
through every construct.
-/

namespace CodeAtlas.Action

variable {r : σ → σ → Prop}

/-! ### Successful actions -/

/-- A sequence of actions succeeds if both do. -/
lemma runOn_bind_eq_ok_iff {a : Action σ ε α} {f : α → Action σ ε β} {s s' : σ} {y : β} :
    runOn (a >>= f) s = (.ok y, s') ↔
      ∃ x between, runOn a s = (.ok x, between) ∧ runOn (f x) between = (.ok y, s') := by
  rw [runOn_bind]
  rcases hrun : runOn a s with ⟨outcome, between⟩
  cases outcome with
  | error e => simp
  | ok x => simp [and_assoc]

/-- After a step that succeeds comes the rest. -/
lemma runOn_bind_of_ok {a : Action σ ε α} {f : α → Action σ ε β} {s between : σ} {x : α}
    (h : runOn a s = (.ok x, between)) : runOn (a >>= f) s = runOn (f x) between := by
  rw [runOn_bind, h]

/-- An action in other words succeeds if the action does. -/
lemma runOn_adapt_eq_ok_iff {a : Action σ ε α} {wrap : ε → δ} {s s' : σ} {x : α} :
    runOn (adapt wrap a) s = (.ok x, s') ↔ runOn a s = (.ok x, s') := by
  rw [adapt, runOn_ofRun]
  rcases hrun : runOn a s with ⟨outcome, between⟩
  cases outcome with
  | error e => simp
  | ok y => simp

/-- Reading succeeds if what is read is there, and leaves the state alone. -/
lemma runOn_read_eq_ok_iff {f : σ → Except δ α} {wrap : δ → ε} {s s' : σ} {x : α} :
    runOn (read wrap f) s = (.ok x, s') ↔ f s = .ok x ∧ s' = s := by
  rw [read, runOn_ofRun]
  cases f s with
  | error e => simp
  | ok y => simp [eq_comm]

/-- A change succeeds if it is not refused. -/
lemma runOn_change_eq_ok_iff {f : σ → Except δ σ} {wrap : δ → ε} {s s' : σ} {x : Unit} :
    runOn (change wrap f) s = (.ok x, s') ↔ f s = .ok s' := by
  rw [change, runOn_ofRun]
  cases f s with
  | error e => simp
  | ok t => simp

/-- Actions that change nothing give their values one after the other. -/
lemma runOn_mapM_of_ok {f : α → Action σ ε β} {g : α → β} {s : σ} {xs : List α}
    (h : ∀ x ∈ xs, runOn (f x) s = (.ok (g x), s)) : runOn (xs.mapM f) s = (.ok (xs.map g), s) := by
  induction xs with
  | nil => rfl
  | cons x xs ih =>
    rw [List.forall_mem_cons] at h
    rw [List.mapM_cons, runOn_bind_of_ok h.1, runOn_bind_of_ok (ih h.2), runOn_pure, List.map_cons]

/-- An action on a part of a state succeeds if it does on that part. -/
lemma runOn_within_eq_ok_iff {a : Action τ ε α} {part : σ → τ} {put : σ → τ → σ} {s s' : σ}
    {x : α} :
    runOn (a.within part put) s = (.ok x, s') ↔
      ∃ t, runOn a (part s) = (.ok x, t) ∧ s' = put s t := by
  rw [within, runOn_ofRun]
  rcases hrun : runOn a (part s) with ⟨outcome, t⟩
  simp only [Prod.mk.injEq]
  constructor
  · rintro ⟨rfl, rfl⟩
    exact ⟨t, ⟨rfl, rfl⟩, rfl⟩
  · rintro ⟨t', ⟨houtcome, rfl⟩, rfl⟩
    exact ⟨houtcome, rfl⟩

/-! ### What is kept in any case -/

/-- Whatever comes of the action, the state that it leaves is related to the one that it found. -/
def Keeps (r : σ → σ → Prop) (a : Action σ ε α) : Prop := ∀ s, r s (runOn a s).2

namespace Keeps

/-- An action that only gives a value changes nothing. -/
lemma pure [Std.Refl r] (x : α) : Keeps r (Pure.pure x : Action σ ε α) := fun s => refl s

/-- A failure changes nothing. -/
lemma throw [Std.Refl r] (e : ε) : Keeps r (MonadExcept.throw e : Action σ ε α) := fun s => refl s

/-- Looking at the state changes nothing. -/
lemma get [Std.Refl r] : Keeps r (MonadState.get : Action σ ε σ) := fun s => refl s

/-- A sequence keeps what its parts keep. -/
lemma bind [IsTrans σ r] {a : Action σ ε α} {f : α → Action σ ε β} (ha : Keeps r a)
    (hf : ∀ x, Keeps r (f x)) : Keeps r (a >>= f) := by
  intro s
  have hfirst := ha s
  rw [runOn_bind]
  rcases hrun : runOn a s with ⟨outcome, between⟩
  rw [hrun] at hfirst
  cases outcome with
  | error e => exact hfirst
  | ok x => exact IsTrans.trans _ _ _ hfirst (hf x between)

/-- Putting a failure into other words changes nothing more. -/
lemma adapt {a : Action σ ε α} (wrap : ε → δ) (ha : Keeps r a) : Keeps r (a.adapt wrap) := by
  intro s
  have hrun := ha s
  rw [Action.adapt, runOn_ofRun]
  cases hs : runOn a s with
  | mk outcome s' =>
    rw [hs] at hrun
    cases outcome with
    | error e => exact hrun
    | ok x => exact hrun

/-- Reading changes nothing. -/
lemma read [Std.Refl r] (wrap : δ → ε) (f : σ → Except δ α) : Keeps r (Action.read wrap f) := by
  intro s
  rw [Action.read, runOn_ofRun]
  cases f s with
  | error e => exact refl s
  | ok x => exact refl s

/-- A change keeps what it keeps where it is not refused. -/
lemma change [Std.Refl r] (wrap : δ → ε) {f : σ → Except δ σ}
    (hf : ∀ s s', f s = .ok s' → r s s') : Keeps r (Action.change wrap f) := by
  intro s
  rw [Action.change, runOn_ofRun]
  cases hs : f s with
  | error e => exact refl s
  | ok s' => exact hf s s' hs

/-- An action on a part of the state keeps what follows from what it keeps of the part. -/
lemma within {q : τ → τ → Prop} {a : Action τ ε α} {part : σ → τ} {put : σ → τ → σ}
    (ha : Keeps q a) (hput : ∀ s t, q (part s) t → r s (put s t)) :
    Keeps r (a.within part put) := fun s => hput s _ (ha (part s))

/-- Actions one after the other keep what each of them keeps. -/
lemma forM [Std.Refl r] [IsTrans σ r] {f : α → Action σ ε PUnit} (hf : ∀ x, Keeps r (f x))
    (xs : List α) : Keeps r (xs.forM f) := by
  induction xs with
  | nil => exact pure PUnit.unit
  | cons x xs ih => exact bind (hf x) fun _ => ih

end Keeps

/-! ### Two runs -/

/-- Two actions in two states come to the same outcome and leave related states. -/
def Alike (r : σ → σ → Prop) (a b : Action σ ε α) (s s' : σ) : Prop :=
  (runOn a s).1 = (runOn b s').1 ∧ r (runOn a s).2 (runOn b s').2

namespace Alike

variable {a b : Action σ ε α} {s s' u u' : σ}

/-- Two runs are compared by what comes of them. -/
lemma of_runOn {outcome : Except ε α} (ha : runOn a s = (outcome, u))
    (hb : runOn b s' = (outcome, u'))
    (h : r u u') : Alike r a b s s' := by
  rw [Alike, ha, hb]
  exact ⟨rfl, h⟩

/-- Actions that run like others are alike if the others are. -/
lemma congr {a' b' : Action σ ε α} (h : Alike r a b s s') (ha : runOn a' s = runOn a s)
    (hb : runOn b' s' = runOn b s') : Alike r a' b' s s' := by
  rwa [Alike, ha, hb]

/-- The same value is given in related states. -/
lemma pure (h : r s s') (x : α) :
    Alike r (Pure.pure x : Action σ ε α) (Pure.pure x) s s' := ⟨rfl, h⟩

/-- The same failure is reported in related states. -/
lemma throw (h : r s s') (e : ε) :
    Alike r (MonadExcept.throw e : Action σ ε α) (MonadExcept.throw e) s s' := ⟨rfl, h⟩

/-- Actions that go on alike after the same outcome are alike. -/
lemma bind {f g : α → Action σ ε β} (h : Alike r a b s s')
    (hf : ∀ x u u', runOn a s = (.ok x, u) → runOn b s' = (.ok x, u') → r u u' →
      Alike r (f x) (g x) u u') : Alike r (a >>= f) (b >>= g) s s' := by
  rcases ha : runOn a s with ⟨outcome, u⟩
  rcases hb : runOn b s' with ⟨outcome', u'⟩
  rw [Alike, ha, hb] at h
  obtain ⟨rfl, hr⟩ := h
  rw [Alike, runOn_bind, runOn_bind, ha, hb]
  cases outcome with
  | error e => exact ⟨rfl, hr⟩
  | ok x => exact hf x u u' ha hb hr

/-- Looking at the states first, actions go on with what they find there. -/
lemma get_bind {f g : σ → Action σ ε β} (h : Alike r (f s) (g s') s s') :
    Alike r (MonadState.get >>= f) (MonadState.get >>= g) s s' := h

/-- The same is read in related states. -/
lemma read {f : σ → Except δ α} (h : r s s') (hf : f s = f s') (wrap : δ → ε) :
    Alike r (Action.read wrap f) (Action.read wrap f) s s' := by
  rw [Alike, Action.read, runOn_ofRun, runOn_ofRun, hf]
  cases f s' with
  | error e => exact ⟨rfl, h⟩
  | ok x => exact ⟨rfl, h⟩

/-- A change is refused alike, or it is made in both states. -/
lemma change {f : σ → Except δ σ} (h : r s s')
    (hf : (∃ e, f s = .error e ∧ f s' = .error e) ∨
      ∃ u u', f s = .ok u ∧ f s' = .ok u' ∧ r u u') (wrap : δ → ε) :
    Alike r (Action.change wrap f) (Action.change wrap f) s s' := by
  rw [Alike, Action.change, runOn_ofRun, runOn_ofRun]
  rcases hf with ⟨e, he, he'⟩ | ⟨u, u', hu, hu', hr⟩
  · rw [he, he']
    exact ⟨rfl, h⟩
  · rw [hu, hu']
    exact ⟨rfl, hr⟩

/-- The same failure is put into the same words. -/
lemma adapt (h : Alike r a b s s') (wrap : ε → δ) :
    Alike r (a.adapt wrap) (b.adapt wrap) s s' := by
  rcases ha : runOn a s with ⟨outcome, u⟩
  rcases hb : runOn b s' with ⟨outcome', u'⟩
  rw [Alike, ha, hb] at h
  obtain ⟨rfl, hr⟩ := h
  rw [Alike, Action.adapt, Action.adapt, runOn_ofRun, runOn_ofRun, ha, hb]
  cases outcome with
  | error e => exact ⟨rfl, hr⟩
  | ok x => exact ⟨rfl, hr⟩

/-- Actions on parts of states are alike if they are on the parts. -/
lemma within {q : τ → τ → Prop} {c d : Action τ ε α} {part : σ → τ} {put : σ → τ → σ}
    (h : Alike q c d (part s) (part s')) (hput : ∀ t t', q t t' → r (put s t) (put s' t')) :
    Alike r (c.within part put) (d.within part put) s s' := by
  rw [Alike, Action.within, Action.within, runOn_ofRun, runOn_ofRun]
  exact ⟨h.1, hput _ _ h.2⟩

/-- What is tried fails or succeeds alike. -/
lemma attempt (h : Alike r a b s s') :
    Alike r (Action.attempt a : Action σ δ (Except ε α)) (Action.attempt b) s s' := by
  rw [Alike, Action.attempt, Action.attempt, runOn_ofRun, runOn_ofRun]
  exact ⟨congrArg Except.ok h.1, h.2⟩

end Alike

end CodeAtlas.Action
