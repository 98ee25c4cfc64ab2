/-!
# Actions that can fail

What is done to files, documents and a live index goes step by step, and any step may fail.  An
action has an outcome and a state that it leaves, and the state is there in either case: what was
done before a failure stays done.

The lemmas say what running an action gives, construct by construct, so nothing else has to look
inside.
-/

namespace CodeAtlas

/-- An action on a state, which gives a value or fails for a reason. -/
abbrev Action (σ ε α : Type) := ExceptT ε (StateM σ) α

namespace Action

/-- The outcome of an action and the state that it leaves. -/
def runOn (a : Action σ ε α) (s : σ) : Except ε α × σ := StateT.run (ExceptT.run a) s

@[simp] theorem runOn_pure (x : α) (s : σ) : runOn (pure x : Action σ ε α) s = (.ok x, s) := rfl

@[simp] theorem runOn_throw (e : ε) (s : σ) :
    runOn (throw e : Action σ ε α) s = (.error e, s) := rfl

@[simp] theorem runOn_get (s : σ) : runOn (get : Action σ ε σ) s = (.ok s, s) := rfl

@[simp] theorem runOn_set (s s' : σ) :
    runOn (set s' : Action σ ε PUnit) s = (.ok ⟨⟩, s') := rfl

theorem runOn_bind (a : Action σ ε α) (f : α → Action σ ε β) (s : σ) :
    runOn (a >>= f) s =
      match runOn a s with
      | (.ok x, s') => runOn (f x) s'
      | (.error e, s') => (.error e, s') := by
  simp only [runOn, ExceptT.run_bind, StateT.run_bind]
  cases StateT.run (ExceptT.run a) s with
  | mk outcome s' => cases outcome <;> rfl

/-- An action given by its outcome and the state that it leaves. -/
def ofRun (f : σ → Except ε α × σ) : Action σ ε α := fun s => f s

@[simp] theorem runOn_ofRun (f : σ → Except ε α × σ) (s : σ) : runOn (ofRun f) s = f s := rfl

/-- An action with the reasons of its failures put into other words. -/
def adapt (wrap : ε → δ) (a : Action σ ε α) : Action σ δ α :=
  ofRun fun s =>
    match runOn a s with
    | (.ok x, s) => (.ok x, s)
    | (.error e, s) => (.error (wrap e), s)

/-- An action on a part of a state. -/
def within (part : σ → τ) (put : σ → τ → σ) (a : Action τ ε α) : Action σ ε α :=
  ofRun fun s =>
    let (outcome, t) := runOn a (part s)
    (outcome, put s t)

/-- Reads from the state what may not be there. -/
def read (wrap : δ → ε) (f : σ → Except δ α) : Action σ ε α :=
  ofRun fun s =>
    match f s with
    | .ok x => (.ok x, s)
    | .error e => (.error (wrap e), s)

/-- Changes the state by one step, which may be refused. -/
def change (wrap : δ → ε) (f : σ → Except δ σ) : Action σ ε Unit :=
  ofRun fun s =>
    match f s with
    | .ok s' => (.ok (), s')
    | .error e => (.error (wrap e), s)

/-- Makes an action that cannot fail: its failure becomes its value. -/
def attempt (a : Action σ ε α) : Action σ δ (Except ε α) :=
  ofRun fun s =>
    let (outcome, s) := runOn a s
    (.ok outcome, s)

end Action

end CodeAtlas
