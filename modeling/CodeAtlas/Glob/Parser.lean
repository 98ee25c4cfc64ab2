import CodeAtlas.Glob.Basic

/-!
# Reading file name patterns

A pattern is read in two steps.  The first finds its lexemes: escaped characters, sets in brackets,
and the characters with a meaning.  The second joins the stars: two of them stand for directories
where a slash or an end is on either side of them, and for two single stars elsewhere.

A bracket that is never closed is refused, or stands for itself if the caller allows that.
-/

namespace CodeAtlas

/-- A lexeme of a file name pattern. -/
inductive GlobLexeme where
  | literal (c : Char)
  /-- A character behind a backslash, which has lost its meaning. -/
  | escaped (c : Char)
  | any
  | star
  | set (negated : Bool) (ranges : List (Char × Char))
  | opening
  | closing
  | comma
  deriving DecidableEq, Repr, Inhabited

namespace GlobLexeme

/-- The character that a lexeme ends with. -/
def lastChar : GlobLexeme → Char
  | .literal c => c
  | .escaped c => c
  | .any => '?'
  | .star => '*'
  | .set .. => ']'
  | .opening => Char.ofNat 0x7b
  | .closing => Char.ofNat 0x7d
  | .comma => ','

/-- The outcome of reading the inside of a bracket. -/
inductive SetScan where
  | closed (ranges : List (Char × Char)) (rest : List Char)
  | unclosed
  /-- A range whose end comes before its beginning. -/
  | reversed

/-- Reads the inside of a bracket.  The ranges are collected in reverse; `first` says that nothing
was read yet, and `open_` that a hyphen waits for the end of the last range. -/
def scanSet (ranges : List (Char × Char)) (first open_ : Bool) : List Char → SetScan
  | [] => .unclosed
  | c :: cs =>
    if c = ']' ∧ ¬first then
      .closed (if open_ then (ranges.reverse ++ [('-', '-')]) else ranges.reverse) cs
    else if c = '-' ∧ ¬first ∧ ¬open_ then scanSet ranges false true cs
    else if open_ then
      match ranges with
      | (low, _) :: others =>
        if c < low then .reversed else scanSet ((low, c) :: others) false false cs
      | [] => scanSet [(c, c)] false false cs
    else scanSet ((c, c) :: ranges) false false cs

/-- What follows a closed bracket is shorter than what was read. -/
theorem scanSet_rest_length {ranges : List (Char × Char)} {first open_ : Bool} {cs : List Char}
    {found : List (Char × Char)} {rest : List Char}
    (h : scanSet ranges first open_ cs = .closed found rest) : rest.length < cs.length := by
  fun_induction scanSet ranges first open_ cs <;> simp_all <;> omega

/-- The inside of a bracket: whether it begins with a sign of negation, and what follows that. -/
def negation : List Char → Bool × List Char
  | '!' :: cs => (true, cs)
  | '^' :: cs => (true, cs)
  | cs => (false, cs)

theorem negation_length (cs : List Char) : (negation cs).2.length ≤ cs.length := by
  unfold negation
  split <;> simp

/-- Finds the lexemes of a pattern.  Where `brackets` does not hold, a bracket stands for itself;
`lenient` allows one that is not closed. -/
def lex? (lenient brackets : Bool) : List Char → Option (List GlobLexeme)
  | [] => some []
  | c :: cs =>
    if c = '\\' then
      match cs with
      | [] => none
      | d :: ds => (lex? lenient brackets ds).map (.escaped d :: ·)
    else if c = '[' ∧ brackets then
      match h : scanSet [] true false (negation cs).2 with
      | .closed ranges rest =>
        have : rest.length < cs.length :=
          Nat.lt_of_lt_of_le (scanSet_rest_length h) (negation_length cs)
        (lex? lenient brackets rest).map (.set (negation cs).1 ranges :: ·)
      | .reversed => none
      | .unclosed => if lenient then (lex? lenient false cs).map (.literal '[' :: ·) else none
    else
      let lexeme : GlobLexeme :=
        if c = '?' then .any
        else if c = '*' then .star
        else if c.toNat = 0x7b then .opening
        else if c.toNat = 0x7d then .closing
        else if c = ',' then .comma
        else .literal c
      (lex? lenient brackets cs).map (lexeme :: ·)
  termination_by cs => cs.length

end GlobLexeme

/-- A group that is being read: the alternatives that are finished and the parts of the current
one, all in reverse. -/
structure OpenGroup where
  finished : List (List GlobPart) := []
  current : List GlobPart := []
  deriving Inhabited

/-- The state of reading: the current alternative, the groups around it from the inside out, and the
character before. -/
structure GlobReader where
  inner : OpenGroup := {}
  outer : List OpenGroup := []
  previous : Option Char := none
  deriving Inhabited

namespace GlobReader

/-- Adds a part. -/
def push (r : GlobReader) (p : GlobPart) : GlobReader :=
  { r with inner := { r.inner with current := p :: r.inner.current } }

/-- Adds two single stars. -/
def pushStars (r : GlobReader) : GlobReader := (r.push .star).push .star

/-- Whether a group is open. -/
def inGroup (r : GlobReader) : Bool := !r.outer.isEmpty

/-- Turns the part before a `**`, which is a slash or another `**`, into what both stand for. -/
def joinDirectories (r : GlobReader) (joined : GlobPart) : GlobReader :=
  match r.inner.current with
  | .leadingDirectories :: _ => r
  | .everythingBelow :: _ => r
  | _ :: parts => { r with inner := { r.inner with current := joined :: parts } }
  | [] => r.push joined

/-- Whether a `**` may stand for directories as far as the character before it goes. -/
def mayFollow (r : GlobReader) : Bool :=
  r.previous == some '/' ||
    (r.inGroup && (r.previous == some ',' || r.previous == some (Char.ofNat 0x7b)))

/-- Adds a `**`, given the lexemes behind it, and returns those that are left of them. -/
def doubleStar (r : GlobReader) (rest : List GlobLexeme) : GlobReader × List GlobLexeme :=
  if r.inner.current.isEmpty then
    match rest with
    | [] => (r.push .leadingDirectories, [])
    | .literal '/' :: after => ({ r.push .leadingDirectories with previous := some '/' }, after)
    | _ => ({ r.pushStars with previous := some '*' }, rest)
  else if ¬r.mayFollow then ({ r.pushStars with previous := some '*' }, rest)
  else
    match rest with
    | [] => (r.joinDirectories .everythingBelow, [])
    | .literal '/' :: after =>
      ({ r.joinDirectories .innerDirectories with previous := some '/' }, after)
    | next :: _ =>
      if r.inGroup ∧ (next = .comma ∨ next = .closing) then
        ({ r.joinDirectories .everythingBelow with previous := some '*' }, rest)
      else ({ r.pushStars with previous := some '*' }, rest)

/-- A `**` uses up none of the lexemes behind it, or the slash. -/
theorem doubleStar_length (r : GlobReader) (rest : List GlobLexeme) :
    (r.doubleStar rest).2.length ≤ rest.length := by
  unfold doubleStar
  repeat' split
  all_goals simp_all

/-- Adds a lexeme that is no star; none if it closes a group that is not open. -/
def add? (r : GlobReader) (x : GlobLexeme) : Option GlobReader :=
  let r' : Option GlobReader :=
    match x with
    | .literal c => some (r.push (.literal c))
    | .escaped c => some (r.push (.literal c))
    | .any => some (r.push .any)
    | .star => some (r.push .star)
    | .set negated ranges => some (r.push (.set negated ranges))
    | .opening => some { r with inner := {}, outer := r.inner :: r.outer }
    | .closing =>
      match r.outer with
      | [] => none
      | g :: outer =>
        let alternatives := (r.inner.current.reverse :: r.inner.finished).reverse
        some { r with inner := { g with current := .group alternatives :: g.current }, outer }
    | .comma =>
      if r.inGroup then
        some { r with inner := ⟨r.inner.current.reverse :: r.inner.finished, []⟩ }
      else some (r.push (.literal ','))
  r'.map fun r' => { r' with previous := some x.lastChar }

/-- Reads the lexemes of a pattern; none if a group is not closed or not opened. -/
def run (r : GlobReader) : List GlobLexeme → Option Glob
  | [] => if r.outer.isEmpty then some ⟨r.inner.current.reverse⟩ else none
  | .star :: .star :: rest =>
    have := r.doubleStar_length rest
    run (r.doubleStar rest).1 (r.doubleStar rest).2
  | x :: rest =>
    match r.add? x with
    | some r => run r rest
    | none => none
  termination_by lexemes => lexemes.length
  decreasing_by
    · simp_wf; omega
    · simp_wf

end GlobReader

/-- Reads a file name pattern. -/
def Glob.parse? (lenient : Bool) (s : String) : Option Glob :=
  (GlobLexeme.lex? lenient true s.toList).bind fun lexemes => ({} : GlobReader).run lexemes

end CodeAtlas
