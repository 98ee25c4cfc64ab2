import CodeAtlas.Command.Basic
import CodeAtlas.Text.Ascii
import CodeAtlas.Text.Search
import CodeAtlas.Word

/-!
# Reading arguments

The arguments of a command line are read from left to right on two levels: options that hold for
every command and then the name of a command, and behind it the options and the positional arguments
of that command.  The options of the first level are known on the second one as well, where they
have precedence.

A long option begins with two hyphens and may have its value behind an equals sign.  Short options
of one letter can stand together behind one hyphen, where the rest of the first one that takes a
value is its value.  Behind a lone pair of hyphens everything is positional.

An option that waits for its value takes the next argument unless that looks like an option itself.
A value is checked when the next thing that is known is read, so an argument that is not known is
reported before it.
-/

namespace CodeAtlas

/-- What the value of an argument is. -/
inductive ValueForm where
  | text
  /-- A path, which is not empty. -/
  | path
  /-- A number of 64 bits. -/
  | count
  | kind
  deriving DecidableEq, Repr, Inhabited

namespace ValueForm

/-- The numbers that a count may be. -/
def countBound : Nat := wordValues 64

/-- Checks a value. -/
def check (form : ValueForm) (value : String) : Except UsageError Unit :=
  match form with
  | .text => .ok ()
  | .path => if value.isEmpty then .error .missingValue else .ok ()
  | .count =>
    if (Text.unsigned? countBound value).isSome then .ok () else .error .invalidValue
  | .kind =>
    match SymbolKind.parse value with
    | .ok _ => .ok ()
    | .error _ => .error .invalidValue

end ValueForm

/-- What an option does. -/
inductive OptionUse where
  /-- It is there or not. -/
  | flag
  | value (form : ValueForm)
  /-- It asks for something else than a command. -/
  | special (wanted : UsageError)
  deriving DecidableEq, Repr, Inhabited

/-- An option. -/
structure OptionRule where
  name : String
  letter : Option Char := none
  use : OptionUse
  deriving DecidableEq, Repr, Inhabited

/-- A positional argument. -/
structure PositionalRule where
  name : String
  form : ValueForm
  isRequired : Bool := false
  deriving DecidableEq, Repr, Inhabited

/-- What is known on one level. -/
structure ArgumentRules where
  options : List OptionRule
  positionals : List PositionalRule := []
  /-- Options that exclude each other. -/
  exclusive : List (String × String) := []
  /-- The names of commands that can follow. -/
  commands : List String := []
  deriving Inhabited

/-- What was read so far on one level. -/
structure ArgumentState where
  /-- Arguments that were checked, with their values; a flag has an empty one. -/
  given : List (String × String) := []
  /-- The argument that is not checked yet, and its value once it is there. -/
  pending : Option (String × ValueForm × Option String) := none
  /-- How many positional arguments there were. -/
  place : Nat := 0
  /-- Whether everything from here on is positional. -/
  isLiteral : Bool := false
  deriving Inhabited

namespace ArgumentState

/-- Whether the next argument can be the value of an option. -/
def awaitsValue (s : ArgumentState) : Bool :=
  match s.pending with
  | some (_, _, none) => true
  | _ => false

/-- Whether an argument was given. -/
def has (s : ArgumentState) (name : String) : Bool := s.given.any fun g => g.1 = name

/-- The value of an argument that was given. -/
def value? (s : ArgumentState) (name : String) : Option String :=
  (s.given.find? fun g => g.1 = name).map (·.2)

/-- Adds an argument, which must not be there yet. -/
def add (s : ArgumentState) (name value : String) : Except UsageError ArgumentState :=
  if s.has name then .error .conflict else .ok { s with given := s.given ++ [(name, value)] }

/-- Adds an argument and checks its value. -/
def addChecked (s : ArgumentState) (name : String) (form : ValueForm) (value : String) :
    Except UsageError ArgumentState := do
  let added ← s.add name value
  form.check value
  return added

/-- Checks and adds the argument that is pending. -/
def settle (s : ArgumentState) : Except UsageError ArgumentState :=
  match s.pending with
  | none => .ok s
  | some (_, _, none) => .error .missingValue
  | some (name, form, some value) => { s with pending := none }.addChecked name form value

/-- Reads an option, and its value if that is attached to it. -/
def takeOption (s : ArgumentState) (rule : OptionRule) (attached : Option String) :
    Except UsageError ArgumentState :=
  match rule.use, attached with
  | .value form, some value => do (← s.settle).addChecked rule.name form value
  | .value form, none => do return { ← s.settle with pending := some (rule.name, form, none) }
  | _, some _ => .error .unwantedValue
  | .flag, none => do (← s.settle).add rule.name ""
  | .special wanted, none => do
    let _ ← s.settle
    .error wanted

end ArgumentState

namespace ArgumentRules

/-- The option with a long name. -/
def long? (rules : ArgumentRules) (name : String) : Option OptionRule :=
  rules.options.find? fun o => o.name = name

/-- The option with a letter. -/
def short? (rules : ArgumentRules) (letter : Char) : Option OptionRule :=
  rules.options.find? fun o => o.letter = some letter

/-- Reads a long option, of which the text behind the hyphens is given. -/
def takeLong (rules : ArgumentRules) (s : ArgumentState) (text : List Char) :
    Except UsageError ArgumentState :=
  let (name, attached) := match splitOnce? '=' text with
    | some (name, value) => (name, some (String.ofList value))
    | none => (text, none)
  match rules.long? (String.ofList name) with
  | some rule => s.takeOption rule attached
  | none => .error .unknownArgument

/-- The value that is attached to a letter. -/
def attached? : List Char → Option String
  | [] => none
  | '=' :: value => some (String.ofList value)
  | value => some (String.ofList value)

/-- Reads short options, of which the letters behind the hyphen are given. -/
def takeShort (rules : ArgumentRules) (s : ArgumentState) : List Char →
    Except UsageError ArgumentState
  | [] => .ok s
  | c :: cs =>
    match rules.short? c with
    | none => .error .unknownArgument
    | some rule =>
      match rule.use with
      | .value _ => s.takeOption rule (attached? cs)
      | _ => do rules.takeShort (← s.takeOption rule none) cs

/-- Reads a positional argument. -/
def takePositional (rules : ArgumentRules) (s : ArgumentState) (value : String) :
    Except UsageError ArgumentState :=
  match rules.positionals[s.place]? with
  | some rule => do
    return { ← s.settle with
      pending := some (rule.name, rule.form, some value)
      place := s.place + 1 }
  | none =>
    let isLiteralCommand := s.isLiteral && rules.commands.contains value
    .error (if rules.commands.isEmpty || isLiteralCommand then .unknownArgument
      else .unknownCommand)

/-- Reads one argument. -/
def take (rules : ArgumentRules) (s : ArgumentState) (argument : String) :
    Except UsageError ArgumentState :=
  if s.isLiteral then rules.takePositional s argument
  else
    match argument.toList, s.pending with
    | ['-', '-'], _ => .ok { s with isLiteral := true }
    | '-' :: '-' :: text, _ => rules.takeLong s text
    | '-' :: c :: cs, _ => rules.takeShort s (c :: cs)
    | _, some (name, form, none) => .ok { s with pending := some (name, form, some argument) }
    | _, _ => rules.takePositional s argument

/-- Reads arguments up to the name of a command, and returns that name and what follows it. -/
def read (rules : ArgumentRules) (s : ArgumentState) : List String →
    Except UsageError (ArgumentState × Option (String × List String))
  | [] => .ok (s, none)
  | argument :: rest =>
    if !s.isLiteral && !s.awaitsValue && rules.commands.contains argument then
      .ok (s, some (argument, rest))
    else do rules.read (← rules.take s argument) rest

/-- Checks that what was given fits together and that nothing is missing. -/
def complete (rules : ArgumentRules) (s : ArgumentState) : Except UsageError Unit :=
  if rules.exclusive.any fun (a, b) => s.has a && s.has b then .error .conflict
  else if rules.positionals.any fun p => p.isRequired && !s.has p.name then
    .error .missingArgument
  else .ok ()

end ArgumentRules

namespace Invocation

/-- The option that asks for help. -/
def helpOption : OptionRule := ⟨"help", some 'h', .special .helpWanted⟩

/-- The options that hold for every command. -/
def commonOptions : List OptionRule :=
  [⟨"config", some 'c', .value .path⟩, ⟨"project", some 'p', .value .path⟩,
    ⟨"json", none, .flag⟩, helpOption]

/-- The options of the commands that follow calls. -/
def callRules : ArgumentRules where
  options := [⟨"depth", some 'd', .value .count⟩]
  positionals := [⟨"symbol", .text, true⟩]

/-- The commands and their own arguments. -/
def commandRules : List (String × ArgumentRules) := [
  ("init", { options := [⟨"force", some 'f', .flag⟩] }),
  ("index",
    { options := [⟨"force", some 'f', .flag⟩, ⟨"threads", some 't', .value .count⟩]
      positionals := [⟨"path", .path, false⟩] }),
  ("watch", { options := [], positionals := [⟨"path", .path, false⟩] }),
  ("find", { options := [], positionals := [⟨"name", .text, true⟩] }),
  ("list",
    { options := [⟨"kind", some 'k', .value .kind⟩, ⟨"limit", some 'l', .value .count⟩] }),
  ("callers", callRules),
  ("callees", callRules),
  ("stats", { options := [] }),
  ("includes", { options := [], positionals := [⟨"file", .text, false⟩] }),
  ("projects", { options := [] }),
  ("clean",
    { options := [⟨"orphans", none, .flag⟩, ⟨"all", none, .flag⟩]
      positionals := [⟨"project_id", .text, false⟩]
      exclusive := [("orphans", "all")] }),
  ("config", { options := [] })]

/-- The name of the command that explains commands. -/
def helpCommand : String := "help"

/-- What is known on the first level. -/
def topRules : ArgumentRules where
  options := commonOptions ++ [⟨"version", some 'V', .special .versionWanted⟩]
  commands := commandRules.map (·.1) ++ [helpCommand]

/-- What the arguments of the help command ask for: a command at most. -/
def helpOn : List String → UsageError
  | [] => .helpWanted
  | [name] => if topRules.commands.contains name then .helpWanted else .unknownCommand
  | _ => .unknownCommand

/-- A number that was given. -/
def count? (s : ArgumentState) (name : String) : Option Nat :=
  (s.value? name).bind (Text.unsigned? ValueForm.countBound)

/-- The command with a name and arguments that were checked. -/
def command? (name : String) (s : ArgumentState) : Option Command :=
  let calls (direction : CallDirection) : Option Command :=
    some (.calls direction ((s.value? "symbol").getD "")
      ((count? s "depth").getD CallGraph.defaultDepth))
  match name with
  | "init" => some (.setUp (s.has "force"))
  | "index" => some (.index (s.value? "path") (s.has "force") (count? s "threads"))
  | "watch" => some (.watch (s.value? "path"))
  | "find" => some (.find ((s.value? "name").getD ""))
  | "list" => some (.list ((s.value? "kind").bind fun v => (SymbolKind.parse v).toOption)
      ((count? s "limit").getD Command.defaultLimit))
  | "callers" => calls .callers
  | "callees" => calls .callees
  | "stats" => some .stats
  | "includes" => some (.includes (s.value? "file"))
  | "projects" => some .projects
  | "clean" => some (.clean (s.value? "project_id") (s.has "orphans") (s.has "all"))
  | "config" => some .settings
  | _ => none

/-- Reads the arguments behind the name of a command. -/
def readCommand (name : String) (arguments : List String) :
    Except UsageError (ArgumentState × Command) :=
  match commandRules.find? fun r => r.1 = name with
  | none => .error (helpOn arguments)
  | some (_, own) => do
    let rules := { own with options := own.options ++ commonOptions }
    let (s, _) ← rules.read {} arguments
    let s ← s.settle
    rules.complete s
    match command? name s with
    | some command => return (s, command)
    | none => throw .unknownCommand

/-- Reads the arguments of a command line. -/
def ofArguments (arguments : List String) : Except UsageError Invocation := do
  let (outer, found) ← topRules.read {} arguments
  match found with
  | none =>
    let outer ← outer.settle
    throw (if outer.given.isEmpty then .nothingAsked else .missingCommand)
  | some (name, rest) =>
    let (inner, command) ← readCommand name rest
    let outer ← outer.settle
    let value (option : String) : Option String :=
      (inner.value? option).orElse fun _ => outer.value? option
    return {
      settingsFile := value "config"
      project := value "project"
      json := inner.has "json" || outer.has "json"
      command }

end Invocation

end CodeAtlas
