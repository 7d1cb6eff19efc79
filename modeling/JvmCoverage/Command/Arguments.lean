import JvmCoverage.Command.Instrument
import JvmCoverage.Command.Verbosity

/-!
# Command-line arguments

An `Option` of the command line has a long name and perhaps a letter, and takes a value or not.
Letters can be joined behind one hyphen; the value of an option is the next argument or joined to
the option itself.  Behind a bare `--` nothing is an option.  Options that are about the whole
program are understood before and after the name of a command, and count where they come last.
-/

namespace JvmCoverage.Arguments

/-! ## Reading arguments -/

/-- Why arguments are not carried out. -/
inductive Stop where
  /-- The arguments make no sense. -/
  | misuse
  | version
  | help
  deriving DecidableEq

/-- What an option does to the arguments read so far. -/
inductive Effect (σ : Type) where
  | switch (set : σ → Except Stop σ)
  | value (set : String → σ → Except Stop σ)

/-- An option. -/
structure Setting (σ : Type) where
  long : String
  letter : Option Char := none
  effect : Effect σ

/-- How arguments are read. -/
structure Grammar (σ : Type) where
  settings : List (Setting σ)
  /-- What an argument that is no option does; without it, reading ends there. -/
  word : Option (String → σ → Except Stop σ)

variable {σ τ : Type}

/-- The effect of the option with the given long name. -/
def Grammar.long? (g : Grammar σ) (name : List Char) : Except Stop (Effect σ) :=
  match g.settings.find? (·.long.toList == name) with
  | some s => .ok s.effect
  | none => .error .misuse

/-- The effect of the option with the given letter. -/
def Grammar.letter? (g : Grammar σ) (letter : Char) : Except Stop (Effect σ) :=
  match g.settings.find? (·.letter == some letter) with
  | some s => .ok s.effect
  | none => .error .misuse

/-- The arguments read so far, and what an option without its value still waits for. -/
structure State (σ : Type) where
  read : σ
  waiting : Option (String → σ → Except Stop σ) := none

/-- Reads letters behind one hyphen. -/
def Grammar.readLetters (g : Grammar σ) : List Char → σ → Except Stop (State σ)
  | [], read => .ok { read }
  | letter :: rest, read => do
    match ← g.letter? letter with
    | .switch set => g.readLetters rest (← set read)
    | .value set =>
      match rest with
      | [] => return { read, waiting := some set }
      | '=' :: value => return { read := ← set (String.ofList value) read }
      | value => return { read := ← set (String.ofList value) read }

/-- Reads an option with its long name, which has a value if `joined` begins with an equals
sign. -/
def Grammar.readLong (g : Grammar σ) (name joined : List Char) (read : σ) :
    Except Stop (State σ) := do
  match ← g.long? name, joined with
  | .switch set, [] => return { read := ← set read }
  | .switch _, _ => throw .misuse
  | .value set, [] => return { read, waiting := some set }
  | .value set, _ :: value => return { read := ← set (String.ofList value) read }

/-- The kinds of arguments. -/
inductive Shape where
  /-- The bare `--`. -/
  | divider
  | long (name joined : List Char)
  | letters (letters : List Char)
  | word

/-- The kind of an argument. -/
def Shape.of (arg : String) : Shape :=
  match arg.toList with
  | ['-', '-'] => .divider
  | '-' :: '-' :: rest => .long (rest.takeWhile (· ≠ '=')) (rest.dropWhile (· ≠ '='))
  | '-' :: letter :: rest => .letters (letter :: rest)
  | _ => .word

/-- Reads arguments, and gives back those that begin with the first word if words are not
understood. -/
def Grammar.parse (g : Grammar σ) (s : State σ) : List String → Except Stop (σ × List String)
  | [] => if s.waiting.isSome then .error .misuse else .ok (s.read, [])
  | arg :: rest =>
    match Shape.of arg, s.waiting with
    | .word, some set => do g.parse { read := ← set arg s.read } rest
    | _, some _ => .error .misuse
    | .word, none =>
      match g.word with
      | some word => do g.parse { read := ← word arg s.read } rest
      | none => .ok (s.read, arg :: rest)
    | .divider, none =>
      match g.word with
      | some word => do return (← rest.foldlM (fun read arg => word arg read) s.read, [])
      | none => .error .misuse
    | .long name joined, none => do g.parse (← g.readLong name joined s.read) rest
    | .letters letters, none => do g.parse (← g.readLetters letters s.read) rest

/-! ## Values -/

/-- Puts in a value that may be given once. -/
def once {α : Type} (present : Option α) (value : α) : Except Stop (Option α) :=
  if present.isSome then .error .misuse else .ok (some value)

/-- Turns on a switch that may be given once. -/
def switchOn (present : Bool) : Except Stop Bool :=
  if present then .error .misuse else .ok true

/-- A path, which must not be empty. -/
def path (value : String) : Except Stop String :=
  if value.isEmpty then .error .misuse else .ok value

/-- The value among `choices` called `value`. -/
def choose {α : Type} (choices : List (String × α)) (value : String) : Except Stop α :=
  match choices.find? (·.1 == value) with
  | some (_, a) => .ok a
  | none => .error .misuse

/-! ## Options of the whole program -/

/-- Options of the whole program. -/
structure Common where
  verbose : Nat := 0
  quiet : Bool := false
  /-- The path of the policy file. -/
  policyFile : Option String := none

/-- What counts of the options before and after the name of the command. -/
def Common.override (outer inner : Common) : Common where
  verbose := if inner.verbose = 0 then outer.verbose else inner.verbose
  quiet := outer.quiet || inner.quiet
  policyFile := inner.policyFile.orElse fun _ => outer.policyFile

/-- The options of the whole program, among the arguments `α` of a command. -/
def commonSettings (α : Type) : List (Setting (Common × α)) :=
  [{ long := "verbose", letter := some 'v',
     effect := .switch fun (c, a) => .ok ({ c with verbose := c.verbose + 1 }, a) },
   { long := "quiet", letter := some 'q',
     effect := .switch fun (c, a) => do return ({ c with quiet := ← switchOn c.quiet }, a) },
   { long := "config",
     effect := .value fun v (c, a) => do
       return ({ c with policyFile := ← once c.policyFile (← path v) }, a) },
   { long := "help", letter := some 'h', effect := .switch fun _ => .error .help }]

/-- An option of a command as one among those of the whole program. -/
def Setting.under (s : Setting τ) : Setting (Common × τ) where
  long := s.long
  letter := s.letter
  effect := match s.effect with
    | .switch set => .switch fun (c, a) => do return (c, ← set a)
    | .value set => .value fun v (c, a) => do return (c, ← set v a)

/-! ## Commands -/

/-- The names of granularities. -/
def granularities : List (String × Granularity) :=
  [("block", .basicBlock), ("line", .line)]

/-- The arguments of `instrument`. -/
structure Instrument where
  input : Option String := none
  output : Option String := none
  changes : PolicyChanges := {}
  /-- The path for the record of the class. -/
  metadata : Option String := none
  /-- Whether the summary is printed as a document. -/
  json : Bool := false

/-- The options of `instrument`. -/
def instrumentSettings : List (Setting Instrument) :=
  [{ long := "output", letter := some 'o',
     effect := .value fun v a => do return { a with output := ← once a.output (← path v) } },
   { long := "granularity", letter := some 'g',
     effect := .value fun v a => do
       let granularity ← once a.changes.granularity (← choose granularities v)
       return { a with changes := { a.changes with granularity := granularity } } },
   { long := "exclude",
     effect := .value fun v a =>
       .ok { a with changes := { a.changes with exclude := a.changes.exclude ++ [v] } } },
   { long := "ignore-skip-annotation",
     effect := .switch fun a => do
       let ignore ← switchOn a.changes.ignoreSkipAnnotation
       return { a with changes := { a.changes with ignoreSkipAnnotation := ignore } } },
   { long := "no-self-check",
     effect := .switch fun a => do
       let noSelfCheck ← switchOn a.changes.noSelfCheck
       return { a with changes := { a.changes with noSelfCheck := noSelfCheck } } },
   { long := "metadata",
     effect := .value fun v a => do return { a with metadata := ← once a.metadata (← path v) } },
   { long := "json",
     effect := .switch fun a => do return { a with json := ← switchOn a.json } }]

/-- The forms in which an inspection is printed. -/
inductive Format where
  | text
  | json
  deriving DecidableEq

/-- The arguments of `inspect`. -/
structure Inspect where
  input : Option String := none
  granularity : Option Granularity := none
  /-- The name of the methods shown. -/
  method : Option String := none
  format : Option Format := none

/-- The options of `inspect`. -/
def inspectSettings : List (Setting Inspect) :=
  [{ long := "granularity", letter := some 'g',
     effect := .value fun v a => do
       return { a with granularity := ← once a.granularity (← choose granularities v) } },
   { long := "method", letter := some 'm',
     effect := .value fun v a => do return { a with method := ← once a.method v } },
   { long := "format", letter := some 'f',
     effect := .value fun v a => do
       let format ← choose [("text", Format.text), ("json", Format.json)] v
       return { a with format := ← once a.format format } }]

/-- The arguments of `verify`. -/
structure Verify where
  inputs : List String := []
  /-- Whether to stop at the first class that does not pass. -/
  failFast : Bool := false

/-- The options of `verify`. -/
def verifySettings : List (Setting Verify) :=
  [{ long := "fail-fast",
     effect := .switch fun a => do return { a with failFast := ← switchOn a.failFast } }]

/-- What to do. -/
inductive Action where
  | instrument (input : String) (args : Instrument)
  | inspect (input : String) (args : Inspect)
  | verify (args : Verify)

/-- Reads the arguments behind the name of a command. -/
def parseCommand {α : Type} (outer : Common) (settings : List (Setting α))
    (word : String → α → Except Stop α) (start : α) (args : List String) :
    Except Stop (Common × α) := do
  let grammar : Grammar (Common × α) :=
    { settings := commonSettings α ++ settings.map Setting.under
      word := some fun v (c, a) => do return (c, ← word v a) }
  let ((inner, a), _) ← grammar.parse { read := ({}, start) } args
  return (outer.override inner, a)

/-- An argument that has to be given. -/
def needed {α : Type} : Option α → Except Stop α
  | some a => .ok a
  | none => .error .misuse

/-- What help can be asked about. -/
def topics : List String := ["instrument", "inspect", "verify", "help"]

/-- What asking for help comes to: help about the program or about one of its commands. -/
def helpOn : List String → Stop
  | [] => .help
  | [topic] => if topics.contains topic then .help else .misuse
  | _ => .misuse

/-- Reads the name of a command and the arguments behind it. -/
def parseAction (outer : Common) : List String → Except Stop (Common × Action)
  | "instrument" :: args => do
    let word v (a : Instrument) := do return { a with input := ← once a.input (← path v) }
    let (common, a) ← parseCommand outer instrumentSettings word {} args
    return (common, .instrument (← needed a.input) a)
  | "inspect" :: args => do
    let word v (a : Inspect) := do return { a with input := ← once a.input (← path v) }
    let (common, a) ← parseCommand outer inspectSettings word {} args
    return (common, .inspect (← needed a.input) a)
  | "verify" :: args => do
    let word v (a : Verify) := do return { a with inputs := a.inputs ++ [← path v] }
    let (common, a) ← parseCommand outer verifySettings word {} args
    if a.inputs.isEmpty then throw .misuse
    return (common, .verify a)
  | "help" :: args => .error (helpOn args)
  | _ => .error .misuse

/-- The options in front of the name of a command. -/
def outerSettings : List (Setting (Common × Unit)) :=
  { long := "version", letter := some 'V', effect := .switch fun _ => .error .version }
    :: commonSettings Unit

/-- Reads the arguments of the program. -/
def parse (args : List String) : Except Stop (Common × Action) := do
  let ((outer, _), rest) ←
    ({ settings := outerSettings, word := none } : Grammar _).parse { read := ({}, ()) } args
  parseAction outer rest

end JvmCoverage.Arguments
