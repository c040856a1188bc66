/-
  ExprLex.Program.Arguments — what a command line asks for.

  A command line has two levels: options of the program, and a command with options of its own.
  Three options are understood on both levels, and the environment may stand in for them. Options
  have a long name and mostly a letter; letters may be joined, and a value may stand in the same
  argument or in the next one, where it must not look like an option. Two dashes end the options.

  On one level no option may be given twice. An option of both levels counts as given for the
  command before the program, and from the command line before the environment; a variable is
  checked wherever its option was left out. Asking for help or the version ends reading at once.
-/

import ExprLex.Listing

namespace ExprLex

/-! ## Names of commands -/

inductive CommandName where
  | tokenize
  | catalog
  deriving DecidableEq, Repr

namespace CommandName

def name : CommandName → String
  | tokenize => "tokenize"
  | catalog => "catalog"

/-- The command of a name, which must be written exactly so. -/
def ofName? (s : String) : Option CommandName := [tokenize, catalog].find? fun c => c.name = s

end CommandName

end ExprLex

namespace ExprLex.Arguments

/-! ## Options -/

/-- Where options are read: in front of the command, or behind it. -/
inductive Level where
  | program
  | command (name : CommandName)
  deriving DecidableEq, Repr

inductive Opt where
  | verbose
  | config
  | noColor
  | help
  | version
  | expr
  | format
  | stripComments
  | valuesOnly
  deriving DecidableEq, Repr

namespace Opt

def long : Opt → String
  | verbose => "verbose"
  | config => "config"
  | noColor => "no-color"
  | help => "help"
  | version => "version"
  | expr => "expr"
  | format => "format"
  | stripComments => "strip-comments"
  | valuesOnly => "values-only"

def letter? : Opt → Option Char
  | verbose => some 'v'
  | config => some 'c'
  | help => some 'h'
  | version => some 'V'
  | expr => some 'e'
  | format => some 'F'
  | noColor | stripComments | valuesOnly => none

def takesValue : Opt → Bool
  | config | expr | format => true
  | _ => false

/-- The environment variable that stands in for an option. -/
def variableName? : Opt → Option String
  | verbose => some "GXLT_VERBOSE"
  | config => some "GXLT_CONFIG"
  | noColor => some "GXLT_NO_COLOR"
  | _ => none

def shared : List Opt := [verbose, config, noColor]

end Opt

def Level.options : Level → List Opt
  | .program => [.verbose, .config, .noColor, .help, .version]
  | .command .tokenize =>
    [.verbose, .config, .noColor, .help, .version, .expr, .format, .stripComments]
  | .command .catalog => [.verbose, .config, .noColor, .help, .version, .valuesOnly, .format]

def Level.title : Level → String
  | .program => "gxlt"
  | .command name => "gxlt-" ++ name.name

inductive UsageError where
  | unknownArgument (argument : String)
  | unexpectedValue (option : Opt)
  | missingValue (option : Opt)
  | invalidValue (name value : String)
  | repeated (option : Opt)
  | fileAndExpression
  | missingCommand
  deriving DecidableEq, Repr

/-- Why reading a command line ends before its end. -/
inductive Stop where
  | usage (error : UsageError)
  | help
  | version (level : Level)
  deriving DecidableEq, Repr

/-! ## Reading a level -/

/-- What has been read on a level. -/
structure Level.Given where
  /-- The options with their values; a flag has an empty one. -/
  options : List (Opt × String) := []
  file : Option String := none
  /-- A value in an argument of its own, which is checked when the next argument comes. -/
  pending : Option (Opt × String) := none
  deriving DecidableEq, Repr

namespace Level.Given

def has (g : Given) (option : Opt) : Bool := (g.options.lookup option).isSome

/-- Whether an option takes a value. A path must not be empty, and a format has its exact name. -/
def acceptsValue (option : Opt) (value : String) : Bool :=
  match option with
  | .config => !value.isEmpty
  | .format => (Listing.Format.ofName? value).isSome
  | _ => true

def add (option : Opt) (value : String) (g : Given) : Except Stop Given :=
  if g.has option then .error (.usage (.repeated option))
  else if acceptsValue option value then .ok { g with options := (option, value) :: g.options }
  else .error (.usage (.invalidValue option.long value))

def settle (g : Given) : Except Stop Given :=
  match g.pending with
  | none => .ok g
  | some (option, value) => add option value { g with pending := none }

def addFlag (level : Level) (option : Opt) (g : Given) : Except Stop Given := do
  let g ← g.settle
  match option with
  | .help => throw .help
  | .version => throw (.version level)
  | _ => g.add option ""

def addAttached (option : Opt) (value : String) (g : Given) : Except Stop Given := do
  let g ← g.settle
  g.add option value

def addSeparate (option : Opt) (value : String) (g : Given) : Except Stop Given := do
  let g ← g.settle
  return { g with pending := some (option, value) }

/-- Notes an argument that is no option. Only the command `tokenize` takes one, and only one. -/
def addFile (level : Level) (path : String) (g : Given) : Except Stop Given := do
  let g ← g.settle
  if level ≠ .command .tokenize ∨ g.file.isSome then throw (.usage (.unknownArgument path))
  else if path.isEmpty then throw (.usage (.invalidValue "FILE" path))
  else return { g with file := some path }

/-- Reads the letters of one argument. Answers the option that still needs a value. -/
def addLetters (level : Level) (g : Given) : List Char → Except Stop (Given × Option Opt)
  | [] => return (g, none)
  | letter :: more =>
    match level.options.find? fun option => option.letter? = some letter with
    | none => throw (.usage (.unknownArgument (String.ofList ['-', letter])))
    | some option =>
      if option.takesValue then
        match more with
        | [] => return (g, some option)
        | '=' :: value => return (← g.addAttached option (String.ofList value), none)
        | value => return (← g.addAttached option (String.ofList value), none)
      else do
        let g ← g.addFlag level option
        addLetters level g more

/-- Reads an argument that begins with two dashes, without them. Answers the option that still
needs a value. -/
def addLong (level : Level) (g : Given) (text : List Char) :
    Except Stop (Given × Option Opt) := do
  let name := String.ofList (text.takeWhile (· ≠ '='))
  let attached? := match text.dropWhile (· ≠ '=') with
    | [] => none
    | _ :: value => some (String.ofList value)
  match level.options.find? fun option => option.long = name with
  | none => throw (.usage (.unknownArgument ("--" ++ String.ofList text)))
  | some option =>
    match option.takesValue, attached? with
    | true, some value => return (← g.addAttached option value, none)
    | true, none => return (g, some option)
    | false, some _ => throw (.usage (.unexpectedValue option))
    | false, none => return (← g.addFlag level option, none)

end Level.Given

/-- Whether an argument looks like an option and so is no value. A dash alone does not. -/
def looksLikeOption (argument : String) : Bool :=
  match argument.toList with
  | '-' :: _ :: _ => true
  | _ => false

/-- Reads the arguments of a level up to the name of a command, if the level may have one. Answers
what was read, and the command with the arguments behind it. -/
def readLevel (level : Level) (g : Level.Given) :
    List String → Except Stop (Level.Given × Option (String × List String))
  | [] => return (g, none)
  | argument :: rest =>
    match argument.toList with
    | ['-', '-'] => do
      let g ← rest.foldlM (fun g path => g.addFile level path) g
      return (g, none)
    | '-' :: '-' :: text => do
      match ← g.addLong level text, rest with
      | (g, none), rest => readLevel level g rest
      | (_, some option), [] => throw (.usage (.missingValue option))
      | (g, some option), value :: rest =>
        if looksLikeOption value then throw (.usage (.missingValue option))
        else readLevel level (← g.addSeparate option value) rest
    | '-' :: letter :: letters => do
      match ← g.addLetters level (letter :: letters), rest with
      | (g, none), rest => readLevel level g rest
      | (_, some option), [] => throw (.usage (.missingValue option))
      | (g, some option), value :: rest =>
        if looksLikeOption value then throw (.usage (.missingValue option))
        else readLevel level (← g.addSeparate option value) rest
    | _ =>
      if level = .program then return (g, some (argument, rest))
      else do readLevel level (← g.addFile level argument) rest

/-! ## Variables -/

abbrev Environment := List (Opt × String)

/-- Whether a variable has a value that its option takes; a flag is on or off by name. -/
def acceptsVariable (option : Opt) (value : String) : Bool :=
  if option.takesValue then Level.Given.acceptsValue option value
  else value = "true" || value = "false"

/-- Checks the values that stand in for the options that a level was not given. -/
def checkEnvironment (environment : Environment) (g : Level.Given) : Except Stop Unit :=
  Opt.shared.forM fun option =>
    match g.has option, environment.lookup option with
    | false, some value =>
      if acceptsVariable option value then .ok ()
      else .error (.usage (.invalidValue option.long value))
    | _, _ => .ok ()

def sharedValue? (environment : Environment) (outer inner : Level.Given) (option : Opt) :
    Option String :=
  (inner.options.lookup option).or <| (outer.options.lookup option).or <|
    (environment.lookup option)

def sharedFlag (environment : Environment) (outer inner : Level.Given) (option : Opt) : Bool :=
  inner.has option || outer.has option || environment.lookup option = some "true"

/-! ## Reading a command line -/

inductive Command where
  | tokenize (file expr : Option String) (format : Option Listing.Format) (stripComments : Bool)
  | catalog (valuesOnly : Bool) (format : Option Listing.Format)
  deriving DecidableEq, Repr

structure Invocation where
  verbose : Bool
  config : Option String
  noColor : Bool
  command : Command
  deriving DecidableEq, Repr

def Command.ofGiven (name : CommandName) (g : Level.Given) : Except Stop Command :=
  let format := (g.options.lookup .format).bind Listing.Format.ofName?
  match name with
  | .tokenize =>
    let expr := g.options.lookup .expr
    if g.file.isSome && expr.isSome then throw (.usage .fileAndExpression)
    else return .tokenize g.file expr format (g.has .stripComments)
  | .catalog => return .catalog (g.has .valuesOnly) format

def readCommand (environment : Environment) (name : CommandName) (arguments : List String) :
    Except Stop (Level.Given × Command) := do
  let (g, _) ← readLevel (.command name) {} arguments
  let g ← g.settle
  checkEnvironment environment g
  return (g, ← Command.ofGiven name g)

/-- Reads what follows the request for help: the name of a command, or nothing. -/
def readHelp (topics : List String) : Stop :=
  match topics with
  | [] => .help
  | [topic] =>
    if topic = "help" || (CommandName.ofName? topic).isSome then .help
    else .usage (.unknownArgument topic)
  | _ :: extra :: _ => .usage (.unknownArgument extra)

def parse (environment : Environment) (arguments : List String) : Except Stop Invocation := do
  let (outer, rest) ← readLevel .program {} arguments
  match rest with
  | none => throw (.usage .missingCommand)
  | some ("help", topics) => throw (readHelp topics)
  | some (argument, rest) =>
    match CommandName.ofName? argument with
    | none => throw (.usage (.unknownArgument argument))
    | some name =>
      let (inner, command) ← readCommand environment name rest
      let outer ← outer.settle
      checkEnvironment environment outer
      return {
        verbose := sharedFlag environment outer inner .verbose
        config := sharedValue? environment outer inner .config
        noColor := sharedFlag environment outer inner .noColor
        command }

end ExprLex.Arguments
