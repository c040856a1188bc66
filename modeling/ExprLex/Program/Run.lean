/-
  ExprLex.Program.Run — the whole program.

  The program reads its command line and its environment, then its configuration, and carries out
  a command. A configuration file that the user names must exist. Otherwise the first of three
  places that exists is used: the current directory, the directory `.config` of the home
  directory, and the directory for configuration, which is that same one unless the environment
  names another by an absolute path. Without a file everything has its default.

  The source text of the command that lists tokens comes from the command line, from a file or
  from the standard input. The answer is a listing of its tokens, or the diagnostic of the failure
  that ends reading it. The program ends with 0 when there is something to show, with 1 when
  lexing or the system fails, and with 2 when the command line makes no sense. Listings go to the
  standard output; the log, diagnostics and failures go to the standard error, the log first.
-/

import ExprLex.Config.Basic
import ExprLex.Program.Arguments
import ExprLex.Program.Session

/-! ## The configuration that applies -/

namespace ExprLex.Configuration

variable {m : Type → Type} [Monad m]

def fileName : String := "gxlt.toml"

def below (directory : String) : String := joinPath (joinPath directory "gxlt") fileName

def places (home? configHome? : Option String) : List String :=
  let home? := home?.filter fun home => !home.isEmpty
  let fromHome := home?.map fun home => joinPath home ".config"
  let system? := (configHome?.filter fun path => path.startsWith "/").or fromHome
  fileName :: (fromHome.toList ++ system?.toList).map below

def load (host : Host m) (path : String) : Session m Config := do
  if ← Session.ask (host.hasPath path) then
    Session.log [.loadingConfiguration path]
    let text ← Session.textOf (← Session.ask (host.readFile path))
    match Config.parse text with
    | .ok config => return config
    | .error reason => throw (.configUnreadable reason.message)
  else throw (.configMissing path)

def firstExisting (host : Host m) : List String → Session m (Option String)
  | [] => return none
  | path :: more => do
    if ← Session.ask (host.hasPath path) then return some path else firstExisting host more

/-- The configuration of a run; `path?` is the file that the user names. -/
def find (host : Host m) (path? : Option String) : Session m Config := do
  match path? with
  | some path => load host path
  | none =>
    let home? ← Session.ask (host.lookupVariable "HOME")
    let configHome? ← Session.ask (host.lookupVariable "XDG_CONFIG_HOME")
    match ← firstExisting host (places home? configHome?) with
    | some path => load host path
    | none => return {}

end ExprLex.Configuration

/-! ## Listing the tokens of a source text -/

namespace ExprLex.Tokenize

variable {m : Type → Type} [Monad m]

inductive Input where
  | expression (text : String)
  | file (path : String)
  | standardInput
  deriving DecidableEq, Repr

structure Request where
  input : Input
  format : Listing.Format := .table
  stripComments : Bool := false
  settings : LexerSettings := {}
  deriving DecidableEq, Repr

inductive Answer where
  | tokens (listing : String)
  | failed (diagnostic : String)
  deriving DecidableEq, Repr

def readSource (host : Host m) : Input → Session m String
  | .expression text => return text
  | .file path => do
    Session.log [.readingSource path]
    Session.textOf (← Session.ask (host.readFile path))
  | .standardInput => do Session.textOf (← Session.ask host.readInput)

def answer (request : Request) (source : String) : Session m Answer := do
  let run ← Session.ofChecked (runSource source request.settings)
  Session.log (run.events.map .lexing)
  match run.failure with
  | some error =>
    Session.log [.lexingFailed error]
    return .failed (← Session.ofChecked error.toDiagnostic.render)
  | none =>
    let count := run.tokens.length
    Session.log [.lexingFinished count source.utf8ByteSize, .tokenizedInput count]
    return .tokens
      (← Session.ofChecked (Listing.tokens request.format request.stripComments run.tokens))

def run (host : Host m) (request : Request) : Session m Answer := do
  Session.log [.executing CommandName.tokenize.name]
  let source ← readSource host request.input
  answer request source

end ExprLex.Tokenize

/-! ## The program -/

namespace ExprLex

open Arguments (Invocation Stop)

def programVersion : String := "0.1.0"

structure Report where
  exitCode : Nat
  output : String := ""
  events : List Log.Event := []
  /-- What follows the log on the standard error. -/
  complaint : String := ""
  deriving DecidableEq, Repr

def Report.errorOutput (r : Report) (time : String) : String :=
  String.join (r.events.map (Log.Event.line time)) ++ r.complaint

namespace Program

variable {m : Type → Type} [Monad m]

def usage : String :=
  "Usage: gxlt [OPTIONS] <COMMAND>\n\n"
    ++ "Commands:\n"
    ++ "  tokenize  Print the tokens of an expression: [FILE] [-e EXPR] [-F FORMAT]\n"
    ++ "            [--strip-comments]\n"
    ++ "  catalog   Print the token catalog in trial order: [--values-only] [-F FORMAT]\n"
    ++ "  help      Print this text\n\n"
    ++ "Options:\n"
    ++ "  -v, --verbose        Enable verbose output\n"
    ++ "  -c, --config CONFIG  Path to configuration file\n"
    ++ "      --no-color       Disable color output\n"
    ++ "  -h, --help           Print this text\n"
    ++ "  -V, --version        Print the version\n"

def usageMessage : Arguments.UsageError → String
  | .unknownArgument argument => "unexpected argument '" ++ argument ++ "'"
  | .unexpectedValue option => "'--" ++ option.long ++ "' takes no value"
  | .missingValue option => "'--" ++ option.long ++ "' needs a value"
  | .invalidValue name value => "invalid value '" ++ value ++ "' for '" ++ name ++ "'"
  | .repeated option => "'--" ++ option.long ++ "' cannot be used multiple times"
  | .fileAndExpression => "a file and an expression cannot be used together"
  | .missingCommand => "a command is required"

def reportStop : Stop → Report
  | .usage error =>
    { exitCode := 2, complaint := "error: " ++ usageMessage error ++ "\n\n" ++ usage }
  | .help => { exitCode := 0, output := usage }
  | .version level => { exitCode := 0, output := level.title ++ " " ++ programVersion ++ "\n" }

def execute (host : Host m) (config : Config) : Arguments.Command → Session m Tokenize.Answer
  | .tokenize file expr format stripComments =>
    let input : Tokenize.Input :=
      match file, expr with
      | some path, _ => .file path
      | none, some text => .expression text
      | none, none => .standardInput
    Tokenize.run host {
      input
      format := format.getD config.output.format
      stripComments := stripComments || config.output.stripComments
      settings := config.lexer }
  | .catalog valuesOnly format =>
    return .tokens (Listing.kinds (format.getD config.output.format) valuesOnly)

def session (host : Host m) (invocation : Invocation) : Session m Tokenize.Answer := do
  let config ← Configuration.find host invocation.config
  execute host config invocation.command

/-- The filter of the log: the setting in the environment if there is one, else by the wish for
more output. -/
def logFilter (setting? : Option String) (verbose : Bool) : Log.Filter :=
  (setting?.bind Log.Filter.ofSetting?).getD (.upTo (if verbose then .debug else .info))

def reportSession (events : List Log.Event) : Except Failure Tokenize.Answer → Report
  | .ok (.tokens listing) => { exitCode := 0, output := listing, events }
  | .ok (.failed diagnostic) => { exitCode := 1, events, complaint := diagnostic }
  | .error failure =>
    { exitCode := match failure with
        | .fault _ => 101
        | _ => 1
      events, complaint := "Error: " ++ failure.labelled ++ "\n" }

def readEnvironment (host : Host m) : List Arguments.Opt → m Arguments.Environment
  | [] => return []
  | option :: more => do
    let value? ← match option.variableName? with
      | some name => host.lookupVariable name
      | none => pure none
    let environment ← readEnvironment host more
    return value?.elim environment fun value => (option, value) :: environment

def run (host : Host m) (arguments : List String) : m Report := do
  let environment ← readEnvironment host Arguments.Opt.shared
  match Arguments.parse environment arguments with
  | .error stop => return reportStop stop
  | .ok invocation =>
    let filter := logFilter (← host.lookupVariable "GXLT_LOG") invocation.verbose
    let (outcome, events) ← (session host invocation).run []
    return reportSession (events.filter fun e => filter.shows e.level) outcome

end Program

end ExprLex
