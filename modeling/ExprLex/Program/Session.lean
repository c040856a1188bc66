/-
  ExprLex.Program.Session — a run of the program on a host.

  A host answers questions about the environment, files and the standard input. The program is
  written for any host, so that it can run on the real system and on one that is held in memory.
  A session may stop with a failure and keeps its log either way. A failure has a sentence for
  people and a form with the names of its parts, which the program prints when it ends with one.
-/

import ExprLex.Log

namespace ExprLex

/-! ## Failures -/

inductive IoFailure where
  | notFound
  | permissionDenied
  | notADirectory
  | isADirectory
  | notUtf8
  | other (text : String)
  deriving DecidableEq, Repr

namespace IoFailure

/-- The number, the name and the sentence of a failure that the system reports. -/
def system? : IoFailure → Option (Nat × String × String)
  | notFound => some (2, "NotFound", "No such file or directory")
  | permissionDenied => some (13, "PermissionDenied", "Permission denied")
  | notADirectory => some (20, "NotADirectory", "Not a directory")
  | isADirectory => some (21, "IsADirectory", "Is a directory")
  | notUtf8 => none
  | other _ => none

def notUtf8Message : String := "stream did not contain valid UTF-8"

def message (f : IoFailure) : String :=
  match f.system?, f with
  | some (code, _, text), _ => text ++ " (os error " ++ Text.decimal code ++ ")"
  | none, other text => text
  | none, _ => notUtf8Message

def labelled (f : IoFailure) : String :=
  match f.system?, f with
  | some (code, kind, text), _ =>
    "Os \x7b code: " ++ Text.decimal code ++ ", kind: " ++ kind ++ ", message: "
      ++ Text.quoted text ++ " \x7d"
  | none, other text => "Custom \x7b kind: Other, error: " ++ Text.quoted text ++ " \x7d"
  | none, _ =>
    "Error \x7b kind: InvalidData, message: " ++ Text.quoted notUtf8Message ++ " \x7d"

end IoFailure

inductive Failure where
  | config (text : String)
  | io (cause : IoFailure)
  | json
  /-- A rule of the run itself was broken. -/
  | fault (fault : Fault)
  deriving DecidableEq, Repr

namespace Failure

def configMissing (path : String) : Failure := config ("Configuration file not found: " ++ path)

def configUnreadable (reason : String) : Failure :=
  config ("Failed to parse configuration: " ++ reason)

def message : Failure → String
  | config text => "Configuration error: " ++ text
  | io cause => "IO error: " ++ cause.message
  | json => "JSON error"
  | fault f => f.message

def labelled : Failure → String
  | config text => "Config(" ++ Text.quoted text ++ ")"
  | io cause => "Io(" ++ cause.labelled ++ ")"
  | json => "Json"
  | fault f => f.message

end Failure

/-! ## Hosts -/

structure Host (m : Type → Type) where
  lookupVariable : String → m (Option String)
  hasPath : String → m Bool
  readFile : String → m (Except IoFailure ByteArray)
  readInput : m (Except IoFailure ByteArray)

def decodeText (bytes : ByteArray) : Except IoFailure String :=
  match String.fromUTF8? bytes with
  | some text => .ok text
  | none => .error .notUtf8

def joinPath (directory path : String) : String :=
  if directory.endsWith "/" then directory ++ path else directory ++ "/" ++ path

/-! ## Sessions -/

abbrev Session (m : Type → Type) := ExceptT Failure (StateT (List Log.Event) m)

namespace Session

variable {m : Type → Type} [Monad m]

def log (events : List Log.Event) : Session m Unit := modify (· ++ events)

def ask {α : Type} (question : m α) : Session m α := ExceptT.lift (StateT.lift question)

def ofChecked {α : Type} : Except Fault α → Session m α
  | .ok a => return a
  | .error fault => throw (.fault fault)

def textOf (bytes : Except IoFailure ByteArray) : Session m String :=
  match bytes.bind decodeText with
  | .ok text => return text
  | .error cause => throw (.io cause)

end Session

end ExprLex
