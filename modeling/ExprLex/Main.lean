/-
  ExprLex.Main — the program on the system it is started on.

  This is the only module that talks to the system. Files and the standard input are read as
  bytes, and what the system reports about them is handed on. All lines of a log bear the time at
  which the run ended, in universal time.
-/

import ExprLex.Program.Run
import Std.Time.Format

namespace ExprLex

/-- The failure that the system reports; a code may come with a minus sign in front, which reads
as its complement. -/
def IoFailure.ofError : IO.Error → IoFailure
  | .noFileOrDirectory .. => .notFound
  | .noSuchThing .. => .notFound
  | .permissionDenied .. => .permissionDenied
  | .inappropriateType _ code details =>
    if code = 20 ∨ code = 0 - 20 then .notADirectory
    else if code = 21 ∨ code = 0 - 21 then .isADirectory
    else .other details
  | e => .other (toString e)

def readBytes (action : IO ByteArray) : IO (Except IoFailure ByteArray) := do
  match ← action.toBaseIO with
  | .ok bytes => return .ok bytes
  | .error e => return .error (.ofError e)

def systemHost : Host IO where
  lookupVariable name := IO.getEnv name
  hasPath path := do return (← (IO.FS.realPath path).toBaseIO).toBool
  readFile path := readBytes (IO.FS.readBinFile path)
  readInput := readBytes do (← IO.getStdin).readBinToEnd

def timeStamp : IO String := do
  let now ← Std.Time.Timestamp.now
  let utc := Std.Time.DateTime.ofTimestamp now Std.Time.TimeZone.ZoneRules.UTC
  return utc.format "uuuu-MM-dd'T'HH:mm:ss.SSSSSS'Z'"

end ExprLex

def main (arguments : List String) : IO UInt32 := do
  let report ← ExprLex.Program.run ExprLex.systemHost arguments
  IO.print report.output
  IO.eprint (report.errorOutput (← ExprLex.timeStamp))
  return report.exitCode.toUInt32
