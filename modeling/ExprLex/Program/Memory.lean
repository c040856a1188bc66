/-
  ExprLex.Program.Memory — a system held in memory.

  The system has a tree of directories and files, named by their paths from the root, an
  environment, a current directory and a standard input. Paths are resolved step by step as
  systems do: every step but the last must lead to a directory, two dots lead back, and a slash at
  the end asks for a directory.
-/

import ExprLex.Program.Session

namespace ExprLex

inductive FileEntry where
  | file (bytes : ByteArray)
  | directory

structure MemorySystem where
  /-- The files and the directories that were made, by the names on the way to them. -/
  entries : List (List String × FileEntry) := []
  environment : List (String × String) := []
  workDirectory : List String := []
  input : ByteArray := .empty

namespace MemorySystem

def names (path : String) : List String :=
  ((path.toList.splitOn '/').filter fun name => !name.isEmpty).map String.ofList

/-- What stands at a place. A place on the way to an entry is a directory. -/
def entry? (s : MemorySystem) (place : List String) : Option FileEntry :=
  match s.entries.find? fun entry => entry.1 = place with
  | some (_, entry) => some entry
  | none =>
    if place.isEmpty || s.entries.any fun entry => place.isPrefixOf entry.1 then some .directory
    else none

def follow (s : MemorySystem) (place : List String) : List String →
    Except IoFailure (List String × FileEntry)
  | [] =>
    match s.entry? place with
    | some entry => .ok (place, entry)
    | none => .error .notFound
  | name :: more =>
    match s.entry? place with
    | none => .error .notFound
    | some (.file _) => .error .notADirectory
    | some .directory =>
      if name = "." then follow s place more
      else if name = ".." then follow s place.dropLast more
      else follow s (place ++ [name]) more

def resolve (s : MemorySystem) (path : String) : Except IoFailure FileEntry :=
  if path.isEmpty then .error .notFound
  else do
    let start := if path.startsWith "/" then [] else s.workDirectory
    let steps := names path ++ (if path.endsWith "/" then ["."] else [])
    let (_, entry) ← s.follow start steps
    return entry

def readFile (s : MemorySystem) (path : String) : Except IoFailure ByteArray := do
  match ← s.resolve path with
  | .file bytes => return bytes
  | .directory => throw .isADirectory

def host (s : MemorySystem) : Host Id where
  lookupVariable name := s.environment.lookup name
  hasPath path := (s.resolve path).toBool
  readFile path := s.readFile path
  readInput := .ok s.input

end MemorySystem

end ExprLex
