import Ambient.Cli.Path
import Ambient.Table

/-!
# What a path leads to

A directory is given by the texts of its files, named by their paths.  A path leads to a file, to
a directory, or nowhere; in the last case it matters whether a file could be created there.
-/

namespace Ambient

/-- What is found at the end of a path. -/
inductive Entry where
  | file (text : String)
  | directory
  /-- Nothing is there, but the directory for it is. -/
  | vacant
  /-- A directory on the way is missing. -/
  | unreachable
  /-- Something on the way is a file. -/
  | obstructed
  deriving DecidableEq, Repr

namespace Entry

/-- There is a file below the directory. -/
def isDirectory (files : Table String) (place : List String) : Bool :=
  files.any fun f => Text.startsWith (String.intercalate "/" place ++ "/") f.1

/-- Follows the parts of a path from a directory inside; `place` is where it is. -/
def follow (files : Table String) (place : List String) : List String → Entry
  | [] => directory
  | part :: rest =>
    if part = "" || part = "." then follow files place rest
    else if part = ".." then
      if place.isEmpty then
        if rest.all (fun p => p = "" || p = "." || p = "..") then directory else unreachable
      else follow files place.dropLast rest
    else
      let here := place ++ [part]
      match files.get? (String.intercalate "/" here) with
      | some text => if rest.isEmpty then file text else obstructed
      | none =>
        if isDirectory files here then follow files here rest
        else if rest.all (· = "") then vacant
        else unreachable

/-- What a path leads to in a directory of files. -/
def find (files : Table String) (path : String) : Entry :=
  if path.isEmpty then vacant
  else if (Path.root path).isEmpty then
    follow files [] ((Text.piecesOf (· == '/') path.toList).map String.ofList)
  else if (Path.parts path).isEmpty then directory
  else unreachable

end Entry

end Ambient
