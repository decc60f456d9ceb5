import Ambient.Text.Cut

/-!
# Paths

A path is a text whose parts are divided by slashes.  Its normal form has no empty parts and no
parts that mean the directory itself.
-/

namespace Ambient.Path

/-- The parts of a path that name something. -/
def parts (path : String) : List String :=
  ((Text.piecesOf (· == '/') path.toList).map String.ofList).filter fun p => p != "" && p != "."

/-- The slashes that a path begins with: two are kept, more of them are as good as one. -/
def root (path : String) : String :=
  match path.toList.takeWhile (· == '/') with
  | [] => ""
  | [_, _] => "//"
  | _ => "/"

/-- The normal form of a path. -/
def normal (path : String) : String :=
  let text := root path ++ String.intercalate "/" (parts path)
  if text.isEmpty then "." else text

/-- The last part of a path. -/
def fileName (path : String) : String :=
  (parts path).getLast?.getD ""

/-- A file name without its extension: a dot at either end of the name opens none. -/
def stem (path : String) : String :=
  let name := fileName path
  match Text.splitLast? '.' name with
  | some (before, after) => if before.isEmpty || after.isEmpty then name else before
  | none => name

end Ambient.Path
