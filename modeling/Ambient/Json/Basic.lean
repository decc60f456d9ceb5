import Ambient.Table

/-!
# Values of a data format

`Json` is the dynamic value that declarations and settings are read from.  Objects keep the order
of their keys.  A number written with digits only is an integer; one with a fraction or an exponent
is kept as a decimal, so that no digit is lost before somebody asks for an integer.
-/

namespace Ambient

/-- A value of the data format. -/
inductive Json where
  | null
  | bool (b : Bool)
  | int (n : Int)
  | decimal (mantissa exponent : Int)
  | nonFinite
  | str (s : String)
  | arr (items : List Json)
  | obj (fields : List (String × Json))
  deriving Inhabited

namespace Json

/-- The value under a key of an object. -/
def get? : Json → String → Option Json
  | .obj fields, key => Table.get? fields key
  | _, _ => none

/-- The text of a string value. -/
def str? : Json → Option String
  | .str s => some s
  | _ => none

/-- The fields of an object, none for any other value. -/
def fields : Json → List (String × Json)
  | .obj fs => fs
  | _ => []

/-- The items of an array, none for any other value. -/
def items : Json → List Json
  | .arr xs => xs
  | _ => []

/-- A text, or the null value. -/
def ofOption : Option String → Json
  | some s => .str s
  | none => .null

/-- Texts in order. -/
def ofTexts (xs : List String) : Json :=
  .arr (xs.map .str)

end Json

end Ambient
