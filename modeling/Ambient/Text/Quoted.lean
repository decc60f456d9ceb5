import Ambient.Text.Printable

/-!
# Quoted texts

Three ways of writing a text between quotes.  `quoteAscii` and `quoteRaw` write JSON string
literals: the first leaves only the visible ASCII characters as they are, the second escapes only
what JSON requires.  `quoteEither` picks the quote that needs fewer escapes and writes characters
without a visible form by their code point.
-/

namespace Ambient.Text

/-- One hexadecimal digit, in lower case. -/
def hexDigit (n : Nat) : Char :=
  if n < 10 then Char.ofNat (0x30 + n) else Char.ofNat (0x57 + n)

/-- The last `width` hexadecimal digits of `n`. -/
def hexDigits : (width n : Nat) → List Char
  | 0, _ => []
  | width + 1, n => hexDigits width (n / 16) ++ [hexDigit (n % 16)]

/-- The escape of one 16-bit unit in a JSON string. -/
def unitEscape (n : Nat) : List Char :=
  '\\' :: 'u' :: hexDigits 4 n

/-- The escapes that JSON abbreviates to one letter. -/
def shortEscape? (c : Char) : Option (List Char) :=
  match c with
  | '"' => some ['\\', '"']
  | '\\' => some ['\\', '\\']
  | '\n' => some ['\\', 'n']
  | '\r' => some ['\\', 'r']
  | '\t' => some ['\\', 't']
  | '\x0c' => some ['\\', 'f']
  | '\x08' => some ['\\', 'b']
  | _ => none

/-- A character of an ASCII JSON string: beyond the basic plane it takes two units. -/
def asciiEscape (c : Char) : List Char :=
  match shortEscape? c with
  | some cs => cs
  | none =>
    let n := c.toNat
    if 0x20 ≤ n && n ≤ 0x7e then [c]
    else if n < 0x10000 then unitEscape n
    else
      unitEscape (0xd800 + (n - 0x10000) / 0x400) ++ unitEscape (0xdc00 + (n - 0x10000) % 0x400)

/-- A character of a JSON string that keeps whatever JSON allows. -/
def rawEscape (c : Char) : List Char :=
  match shortEscape? c with
  | some cs => cs
  | none => if c.toNat < 0x20 then unitEscape c.toNat else [c]

/-- A JSON string literal of visible ASCII characters only. -/
def quoteAscii (s : String) : String :=
  String.ofList ('"' :: (s.toList.flatMap asciiEscape ++ ['"']))

/-- A JSON string literal that escapes as little as possible. -/
def quoteRaw (s : String) : String :=
  String.ofList ('"' :: (s.toList.flatMap rawEscape ++ ['"']))

/-- A character between the quotes `q`. -/
def visibleEscape (q c : Char) : List Char :=
  if c == q || c == '\\' then ['\\', c]
  else
    match c with
    | '\n' => ['\\', 'n']
    | '\r' => ['\\', 'r']
    | '\t' => ['\\', 't']
    | _ =>
      let n := c.toNat
      if isPrintable c then [c]
      else if n < 0x100 then '\\' :: 'x' :: hexDigits 2 n
      else if n < 0x10000 then '\\' :: 'u' :: hexDigits 4 n
      else '\\' :: 'U' :: hexDigits 8 n

/-- The single quote, unless the text has single quotes and no double ones. -/
def quoteFor (cs : List Char) : Char :=
  if cs.contains '\x27' && !cs.contains '"' then '"' else '\x27'

/-- A text between the quotes that need fewer escapes, everything in it visible. -/
def quoteEither (s : String) : String :=
  let q := quoteFor s.toList
  String.ofList (q :: (s.toList.flatMap (visibleEscape q) ++ [q]))

theorem length_hexDigits (width n : Nat) : (hexDigits width n).length = width := by
  induction width generalizing n with
  | zero => rfl
  | succ w ih => simp [hexDigits, ih]

end Ambient.Text
