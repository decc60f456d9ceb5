import Ambient.Doc.Tag
import Ambient.Notice
import Ambient.Text.Line

/-!
# Documentation comments

A block comment is unwrapped (delimiters and the `*` gutter removed, every line trimmed) and cut
into chunks at the lines that begin with a tag.  The chunk before the first tag and the text of
description tags make the description; every other chunk is a tag.
-/

namespace Ambient.Doc

open Ambient.Text

/-- A line without its gutter: leading blanks and the stars after them. -/
def dropGutter (line : List Char) : List Char :=
  match trimFront isBlank line with
  | '*' :: rest => rest.dropWhile (· == '*')
  | _ => line

/-- A comment without its delimiters. -/
def dropDelimiters (cs : List Char) : List Char :=
  let cs := (after? ['/', '*'] cs).getD cs
  ((after? ['/', '*'] cs.reverse).map List.reverse).getD cs

/-- The text of a comment: no delimiters, no gutter, every line trimmed. -/
def unwrapChars (raw : List Char) : List Char :=
  let ls := (linesOf (dropDelimiters (trimEnds isBlank raw))).map fun l =>
    trimEnds isBlank (dropGutter l)
  trimEnds isBlank (['\n'].intercalate ls)

/-- The text of a comment. -/
def unwrap (raw : String) : String :=
  String.ofList (unwrapChars raw.toList)

/-- A line that begins with a tag. -/
def beginsTag : List Char → Bool
  | '@' :: c :: _ => isWord c
  | _ => false

/-- Lines grouped into chunks: each line that begins with a tag opens a new one. -/
def chunksOf : List (List Char) → List (List (List Char))
  | [] => [[]]
  | l :: ls =>
    match chunksOf ls with
    | [] => [[l]]
    | c :: cs => if beginsTag l then [] :: (l :: c) :: cs else (l :: c) :: cs

/-- A description and the tags that follow it. -/
structure Comment where
  description : String := ""
  tags : List Tag := []

namespace Comment

/-- Adds a paragraph to the description. -/
def describe (doc : Comment) (text : String) : Comment :=
  if text.isEmpty then doc
  else if doc.description.isEmpty then { doc with description := text }
  else { doc with description := doc.description ++ "\n" ++ text }

/-- Adds what a chunk holds. -/
def addChunk (doc : Comment) (chunk : List (List Char)) : Comment :=
  let cs := trimEnds isBlank (['\n'].intercalate chunk)
  match Tag.read? cs with
  | none => doc.describe (String.ofList cs)
  | some tag =>
    if tag.title = "description" then doc.describe (trim (tag.description.getD ""))
    else { doc with tags := doc.tags ++ [tag] }

/-- The comment that a source text between comment delimiters holds. -/
def read (raw : String) : Comment :=
  (chunksOf (piecesOf (· == '\n') (unwrapChars raw.toList))).foldl addChunk {}

/-- The tags of a title. -/
def find (doc : Comment) (title : String) : List Tag :=
  doc.tags.filter (·.title = title)

/-- The first tag of a title. -/
def first? (doc : Comment) (title : String) : Option Tag :=
  doc.tags.find? (·.title = title)

/-- Whether a tag of this title is there. -/
def has (doc : Comment) (title : String) : Bool :=
  doc.tags.any (·.title = title)

/-- The parameters by name; of two tags for one name the later counts. -/
def params (doc : Comment) : Table Tag :=
  Table.ofEntries ((doc.find "param").filterMap fun t => t.name.map fun n => (n, t))

/-- The notices of reading a comment: one for each type that could not be read. -/
def notices (doc : Comment) : Log :=
  doc.tags.filterMap fun t =>
    match t.rawType, t.type with
    | some raw, none => some (.unreadableType t.title raw)
    | _, _ => none

end Comment

/-- Whether a text has, somewhere, an at sign, one of the words, and the end of a word. -/
def mentions (words : List String) : List Char → Bool
  | [] => false
  | c :: cs =>
    (c == '@' && words.any fun w =>
      match after? w.toList cs with
      | some rest => !(rest.head?.any isWord)
      | none => false) || mentions words cs

/-- A comment about the file or an external type, not about what follows it. -/
def isDetached (raw : String) : Bool :=
  mentions ["typedef", "module", "file", "fileoverview", "external"] raw.toList

/-- A comment that describes the module. -/
def isModuleComment (raw : String) : Bool :=
  mentions ["module", "file", "fileoverview"] raw.toList

/-- A comment between block delimiters. -/
def isBlock (raw : String) : Bool :=
  startsWith "/*" raw

end Ambient.Doc
