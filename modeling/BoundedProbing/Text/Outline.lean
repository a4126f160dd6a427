import BoundedProbing.Text.Quoted

/-!
# Outlines

The text of a structured value: a record with named fields, a list, or a set.

An outline is written either on one line, with commas between the parts, or
indented, one part to a line and a comma behind each. An empty list or set is a
pair of brackets in both forms, and a record without fields is its title.

## Main definitions

* `Outline`: A structured text.
* `Outline.oneLine`: The form on one line.
* `Outline.indented`: The form with a line for each part.
-/

namespace BoundedProbing

namespace Text

/-- The structure of a text. -/
inductive Outline where
  /-- A text without parts. -/
  | atom (text : String)
  /-- Named fields under a title. -/
  | record (title : String) (fields : List (String × Outline))
  /-- Parts in square brackets. -/
  | list (parts : List Outline)
  /-- Parts in braces. -/
  | set (parts : List Outline)
  deriving Inhabited

namespace Outline

def text (content : String) : Outline :=
  .atom (quoted content)

def number (value : Nat) : Outline :=
  .atom (toString value)

mutual

/-- The outline on one line. -/
def oneLine : Outline → String
  | .atom text => text
  | .record title [] => title
  | .record title fields => title ++ " \x7b " ++ ", ".intercalate (fieldsOnLine fields) ++ " \x7d"
  | .list parts => "[" ++ ", ".intercalate (partsOnLine parts) ++ "]"
  | .set parts => "\x7b" ++ ", ".intercalate (partsOnLine parts) ++ "\x7d"

/-- Fields with their names, each on one line. -/
def fieldsOnLine : List (String × Outline) → List String
  | [] => []
  | (name, part) :: rest => (name ++ ": " ++ part.oneLine) :: fieldsOnLine rest

/-- Parts, each on one line. -/
def partsOnLine : List Outline → List String
  | [] => []
  | part :: rest => part.oneLine :: partsOnLine rest

end

def deeper (margin : String) : String :=
  margin ++ "    "

/-- Brackets around lines that already end in a newline, none for no lines. -/
def bracketed (margin opening closing : String) (lines : List String) : String :=
  match lines with
  | [] => opening ++ closing
  | _ => opening ++ "\n" ++ String.join lines ++ margin ++ closing

mutual

/-- The outline with a line for each part. The lines after the first start with
    the margin. -/
def indentedAt (margin : String) : Outline → String
  | .atom text => text
  | .record title [] => title
  | .record title fields =>
    bracketed margin (title ++ " \x7b") "\x7d" (fieldLines (deeper margin) fields)
  | .list parts => bracketed margin "[" "]" (partLines (deeper margin) parts)
  | .set parts => bracketed margin "\x7b" "\x7d" (partLines (deeper margin) parts)

/-- Fields with their names, one to a line. -/
def fieldLines (margin : String) : List (String × Outline) → List String
  | [] => []
  | (name, part) :: rest =>
    (margin ++ name ++ ": " ++ part.indentedAt margin ++ ",\n") :: fieldLines margin rest

/-- Parts, one to a line. -/
def partLines (margin : String) : List Outline → List String
  | [] => []
  | part :: rest => (margin ++ part.indentedAt margin ++ ",\n") :: partLines margin rest

end

/-- The outline with a line for each part. -/
def indented (outline : Outline) : String :=
  outline.indentedAt ""

end Outline

end Text

end BoundedProbing
