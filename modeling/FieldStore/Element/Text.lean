/-
The two texts of an element type.

On one line a struct lists its properties between braces.  Spread out it gives each property a
line of its own, and whatever stands between the braces is indented by four more spaces at each
level of nesting.  Names are written as they are.  A line break inside a name therefore starts
a new line, and that line is indented with the others.
-/
import FieldStore.Element.Type

namespace FieldStore.ElementType

mutual
/-- The text of a type on one line. -/
def text : ElementType → String
  | scalar p => p.text
  | vector p rows => s!"Vector<{p.text}, {rows}>"
  | matrix p rows cols => s!"Matrix<{p.text}, {rows}x{cols}>"
  | struct properties =>
      let fields := ", ".intercalate (propertyTexts properties)
      s!"Struct \x7b {fields} \x7d"

/-- The texts of the properties, each with its name. -/
def propertyTexts : List (String × ElementType) → List String
  | [] => []
  | (name, ty) :: rest => s!"{name}: {text ty}" :: propertyTexts rest
end

/-- The characters with four spaces in front of each line, `atStart` saying whether the first
one begins a line.  Nothing is put after a line break that ends the text. -/
def indentLines (atStart : Bool) : List Char → List Char
  | [] => []
  | c :: rest =>
      let line := c :: indentLines (c == '\n') rest
      if atStart then ' ' :: ' ' :: ' ' :: ' ' :: line else line

/-- The text with every line indented by four spaces. -/
def indent (s : String) : String := String.ofList (indentLines true s.toList)

mutual
/-- The text of a type with one line for each property of a struct. -/
def pretty : ElementType → String
  | struct properties => s!"Struct \x7b\n{prettyProperties properties}\x7d"
  | tensor => text tensor

/-- The indented lines of the properties. -/
def prettyProperties : List (String × ElementType) → String
  | [] => ""
  | (name, ty) :: rest => indent s!"{name}: {pretty ty},\n" ++ prettyProperties rest
end

end FieldStore.ElementType
