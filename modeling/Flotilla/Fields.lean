import Flotilla.Table
import Flotilla.Text.Blank
import Flotilla.Text.Split

/-!
# Named fields in a payload

Commands and replies carry fields as `name=value` pairs separated by semicolons. Reading removes
white space around names and values, skips pieces without an equals sign, and gives a repeated
name its first place and its last value.
-/

namespace Flotilla.Fields

/-- One field as text. -/
def encodeField (field : List Char × List Char) : List Char := field.1 ++ '=' :: field.2

/-- Fields as text, in order. -/
def encode (fields : List (String × String)) : String :=
  String.ofList <| Text.join ';' <|
    fields.map fun field => encodeField (field.1.toList, field.2.toList)

/-- The name and the value of a piece of text that has an equals sign. -/
def field? (piece : List Char) : Option (String × String) :=
  (Text.cut '=' piece).map fun p => (String.ofList (Text.trim p.1), String.ofList (Text.trim p.2))

/-- The fields of a text. -/
def parse (text : String) : Table String String :=
  Table.ofList ((Text.split ';' text.toList).filterMap field?)

end Flotilla.Fields
