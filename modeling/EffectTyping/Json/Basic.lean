/-
JSON documents as they are written: numbers as numerals, strings with their escapes, the fields of an object in
order and with repetitions. Writing puts no blanks between the parts.
-/
import EffectTyping.Json.Quoted
import EffectTyping.Number.Numeral

namespace EffectTyping

/-- A JSON document as written. -/
inductive Json where
  | null
  | bool (b : Bool)
  | num (n : Numeral)
  | str (q : Json.Quoted)
  | arr (items : List Json)
  | obj (fields : List (Json.Quoted × Json))
  deriving Repr, Inhabited

namespace Json

def ofString (s : String) : Json := .str (.encode s)

def ofNat (n : Nat) : Json := .num (.ofNat n)

def ofInt (n : Int) : Json := .num (.ofInt n)

/-- The object with the given fields. -/
def record (fields : List (String × Json)) : Json := .obj (fields.map fun f => (.encode f.1, f.2))

/-- One of several alternatives with its content: the object with that one field. -/
def variant (name : String) (content : Json) : Json := .obj [(.encode name, content)]

/-! ## Writing -/

/-- Adds a string in its quotes. -/
def writeQuoted (out : String) (q : Quoted) : String := ((out.push '"') ++ String.ofList q.raw).push '"'

mutual

/-- Adds a document to a text, without blanks. -/
def write (out : String) : Json → String
  | .null => out ++ "null"
  | .bool true => out ++ "true"
  | .bool false => out ++ "false"
  | .num n => out ++ String.ofList (n.render true)
  | .str q => writeQuoted out q
  | .arr items => (writeItems (out.push '[') true items).push ']'
  | .obj fields => (writeFields (out.push '\x7b') true fields).push '\x7d'

/-- Adds items; all but the `first` have a comma before them. -/
def writeItems (out : String) (first : Bool) : List Json → String
  | [] => out
  | item :: items => writeItems (write (if first then out else out.push ',') item) false items

/-- Adds fields; all but the `first` have a comma before them. -/
def writeFields (out : String) (first : Bool) : List (Quoted × Json) → String
  | [] => out
  | (key, value) :: fields =>
    writeFields (write ((writeQuoted (if first then out else out.push ',') key).push ':') value) false fields

end

/-- The text of a document, without blanks. -/
def render (j : Json) : String := write "" j

/-- Adds a new line, indented by two blanks a level. -/
def writeLine (out : String) (level : Nat) : String := out ++ "\n" ++ String.ofList (List.replicate (2 * level) ' ')

mutual

/-- Adds a document to a text, one item or field a line. -/
def writePretty (out : String) (level : Nat) : Json → String
  | .arr [] => out ++ "[]"
  | .arr (item :: items) =>
    let out := writePretty (writeLine (out.push '[') (level + 1)) (level + 1) item
    (writeLine (writePrettyItems out (level + 1) items) level).push ']'
  | .obj [] => out ++ "\x7b\x7d"
  | .obj ((key, value) :: fields) =>
    let out := writeQuoted (writeLine (out.push '\x7b') (level + 1)) key ++ ": "
    let out := writePretty out (level + 1) value
    (writeLine (writePrettyFields out (level + 1) fields) level).push '\x7d'
  | .null => write out .null
  | .bool b => write out (.bool b)
  | .num n => write out (.num n)
  | .str q => write out (.str q)

def writePrettyItems (out : String) (level : Nat) : List Json → String
  | [] => out
  | item :: items => writePrettyItems (writePretty (writeLine (out.push ',') level) level item) level items

def writePrettyFields (out : String) (level : Nat) : List (Quoted × Json) → String
  | [] => out
  | (key, value) :: fields =>
    let out := writeQuoted (writeLine (out.push ',') level) key ++ ": "
    writePrettyFields (writePretty out level value) level fields

end

/-- The text of a document, one item or field a line and indented by level. -/
def pretty (j : Json) : String := writePretty "" 0 j

end Json

end EffectTyping
