/-
The document of a list of tokens. The arrays and objects that are open are held on a stack, so documents of any
depth can be read.
-/
import EffectTyping.Json.Token

namespace EffectTyping.Json

/-- An array or object that is open, with what it holds so far, last one first. -/
inductive Frame where
  | items (done : List Json)
  /-- An object in which the value of `key` is awaited. -/
  | fields (done : List (Quoted × Json)) (key : Quoted)

/-- What has been read, and what may come next. -/
inductive Parsing where
  /-- A value has to come. -/
  | value (stack : List Frame)
  /-- After the opening of an array: a value or the end. -/
  | firstItem (stack : List Frame)
  /-- After the opening of an object: a key or the end. -/
  | firstKey (stack : List Frame)
  /-- After a comma in an object: a key. -/
  | nextKey (done : List (Quoted × Json)) (stack : List Frame)
  /-- After a key: a colon. -/
  | afterKey (done : List (Quoted × Json)) (key : Quoted) (stack : List Frame)
  /-- A value is complete; what it stands in decides what may follow. -/
  | complete (v : Json) (stack : List Frame)

namespace Parsing

/-- Reads the first token of a value. -/
def beginValue (stack : List Frame) : Token → Option Parsing
  | .null => some (complete .null stack)
  | .bool b => some (complete (.bool b) stack)
  | .num n => some (complete (.num n) stack)
  | .str q => some (complete (.str q) stack)
  | .openArray => some (firstItem stack)
  | .openObject => some (firstKey stack)
  | _ => none

/-- Reads one token; none if no document can go on like this. -/
def next (p : Parsing) (t : Token) : Option Parsing :=
  match p, t with
  | value stack, t => beginValue stack t
  | firstItem stack, .closeArray => some (complete (.arr []) stack)
  | firstItem stack, t => beginValue (.items [] :: stack) t
  | firstKey stack, .closeObject => some (complete (.obj []) stack)
  | firstKey stack, .str key => some (afterKey [] key stack)
  | nextKey done stack, .str key => some (afterKey done key stack)
  | afterKey done key stack, .colon => some (value (.fields done key :: stack))
  | complete v (.items done :: stack), .comma => some (value (.items (v :: done) :: stack))
  | complete v (.items done :: stack), .closeArray => some (complete (.arr (v :: done).reverse) stack)
  | complete v (.fields done key :: stack), .comma => some (nextKey ((key, v) :: done) stack)
  | complete v (.fields done key :: stack), .closeObject =>
    some (complete (.obj ((key, v) :: done).reverse) stack)
  | _, _ => none

/-- Reads tokens. -/
def run (p : Parsing) : List Token → Option Parsing
  | [] => some p
  | t :: ts =>
    match p.next t with
    | none => none
    | some p => run p ts

/-- The document read, if it is complete. -/
def finish? : Parsing → Option Json
  | complete v [] => some v
  | _ => none

end Parsing

/-- The document of a list of tokens. -/
def ofTokens? (tokens : List Token) : Option Json := (Parsing.run (.value []) tokens).bind Parsing.finish?

/-- The document of a text. -/
def parse? (text : String) : Option Json := (Token.scan text.toList).bind ofTokens?

end EffectTyping.Json
