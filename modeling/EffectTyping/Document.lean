/-
Documents that hold a term, a type or an environment: reading them from files or from a text given directly, and
what can be wrong with them. The flag pair `[false, true]`, which is no effect, is told apart from other mistakes.
How a file is read is a parameter, so that reading is a function of the files.
-/
import EffectTyping.Codec.Term
import EffectTyping.Json.Datum
import EffectTyping.Text.Blank

namespace EffectTyping

/-- What is wrong with a document. The context says which document should hold what. -/
inductive LoadError where
  | illegalEffect (context : String)
  | invalid (context : String)
  | unreadable (path : String)
  | tooLarge (path : String) (bytes : Nat)
  deriving DecidableEq, Repr

namespace LoadError

def message : LoadError → String
  | illegalEffect context =>
    context ++ ": input carries the effect flag pair [false, true]: " ++ Effect.illegalFlags
  | invalid context => context
  | unreadable path => "failed to read '" ++ path ++ "'"
  | tooLarge path bytes =>
    "input file '" ++ path ++ "' exceeds 1MB limit (" ++ toString bytes ++ " bytes)"

def isIllegalEffect : LoadError → Bool
  | illegalEffect _ => true
  | _ => false

end LoadError

/-- What is wrong with a text that should be a document of some kind. -/
inductive ParseError where
  /-- It is a document that has the pair `[false, true]` somewhere. -/
  | illegalEffect
  | invalid
  deriving DecidableEq, Repr

namespace Document

/-- Is the node the array of the flags that are no effect? -/
def isIllegalPair : Json.Datum → Bool
  | .arr [.bool false, .bool true] => true
  | _ => false

/-- Does the text say something, and does it have the pair that is no effect anywhere? -/
def carriesIllegalPair (text : String) : Bool :=
  match (Json.parse? text).bind Json.Datum.ofJson? with
  | some d => Json.Datum.anyNode isIllegalPair false [d]
  | none => false

/-- What a text holds. If it does not hold that, the pair that is no effect is looked for. -/
def parse {α : Type} (decode? : Json → Option α) (text : String) : Except ParseError α :=
  match (Json.parse? text).bind decode? with
  | some a => .ok a
  | none => .error (if carriesIllegalPair text then .illegalEffect else .invalid)

/-- What a text given as `source` holds, which should be a `kind`. -/
def parseAs {α : Type} (decode? : Json → Option α) (kind source text : String) : Except LoadError α :=
  match parse decode? text with
  | .ok a => .ok a
  | .error e =>
    let context := "'" ++ source ++ "' is not a valid " ++ kind
    match e with
    | .illegalEffect => .error (.illegalEffect context)
    | .invalid => .error (.invalid context)

/-- The largest file that is read, in bytes. -/
def maxBytes : Nat := 1000000

/-- The text of a file with the given content: it has to be UTF-8, and not too large. -/
def decodeFile (path : String) : Option ByteArray → Except LoadError String
  | none => .error (.unreadable path)
  | some bytes =>
    match String.fromUTF8? bytes with
    | none => .error (.unreadable path)
    | some text => if maxBytes < bytes.size then .error (.tooLarge path bytes.size) else .ok text

section

variable {m : Type → Type} [Monad m] (readFile : String → m (Option ByteArray))

/-- The text of a file. -/
def readText (path : String) : m (Except LoadError String) := return decodeFile path (← readFile path)

/-- What a file holds, which should be a `kind`. -/
def load {α : Type} (decode? : Json → Option α) (kind path : String) : m (Except LoadError α) :=
  return (← readText readFile path).bind fun text => parseAs decode? kind path text

def loadTerm (path : String) : m (Except LoadError Term) := load readFile Term.ofJson? "term" path

def loadEnv (path : String) : m (Except LoadError Env) := load readFile Env.ofJson? "type environment" path

/-- Is the argument for a type the type itself, and not the name of a file? -/
def isInline (arg : String) : Bool :=
  match Text.firstVisible? arg with
  | some '\x7b' | some '"' => true
  | _ => false

/-- A type given directly or by the name of a file. -/
def loadTy (arg : String) : m (Except LoadError Ty) :=
  if isInline arg then return parseAs Ty.ofJson? "type" arg arg
  else load readFile Ty.ofJson? "type" arg

end

end Document

end EffectTyping
