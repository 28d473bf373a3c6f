/-
What a command writes and the code it ends with, as a function of its arguments and of the files.
-/
import EffectTyping.Command.Args
import EffectTyping.Document
import EffectTyping.Report

namespace EffectTyping.Command

/-- What a run of the program shows. -/
structure Outcome where
  code : Nat
  stdout : String
  stderr : String
  deriving DecidableEq, Repr

namespace Outcome

/-- Arguments that ask for no command. -/
def usage : Outcome := ⟨2, "", "usage"⟩

def ofError (e : LoadError) : Outcome := ⟨2, "", "Error: " ++ e.message⟩

/-- A verdict on a line of its own. -/
def ofReport (format : Format) (report : Report) : Outcome :=
  let text := match format with
    | .pretty => report.render
    | .json => report.toJson.pretty
  ⟨report.exitCode, text ++ "\n", ""⟩

end Outcome

/-- Solves an equation between two types. -/
def runUnify (a b : Ty) : Outcome :=
  match EffectTyping.unify a b with
  | .ok s => ⟨0, "solved: " ++ s.render ++ "\n  " ++ (s.apply a).render ++ "\n", ""⟩
  | .error e => ⟨1, "no solution: " ++ e.message ++ "\n", ""⟩

/-- Decides whether a type is an instance of another. -/
def runCompat (general specific : Ty) : Outcome :=
  match general.instantiation? specific with
  | some witness =>
    ⟨0, "compatible: " ++ specific.render ++ " is an instance of " ++ general.render ++ " via " ++
      witness.render ++ "\n", ""⟩
  | none =>
    ⟨1, "incompatible: " ++ specific.render ++ " is not an instance of " ++ general.render ++ "\n", ""⟩

/-- Shows a term. -/
def runShow (t : Term) : Outcome :=
  ⟨0, t.render ++ "\n  type: " ++ t.ty.render ++ "  effect: " ++ t.eff.name ++ "  size: " ++
    toString t.size ++ "  depth: " ++ toString t.depth ++ "\n", ""⟩

section

variable {m : Type → Type} [Monad m] (readFile : String → m (Option ByteArray))

/-- Checks the term of a file in the environment of another. A term with the flags that are no effect gets a
verdict; any other mistake in a document is an error. -/
def runCheck (file : String) (env : Option String) (config : Config) (format : Format) : m Outcome := do
  match ← Document.loadTerm readFile file with
  | .error e =>
    return if e.isIllegalEffect then .ofReport format (.ofInput e.message) else .ofError e
  | .ok t =>
    let loaded ← match env with
      | none => pure (.ok .empty)
      | some path => Document.loadEnv readFile path
    return match loaded with
    | .error e => .ofError e
    | .ok env => .ofReport format (.ofCheck t (t.check config env))

/-- Reads two types, the first one first, and answers about them. -/
def withTypes (left right : String) (answer : Ty → Ty → Outcome) : m Outcome := do
  match ← Document.loadTy readFile left with
  | .error e => return .ofError e
  | .ok a =>
    match ← Document.loadTy readFile right with
    | .error e => return .ofError e
    | .ok b => return answer a b

/-- Runs a command. -/
def run : Command → m Outcome
  | .check file env config format => runCheck readFile file env config format
  | .unify left right => withTypes readFile left right runUnify
  | .compat general specific => withTypes readFile general specific runCompat
  | .show file => do
    match ← Document.loadTerm readFile file with
    | .error e => return .ofError e
    | .ok t => return runShow t

/-- Runs the command that the arguments ask for. -/
def runArgs (arguments : List String) : m Outcome :=
  match ofArgs? arguments with
  | some command => run readFile command
  | none => return .usage

end

end EffectTyping.Command
