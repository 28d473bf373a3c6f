/-
Terms, patterns, paths and environments as JSON documents. A node of a term is an alternative named after its form,
with its parts as the fields of a record.
-/
import EffectTyping.Codec.Ty
import EffectTyping.Term.Path
import EffectTyping.Typing.Pattern
import EffectTyping.Number.Layout
import EffectTyping.Number.Reading

namespace EffectTyping

/-! ## Literals and tags -/

/-- A float in a document is written positionally from 0.00001 up to 10^16; of two shortest decimals at the same
distance the one with the even last digit is taken. -/
def Json.floatFormat : DoubleFormat where
  plainFrom := -5
  plainBelow := 16
  tie := .toEven

namespace Literal

def toJson : Literal → Json
  | unit => .ofString "Unit"
  | int n => .variant "Int" (.ofInt n.toInt)
  | float x => .variant "Float" (.num (Json.floatFormat.layout x))
  | bool b => .variant "Bool" (.bool b)
  | string s => .variant "Str" (.ofString s)

/-- The integer of 64 bits that a document gives. -/
def int64? (j : Json) : Option Int64 :=
  match j.int? with
  | some n => if Int64.minValue.toInt ≤ n ∧ n ≤ Int64.maxValue.toInt then some (.ofInt n) else none
  | none => none

/-- The double that a document gives; any number in range does. -/
def double? : Json → Option Double
  | .num n => n.toDouble?
  | _ => none

def ofJson? (j : Json) : Option Literal :=
  if j.name? = some "Unit" then some unit
  else
    match j.variant? with
    | some ("Int", ⟨content, _⟩) => (int64? content).map int
    | some ("Float", ⟨content, _⟩) => (double? content).map float
    | some ("Bool", ⟨content, _⟩) => content.bool?.map bool
    | some ("Str", ⟨content, _⟩) => content.string?.map string
    | _ => none

end Literal

namespace Tag

def toJson : Tag → Json
  | tuple arity => .variant "Tuple" (.ofNat arity.toNat)
  | variant name => .variant "Variant" (.ofString name)

def ofJson? (j : Json) : Option Tag :=
  match j.variant? with
  | some ("Tuple", ⟨content, _⟩) => (content.natBelow? UInt64.size).map fun n => tuple (.ofNat n)
  | some ("Variant", ⟨content, _⟩) => content.string?.map variant
  | _ => none

end Tag

/-! ## Patterns -/

namespace Pattern

mutual

def toJson : Pattern → Json
  | .var name => .variant "Var" (.ofString name)
  | .ctor ty tag args =>
    .variant "Ctor" (.record [("ty", ty.toJson), ("tag", tag.toJson), ("args", .arr (toJsonEach args))])

def toJsonEach : List Pattern → List Json
  | [] => []
  | p :: ps => toJson p :: toJsonEach ps

end

def ofJson? (j : Json) : Option Pattern :=
  match j.variant? with
  | some ("Var", ⟨content, _⟩) => content.string?.map .var
  | some ("Ctor", ⟨content, _⟩) =>
    match content.record? ["ty", "tag", "args"] with
    | some [⟨ty, _⟩, ⟨tag, _⟩, ⟨args, _⟩] =>
      match args.items? with
      | some items => do
        let ty ← Ty.ofJson? ty
        let tag ← Tag.ofJson? tag
        let args ← items.mapM fun (⟨item, _⟩ : args.Part) => ofJson? item
        some (.ctor ty tag args)
      | none => none
    | _ => none
  | _ => none
termination_by sizeOf j
decreasing_by all_goals omega

/-- The one text of a pattern. -/
def canonical (p : Pattern) : String := p.toJson.render

end Pattern

/-! ## Terms -/

namespace Term

mutual

def toJson : Term → Json
  | .lit l => .variant "Lit" l.toJson
  | .var ty name => .variant "Variable" (.record [("ty", ty.toJson), ("name", .ofString name)])
  | .list ty elems eff =>
    .variant "List" (.record [("ty", ty.toJson), ("elems", .arr (toJsonEach elems)), ("eff", eff.toJson)])
  | .ctor ty tag args eff =>
    .variant "Ctor" (.record [("ty", ty.toJson), ("tag", tag.toJson), ("args", .arr (toJsonEach args)),
      ("eff", eff.toJson)])
  | .cases ty scrutinee branches eff =>
    .variant "Match" (.record [("ty", ty.toJson), ("scrutinee", toJson scrutinee),
      ("cases", .arr (toJsonBranches branches)), ("eff", eff.toJson)])
  | .lambda ty param paramTy body =>
    .variant "Lambda" (.record [("ty", ty.toJson), ("param", .ofString param), ("param_ty", paramTy.toJson),
      ("body", toJson body)])
  | .apply ty fn argTy arg eff =>
    .variant "Apply" (.record [("ty", ty.toJson), ("fun", toJson fn), ("arg_ty", argTy.toJson),
      ("arg", toJson arg), ("eff", eff.toJson)])
  | .letIn name boundTy bound body ty eff =>
    .variant "Let" (.record [("name", .ofString name), ("bound_ty", boundTy.toJson), ("bound", toJson bound),
      ("body", toJson body), ("ty", ty.toJson), ("eff", eff.toJson)])
  | .cond ty test thenBranch elseBranch eff =>
    .variant "If" (.record [("ty", ty.toJson), ("cond", toJson test), ("then_branch", toJson thenBranch),
      ("else_branch", toJson elseBranch), ("eff", eff.toJson)])

def toJsonEach : List Term → List Json
  | [] => []
  | t :: ts => toJson t :: toJsonEach ts

def toJsonBranches : List (Pattern × Term) → List Json
  | [] => []
  | (p, t) :: bs => .record [("pat", p.toJson), ("body", toJson t)] :: toJsonBranches bs

end

def ofJson? (j : Json) : Option Term :=
  match j.variant? with
  | some ("Lit", ⟨content, _⟩) => (Literal.ofJson? content).map .lit
  | some ("Variable", ⟨content, _⟩) =>
    match content.record? ["ty", "name"] with
    | some [⟨ty, _⟩, ⟨name, _⟩] => do
      let ty ← Ty.ofJson? ty
      let name ← name.string?
      some (.var ty name)
    | _ => none
  | some ("List", ⟨content, _⟩) =>
    match content.record? ["ty", "elems", "eff"] with
    | some [⟨ty, _⟩, ⟨elems, _⟩, ⟨eff, _⟩] =>
      match elems.items? with
      | some items => do
        let ty ← Ty.ofJson? ty
        let elems ← items.mapM fun (⟨item, _⟩ : elems.Part) => ofJson? item
        let eff ← Effect.ofJson? eff
        some (.list ty elems eff)
      | none => none
    | _ => none
  | some ("Ctor", ⟨content, _⟩) =>
    match content.record? ["ty", "tag", "args", "eff"] with
    | some [⟨ty, _⟩, ⟨tag, _⟩, ⟨args, _⟩, ⟨eff, _⟩] =>
      match args.items? with
      | some items => do
        let ty ← Ty.ofJson? ty
        let tag ← Tag.ofJson? tag
        let args ← items.mapM fun (⟨item, _⟩ : args.Part) => ofJson? item
        let eff ← Effect.ofJson? eff
        some (.ctor ty tag args eff)
      | none => none
    | _ => none
  | some ("Match", ⟨content, _⟩) =>
    match content.record? ["ty", "scrutinee", "cases", "eff"] with
    | some [⟨ty, _⟩, ⟨scrutinee, _⟩, ⟨branches, _⟩, ⟨eff, _⟩] =>
      match branches.items? with
      | some items => do
        let ty ← Ty.ofJson? ty
        let scrutinee ← ofJson? scrutinee
        let branches ← items.mapM fun (⟨item, _⟩ : branches.Part) =>
          match item.record? ["pat", "body"] with
          | some [⟨pat, _⟩, ⟨body, _⟩] => do
            let pat ← Pattern.ofJson? pat
            let body ← ofJson? body
            some (pat, body)
          | _ => none
        let eff ← Effect.ofJson? eff
        some (.cases ty scrutinee branches eff)
      | none => none
    | _ => none
  | some ("Lambda", ⟨content, _⟩) =>
    match content.record? ["ty", "param", "param_ty", "body"] with
    | some [⟨ty, _⟩, ⟨param, _⟩, ⟨paramTy, _⟩, ⟨body, _⟩] => do
      let ty ← Ty.ofJson? ty
      let param ← param.string?
      let paramTy ← Ty.ofJson? paramTy
      let body ← ofJson? body
      some (.lambda ty param paramTy body)
    | _ => none
  | some ("Apply", ⟨content, _⟩) =>
    match content.record? ["ty", "fun", "arg_ty", "arg", "eff"] with
    | some [⟨ty, _⟩, ⟨fn, _⟩, ⟨argTy, _⟩, ⟨arg, _⟩, ⟨eff, _⟩] => do
      let ty ← Ty.ofJson? ty
      let fn ← ofJson? fn
      let argTy ← Ty.ofJson? argTy
      let arg ← ofJson? arg
      let eff ← Effect.ofJson? eff
      some (.apply ty fn argTy arg eff)
    | _ => none
  | some ("Let", ⟨content, _⟩) =>
    match content.record? ["name", "bound_ty", "bound", "body", "ty", "eff"] with
    | some [⟨name, _⟩, ⟨boundTy, _⟩, ⟨bound, _⟩, ⟨body, _⟩, ⟨ty, _⟩, ⟨eff, _⟩] => do
      let name ← name.string?
      let boundTy ← Ty.ofJson? boundTy
      let bound ← ofJson? bound
      let body ← ofJson? body
      let ty ← Ty.ofJson? ty
      let eff ← Effect.ofJson? eff
      some (.letIn name boundTy bound body ty eff)
    | _ => none
  | some ("If", ⟨content, _⟩) =>
    match content.record? ["ty", "cond", "then_branch", "else_branch", "eff"] with
    | some [⟨ty, _⟩, ⟨test, _⟩, ⟨thenBranch, _⟩, ⟨elseBranch, _⟩, ⟨eff, _⟩] => do
      let ty ← Ty.ofJson? ty
      let test ← ofJson? test
      let thenBranch ← ofJson? thenBranch
      let elseBranch ← ofJson? elseBranch
      let eff ← Effect.ofJson? eff
      some (.cond ty test thenBranch elseBranch eff)
    | _ => none
  | _ => none
termination_by sizeOf j
decreasing_by all_goals omega

/-- The one text of a term. -/
def canonical (t : Term) : String := t.toJson.render

end Term

/-! ## Paths -/

namespace Step

def toJson : Step → Json
  | listElem i => .variant "ListElem" (.ofNat i)
  | ctorArg i => .variant "CtorArg" (.ofNat i)
  | scrutinee => .ofString "Scrutinee"
  | branchBody i => .variant "CaseBody" (.ofNat i)
  | branchPattern i => .variant "CasePattern" (.ofNat i)
  | subpattern i => .variant "SubPattern" (.ofNat i)
  | lambdaBody => .ofString "LambdaBody"
  | applyFn => .ofString "ApplyFun"
  | applyArg => .ofString "ApplyArg"
  | letBound => .ofString "LetBound"
  | letBody => .ofString "LetBody"
  | condTest => .ofString "IfCond"
  | condThen => .ofString "IfThen"
  | condElse => .ofString "IfElse"

/-- The step named without a number. -/
def ofName? : String → Option Step
  | "Scrutinee" => some scrutinee
  | "LambdaBody" => some lambdaBody
  | "ApplyFun" => some applyFn
  | "ApplyArg" => some applyArg
  | "LetBound" => some letBound
  | "LetBody" => some letBody
  | "IfCond" => some condTest
  | "IfThen" => some condThen
  | "IfElse" => some condElse
  | _ => none

def ofJson? (j : Json) : Option Step :=
  match j.name?.bind ofName? with
  | some step => some step
  | none =>
    match j.variant? with
    | some (name, ⟨content, _⟩) => do
      let i ← content.natBelow? UInt64.size
      match name with
      | "ListElem" => some (listElem i)
      | "CtorArg" => some (ctorArg i)
      | "CaseBody" => some (branchBody i)
      | "CasePattern" => some (branchPattern i)
      | "SubPattern" => some (subpattern i)
      | _ => none
    | none => none

end Step

namespace Path

def toJson (p : Path) : Json := .record [("steps", .arr (p.steps.map Step.toJson))]

def ofJson? (j : Json) : Option Path :=
  match j.record? ["steps"] with
  | some [⟨.arr items, _⟩] => (items.mapM Step.ofJson?).map fun steps => ⟨steps⟩
  | _ => none

/-- The one text of a path. -/
def canonical (p : Path) : String := p.toJson.render

end Path

/-! ## Environments -/

/-- An environment is an object with a field for every name; of two fields for the same name the later one
counts. -/
def Env.ofJson? (j : Json) : Option Env :=
  match j.fields? with
  | some fields => (fields.mapM fun field => (Ty.ofJson? field.2.1).map fun t => (field.1, t)).map .ofList
  | none => none

end EffectTyping
