/-
Effects, types and substitutions as JSON documents. An effect is its pair of flags; a type is an alternative named
after its form, an arrow the array of argument, effect and result.
-/
import EffectTyping.Subst
import EffectTyping.Json.Decode
import EffectTyping.Json.Parser

namespace EffectTyping

/-! ## Effects -/

def Effect.toJson (e : Effect) : Json := .arr [.bool e.flags.1, .bool e.flags.2]

def Effect.ofJson? : Json → Option Effect
  | .arr [.bool a, .bool b] => Effect.ofFlags? a b
  | _ => none

/-! ## Types -/

def TypeVar.toJson (v : TypeVar) : Json := .ofNat v.index.toNat

def TypeVar.ofJson? (j : Json) : Option TypeVar := (j.natBelow? UInt32.size).map fun n => ⟨.ofNat n⟩

def BaseTy.toJson : BaseTy → Json
  | .unit => .ofString "Unit"
  | .int => .ofString "Int"
  | .float => .ofString "Float"
  | .bool => .ofString "Bool"
  | .string => .ofString "String"

def BaseTy.ofJson? (j : Json) : Option BaseTy :=
  match j.name? with
  | some "Unit" => some .unit
  | some "Int" => some .int
  | some "Float" => some .float
  | some "Bool" => some .bool
  | some "String" => some .string
  | _ => none

namespace Ty

mutual

def toJson : Ty → Json
  | .var v => .variant "Var" v.toJson
  | .base b => .variant "Const" b.toJson
  | .option t => .variant "Option" (toJson t)
  | .list t => .variant "List" (toJson t)
  | .tuple ts => .variant "Tuple" (.arr (toJsonEach ts))
  | .arrow a e r => .variant "Arrow" (.arr [toJson a, e.toJson, toJson r])

def toJsonEach : List Ty → List Json
  | [] => []
  | t :: ts => toJson t :: toJsonEach ts

end

def ofJson? (j : Json) : Option Ty :=
  match j.variant? with
  | some ("Var", ⟨content, _⟩) => (TypeVar.ofJson? content).map .var
  | some ("Const", ⟨content, _⟩) => (BaseTy.ofJson? content).map .base
  | some ("Option", ⟨content, _⟩) => (ofJson? content).map .option
  | some ("List", ⟨content, _⟩) => (ofJson? content).map .list
  | some ("Tuple", ⟨content, _⟩) =>
    match content.items? with
    | some items => (items.mapM fun (⟨item, _⟩ : content.Part) => ofJson? item).map .tuple
    | none => none
  | some ("Arrow", ⟨content, _⟩) =>
    match content.items? with
    | some [⟨arg, _⟩, ⟨eff, _⟩, ⟨res, _⟩] => do
      let a ← ofJson? arg
      let e ← Effect.ofJson? eff
      let r ← ofJson? res
      some (.arrow a e r)
    | _ => none
  | _ => none
termination_by sizeOf j
decreasing_by all_goals omega

/-- The one text of a type. -/
def canonical (t : Ty) : String := t.toJson.render

end Ty

/-! ## Substitutions -/

/-- The name of a variable as a field: its number in decimal digits. -/
def TypeVar.toKey (v : TypeVar) : Json.Quoted := ⟨Numeral.digitsOf v.index.toNat⟩

/-- The variable with the number a field is named by. The digits are taken as they stand, so there is one way to
write each number. -/
def TypeVar.ofKey? (key : Json.Quoted) : Option TypeVar :=
  match Json.Token.scan key.raw with
  | some [.num n] => if n.render true = key.raw then TypeVar.ofJson? (.num n) else none
  | _ => none

namespace Subst

def toJson (s : Subst) : Json :=
  .record [("map", .obj (s.toList.map fun binding => (binding.1.toKey, binding.2.toJson)))]

/-- The bindings in order; of two for the same variable the later one counts. -/
def ofJson? (j : Json) : Option Subst :=
  match j.record? ["map"] with
  | some [⟨.obj fields, _⟩] => do
    let bindings ← fields.mapM fun (key, value) => do
      let v ← TypeVar.ofKey? key
      let t ← Ty.ofJson? value
      some (v, t)
    some (.ofList bindings)
  | _ => none

def canonical (s : Subst) : String := s.toJson.render

end Subst

end EffectTyping
