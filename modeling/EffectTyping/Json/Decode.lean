/-
Taking a document apart: the items of an array, the fields of a record, the content of an alternative. The parts
come with the proof that they are smaller, which is what recursive decoders end by.
-/
import EffectTyping.Json.Basic

namespace EffectTyping.Json

/-- A part of a document. -/
abbrev Part (j : Json) := { part : Json // sizeOf part < sizeOf j }

theorem sizeOf_item {items : List Json} {item : Json} (h : item ∈ items) :
    sizeOf item < sizeOf (Json.arr items) := by
  have := List.sizeOf_lt_of_mem h
  simp only [Json.arr.sizeOf_spec]
  omega

theorem sizeOf_field {fields : List (Quoted × Json)} {field : Quoted × Json} (h : field ∈ fields) :
    sizeOf field.2 < sizeOf (Json.obj fields) := by
  have hf := List.sizeOf_lt_of_mem h
  have hp : sizeOf field = 1 + sizeOf field.1 + sizeOf field.2 := by cases field; rfl
  simp only [Json.obj.sizeOf_spec]
  omega

/-- The items of an array. -/
def items? : (j : Json) → Option (List (Part j))
  | .arr items => some (items.attach.map fun item => ⟨item.1, sizeOf_item item.2⟩)
  | _ => none

/-- The fields of an object, names resolved. -/
def fields? : (j : Json) → Option (List (String × Part j))
  | .obj fields => fields.attach.mapM fun field =>
    field.1.1.decode?.map fun name => (name, ⟨field.1.2, sizeOf_field field.2⟩)
  | _ => none

/-- The content of the one field of that name. -/
def only? {α : Type} (name : String) (fields : List (String × α)) : Option α :=
  match fields.filter (·.1 == name) with
  | [(_, part)] => some part
  | _ => none

/-- The fields of a record with the given names, in that order. In an object each of them stands exactly once,
and others may stand beside them; an array gives all of them by position. -/
def record? (names : List String) (j : Json) : Option (List (Part j)) :=
  match j.items? with
  | some items => if items.length = names.length then some items else none
  | none =>
    match j.fields? with
    | some fields => names.mapM fun name => only? name fields
    | none => none

/-- The name and content of an alternative, written as an object with one field. -/
def variant? (j : Json) : Option (String × Part j) :=
  match j.fields? with
  | some [field] => some field
  | _ => none

/-- The name of an alternative without content, written as a string or with `null` for the content. -/
def name? : Json → Option String
  | .str q => q.decode?
  | .obj [(key, .null)] => key.decode?
  | _ => none

/-- The text of a string. -/
def string? : Json → Option String
  | .str q => q.decode?
  | _ => none

def bool? : Json → Option Bool
  | .bool b => some b
  | _ => none

/-- The value of an integer. -/
def int? : Json → Option Int
  | .num n => n.toInt?
  | _ => none

/-- The value of an integer from 0 below a limit. -/
def natBelow? (limit : Nat) (j : Json) : Option Nat :=
  match j.int? with
  | some (.ofNat n) => if n < limit then some n else none
  | _ => none

end EffectTyping.Json
