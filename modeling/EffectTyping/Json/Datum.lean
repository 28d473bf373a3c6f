/-
What a JSON document says: strings with their escapes resolved, numbers that are doubles, and of the fields of an
object with the same name only the last one.
-/
import EffectTyping.Json.Parser
import EffectTyping.Number.Reading

namespace EffectTyping.Json

inductive Datum where
  | null
  | bool (b : Bool)
  | num (x : Double)
  | str (s : String)
  | arr (items : List Datum)
  | obj (fields : List (String × Datum))
  deriving Repr, Inhabited

namespace Datum

/-- Adds a field, in place of an earlier one of the same name. -/
def setField (done : List (String × Datum)) (name : String) (d : Datum) : List (String × Datum) :=
  (name, d) :: if done.any (·.1 == name) then done.filter (·.1 != name) else done

mutual

/-- What a document says. A string with half of a surrogate pair or a number beyond the doubles says nothing. -/
def ofJson? : Json → Option Datum
  | .null => some .null
  | .bool b => some (.bool b)
  | .num n => n.toDouble?.map .num
  | .str q => q.decode?.map .str
  | .arr items => (ofItems? [] items).map .arr
  | .obj fields => (ofFields? [] fields).map .obj

/-- What the items after `done`, held last one first, say. -/
def ofItems? (done : List Datum) : List Json → Option (List Datum)
  | [] => some done.reverse
  | item :: items =>
    match ofJson? item with
    | some d => ofItems? (d :: done) items
    | none => none

/-- What the fields after `done` say. -/
def ofFields? (done : List (String × Datum)) : List (Quoted × Json) → Option (List (String × Datum))
  | [] => some done
  | (key, value) :: fields =>
    match key.decode?, ofJson? value with
    | some name, some d => ofFields? (setField done name d) fields
    | _, _ => none

end

mutual

/-- The number of nodes. -/
def size : Datum → Nat
  | .null | .bool _ | .num _ | .str _ => 1
  | .arr items => 1 + sizeItems items
  | .obj fields => 1 + sizeFields fields

def sizeItems : List Datum → Nat
  | [] => 0
  | d :: ds => size d + sizeItems ds

def sizeFields : List (String × Datum) → Nat
  | [] => 0
  | (_, d) :: ds => size d + sizeFields ds

end

theorem sizeItems_append (l r : List Datum) : sizeItems (l ++ r) = sizeItems l + sizeItems r := by
  induction l with
  | nil => simp [sizeItems]
  | cons d l ih => simp [sizeItems, ih, Nat.add_assoc]

theorem sizeItems_values (fields : List (String × Datum)) :
    sizeItems (fields.map (·.2)) = sizeFields fields := by
  induction fields with
  | nil => rfl
  | cons f fields ih =>
    obtain ⟨name, d⟩ := f
    simp [sizeItems, sizeFields, ih]

/-- The nodes right below a node. -/
def children : Datum → List Datum
  | .arr items => items
  | .obj fields => fields.map (·.2)
  | _ => []

theorem sizeItems_children (d : Datum) : sizeItems d.children < d.size := by
  cases d with
  | arr items =>
    simp only [children, size]
    omega
  | obj fields =>
    simp only [children, size, sizeItems_values]
    omega
  | null | bool _ | num _ | str _ => exact Nat.zero_lt_one

/-- Does `p` hold of one of the nodes of the documents that wait, at any depth, or has it been found before? Each
node is looked at once; the nodes right below it are put before those that wait. -/
def anyNode (p : Datum → Bool) (found : Bool) : List Datum → Bool
  | [] => found
  | d :: rest => anyNode p (found || p d) (d.children ++ rest)
termination_by waiting => sizeItems waiting
decreasing_by
  have := sizeItems_children d
  rw [sizeItems_append]
  simp only [sizeItems]
  omega

end Datum

end EffectTyping.Json
