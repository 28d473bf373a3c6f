/-
The text of a type. Arrows bind loosest and to the right, options and lists are written after what they
hold, tuples in parentheses: `(int -> bool) list -[weak]-> (t0 * unit option)`.
-/
import EffectTyping.Ty.Basic

namespace EffectTyping

def BaseTy.name : BaseTy → String
  | .unit => "unit"
  | .int => "int"
  | .float => "float"
  | .bool => "bool"
  | .string => "string"

/-- The arrow of a function type; a call with an effect shows it. -/
def Effect.arrow : Effect → String
  | .pure => " -> "
  | e => " -[" ++ e.name ++ "]-> "

namespace Ty

mutual

/-- The text of a type; `tight` says that it stands where an arrow needs parentheses of its own: as an
argument, or before `option` or `list`. -/
def renderAt (tight : Bool) : Ty → String
  | .var v => v.name
  | .base b => b.name
  | .option t => renderAt true t ++ " option"
  | .list t => renderAt true t ++ " list"
  | .tuple ts => "(" ++ renderAll ts ++ ")"
  | .arrow a e r =>
    let text := renderAt true a ++ e.arrow ++ renderAt false r
    if tight then "(" ++ text ++ ")" else text

/-- The components of a tuple, divided by stars. -/
def renderAll : List Ty → String
  | [] => ""
  | t :: ts =>
    match ts with
    | [] => renderAt false t
    | _ => renderAt false t ++ " * " ++ renderAll ts

end

/-- The text of a type. -/
def render (t : Ty) : String := renderAt false t

end Ty

end EffectTyping
