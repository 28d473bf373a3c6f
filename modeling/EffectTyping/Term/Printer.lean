/-
The text of terms and patterns. Compound terms stand in parentheses, so no precedence is needed, and binders
show their declared types.
-/
import EffectTyping.Term.Path
import EffectTyping.Ty.Printer
import EffectTyping.Number.Layout
import EffectTyping.Text.Quoted

namespace EffectTyping

/-- A float literal is written positionally from 0.0001 up to 10^16; of two shortest decimals at the same
distance the larger one is taken. -/
def Literal.floatFormat : DoubleFormat where
  plainFrom := -4
  plainBelow := 16
  tie := .up

def Literal.floatText (x : Double) : String := String.ofList ((floatFormat.layout x).render false)

/-- The text of a literal; a number with a minus sign stands in parentheses. -/
def Literal.render : Literal → String
  | unit => "()"
  | int n => if n < 0 then "(" ++ toString n.toInt ++ ")" else toString n.toInt
  | float x => if x.negative then "(" ++ floatText x ++ ")" else floatText x
  | bool true => "true"
  | bool false => "false"
  | string s => Text.quote s

namespace Tag

def render : Tag → String
  | tuple arity => "tuple/" ++ toString arity.toNat
  | variant name => name

/-- A constructor with its arguments: `(a, b)` for a tuple, `Name` or `Name(a, b)` for a variant. -/
def renderWith (tag : Tag) (args : List String) : String :=
  let list := "(" ++ ", ".intercalate args ++ ")"
  match tag, args with
  | tuple _, _ => list
  | variant name, [] => name
  | variant name, _ => name ++ list

end Tag

namespace Pattern

mutual

def render : Pattern → String
  | .var name => name
  | .ctor _ tag args => tag.renderWith (renderEach args)

def renderEach : List Pattern → List String
  | [] => []
  | p :: ps => render p :: renderEach ps

end

end Pattern

namespace Term

mutual

def render : Term → String
  | .lit l => l.render
  | .var _ name => name
  | .list _ elems _ => "[" ++ "; ".intercalate (renderEach elems) ++ "]"
  | .ctor _ tag args _ => tag.renderWith (renderEach args)
  | .cases _ scrutinee branches _ =>
    let text := match renderBranches branches with
      | [] => ""
      | texts => " " ++ " | ".intercalate texts
    "(match " ++ render scrutinee ++ " with" ++ text ++ ")"
  | .lambda _ param paramTy body => "(fun (" ++ param ++ " : " ++ paramTy.render ++ ") -> " ++ render body ++ ")"
  | .apply _ fn _ arg _ => "(" ++ render fn ++ " " ++ render arg ++ ")"
  | .letIn name boundTy bound body _ _ =>
    "(let (" ++ name ++ " : " ++ boundTy.render ++ ") = " ++ render bound ++ " in " ++ render body ++ ")"
  | .cond _ test thenBranch elseBranch _ =>
    "(if " ++ render test ++ " then " ++ render thenBranch ++ " else " ++ render elseBranch ++ ")"

def renderEach : List Term → List String
  | [] => []
  | t :: ts => render t :: renderEach ts

def renderBranches : List (Pattern × Term) → List String
  | [] => []
  | (p, t) :: bs => (p.render ++ " -> " ++ render t) :: renderBranches bs

end

end Term

end EffectTyping
