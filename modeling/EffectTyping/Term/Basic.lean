/-
Terms: a small functional language in which every node carries its declared type and, where evaluating it can
have an effect, its declared effect. Patterns take tuples and options apart.
-/
import EffectTyping.Ty.Basic
import EffectTyping.Number.Double

namespace EffectTyping

inductive Literal where
  | unit
  | int (n : Int64)
  | float (x : Double)
  | bool (b : Bool)
  | string (s : String)
  deriving DecidableEq, Repr

def Literal.ty : Literal → Ty
  | unit => .base .unit
  | int _ => .base .int
  | float _ => .base .float
  | bool _ => .base .bool
  | string _ => .base .string

/-- What a constructor builds: a tuple of so many components, or a named variant. -/
inductive Tag where
  | tuple (arity : UInt64)
  | variant (name : String)
  deriving DecidableEq, Repr

namespace Tag

def someTag : Tag := .variant "Some"

def noneTag : Tag := .variant "None"

/-- The tag of a tuple with as many components as a list has members. -/
def ofLength {α : Type} (l : List α) : Tag := .tuple (.ofNat l.length)

end Tag

inductive Pattern where
  /-- Binds the value to a name. -/
  | var (name : String)
  /-- Takes a constructed value of declared type `ty` apart. -/
  | ctor (ty : Ty) (tag : Tag) (args : List Pattern)
  deriving Repr

namespace Pattern

def tuple (ty : Ty) (args : List Pattern) : Pattern := .ctor ty (.ofLength args) args

def someOf (ty : Ty) (arg : Pattern) : Pattern := .ctor ty .someTag [arg]

def noneOf (ty : Ty) : Pattern := .ctor ty .noneTag []

mutual

/-- The names a pattern binds from left to right, each as often as it is bound. -/
def names : Pattern → List String
  | .var name => [name]
  | .ctor _ _ args => namesAll args

def namesAll : List Pattern → List String
  | [] => []
  | p :: ps => names p ++ namesAll ps

end

end Pattern

/-- A term. `ty` is the declared type of the node, `eff` its declared effect; literals, variables and functions
declare none and are pure. -/
inductive Term where
  | lit (l : Literal)
  | var (ty : Ty) (name : String)
  | list (ty : Ty) (elems : List Term) (eff : Effect)
  | ctor (ty : Ty) (tag : Tag) (args : List Term) (eff : Effect)
  | cases (ty : Ty) (scrutinee : Term) (branches : List (Pattern × Term)) (eff : Effect)
  | lambda (ty : Ty) (param : String) (paramTy : Ty) (body : Term)
  | apply (ty : Ty) (fn : Term) (argTy : Ty) (arg : Term) (eff : Effect)
  | letIn (name : String) (boundTy : Ty) (bound : Term) (body : Term) (ty : Ty) (eff : Effect)
  | cond (ty : Ty) (test : Term) (thenBranch : Term) (elseBranch : Term) (eff : Effect)
  deriving Repr

namespace Term

def tuple (ty : Ty) (args : List Term) (eff : Effect) : Term := .ctor ty (.ofLength args) args eff

def someOf (ty : Ty) (arg : Term) (eff : Effect) : Term := .ctor ty .someTag [arg] eff

def noneOf (ty : Ty) : Term := .ctor ty .noneTag [] .pure

/-- The declared type of the node. -/
def ty : Term → Ty
  | .lit l => l.ty
  | .var ty _ | .list ty _ _ | .ctor ty _ _ _ | .cases ty _ _ _ | .lambda ty _ _ _ | .apply ty _ _ _ _
  | .letIn _ _ _ _ ty _ | .cond ty _ _ _ _ => ty

/-- The declared effect of the node. -/
def eff : Term → Effect
  | .lit _ | .var _ _ | .lambda _ _ _ _ => .pure
  | .list _ _ eff | .ctor _ _ _ eff | .cases _ _ _ eff | .apply _ _ _ _ eff | .letIn _ _ _ _ _ eff
  | .cond _ _ _ _ eff => eff

/-- The immediate subterms from left to right. -/
def children : Term → List Term
  | .lit _ | .var _ _ => []
  | .list _ elems _ => elems
  | .ctor _ _ args _ => args
  | .cases _ scrutinee branches _ => scrutinee :: branches.map (·.2)
  | .lambda _ _ _ body => [body]
  | .apply _ fn _ arg _ => [fn, arg]
  | .letIn _ _ bound body _ _ => [bound, body]
  | .cond _ test thenBranch elseBranch _ => [test, thenBranch, elseBranch]

mutual

/-- The number of nodes. -/
def size : Term → Nat
  | .lit _ | .var _ _ => 1
  | .list _ elems _ => 1 + sizeAll elems
  | .ctor _ _ args _ => 1 + sizeAll args
  | .cases _ scrutinee branches _ => 1 + (size scrutinee + sizeBranches branches)
  | .lambda _ _ _ body => 1 + size body
  | .apply _ fn _ arg _ => 1 + (size fn + size arg)
  | .letIn _ _ bound body _ _ => 1 + (size bound + size body)
  | .cond _ test thenBranch elseBranch _ => 1 + (size test + (size thenBranch + size elseBranch))

def sizeAll : List Term → Nat
  | [] => 0
  | t :: ts => size t + sizeAll ts

def sizeBranches : List (Pattern × Term) → Nat
  | [] => 0
  | (_, t) :: bs => size t + sizeBranches bs

end

mutual

/-- The number of nodes on the longest way from the root to a leaf. -/
def depth : Term → Nat
  | .lit _ | .var _ _ => 1
  | .list _ elems _ => 1 + depthAll elems
  | .ctor _ _ args _ => 1 + depthAll args
  | .cases _ scrutinee branches _ => 1 + max (depth scrutinee) (depthBranches branches)
  | .lambda _ _ _ body => 1 + depth body
  | .apply _ fn _ arg _ => 1 + max (depth fn) (depth arg)
  | .letIn _ _ bound body _ _ => 1 + max (depth bound) (depth body)
  | .cond _ test thenBranch elseBranch _ =>
    1 + max (depth test) (max (depth thenBranch) (depth elseBranch))

def depthAll : List Term → Nat
  | [] => 0
  | t :: ts => max (depth t) (depthAll ts)

def depthBranches : List (Pattern × Term) → Nat
  | [] => 0
  | (_, t) :: bs => max (depth t) (depthBranches bs)

end

end Term

end EffectTyping
