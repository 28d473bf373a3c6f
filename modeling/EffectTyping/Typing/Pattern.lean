/-
Checking a pattern against the type of the value it takes apart. The declared type of a constructor pattern has
to generalise the type expected there, its parts are checked against the components of the expected type, and no
name is bound twice. The result is the bindings the pattern makes.
-/
import EffectTyping.Typing.Failure
import EffectTyping.Instance

namespace EffectTyping

/-- The types of the variables in scope, or of those a pattern binds. -/
abbrev Env := OrderedMap String Ty

namespace Env

/-- The scope `env` with further bindings, which hide earlier ones of the same names. -/
def extend (env bindings : Env) : Env := bindings.union env

/-- The bindings of two parts of one pattern together, which may have no name in common. The first name of the
second part that the first has too is reported. -/
def merge (env other : Env) : Except Rejection Env :=
  match other.toList.find? fun binding => env.contains binding.1 with
  | some (name, _) => .error (.duplicateBinding name)
  | none => .ok (env.extend other)

end Env

/-- The types of the arguments that a constructor with `found` arguments takes to build a value of type `ty`. -/
def constructorFields (ty : Ty) (tag : Tag) (found : Nat) : Except Rejection (List Ty) :=
  let withArity (expected : Nat) (fields : List Ty) : Except Rejection (List Ty) :=
    if expected = found then .ok fields else .error (.constructorArity tag expected found)
  match tag, ty with
  | .tuple arity, .tuple ts =>
    if ts.length = arity.toNat then withArity arity.toNat ts else .error (.constructorShape tag ty)
  | .tuple _, _ => .error (.constructorShape tag ty)
  | .variant name, ty =>
    if name = "None" then
      match ty with
      | .option _ => withArity 0 []
      | _ => .error (.constructorShape tag ty)
    else if name = "Some" then
      match ty with
      | .option t => withArity 1 [t]
      | _ => .error (.constructorShape tag ty)
    else .error (.unknownConstructor name)

namespace Pattern

mutual

/-- The bindings a pattern makes when it takes a value of type `expected` apart. -/
def check : Pattern → (expected : Ty) → Checked Env
  | .var name, expected => .ok (.singleton name expected)
  | .ctor ty tag args, expected => do
    let fields ← Checked.ofRule (constructorFields ty tag args.length)
    match ty.instantiation? expected with
    | none => Checked.reject (.patternIncompatible ty expected)
    | some witness => checkAll 0 .empty args (witness.applyAll fields)

/-- Adds the bindings of the parts of a pattern, numbered from `i`, to those made before them. -/
def checkAll (i : Nat) (env : Env) : List Pattern → (expected : List Ty) → Checked Env
  | p :: ps, t :: ts => do
    let bindings ← Checked.within (.subpattern i) (check p t)
    let env ← Checked.ofRule (env.merge bindings)
    checkAll (i + 1) env ps ts
  | _, _ => .ok env

end

end Pattern

end EffectTyping
