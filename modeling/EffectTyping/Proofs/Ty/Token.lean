/-
The text of a type, cut into tokens. A type is written as a list of tokens, and its text is theirs put together
(`toList_render`). No token begins with a digit, so that the number of a variable ends where its digits do, and no other
token is the beginning of another one; so the first token can be read back from any text (`next?_text`), and lists of
tokens with the same text are the same.
-/
import EffectTyping.Proofs.Number.Numeral
import EffectTyping.Ty.Printer

namespace EffectTyping.Ty

/-! ## Tokens -/

/-- What is written behind the type it is about. -/
inductive Suffix where
  | option
  | list
  deriving DecidableEq

namespace Suffix

def text : Suffix → String
  | option => " option"
  | list => " list"

/-- The type that is written with the suffix. -/
def apply : Suffix → Ty → Ty
  | option => .option
  | list => .list

end Suffix

inductive Token where
  | var (v : TypeVar)
  | base (b : BaseTy)
  | opening
  | closing
  | star
  | suffix (k : Suffix)
  | arrow (e : Effect)
  deriving DecidableEq

namespace Token

def text : Token → List Char
  | var v => v.name.toList
  | base b => b.name.toList
  | opening => "(".toList
  | closing => ")".toList
  | star => " * ".toList
  | suffix k => k.text.toList
  | arrow e => e.arrow.toList

/-- The first token of a text, and the text after it. -/
def next? : List Char → Option (Token × List Char)
  | 't' :: cs => some (var ⟨.ofNat (Numeral.ofDigits (cs.takeWhile Char.isDigit))⟩, cs.dropWhile Char.isDigit)
  | 'u' :: 'n' :: 'i' :: 't' :: cs => some (base .unit, cs)
  | 'i' :: 'n' :: 't' :: cs => some (base .int, cs)
  | 'f' :: 'l' :: 'o' :: 'a' :: 't' :: cs => some (base .float, cs)
  | 'b' :: 'o' :: 'o' :: 'l' :: cs => some (base .bool, cs)
  | 's' :: 't' :: 'r' :: 'i' :: 'n' :: 'g' :: cs => some (base .string, cs)
  | '(' :: cs => some (opening, cs)
  | ')' :: cs => some (closing, cs)
  | ' ' :: '*' :: ' ' :: cs => some (star, cs)
  | ' ' :: 'o' :: 'p' :: 't' :: 'i' :: 'o' :: 'n' :: cs => some (suffix .option, cs)
  | ' ' :: 'l' :: 'i' :: 's' :: 't' :: cs => some (suffix .list, cs)
  | ' ' :: '-' :: '>' :: ' ' :: cs => some (arrow .pure, cs)
  | ' ' :: '-' :: '[' :: 'w' :: 'e' :: 'a' :: 'k' :: ']' :: '-' :: '>' :: ' ' :: cs => some (arrow .weak, cs)
  | ' ' :: '-' :: '[' :: 's' :: 't' :: 'r' :: 'o' :: 'n' :: 'g' :: ']' :: '-' :: '>' :: ' ' :: cs =>
    some (arrow .strong, cs)
  | _ => none

/-! ## Reading the first token back -/

theorem text_var (v : TypeVar) : (var v).text = 't' :: Numeral.digitsOf v.index.toNat := by
  rw [text, TypeVar.name, String.toList_append, Numeral.toList_toString]
  rfl

/-- A text that does not begin with a digit. -/
def Undigited (cs : List Char) : Prop := ∀ c ∈ cs.head?, c.isDigit = false

theorem next?_var (v : TypeVar) {cs : List Char} (hcs : Undigited cs) : next? ((var v).text ++ cs) = some (var v, cs) := by
  obtain ⟨htake, hdrop⟩ := Numeral.span_append (fun _ => Numeral.isDigit_of_mem_digitsOf) hcs
  rw [text_var, List.cons_append]
  -- the equations of `next?` take long to derive; this one holds by computation
  show some (var ⟨.ofNat (Numeral.ofDigits (List.takeWhile _ (_ ++ cs)))⟩, List.dropWhile _ (_ ++ cs)) = _
  rw [htake, hdrop, Numeral.ofDigits_digitsOf, UInt32.ofNat_toNat]

theorem next?_text (k : Token) {cs : List Char} (hcs : Undigited cs) : next? (k.text ++ cs) = some (k, cs) := by
  cases k with
  | var v => exact next?_var v hcs
  | base b => cases b <;> rfl
  | opening => rfl
  | closing => rfl
  | star => rfl
  | suffix k => cases k <;> rfl
  | arrow e => cases e <;> rfl

theorem exists_text_eq_cons (k : Token) : ∃ c cs, k.text = c :: cs ∧ c.isDigit = false := by
  cases k with
  | var v => exact ⟨'t', _, text_var v, rfl⟩
  | base b => cases b <;> exact ⟨_, _, rfl, rfl⟩
  | opening => exact ⟨_, _, rfl, rfl⟩
  | closing => exact ⟨_, _, rfl, rfl⟩
  | star => exact ⟨_, _, rfl, rfl⟩
  | suffix k => cases k <;> exact ⟨_, _, rfl, rfl⟩
  | arrow e => cases e <;> exact ⟨_, _, rfl, rfl⟩

theorem undigited_flatMap (ks : List Token) : Undigited (ks.flatMap text) := by
  cases ks with
  | nil => intro c hc; cases hc
  | cons k ks =>
    obtain ⟨c, cs, hk, hc⟩ := k.exists_text_eq_cons
    rw [List.flatMap_cons, hk]
    intro d hd
    cases hd
    exact hc

/-- Lists of tokens with the same text are the same. -/
theorem flatMap_text_injective {ks js : List Token} (h : ks.flatMap text = js.flatMap text) : ks = js := by
  have hcons : ∀ (k : Token) (ks : List Token), (k :: ks).flatMap text ≠ [].flatMap text := by
    intro k ks heq
    obtain ⟨c, cs, hk, -⟩ := k.exists_text_eq_cons
    rw [List.flatMap_cons, hk] at heq
    cases heq
  induction ks generalizing js with
  | nil =>
    cases js with
    | nil => rfl
    | cons j js => exact absurd h.symm (hcons j js)
  | cons k ks ih =>
    cases js with
    | nil => exact absurd h (hcons k ks)
    | cons j js =>
      rw [List.flatMap_cons, List.flatMap_cons] at h
      have hread := congrArg next? h
      rw [next?_text k (undigited_flatMap ks), next?_text j (undigited_flatMap js)] at hread
      obtain ⟨rfl, hrest⟩ := Prod.mk.inj (Option.some.inj hread)
      rw [ih hrest]

end Token

/-! ## The tokens of a type -/

mutual

/-- The tokens of a type; `tight` is as for its text. -/
def tokensAt (tight : Bool) : Ty → List Token
  | .var v => [.var v]
  | .base b => [.base b]
  | .option t => tokensAt true t ++ [.suffix .option]
  | .list t => tokensAt true t ++ [.suffix .list]
  | .tuple ts => .opening :: (tokensAll ts ++ [.closing])
  | .arrow a e r =>
    let tokens := tokensAt true a ++ .arrow e :: tokensAt false r
    if tight then .opening :: (tokens ++ [.closing]) else tokens

/-- The tokens of the components of a tuple. -/
def tokensAll : List Ty → List Token
  | [] => []
  | t :: ts => tokensAt false t ++ tokensMore ts

/-- The tokens of components that come after another one. -/
def tokensMore : List Ty → List Token
  | [] => []
  | t :: ts => .star :: (tokensAt false t ++ tokensMore ts)

end

theorem toList_renderAll {ts : List Ty}
    (h : ∀ t ∈ ts, (renderAt false t).toList = (tokensAt false t).flatMap Token.text) :
    (renderAll ts).toList = (tokensAll ts).flatMap Token.text := by
  induction ts with
  | nil => rfl
  | cons t ts ih =>
    obtain ⟨ht, hts⟩ := List.forall_mem_cons.1 h
    cases ts with
    | nil => rw [renderAll, tokensAll, tokensMore, List.append_nil, ht]
    | cons u us =>
      have hmore : tokensMore (u :: us) = .star :: tokensAll (u :: us) := rfl
      rw [renderAll, tokensAll, hmore, String.toList_append, String.toList_append, ht, ih hts, List.flatMap_append,
        List.flatMap_cons, List.append_assoc]
      · rfl
      · simp

/-- The text of a type is that of its tokens. -/
theorem toList_renderAt (tight : Bool) (t : Ty) : (renderAt tight t).toList = (tokensAt tight t).flatMap Token.text := by
  induction t using Ty.induct generalizing tight with
  | var v => simp [renderAt, tokensAt, Token.text]
  | base b => simp [renderAt, tokensAt, Token.text]
  | option t ih => simp [renderAt, tokensAt, ih, Token.text, Suffix.text]
  | list t ih => simp [renderAt, tokensAt, ih, Token.text, Suffix.text]
  | tuple ts ih => simp [renderAt, tokensAt, toList_renderAll fun t ht => ih t ht false, Token.text]
  | arrow a e r iha ihr =>
    rw [renderAt, tokensAt]
    cases tight <;> simp [iha, ihr, Token.text]

end EffectTyping.Ty
