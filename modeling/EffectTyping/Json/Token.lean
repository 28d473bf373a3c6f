/-
The tokens of a JSON text. The text is read character by character by a machine that is between two tokens or
inside a word, a number or a string; blanks between tokens are space, tab, line feed and carriage return.
-/
import EffectTyping.Json.Basic

namespace EffectTyping.Json

inductive Token where
  | openArray
  | closeArray
  | openObject
  | closeObject
  | comma
  | colon
  | null
  | bool (b : Bool)
  | num (n : Numeral)
  | str (q : Quoted)
  deriving DecidableEq, Repr

/-! ## Numbers -/

/-- What has been read of a number; digits are held last one first. -/
inductive PartialNumeral where
  | sign
  | zero (negative : Bool)
  | whole (negative : Bool) (digits : List Char)
  | point (negative : Bool) (whole : List Char)
  | fraction (negative : Bool) (whole digits : List Char)
  | mark (negative : Bool) (whole fraction : List Char)
  | markSign (negative : Bool) (whole fraction : List Char) (down : Bool)
  | exponent (negative : Bool) (whole fraction : List Char) (down : Bool) (digits : List Char)
  deriving DecidableEq, Repr

namespace PartialNumeral

def isDigit (c : Char) : Bool := '0' ≤ c && c ≤ '9'

/-- What follows the whole digits: a point or the mark of the exponent. -/
def afterWhole (negative : Bool) (whole : List Char) (c : Char) : Option PartialNumeral :=
  if c = '.' then some (point negative whole)
  else if c = 'e' ∨ c = 'E' then some (mark negative whole [])
  else none

/-- Reads one more character, if it can belong to the number. -/
def next (p : PartialNumeral) (c : Char) : Option PartialNumeral :=
  match p with
  | sign =>
    if c = '0' then some (zero true) else if isDigit c then some (whole true [c]) else none
  | zero neg => afterWhole neg ['0'] c
  | whole neg w => if isDigit c then some (whole neg (c :: w)) else afterWhole neg w c
  | point neg w => if isDigit c then some (fraction neg w [c]) else none
  | fraction neg w f =>
    if isDigit c then some (fraction neg w (c :: f))
    else if c = 'e' ∨ c = 'E' then some (mark neg w f)
    else none
  | mark neg w f =>
    if c = '+' then some (markSign neg w f false)
    else if c = '-' then some (markSign neg w f true)
    else if isDigit c then some (exponent neg w f false [c])
    else none
  | markSign neg w f down => if isDigit c then some (exponent neg w f down [c]) else none
  | exponent neg w f down e => if isDigit c then some (exponent neg w f down (c :: e)) else none

/-- The number read, if it is complete. -/
def finish? : PartialNumeral → Option Numeral
  | zero neg => some ⟨neg, ['0'], [], none⟩
  | whole neg w => some ⟨neg, w.reverse, [], none⟩
  | fraction neg w f => some ⟨neg, w.reverse, f.reverse, none⟩
  | exponent neg w f down e => some ⟨neg, w.reverse, f.reverse, some ⟨down, e.reverse⟩⟩
  | sign | point _ _ | mark _ _ _ | markSign _ _ _ _ => none

end PartialNumeral

/-! ## The machine -/

/-- Where in a token the machine is. -/
inductive Scanning where
  /-- Between two tokens. -/
  | gap
  /-- In a word of which `rest` is still to come. -/
  | word (rest : List Char) (token : Token)
  | number (p : PartialNumeral)
  /-- In a string; what has been read of it is held last character first. -/
  | string (raw : List Char)
  /-- In a string, after a backslash. -/
  | escape (raw : List Char)
  /-- In a string, in an escape of which so many digits to base 16 are still to come. -/
  | unit (raw : List Char) (left : Nat)
  deriving DecidableEq, Repr

/-- The machine: where it is, and the tokens before, last one first. -/
structure Scanner where
  place : Scanning
  tokens : List Token

namespace Scanner

def emit (m : Scanner) (token : Token) : Scanner := ⟨.gap, token :: m.tokens⟩

def goTo (m : Scanner) (place : Scanning) : Scanner := { m with place := place }

/-- Reads the first character of a token, or a blank. -/
def begin (m : Scanner) (c : Char) : Option Scanner :=
  match c with
  | ' ' | '\t' | '\n' | '\r' => some (m.goTo .gap)
  | '[' => some (m.emit .openArray)
  | ']' => some (m.emit .closeArray)
  | '\x7b' => some (m.emit .openObject)
  | '\x7d' => some (m.emit .closeObject)
  | ',' => some (m.emit .comma)
  | ':' => some (m.emit .colon)
  | '"' => some (m.goTo (.string []))
  | '-' => some (m.goTo (.number .sign))
  | '0' => some (m.goTo (.number (.zero false)))
  | 'n' => some (m.goTo (.word ['u', 'l', 'l'] .null))
  | 't' => some (m.goTo (.word ['r', 'u', 'e'] (.bool true)))
  | 'f' => some (m.goTo (.word ['a', 'l', 's', 'e'] (.bool false)))
  | c => if PartialNumeral.isDigit c then some (m.goTo (.number (.whole false [c]))) else none

/-- Reads one character; none if no text can go on like this. -/
def next (m : Scanner) (c : Char) : Option Scanner :=
  match m.place with
  | .gap => m.begin c
  | .word [] _ => none
  | .word [last] token => if c = last then some (m.emit token) else none
  | .word (d :: rest) token => if c = d then some (m.goTo (.word rest token)) else none
  | .number p =>
    match p.next c with
    | some p => some (m.goTo (.number p))
    | none =>
      match p.finish? with
      | some n => (m.emit (.num n)).begin c
      | none => none
  | .string raw =>
    if c = '"' then some (m.emit (.str ⟨raw.reverse⟩))
    else if c = '\\' then some (m.goTo (.escape (c :: raw)))
    else if c.toNat < 0x20 then none
    else some (m.goTo (.string (c :: raw)))
  | .escape raw =>
    if c = 'u' then some (m.goTo (.unit (c :: raw) 4))
    else if (Quoted.escaped? c).isSome then some (m.goTo (.string (c :: raw)))
    else none
  | .unit raw left =>
    if (Quoted.hexValue? c).isSome then
      if left ≤ 1 then some (m.goTo (.string (c :: raw))) else some (m.goTo (.unit (c :: raw) (left - 1)))
    else none

/-- Reads a text. -/
def run (m : Scanner) : List Char → Option Scanner
  | [] => some m
  | c :: cs =>
    match m.next c with
    | none => none
    | some m => run m cs

/-- The tokens read, if the last one is complete. -/
def finish? (m : Scanner) : Option (List Token) :=
  match m.place with
  | .gap => some m.tokens.reverse
  | .number p => p.finish?.map fun n => (Token.num n :: m.tokens).reverse
  | _ => none

end Scanner

/-- The tokens of a text, if it consists of tokens and blanks. -/
def Token.scan (text : List Char) : Option (List Token) := (Scanner.run ⟨.gap, []⟩ text).bind Scanner.finish?

end EffectTyping.Json
