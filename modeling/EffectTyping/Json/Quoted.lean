/-
Strings as JSON writes them between the quotes. Writing escapes the quote, the backslash and control characters;
reading resolves escapes, and refuses half of a surrogate pair that stands alone.
-/
import EffectTyping.Text.Quoted

namespace EffectTyping.Json

/-- The characters between the quotes of a string, escapes not resolved. -/
structure Quoted where
  raw : List Char
  deriving DecidableEq, Repr

namespace Quoted

/-! ## Writing -/

/-- A number below 256 as two digits to base 16. -/
def hexPair (n : Nat) : List Char := [Nat.digitChar (n / 16 % 16), Nat.digitChar (n % 16)]

/-- How a character is written. -/
def encodeChar (c : Char) : List Char :=
  if c = '"' then ['\\', '"']
  else if c = '\\' then ['\\', '\\']
  else if c = '\n' then ['\\', 'n']
  else if c = '\r' then ['\\', 'r']
  else if c = '\t' then ['\\', 't']
  else if c = '\x08' then ['\\', 'b']
  else if c = '\x0c' then ['\\', 'f']
  else if c.toNat < 0x20 then ['\\', 'u', '0', '0'] ++ hexPair c.toNat
  else [c]

def encode (s : String) : Quoted := ⟨s.toList.flatMap encodeChar⟩

/-! ## Reading -/

/-- The value of a digit to base 16. -/
def hexValue? (c : Char) : Option Nat :=
  if '0' ≤ c ∧ c ≤ '9' then some (c.toNat - '0'.toNat)
  else if 'a' ≤ c ∧ c ≤ 'f' then some (c.toNat - 'a'.toNat + 10)
  else if 'A' ≤ c ∧ c ≤ 'F' then some (c.toNat - 'A'.toNat + 10)
  else none

/-- The value of four digits to base 16. -/
def hexUnit? (a b c d : Char) : Option Nat := do
  let a ← hexValue? a
  let b ← hexValue? b
  let c ← hexValue? c
  let d ← hexValue? d
  some (((a * 16 + b) * 16 + c) * 16 + d)

/-- The character that a backslash and one further character stand for. -/
def escaped? : Char → Option Char
  | '"' => some '"'
  | '\\' => some '\\'
  | '/' => some '/'
  | 'b' => some '\x08'
  | 'f' => some '\x0c'
  | 'n' => some '\n'
  | 'r' => some '\r'
  | 't' => some '\t'
  | _ => none

def isHighSurrogate (n : Nat) : Bool := 0xd800 ≤ n && n < 0xdc00

def isLowSurrogate (n : Nat) : Bool := 0xdc00 ≤ n && n < 0xe000

/-- Resolves the escapes of a text; `done` is the text before it, last character first. -/
def resolve (done : List Char) : List Char → Option (List Char)
  | '\\' :: 'u' :: a :: b :: c :: d :: rest =>
    match hexUnit? a b c d with
    | none => none
    | some n =>
      if isLowSurrogate n then none
      else if isHighSurrogate n then
        match rest with
        | '\\' :: 'u' :: e :: f :: g :: h :: rest =>
          match hexUnit? e f g h with
          | none => none
          | some m =>
            if isLowSurrogate m then
              resolve (Char.ofNat (0x10000 + (n - 0xd800) * 0x400 + (m - 0xdc00)) :: done) rest
            else none
        | _ => none
      else resolve (Char.ofNat n :: done) rest
  | '\\' :: c :: rest =>
    match escaped? c with
    | none => none
    | some c => resolve (c :: done) rest
  | '\\' :: [] => none
  | c :: rest => resolve (c :: done) rest
  | [] => some done.reverse

/-- The text that a string stands for, if it is one. -/
def decode? (q : Quoted) : Option String := (resolve [] q.raw).map String.ofList

end Quoted

end EffectTyping.Json
