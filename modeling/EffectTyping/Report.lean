/-
Verdicts on terms, as text and as JSON documents. A verdict carries the fingerprint of its term, the digest of the
one text of the term, and a rejection shows the subterm at fault, cut after two hundred characters.
-/
import EffectTyping.Codec.Term
import EffectTyping.Digest
import EffectTyping.Typing.Check

namespace EffectTyping

/-- Two terms have the same fingerprint if they have the same text. -/
def Term.fingerprint (t : Term) : String :=
  "sha256:" ++ Digest.hex (Digest.sha256 t.canonical.toUTF8)

inductive Report where
  | accepted (ty : Ty) (eff : Effect) (fingerprint : String)
  | rejected (path : Path) (reason : Rejection) (subterm : Option String) (fingerprint : String)
  /-- A fault that is not the term's; without path and fingerprint if there was no term yet. -/
  | invariant (path : Option Path) (message : String) (fingerprint : Option String)
  deriving DecidableEq, Repr

namespace Report

/-- The longest text of a subterm that is shown whole. -/
def maxSubtermLength : Nat := 200

/-- The text, cut after so many characters. -/
def truncate (limit : Nat) (s : String) : String :=
  let chars := s.toList
  if limit < chars.length then String.ofList (chars.take limit) ++ "..." else s

/-- The verdict on a term that has been checked. -/
def ofCheck (t : Term) : Checked (Ty × Effect) → Report
  | .ok (ty, eff) => .accepted ty eff t.fingerprint
  | .error ⟨path, .rejected reason⟩ =>
    let subterm := (t.at? path.termSteps).map fun u => truncate maxSubtermLength u.render
    .rejected path reason subterm t.fingerprint
  | .error ⟨path, .invariant message⟩ => .invariant (some path) message (some t.fingerprint)

/-- The verdict on an input that gives no term. -/
def ofInput (message : String) : Report := .invariant none message none

/-- 0 for accepted, 1 for rejected, 2 for a fault that is not the term's. -/
def exitCode : Report → Nat
  | accepted .. => 0
  | rejected .. => 1
  | invariant .. => 2

def render : Report → String
  | accepted ty eff fingerprint =>
    "accepted: " ++ ty.render ++ " [" ++ eff.name ++ "]\n  fingerprint: " ++ fingerprint
  | rejected path reason subterm fingerprint =>
    let shown := match subterm with
      | some text => "  subterm: " ++ text ++ "\n"
      | none => ""
    "rejected at " ++ path.render ++ ": " ++ reason.message ++ "\n" ++ shown ++ "  fingerprint: " ++ fingerprint
  | invariant path message fingerprint =>
    let place := match path with
      | some path => " at " ++ path.render
      | none => ""
    let last := match fingerprint with
      | some fingerprint => "\n  fingerprint: " ++ fingerprint
      | none => ""
    "internal invariant violated" ++ place ++ ": " ++ message ++ last

def toJson : Report → Json
  | accepted ty eff fingerprint =>
    .record [("verdict", .ofString "accepted"), ("ty", .ofString ty.render), ("eff", .ofString eff.name),
      ("fingerprint", .ofString fingerprint)]
  | rejected path reason subterm fingerprint =>
    .record [("verdict", .ofString "rejected"), ("path", .ofString path.render),
      ("reason", .ofString reason.message), ("subterm", (subterm.map Json.ofString).getD .null),
      ("fingerprint", .ofString fingerprint)]
  | invariant path message fingerprint =>
    .record [("verdict", .ofString "invariant"),
      ("path", (path.map fun p => Json.ofString p.render).getD .null), ("message", .ofString message),
      ("fingerprint", (fingerprint.map Json.ofString).getD .null)]

end Report

end EffectTyping
