import EffectTyping.OrderedMap
import EffectTyping.Effect
import EffectTyping.Ty.Basic
import EffectTyping.Ty.Printer
import EffectTyping.Subst
import EffectTyping.Unify.Measure
import EffectTyping.Unify.Basic
import EffectTyping.Instance
import EffectTyping.Supply
import EffectTyping.Number.Numeral
import EffectTyping.Number.Double
import EffectTyping.Number.Reading
import EffectTyping.Number.Shortest
import EffectTyping.Number.Layout
import EffectTyping.Text.Printable
import EffectTyping.Text.Blank
import EffectTyping.Text.Quoted
import EffectTyping.Term.Basic
import EffectTyping.Term.Path
import EffectTyping.Term.Printer
import EffectTyping.Typing.Failure
import EffectTyping.Typing.Pattern
import EffectTyping.Typing.Check
import EffectTyping.Typing.Checker
import EffectTyping.Json.Quoted
import EffectTyping.Json.Basic
import EffectTyping.Json.Token
import EffectTyping.Json.Parser
import EffectTyping.Json.Datum
import EffectTyping.Json.Decode
import EffectTyping.Codec.Ty
import EffectTyping.Codec.Term
import EffectTyping.Digest
import EffectTyping.Report
import EffectTyping.Document
import EffectTyping.Command.Args
import EffectTyping.Command.Run
import EffectTyping.Main
import EffectTyping.Proofs.Subst
import EffectTyping.Proofs.Unify.Solution
import EffectTyping.Proofs.Unify.Run
import EffectTyping.Proofs.Unify.History
import EffectTyping.Proofs.Instance
import EffectTyping.Proofs.Ty.Variables
import EffectTyping.Proofs.Unify.Declared
import EffectTyping.Proofs.Typing.Outcome
import EffectTyping.Proofs.OrderedMap
import EffectTyping.Proofs.Typing.Judgement
import EffectTyping.Proofs.Typing.Pattern
import EffectTyping.Proofs.Term
import EffectTyping.Proofs.Term.Path
import EffectTyping.Proofs.Typing.Adequacy
import EffectTyping.Proofs.Typing.Rules
import EffectTyping.Proofs.Typing.Failures
import EffectTyping.Proofs.Typing.Location
import EffectTyping.Proofs.Effect
import EffectTyping.Proofs.Typing.Calls
import EffectTyping.Proofs.Typing.Verdict
import EffectTyping.Proofs.Typing.Accepted
import EffectTyping.Proofs.Unify.Order
import EffectTyping.Proofs.Unify.Obstruction
import EffectTyping.Proofs.Typing.Scope
import EffectTyping.Proofs.Typing.TypeTests
import EffectTyping.Proofs.Typing.Components
import EffectTyping.Proofs.Unify.Relabelling
import EffectTyping.Proofs.Unify.Renaming
import EffectTyping.Proofs.Generality
import EffectTyping.Proofs.Typing.Renaming
import EffectTyping.Proofs.Typing.Annotations
import EffectTyping.Proofs.Number.Double
import EffectTyping.Proofs.Number.Numeral
import EffectTyping.Proofs.Typing.Monomorphic
import EffectTyping.Proofs.Typing.Relaxation
import EffectTyping.Proofs.Number.ReadBack
import EffectTyping.Proofs.Json.RoundTrip
import EffectTyping.Proofs.Codec.Decoding
import EffectTyping.Proofs.Codec.RoundTrip
import EffectTyping.Proofs.Json.Places
import EffectTyping.Proofs.Codec.IllegalEffect
import EffectTyping.Proofs.Typing.Depth
import EffectTyping.Proofs.Ty.Printer
import EffectTyping.Proofs.Unify.Sequence
import EffectTyping.Proofs.Typing.Names
import EffectTyping.Proofs.Subterms
import EffectTyping.Proofs.Json.Search
import EffectTyping.Proofs.Unify.Recursion
