import TypeLayer.Command.Run
import TypeLayer.Function.Builder
import TypeLayer.Function.Typing
import TypeLayer.Main
import TypeLayer.Proofs.Outcome
import TypeLayer.Proofs.Structural.Substitution
import TypeLayer.Proofs.Structural.Solution
import TypeLayer.Proofs.Structural.Resolution
import TypeLayer.Proofs.Structural.Unification
import TypeLayer.Proofs.Structural.Reachable
import TypeLayer.Proofs.Structural.Fresh
import TypeLayer.Proofs.Function.Rules
import TypeLayer.Proofs.Function.Soundness
import TypeLayer.Proofs.Function.Typings
import TypeLayer.Proofs.Function.Principal
import TypeLayer.Proofs.Function.Invariant
import TypeLayer.Proofs.Function.Program
import TypeLayer.Proofs.Function.Capture
import TypeLayer.Proofs.TypeExpr.Grammar
import TypeLayer.Proofs.TypeExpr.Lexing
import TypeLayer.Proofs.TypeExpr.Reading
import TypeLayer.Proofs.Nominal.Changes
import TypeLayer.Proofs.Nominal.Image
import TypeLayer.Proofs.Nominal.Denotation
import TypeLayer.Proofs.Nominal.Reachable
import TypeLayer.Proofs.Nominal.Agreement
import TypeLayer.Proofs.TypeExpr.Printing
import TypeLayer.Proofs.Nominal.Families
import TypeLayer.Proofs.Nominal.Instances
import TypeLayer.Proofs.Nominal.Arena
import TypeLayer.Proofs.Nominal.Transitivity
import TypeLayer.Proofs.Nominal.Contract
import TypeLayer.Proofs.Nominal.Growth
import TypeLayer.Proofs.Nominal.Declared
import TypeLayer.Proofs.Nominal.Fields
import TypeLayer.Proofs.Nominal.Acceptance
import TypeLayer.Proofs.Nominal.Withdrawal
import TypeLayer.Proofs.Nominal.Substitution
import TypeLayer.Proofs.Nominal.Mangling
import TypeLayer.Proofs.Nominal.Lowering
import TypeLayer.Proofs.Nominal.Likeness
import TypeLayer.Proofs.Structural.Conversion
import TypeLayer.Proofs.Structural.Printing
import TypeLayer.Proofs.Command.Unify
import TypeLayer.Proofs.Nominal.Rereading
import TypeLayer.Proofs.Nominal.Lasting
import TypeLayer.Proofs.Nominal.Memory
import TypeLayer.Proofs.Concurrent.Pool
import TypeLayer.Proofs.Concurrent.Specializing
import TypeLayer.Proofs.Concurrent.Alone
import TypeLayer.Proofs.Concurrent.Unique
import TypeLayer.Proofs.Concurrent.Creating
import TypeLayer.Proofs.Structural.Refusal
import TypeLayer.Proofs.Structural.Repetition
import TypeLayer.Proofs.Structural.Instantiation
import TypeLayer.Proofs.Nominal.Mutual
import TypeLayer.Proofs.Source.Excerpt
import TypeLayer.Proofs.TypeExpr.Sentence
import TypeLayer.Proofs.TypeExpr.Stray
import TypeLayer.Proofs.TypeExpr.Refusal
import TypeLayer.Proofs.TypeExpr.Spans
import TypeLayer.Proofs.TypeExpr.Phrase
import TypeLayer.Proofs.Nominal.Showing
import TypeLayer.Proofs.Nominal.Defects
import TypeLayer.Proofs.Nominal.Sizes
import TypeLayer.Proofs.Nominal.Templates
import TypeLayer.Proofs.Structural.Sharing
import TypeLayer.Proofs.TypeExpr.Lossless
import TypeLayer.Proofs.Nominal.Flatness
import TypeLayer.Proofs.Function.Listing
import TypeLayer.Proofs.Diagnostic.Location
