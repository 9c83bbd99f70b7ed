import Lift166.Architecture
import Lift166.Command
import Lift166.Encoding.Decode
import Lift166.Encoding.Opcode
import Lift166.Encoding.Window
import Lift166.Flow
import Lift166.Il
import Lift166.Instruction
import Lift166.Journal
import Lift166.Lifting.Access
import Lift166.Lifting.Arithmetic
import Lift166.Lifting.Bit
import Lift166.Lifting.Lift
import Lift166.Lifting.Move
import Lift166.Lifting.Transfer
import Lift166.Listing
import Lift166.Machine.Condition
import Lift166.Machine.Flag
import Lift166.Machine.Register
import Lift166.Machine.SpecialRegister
import Lift166.Main
import Lift166.Number.Bits
import Lift166.Number.Literal
import Lift166.Number.Text
import Lift166.Operand
import Lift166.Override.AddressMap
import Lift166.Override.Kind
import Lift166.Override.Record
import Lift166.Override.Store
import Lift166.Place
import Lift166.Proofs.AddressResolution
import Lift166.Proofs.AluEffect
import Lift166.Proofs.BitEffect
import Lift166.Proofs.CanonicalRecords
import Lift166.Proofs.Complete
import Lift166.Proofs.ControlFlow
import Lift166.Proofs.Countdown
import Lift166.Proofs.Decoded
import Lift166.Proofs.DefaultPointers
import Lift166.Proofs.Effects
import Lift166.Proofs.Emitted
import Lift166.Proofs.EncodedOperands
import Lift166.Proofs.Encodings
import Lift166.Proofs.Evaluation
import Lift166.Proofs.Execution
import Lift166.Proofs.FixedWords
import Lift166.Proofs.FlagEffects
import Lift166.Proofs.IgnoredBits
import Lift166.Proofs.Interleaving
import Lift166.Proofs.Literals
import Lift166.Proofs.Locality
import Lift166.Proofs.Naming
import Lift166.Proofs.NextAddress
import Lift166.Proofs.Numerals
import Lift166.Proofs.ProductsAndQuotients
import Lift166.Proofs.Queries
import Lift166.Proofs.References
import Lift166.Proofs.Refusals
import Lift166.Proofs.Relift
import Lift166.Proofs.Relocation
import Lift166.Proofs.Retention
import Lift166.Proofs.Runs
import Lift166.Proofs.SameFields
import Lift166.Proofs.SavedListing
import Lift166.Proofs.SavedTable
import Lift166.Proofs.Selections
import Lift166.Proofs.SingleBits
import Lift166.Proofs.SoundCode
import Lift166.Proofs.Span
import Lift166.Proofs.StackBalance
import Lift166.Proofs.StackMoves
import Lift166.Proofs.Step
import Lift166.Proofs.Storage
import Lift166.Proofs.StraightLine
import Lift166.Proofs.Variants
import Lift166.Proofs.WellFormed
import Lift166.Report.Arguments
import Lift166.Report.Basic
import Lift166.Report.Json
import Lift166.Report.Opcodes
import Lift166.Report.State
import Lift166.Settings
import Lift166.Surface
import Lift166.Text.Blank
import Lift166.Text.Digit
import Lift166.Text.Fold
import Lift166.Text.Printable
import Lift166.Text.Quoted
import Lift166.Variant
