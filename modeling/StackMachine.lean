import StackMachine.Main
import StackMachine.Proofs.Occurrences
import StackMachine.Proofs.Reading
import StackMachine.Proofs.Substitution
import StackMachine.Proofs.Symbolic
import StackMachine.Proofs.Resolution
import StackMachine.Proofs.Assembly
import StackMachine.Proofs.Actions
import StackMachine.Proofs.Table
import StackMachine.Proofs.Refinement
import StackMachine.Proofs.Requests
import StackMachine.Proofs.Keeping
import StackMachine.Proofs.Effects
import StackMachine.Proofs.Logging
import StackMachine.Proofs.Calls
import StackMachine.Proofs.Atomicity
import StackMachine.Proofs.Persistence
import StackMachine.Proofs.Progress
import StackMachine.Proofs.Budgets
import StackMachine.Proofs.Pieces
import StackMachine.Proofs.Preparing
import StackMachine.Proofs.Limits
import StackMachine.Proofs.Jumps
import StackMachine.Proofs.Stacking
import StackMachine.Proofs.Handling
import StackMachine.Proofs.Records
import StackMachine.Proofs.Guises
import StackMachine.Proofs.Tracing
import StackMachine.Proofs.Accounts
import StackMachine.Proofs.Comments
import StackMachine.Proofs.Acceptance
import StackMachine.Proofs.Locating
import StackMachine.Proofs.Changes
import StackMachine.Proofs.Indentation
import StackMachine.Proofs.Outcomes
import StackMachine.Proofs.Encoding
import StackMachine.Proofs.Endings
import StackMachine.Proofs.Arguments
import StackMachine.Proofs.References
import StackMachine.Proofs.Dissection
import StackMachine.Proofs.Expansion
import StackMachine.Proofs.Settling
import StackMachine.Proofs.Rounding
import StackMachine.Proofs.Grammar
import StackMachine.Proofs.Entries
import StackMachine.Proofs.Words
import StackMachine.Proofs.Framing
import StackMachine.Proofs.Blocks
import StackMachine.Proofs.Postfix
import StackMachine.Proofs.Countdown
import StackMachine.Proofs.Values
import StackMachine.Proofs.Views
import StackMachine.Proofs.Loops
