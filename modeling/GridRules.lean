import GridRules.Controller.Request
import GridRules.Json.Records
import GridRules.Proofs.Outcome
import GridRules.Proofs.PlainEngine
import GridRules.Proofs.Tree
import GridRules.Proofs.StackMachine
import GridRules.Proofs.Lexeme
import GridRules.Proofs.Piece
import GridRules.Proofs.Precedence
import GridRules.Proofs.Rejoin
import GridRules.Proofs.Reordering
import GridRules.Proofs.Grammar
import GridRules.Proofs.Owners
import GridRules.Proofs.Pushes
import GridRules.Proofs.Ledger
import GridRules.Proofs.Delay
import GridRules.Proofs.Backlog
import GridRules.Proofs.Blobs
import GridRules.Proofs.Dirty
import GridRules.Proofs.Restoring
import GridRules.Proofs.Saved
import GridRules.Proofs.Counts
import GridRules.Proofs.Archive
import GridRules.Proofs.Apart
import GridRules.Proofs.Limits
import GridRules.Proofs.Fits
import GridRules.Proofs.Pairs
import GridRules.Proofs.Margins
import GridRules.Proofs.Patches
import GridRules.Proofs.TagConditions
import GridRules.Proofs.Comparison
import GridRules.Proofs.Computed
import GridRules.Proofs.Lookups
import GridRules.Proofs.Listing
import GridRules.Proofs.Balanced
import GridRules.Proofs.Offenders
import GridRules.Proofs.Intake
import GridRules.Proofs.AdHoc
import GridRules.Proofs.Deposits
import GridRules.Proofs.Interrupted
import GridRules.Proofs.Debounce
import GridRules.Proofs.Views
import GridRules.Proofs.Snapshot
import GridRules.Proofs.Truth
import GridRules.Proofs.Diagnosis
import GridRules.Proofs.TagEdits
import GridRules.Proofs.ValidSettings
import GridRules.Proofs.PatchJson
import GridRules.Proofs.Coercions
import GridRules.Proofs.NumeralLiterals
