import Treewalk.Command.Outcome
import Treewalk.Main
import Treewalk.Proofs.Adequacy
import Treewalk.Proofs.DocumentText
import Treewalk.Proofs.Sessions
import Treewalk.Proofs.Grammar
import Treewalk.Proofs.Invariants
import Treewalk.Proofs.Frame
import Treewalk.Proofs.Scope
import Treewalk.Proofs.Lockstep
import Treewalk.Proofs.Locations
import Treewalk.Proofs.Blame
import Treewalk.Proofs.Advantage
import Treewalk.Proofs.Reads
import Treewalk.Proofs.Subterms
import Treewalk.Proofs.Inertness
import Treewalk.Proofs.Renaming
import Treewalk.Proofs.Commands
import Treewalk.Proofs.Normalization
import Treewalk.Proofs.Operations
import Treewalk.Proofs.Fields
import Treewalk.Proofs.Faults
import Treewalk.Proofs.Reports
import Treewalk.Proofs.KeyOrder
import Treewalk.Proofs.Parts
import Treewalk.Proofs.Explicit
import Treewalk.Proofs.Division
import Treewalk.Proofs.Height
import Treewalk.Proofs.Origins
import Treewalk.Proofs.Repetition
import Treewalk.Proofs.NodeCount
import Treewalk.Proofs.Quotation
import Treewalk.Proofs.DebugText
import Treewalk.Proofs.Factorial
import Treewalk.Proofs.Mismatches
import Treewalk.Proofs.Histories
import Treewalk.Proofs.Capture
