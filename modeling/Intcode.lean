import Intcode.CommandLine
import Intcode.Main
import Intcode.Proofs.Chain.Amplifier
import Intcode.Proofs.Chain.Cascade
import Intcode.Proofs.Chain.Closing
import Intcode.Proofs.Chain.Progress
import Intcode.Proofs.Chain.RootCause
import Intcode.Proofs.CommandLine.Reports
import Intcode.Proofs.CommandLine.Scanning
import Intcode.Proofs.CommandLine.Spelling
import Intcode.Proofs.Instruction.Encoding
import Intcode.Proofs.Machine.Accounting
import Intcode.Proofs.Machine.Advance
import Intcode.Proofs.Machine.Extension
import Intcode.Proofs.Machine.Independence
import Intcode.Proofs.Machine.Invariant
import Intcode.Proofs.Machine.Limit
import Intcode.Proofs.Machine.Registers
import Intcode.Proofs.Machine.Starvation
import Intcode.Proofs.Machine.StraightLine
import Intcode.Proofs.Machine.TableStep
import Intcode.Proofs.Machine.Trace
import Intcode.Proofs.Orderings.Loop
import Intcode.Proofs.Program.Listing
import Intcode.Proofs.Program.RoundTrip
import Intcode.Proofs.Program.Source
import Intcode.Proofs.Text.Unambiguous
