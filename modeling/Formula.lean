import Formula.CommandLine
import Formula.Arena.Family
import Formula.Main
import Formula.Proofs.Arena.Handles
import Formula.Proofs.Bench.Blame
import Formula.Proofs.Binary64.Text
import Formula.Proofs.CommandLine
import Formula.Proofs.Grammar.Climbing
import Formula.Proofs.Grammar.Relabelling
import Formula.Proofs.Session.Shape
import Formula.Proofs.Lexeme.Partition
import Formula.Proofs.Session.Growth
import Formula.Proofs.Session.History
import Formula.Proofs.Session.Journal
import Formula.Proofs.Session.Leaves
import Formula.Proofs.Session.Nodes
import Formula.Proofs.Session.Phases
import Formula.Proofs.Session.Relaxation
import Formula.Proofs.Session.Rendering
import Formula.Proofs.Arena.Postorder
import Formula.Proofs.Grammar.Postorder
import Formula.Proofs.Session.Postorder
import Formula.Proofs.Bench.Nesting
import Formula.Proofs.Arena.Descent
import Formula.Proofs.Arena.Turns
import Formula.Proofs.Grammar.Rerun
import Formula.Proofs.Session.Rerun
import Formula.Proofs.Numeral.Integer
import Formula.Proofs.Numeral.Bytes
import Formula.Proofs.Supply.Steps
import Formula.Proofs.Bench.Recording
import Formula.Proofs.Lexeme.Layout
import Formula.Proofs.Session.Layout
import Formula.Proofs.Session.Refusals
