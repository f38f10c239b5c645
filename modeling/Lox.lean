import Lox.Host.Toolbox
import Lox.Main
import Lox.Proofs.Grammar
import Lox.Proofs.Reading
import Lox.Tree.Text
import Lox.Proofs.Grammar.Soundness
import Lox.Proofs.Grammar.Acceptance
import Lox.Proofs.Grammar.Depth
import Lox.Proofs.Bodies
import Lox.Proofs.Pipe.Direct
import Lox.Proofs.Keeps
import Lox.Proofs.Pipe.Shape
import Lox.Proofs.Safety
import Lox.Proofs.Names
import Lox.Proofs.Renumber
import Lox.Proofs.Token.Counter
import Lox.Proofs.Token.Joined
import Lox.Proofs.Likeness
import Lox.Proofs.Likeness.Runs
import Lox.Proofs.Sessions
import Lox.Proofs.Locality
import Lox.Proofs.CurrentFrame
import Lox.Proofs.Signals
import Lox.Proofs.Signals.Log
import Lox.Proofs.Holding
import Lox.Proofs.Signals.Guard
import Lox.Proofs.Token.Lexemes
import Lox.Proofs.Grammar.Recovery
import Lox.Proofs.Lines
import Lox.Proofs.Accounts
import Lox.Proofs.Lines.Runs
import Lox.Proofs.ScopeGraph
import Lox.Proofs.Folding
import Lox.Proofs.Folding.Runs
import Lox.Proofs.Loops
import Lox.Proofs.Pipe.Faults
import Lox.Proofs.Pipe.Termination
import Lox.Proofs.Grammar.Indexed
import Lox.Proofs.Grammar.Positions
import Lox.Proofs.Grammar.Resumption
import Lox.Proofs.ScopeHistory
import Lox.Proofs.Token.Spelling
import Lox.Proofs.Token.Places
import Lox.Proofs.Number.Spans
import Lox.Proofs.Number.Text
import Lox.Proofs.Grammar.Origins
import Lox.Proofs.PrefixText
import Lox.Proofs.Sinks
import Lox.Proofs.ExitStatus
