import Descent.Session.Command
import Descent.Grammar.RuleSet
import Descent.Proofs.Evaluation
import Descent.Proofs.World
import Descent.Proofs.Evolution
import Descent.Proofs.Fuel
import Descent.Proofs.Balance
import Descent.Proofs.Fragment
import Descent.Proofs.Forward
import Descent.Proofs.Transparency
import Descent.Proofs.Termination
import Descent.Proofs.Halting
import Descent.Proofs.Grouping
import Descent.Proofs.Repeatability
import Descent.Proofs.Remainder
import Descent.Proofs.Messages
import Descent.Proofs.Relabelling
import Descent.Proofs.OrderedChoice
import Descent.Proofs.Lossless
import Descent.Proofs.Arithmetic
import Descent.Proofs.Template
import Descent.Proofs.MarkupSoundness
import Descent.Proofs.Lifecycle
import Descent.Proofs.Counters
import Descent.Proofs.Sequencing
import Descent.Proofs.Alternatives
import Descent.Proofs.Commitment
import Descent.Proofs.Factoring
import Descent.Proofs.Iteration
import Descent.Proofs.Separation
import Descent.Proofs.Lexemes
import Descent.Proofs.Passages
import Descent.Proofs.Excerpts
