import Templating.Main
import Templating.Proofs.Data.Dictionary
import Templating.Proofs.Evaluation.Cache
import Templating.Proofs.Evaluation.Mirror
import Templating.Proofs.Grammar.Pieces
import Templating.Proofs.Grammar.Printing
import Templating.Proofs.Number.Counts
import Templating.Proofs.Template.Heads
import Templating.Proofs.Template.Restoring
import Templating.Proofs.Translation.Checked
import Templating.Proofs.Translation.Executable
import Templating.Proofs.Translation.Hoisting
import Templating.Proofs.Translation.Inlining
import Templating.Proofs.Evaluation.Captured
import Templating.Proofs.Evaluation.Inlined
import Templating.Proofs.Evaluation.Sharing
import Templating.Proofs.Translation.Indices
import Templating.Proofs.Template.Lossless
import Templating.Proofs.Template.Roots
import Templating.Proofs.Translation.Switch
import Templating.Proofs.Evaluation.Frozen
import Templating.Proofs.Translation.Fragments
import Templating.Proofs.Translation.LoopMarks
import Templating.Proofs.Evaluation.Siblings
import Templating.Proofs.Evaluation.Optimized
import Templating.Proofs.Markup.ByteAgreement
import Templating.Proofs.Translation.Reports
import Templating.Proofs.Translation.Chains
import Templating.Proofs.Template.Preformatted
import Templating.Proofs.Template.Whitespace
import Templating.Proofs.Evaluation.Verbatim
import Templating.Proofs.Template.Containment
import Templating.Proofs.Template.PlainContent
import Templating.Proofs.Template.Accounting
import Templating.Proofs.Template.Interpolations
import Templating.Proofs.Evaluation.Concatenation
import Templating.Proofs.Translation.Events
import Templating.Proofs.Evaluation.Loops
import Templating.Proofs.Grammar.Silence
import Templating.Proofs.Evaluation.Spreading
import Templating.Proofs.Data.Display
import Templating.Proofs.Template.Declarations
import Templating.Proofs.Template.WrittenHeaders
import Templating.Proofs.Translation.Splicing
import Templating.Proofs.Translation.LayeredCalls
import Templating.Proofs.Evaluation.FragmentKeys
