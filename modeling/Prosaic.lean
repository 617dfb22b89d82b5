import Prosaic.Main
import Prosaic.Proofs.Agreement
import Prosaic.Proofs.Awaiting
import Prosaic.Proofs.Blocks.Discipline
import Prosaic.Proofs.Closure
import Prosaic.Proofs.Compilation
import Prosaic.Proofs.Emission
import Prosaic.Proofs.Extension
import Prosaic.Proofs.Gating
import Prosaic.Proofs.Grammar.Totality
import Prosaic.Proofs.Limits
import Prosaic.Proofs.Isolation
import Prosaic.Proofs.Locations
import Prosaic.Proofs.Mirroring
import Prosaic.Proofs.Printing.RoundTrip
import Prosaic.Proofs.Program.Replacing
import Prosaic.Proofs.Purity.Memo
import Prosaic.Proofs.ReadBack
import Prosaic.Proofs.Registry.Reordering
import Prosaic.Proofs.Reordering
import Prosaic.Proofs.Repairs
import Prosaic.Proofs.Resuming.Resumption
import Prosaic.Proofs.Token.Layout
import Prosaic.Proofs.Token.Lines
import Prosaic.Proofs.Token.Selection
import Prosaic.Proofs.Token.Trivia
import Prosaic.Proofs.Transparency
import Prosaic.Proofs.Typing.Returning
import Prosaic.Proofs.Typing.Sound
import Prosaic.Proofs.Typing.Synonyms
import Prosaic.Proofs.Selecting.Declaration
import Prosaic.Proofs.Token.Strings
import Prosaic.Proofs.Typing.Careful
import Prosaic.Proofs.Suppression
import Prosaic.Proofs.Typing.OnDemand
import Prosaic.Proofs.Annotations
import Prosaic.Proofs.TypeScript.Strict
import Prosaic.Proofs.Spanning.Declaration
import Prosaic.Proofs.Diagnostic.Findings
import Prosaic.Proofs.TypeScript.Literal
import Prosaic.Proofs.Token.Numeral
import Prosaic.Proofs.Symmetry
import Prosaic.Proofs.Ty.Scope
import Prosaic.Proofs.Counting.Rules
import Prosaic.Proofs.TypeScript.Fresh
