import Scriptlet.Command.Folder
import Scriptlet.Main
import Scriptlet.Program.Session
import Scriptlet.Program.Trace
import Scriptlet.Proofs.Canonical.Nesting
import Scriptlet.Proofs.Parser.Features
import Scriptlet.Proofs.Parser.Limits
import Scriptlet.Proofs.Run.Influence
import Scriptlet.Proofs.Run.Snapshots
import Scriptlet.Token.Stream
import Scriptlet.Proofs.Run.Functions
import Scriptlet.Proofs.Run.Halting
import Scriptlet.Proofs.Run.Termination
import Scriptlet.Proofs.Run.Nesting
import Scriptlet.Proofs.Run.Ceilings
import Scriptlet.Proofs.Run.Veiled
import Scriptlet.Proofs.Parser.Lexical
import Scriptlet.Proofs.Token.Stream
import Scriptlet.Proofs.Token.Failure
import Scriptlet.Proofs.Token.Lossless
import Scriptlet.Proofs.Run.Declarations
import Scriptlet.Proofs.Run.Boundary
import Scriptlet.Proofs.Run.Copies
import Scriptlet.Proofs.Parser.Joint
import Scriptlet.Proofs.Run.Equality
import Scriptlet.Proofs.Run.Carry
import Scriptlet.Proofs.Run.Division
import Scriptlet.Proofs.Run.Sizes
import Scriptlet.Proofs.Token.Spacing
import Scriptlet.Proofs.Canonical.Minimal
import Scriptlet.Proofs.Command.Table
import Scriptlet.Proofs.Run.Session
import Scriptlet.Proofs.Run.Trace
import Scriptlet.Proofs.Command.Folder
