import Stencil.Datum
import Stencil.Main
import Stencil.Value.Equality
import Stencil.Proofs.Balance
import Stencil.Proofs.Pieces
import Stencil.Proofs.Forest
import Stencil.Proofs.Display
import Stencil.Proofs.Print
import Stencil.Proofs.Redisplay
import Stencil.Proofs.Refinement
import Stencil.Proofs.Escaping
import Stencil.Proofs.Scoping
import Stencil.Proofs.Inference
import Stencil.Proofs.Repair
import Stencil.Proofs.Independence
import Stencil.Proofs.Comments
import Stencil.Proofs.Equality
import Stencil.Proofs.Delivery
import Stencil.Proofs.Assembly
import Stencil.Proofs.Places
import Stencil.Proofs.Reports
import Stencil.Proofs.Closing
import Stencil.Proofs.Branches
import Stencil.Proofs.Grammar
import Stencil.Proofs.Tours
import Stencil.Proofs.Resolution
import Stencil.Proofs.Spans
import Stencil.Proofs.Dispatch
import Stencil.Proofs.Visits
import Stencil.Proofs.Sessions
import Stencil.Proofs.Entities
import Stencil.Proofs.LineStarts
import Stencil.Proofs.Reordering
import Stencil.Proofs.Outline
import Stencil.Proofs.Conversions
import Stencil.Proofs.Cuts
import Stencil.Proofs.Runs
import Stencil.Proofs.Checking
