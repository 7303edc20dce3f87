import Stencil.View
import Stencil.Storage.Edit
import Stencil.Config.File
import Stencil.Expr.Printer
import Stencil.Expr.Grammar
import Stencil.Expr.Rules
import Stencil.Artifact.Nesting
import Stencil.Proofs.Storage.Target
import Stencil.Proofs.Expr.Rules
import Stencil.Proofs.Template.Closer
import Stencil.Proofs.Artifact.Uses
import Stencil.Proofs.Artifact.Record
import Stencil.Proofs.Cache.Chain
import Stencil.Proofs.Cache.Inheriting
import Stencil.Proofs.Cache.Nearest
import Stencil.Proofs.Template.Slots
import Stencil.Proofs.Cache.Run
import Stencil.Proofs.Artifact.Carried
import Stencil.Proofs.Artifact.Nesting
import Stencil.Proofs.Template.Idempotence
import Stencil.Proofs.Cache.Slots
import Stencil.Proofs.Artifact.Flatten
import Stencil.Proofs.Cache.Trail
import Stencil.Proofs.Cache.Recorded
import Stencil.Proofs.Artifact.Requests
import Stencil.Proofs.Artifact.Appending
import Stencil.Proofs.Cache.Sources
import Stencil.Proofs.View.Rendering
import Stencil.Proofs.Cache.Unedited
import Stencil.Proofs.View.Output
import Stencil.Proofs.Artifact.PassThrough
import Stencil.Proofs.Cache.Collision
import Stencil.Proofs.Cache.Inquiry
import Stencil.Proofs.View.Confinement
import Stencil.Proofs.Cache.Interleaving
import Stencil.Proofs.Cache.Apart
import Stencil.Proofs.Cache.Order
import Stencil.Proofs.Storage.Removal
import Stencil.Proofs.Cache.Clearing
import Stencil.Proofs.Cache.Effects
import Stencil.Proofs.Cache.Templates
import Stencil.Proofs.Storage.Listing
import Stencil.Proofs.Template.Cutting
import Stencil.Proofs.Template.Parts
import Stencil.Proofs.Template.Runs
import Stencil.Proofs.Expr.Padding
import Stencil.Proofs.Expr.Fallback
import Stencil.Proofs.Expr.Written
import Stencil.Proofs.Binary64.Nearest
import Stencil.Proofs.Binary64.Whole
import Stencil.Proofs.Value.Arithmetic
import Stencil.Proofs.Value.Compare
import Stencil.Proofs.Text.Html
import Stencil.Proofs.Text.Measure
import Stencil.Proofs.Text.Quoted
import Stencil.Proofs.Expr.Extent
import Stencil.Proofs.Template.Bytes
import Stencil.Proofs.Template.Literals
