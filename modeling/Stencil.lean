import Stencil.Session
import Stencil.Value.Equality
import Stencil.Main
import Stencil.Proofs.Template.Grammar
import Stencil.Proofs.Template.Run
import Stencil.Proofs.Template.Acceptance
import Stencil.Proofs.Template.Concatenation
import Stencil.Proofs.Template.Failure
import Stencil.Proofs.Template.Numeral
import Stencil.Proofs.Template.Printing
import Stencil.Proofs.Cache.Consistency
import Stencil.Proofs.Cache.Queue
import Stencil.Proofs.Session.Transparency
import Stencil.Proofs.Session.SharedCaches
import Stencil.Proofs.Render.Invocation
import Stencil.Proofs.Render.Program
import Stencil.Proofs.Render.Order
import Stencil.Proofs.Data.Conversion
import Stencil.Proofs.Data.Way
import Stencil.Proofs.Data.Composition
import Stencil.Proofs.Path.Written
import Stencil.Proofs.Render.Names
import Stencil.Proofs.Value.Entries
import Stencil.Proofs.Session.Reachable
import Stencil.Proofs.Render.Invalid
import Stencil.Proofs.Path.Shortcuts
import Stencil.Proofs.Path.Dotted
import Stencil.Proofs.Path.Characters
import Stencil.Proofs.Function.Binding
import Stencil.Proofs.Decimal.Bits
import Stencil.Proofs.Decimal.Exact
import Stencil.Proofs.Function.Integer
import Stencil.Proofs.Value.Distinct
import Stencil.Proofs.Value.Equality
import Stencil.Proofs.Value.Indistinguishable
import Stencil.Proofs.Data.Carrier
import Stencil.Proofs.Value.Integers
import Stencil.Proofs.Value.Merging
import Stencil.Proofs.Decimal.Digits
import Stencil.Proofs.Document.RoundTrip
import Stencil.Proofs.CommandLine.Selection
import Stencil.Proofs.CommandLine.Defines
import Stencil.Proofs.CommandLine.Layers
import Stencil.Proofs.Template.Lossless
import Stencil.Proofs.Data.Registry
