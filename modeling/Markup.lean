import Markup.Main
import Markup.Node.Equal
import Markup.Json.Reader
import Markup.Proofs.Selector.Grammar
import Markup.Proofs.Action
import Markup.Proofs.Tree
import Markup.Proofs.Rendering.Settled
import Markup.Proofs.Composition
import Markup.Proofs.Rendering.Cancellation
import Markup.Proofs.Rendering.Unambiguous
import Markup.Proofs.Additions
import Markup.Proofs.Concatenation
import Markup.Proofs.Rendering.Laziness
import Markup.Proofs.Schema.Conformance
import Markup.Proofs.CommandLine
import Markup.Proofs.Sharing.Weaving
import Markup.Proofs.Rendering.Independence
import Markup.Proofs.Leaves
import Markup.Proofs.Selector.Refusal
import Markup.Proofs.Regrouping
import Markup.Proofs.Arguments
import Markup.Proofs.Deferral
import Markup.Proofs.Selector.Canonical
import Markup.Proofs.Selector.Continuation
import Markup.Proofs.Draining
import Markup.Proofs.Schema.Locality
import Markup.Proofs.Options.Members
import Markup.Proofs.Encoding
import Markup.Proofs.Shadows
import Markup.Proofs.Options.Loading
