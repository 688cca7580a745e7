import Markup.Proofs.Renaming.Walk
import Markup.Proofs.Settle

namespace Markup

variable {κ : Type}

inductive Job.Alike (world : World κ) : Job κ → Job κ → Prop where
  | node (same : Node.Alike world one other) : Job.Alike world (.node one) (.node other)
  | nodes (same : Nodes.Alike world one other) : Job.Alike world (.nodes one) (.nodes other)
  | feed (same : Feed.Alike world one other) : Job.Alike world (.feed one) (.feed other)

section settling

variable {host : Host κ} {token run run' : Token} {sense : Sense κ} {pairs : Pairing}
  {left right left' : Store}

theorem Tied.live (tied : Tied token pairs left right) (runs : Token.Alike token pairs run run')
    (live : left.cancelled run = false) : right.cancelled run' = false :=
  (tied.cancelled run run' runs).trans live

end settling

end Markup
