import Markup.Proofs.Renaming.Agrees

namespace Markup

inductive Holding (κ : Type) where
  | single (own : Ident)
  | code (code : κ)
  | codes (code : Nat → κ)

variable {κ : Type}

def Entry.code : Entry κ → κ
  | .act code | .item code => code

mutual
def Node.holdings : Node κ → List (Holding κ)
  | .element _ attributes children => Attr.holdingsAll attributes ++ Node.holdingsAll children
  | .text _ | .raw _ | .comment _ => []
  | .fragment children => Node.holdingsAll children
  | .deferred pending => pending.holdings
  | .sequence feed => feed.holdings
  | .foreign value => value.holdings
def Node.holdingsAll : List (Node κ) → List (Holding κ)
  | [] => []
  | node :: rest => node.holdings ++ Node.holdingsAll rest
def Attr.holdings : Attr κ → List (Holding κ)
  | .fixed .. => []
  | .driven _ _ code => [.code code]
  | .named _ name source => name.holdings ++ source.holdings
def Attr.holdingsAll : List (Attr κ) → List (Holding κ)
  | [] => []
  | attr :: rest => attr.holdings ++ Attr.holdingsAll rest
def Pending.holdings : Pending κ → List (Holding κ)
  | .body _ _ code => [.code code]
  | .append _ first second => first.holdings ++ second.holdings
  | .appendTo _ feed last => feed.holdings ++ last.holdings
  | .attach _ inner attr => inner.holdings ++ attr.holdings
  | .coerce _ source => source.holdings
  | .maker value => value.holdings
def Feed.holdings : Feed κ → List (Holding κ)
  | .body own _ entries => .single own :: entries.map fun entry => .code entry.code
  | .endless own _ code => [.single own,.codes code]
  | .items own nodes => .single own :: Node.holdingsAll nodes
  | .chain own first second => .single own :: (first.holdings ++ second.holdings)
  | .coerce own inner => .single own :: inner.holdings
  | .refused own _ => [.single own]
def Foreign.holdings : Foreign κ → List (Holding κ)
  | .list items | .tuple items => Node.holdingsAll items
  | .marked _ _ items markup => Node.holdingsAll items ++ markup.holdings
  | .attr value => value.holdings
  | .html _ markup => markup.holdings
  | .source _ _ code => [.code code]
  | .once own _ code => [.single own,.code code]
  | .feed feed => feed.holdings
  | .lazy own items => .single own :: items.map .code
  | .shadowed _ _ template => template.holdings
  | .null | .bool _ | .int _ | .float _ | .string _ | .safe _ | .record _ | .pair .. | .scoped ..
  | .scopedTag _ | .token _ => []
end

def World.Holds (world : World κ) : Holding κ → Prop
  | .single own => world.ident own own
  | .code code => world.code code code
  | .codes code => ∀ place, world.code (code place) (code place)

variable {world : World κ}

theorem codes_alike {values : List α} {code : α → κ} {alike : α → α → Prop}
    (held : ∀ holding ∈ values.map fun value => Holding.code (code value), world.Holds holding)
    (same : ∀ value, world.code (code value) (code value) → alike value value) :
    List.Forall₂ alike values values := by
  rw [List.forall₂_same]
  intro value inside
  exact same value (held _ (List.mem_map_of_mem inside))

mutual
theorem Node.alike_self : ∀ node : Node κ, (∀ holding ∈ node.holdings, world.Holds holding) →
    Node.Alike world node node
  | .element _ attributes children,held => by
    rw [Node.holdings,List.forall_mem_append] at held
    exact .element (Attr.alike_selves attributes held.1) (Node.alike_selves children held.2)
  | .text _,_ => .text
  | .raw _,_ => .raw
  | .comment _,_ => .comment
  | .fragment children,held => .fragment (Node.alike_selves children held)
  | .deferred pending,held => .deferred (Pending.alike_self pending held)
  | .sequence feed,held => .sequence (Feed.alike_self feed held)
  | .foreign value,held => .foreign (Foreign.alike_self value held)
theorem Node.alike_selves : ∀ nodes : List (Node κ),
    (∀ holding ∈ Node.holdingsAll nodes, world.Holds holding) → Nodes.Alike world nodes nodes
  | [],_ => .nil
  | node :: rest,held => by
    rw [Node.holdingsAll,List.forall_mem_append] at held
    exact .cons (Node.alike_self node held.1) (Node.alike_selves rest held.2)
theorem Attr.alike_self : ∀ attr : Attr κ, (∀ holding ∈ attr.holdings, world.Holds holding) →
    Attr.Alike world attr attr
  | .fixed ..,_ => .fixed
  | .driven _ _ code,held => .driven (held (.code code) (List.mem_singleton_self _))
  | .named _ name source,held => by
    rw [Attr.holdings,List.forall_mem_append] at held
    exact .named (Node.alike_self name held.1) (Node.alike_self source held.2)
theorem Attr.alike_selves : ∀ attrs : List (Attr κ),
    (∀ holding ∈ Attr.holdingsAll attrs, world.Holds holding) → Attrs.Alike world attrs attrs
  | [],_ => .nil
  | attr :: rest,held => by
    rw [Attr.holdingsAll,List.forall_mem_append] at held
    exact .cons (Attr.alike_self attr held.1) (Attr.alike_selves rest held.2)
theorem Pending.alike_self : ∀ pending : Pending κ,
    (∀ holding ∈ pending.holdings, world.Holds holding) → Pending.Alike world pending pending
  | .body _ _ code,held => .body (held (.code code) (List.mem_singleton_self _))
  | .append _ first second,held => by
    rw [Pending.holdings,List.forall_mem_append] at held
    exact .append (Pending.alike_self first held.1) (Node.alike_self second held.2)
  | .appendTo _ feed last,held => by
    rw [Pending.holdings,List.forall_mem_append] at held
    exact .appendTo (Feed.alike_self feed held.1) (Pending.alike_self last held.2)
  | .attach _ inner attr,held => by
    rw [Pending.holdings,List.forall_mem_append] at held
    exact .attach (Pending.alike_self inner held.1) (Attr.alike_self attr held.2)
  | .coerce _ source,held => .coerce (Node.alike_self source held)
  | .maker value,held => .maker (Foreign.alike_self value held)
theorem Feed.alike_self : ∀ feed : Feed κ, (∀ holding ∈ feed.holdings, world.Holds holding) →
    Feed.Alike world feed feed
  | .body _ _ entries,held => by
    rw [Feed.holdings,List.forall_mem_cons] at held
    refine .body held.1 (codes_alike held.2 fun entry same => ?_)
    cases entry with
    | act => exact .act same
    | item => exact .item same
  | .endless _ _ code,held => by
    rw [Feed.holdings,List.forall_mem_cons] at held
    exact .endless held.1 (held.2 (.codes code) (List.mem_singleton_self _))
  | .items _ nodes,held => by
    rw [Feed.holdings,List.forall_mem_cons] at held
    exact .items held.1 (Node.alike_selves nodes held.2)
  | .chain _ first second,held => by
    rw [Feed.holdings,List.forall_mem_cons,List.forall_mem_append] at held
    exact .chain held.1 (Feed.alike_self first held.2.1) (Feed.alike_self second held.2.2)
  | .coerce _ inner,held => by
    rw [Feed.holdings,List.forall_mem_cons] at held
    exact .coerce held.1 (Feed.alike_self inner held.2)
  | .refused own _,held => .refused (held (.single own) (List.mem_singleton_self _))
theorem Foreign.alike_self : ∀ value : Foreign κ, (∀ holding ∈ value.holdings, world.Holds holding) →
    Foreign.Alike world value value
  | .list items,held => .list (Node.alike_selves items held)
  | .tuple items,held => .tuple (Node.alike_selves items held)
  | .marked _ _ items markup,held => by
    rw [Foreign.holdings,List.forall_mem_append] at held
    exact .marked (Node.alike_selves items held.1) (Node.alike_self markup held.2)
  | .attr value,held => .attr (Attr.alike_self value held)
  | .html _ markup,held => .html (Node.alike_self markup held)
  | .source _ _ code,held => .source (held (.code code) (List.mem_singleton_self _))
  | .once own _ code,held => by
    rw [Foreign.holdings,List.forall_mem_cons] at held
    exact .once held.1 (held.2 (.code code) (List.mem_singleton_self _))
  | .feed feed,held => .feed (Feed.alike_self feed held)
  | .lazy _ items,held => by
    rw [Foreign.holdings,List.forall_mem_cons] at held
    exact .lazy held.1 (codes_alike held.2 fun _ same => same)
  | .shadowed _ _ template,held => .shadowed (Node.alike_self template held)
  | .null,_ => .null
  | .bool _,_ => .bool
  | .int _,_ => .int
  | .float _,_ => .float
  | .string _,_ => .string
  | .safe _,_ => .safe
  | .record _,_ => .record
  | .pair ..,_ => .pair
  | .scoped ..,_ => .scoped
  | .scopedTag _,_ => .scopedTag
  | .token _,_ => .token
end

-- Where code stands for itself: what a body does hangs only on what it is given.
def equalSense : Sense κ := ⟨fun _ => Eq,fun _ _ _ same => same⟩

-- A body with a fixed result may stand in any number of trees, if no source that
-- is read or waited for once is in the result.
theorem reusable_agrees {node : Node κ} {token : Token} {pairs : Pairing}
    (reusable : ∀ own, .single own ∉ node.holdings) :
    Agrees token pairs equalSense.node (pure node) (pure node) := by
  refine .pure (Node.alike_self node fun holding inside => ?_)
  cases holding with
  | code code => rfl
  | codes code => exact fun _ => rfl
  | single own => exact (reusable own inside).elim

end Markup
