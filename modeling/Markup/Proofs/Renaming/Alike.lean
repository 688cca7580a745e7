import Mathlib.Data.List.Forall2
import Markup.Build
import Markup.Proofs.Schema.Conformance

namespace Markup

structure World (κ : Type) where
  ident : Ident → Ident → Prop
  code : κ → κ → Prop

structure World.Within (world wider : World κ) : Prop where
  ident : ∀ own own', world.ident own own' → wider.ident own own'
  code : ∀ code code', world.code code code' → wider.code code code'

inductive Entry.Alike (world : World κ) : Entry κ → Entry κ → Prop where
  | act (same : world.code code code') : Entry.Alike world (.act code) (.act code')
  | item (same : world.code code code') : Entry.Alike world (.item code) (.item code')

-- Values of two runs that are the same up to names: the identity of what can be
-- read once or waited for once belongs to the one on the other side, and codes
-- do as they are told to. The identity of anything else is never looked at.
mutual
inductive Node.Alike (world : World κ) : Node κ → Node κ → Prop where
  | element (named : Attrs.Alike world attributes attributes')
      (inside : Nodes.Alike world children children') :
      Node.Alike world (.element tag attributes children) (.element tag attributes' children')
  | text : Node.Alike world (.text value) (.text value)
  | raw : Node.Alike world (.raw value) (.raw value)
  | comment : Node.Alike world (.comment value) (.comment value)
  | fragment (inside : Nodes.Alike world children children') :
      Node.Alike world (.fragment children) (.fragment children')
  | deferred (inside : Pending.Alike world pending pending') :
      Node.Alike world (.deferred pending) (.deferred pending')
  | sequence (inside : Feed.Alike world feed feed') :
      Node.Alike world (.sequence feed) (.sequence feed')
  | foreign (inside : Foreign.Alike world value value') :
      Node.Alike world (.foreign value) (.foreign value')
inductive Nodes.Alike (world : World κ) :
    List (Node κ) → List (Node κ) → Prop where
  | nil : Nodes.Alike world [] []
  | cons (here : Node.Alike world node node')
      (more : Nodes.Alike world rest rest') :
      Nodes.Alike world (node :: rest) (node' :: rest')
inductive Attr.Alike (world : World κ) : Attr κ → Attr κ → Prop where
  | fixed : Attr.Alike world (.fixed name value) (.fixed name value)
  | driven (same : world.code code code') :
      Attr.Alike world (.driven own label code) (.driven own' label code')
  | named (name : Node.Alike world key key')
      (source : Node.Alike world value value') :
      Attr.Alike world (.named own key value) (.named own' key' value')
inductive Attrs.Alike (world : World κ) :
    List (Attr κ) → List (Attr κ) → Prop where
  | nil : Attrs.Alike world [] []
  | cons (here : Attr.Alike world attr attr')
      (more : Attrs.Alike world rest rest') :
      Attrs.Alike world (attr :: rest) (attr' :: rest')
inductive Pending.Alike (world : World κ) :
    Pending κ → Pending κ → Prop where
  | body (same : world.code code code') :
      Pending.Alike world (.body own label code) (.body own' label code')
  | append (first : Pending.Alike world one one')
      (second : Node.Alike world node node') :
      Pending.Alike world (.append own one node) (.append own' one' node')
  | appendTo (first : Feed.Alike world feed feed')
      (second : Pending.Alike world last last') :
      Pending.Alike world (.appendTo own feed last) (.appendTo own' feed' last')
  | attach (first : Pending.Alike world wrapped wrapped')
      (second : Attr.Alike world attr attr') :
      Pending.Alike world (.attach own wrapped attr) (.attach own' wrapped' attr')
  | coerce (source : Node.Alike world node node') :
      Pending.Alike world (.coerce own node) (.coerce own' node')
  | maker (inside : Foreign.Alike world value value') :
      Pending.Alike world (.maker value) (.maker value')
inductive Feed.Alike (world : World κ) : Feed κ → Feed κ → Prop where
  | body (same : world.ident own own') (listed : List.Forall₂ (Entry.Alike world) entries entries') :
      Feed.Alike world (.body own label entries) (.body own' label entries')
  | endless (same : world.ident own own') (listed : ∀ place, world.code (code place) (code' place)) :
      Feed.Alike world (.endless own label code) (.endless own' label code')
  | items (same : world.ident own own') (inside : Nodes.Alike world nodes nodes') :
      Feed.Alike world (.items own nodes) (.items own' nodes')
  | chain (same : world.ident own own') (first : Feed.Alike world one one')
      (second : Feed.Alike world other other') :
      Feed.Alike world (.chain own one other) (.chain own' one' other')
  | coerce (same : world.ident own own') (inside : Feed.Alike world wrapped wrapped') :
      Feed.Alike world (.coerce own wrapped) (.coerce own' wrapped')
  | refused (same : world.ident own own') :
      Feed.Alike world (.refused own kind) (.refused own' kind)
inductive Foreign.Alike (world : World κ) :
    Foreign κ → Foreign κ → Prop where
  | null : Foreign.Alike world .null .null
  | bool : Foreign.Alike world (.bool value) (.bool value)
  | int : Foreign.Alike world (.int value) (.int value)
  | float : Foreign.Alike world (.float value) (.float value)
  | string : Foreign.Alike world (.string value) (.string value)
  | safe : Foreign.Alike world (.safe value) (.safe value)
  | list (inside : Nodes.Alike world items items') :
      Foreign.Alike world (.list items) (.list items')
  | tuple (inside : Nodes.Alike world items items') :
      Foreign.Alike world (.tuple items) (.tuple items')
  | marked (inside : Nodes.Alike world items items') (own : Node.Alike world markup markup') :
      Foreign.Alike world (.marked kind tuple items markup) (.marked kind tuple items' markup')
  | record : Foreign.Alike world (.record fields) (.record fields)
  | attr (inside : Attr.Alike world value value') :
      Foreign.Alike world (.attr value) (.attr value')
  | pair : Foreign.Alike world (.pair name value) (.pair name value)
  | html (inside : Node.Alike world markup markup') :
      Foreign.Alike world (.html own markup) (.html own' markup')
  | source (same : world.code code code') :
      Foreign.Alike world (.source own label code) (.source own' label code')
  | once (same : world.ident own own') (run : world.code code code') :
      Foreign.Alike world (.once own label code) (.once own' label code')
  | feed (inside : Feed.Alike world feed feed') :
      Foreign.Alike world (.feed feed) (.feed feed')
  | lazy (same : world.ident own own') (listed : List.Forall₂ world.code items items') :
      Foreign.Alike world (.lazy own items) (.lazy own' items')
  | shadowed (inside : Node.Alike world template template') :
      Foreign.Alike world (.shadowed own selector template) (.shadowed own' selector template')
  | scoped : Foreign.Alike world (.scoped own selector) (.scoped own' selector)
  | scopedTag : Foreign.Alike world (.scopedTag tag) (.scopedTag tag)
  | token : Foreign.Alike world (.token value) (.token value')
end

variable {κ : Type} {world wider : World κ}

theorem Entry.Alike.mono (within : world.Within wider) {entry entry' : Entry κ} :
    Entry.Alike world entry entry' → Entry.Alike wider entry entry'
  | .act same => .act (within.code _ _ same)
  | .item same => .item (within.code _ _ same)

mutual
theorem Node.Alike.mono (within : world.Within wider) : ∀ {node node' : Node κ},
    Node.Alike world node node' → Node.Alike wider node node'
  | _,_,.element named inside => .element (named.mono within) (inside.mono within)
  | _,_,.text => .text
  | _,_,.raw => .raw
  | _,_,.comment => .comment
  | _,_,.fragment inside => .fragment (inside.mono within)
  | _,_,.deferred inside => .deferred (inside.mono within)
  | _,_,.sequence inside => .sequence (inside.mono within)
  | _,_,.foreign inside => .foreign (inside.mono within)
theorem Nodes.Alike.mono (within : world.Within wider) : ∀ {nodes nodes' : List (Node κ)},
    Nodes.Alike world nodes nodes' → Nodes.Alike wider nodes nodes'
  | _,_,.nil => .nil
  | _,_,.cons here more => .cons (here.mono within) (more.mono within)
theorem Attr.Alike.mono (within : world.Within wider) : ∀ {attr attr' : Attr κ},
    Attr.Alike world attr attr' → Attr.Alike wider attr attr'
  | _,_,.fixed => .fixed
  | _,_,.driven same => .driven (within.code _ _ same)
  | _,_,.named name source => .named (name.mono within) (source.mono within)
theorem Attrs.Alike.mono (within : world.Within wider) : ∀ {attrs attrs' : List (Attr κ)},
    Attrs.Alike world attrs attrs' → Attrs.Alike wider attrs attrs'
  | _,_,.nil => .nil
  | _,_,.cons here more => .cons (here.mono within) (more.mono within)
theorem Pending.Alike.mono (within : world.Within wider) : ∀ {pending pending' : Pending κ},
    Pending.Alike world pending pending' → Pending.Alike wider pending pending'
  | _,_,.body same => .body (within.code _ _ same)
  | _,_,.append first second => .append (first.mono within) (second.mono within)
  | _,_,.appendTo first second => .appendTo (first.mono within) (second.mono within)
  | _,_,.attach first second => .attach (first.mono within) (second.mono within)
  | _,_,.coerce source => .coerce (source.mono within)
  | _,_,.maker inside => .maker (inside.mono within)
theorem Feed.Alike.mono (within : world.Within wider) : ∀ {feed feed' : Feed κ},
    Feed.Alike world feed feed' → Feed.Alike wider feed feed'
  | _,_,.body same listed => .body (within.ident _ _ same) (listed.imp fun _ _ => .mono within)
  | _,_,.endless same listed =>
    .endless (within.ident _ _ same) fun place => within.code _ _ (listed place)
  | _,_,.items same inside => .items (within.ident _ _ same) (inside.mono within)
  | _,_,.chain same first second =>
    .chain (within.ident _ _ same) (first.mono within) (second.mono within)
  | _,_,.coerce same inside => .coerce (within.ident _ _ same) (inside.mono within)
  | _,_,.refused same => .refused (within.ident _ _ same)
theorem Foreign.Alike.mono (within : world.Within wider) : ∀ {value value' : Foreign κ},
    Foreign.Alike world value value' → Foreign.Alike wider value value'
  | _,_,.null => .null
  | _,_,.bool => .bool
  | _,_,.int => .int
  | _,_,.float => .float
  | _,_,.string => .string
  | _,_,.safe => .safe
  | _,_,.list inside => .list (inside.mono within)
  | _,_,.tuple inside => .tuple (inside.mono within)
  | _,_,.marked inside own => .marked (inside.mono within) (own.mono within)
  | _,_,.record => .record
  | _,_,.attr inside => .attr (inside.mono within)
  | _,_,.pair => .pair
  | _,_,.html inside => .html (inside.mono within)
  | _,_,.source same => .source (within.code _ _ same)
  | _,_,.once same run => .once (within.ident _ _ same) (within.code _ _ run)
  | _,_,.feed inside => .feed (inside.mono within)
  | _,_,.lazy same listed => .lazy (within.ident _ _ same) (listed.imp within.code)
  | _,_,.shadowed inside => .shadowed (inside.mono within)
  | _,_,.scoped => .scoped
  | _,_,.scopedTag => .scopedTag
  | _,_,.token => .token
end

section values

variable {node node' : Node κ} {value value' : Foreign κ} {attr attr' : Attr κ}

theorem Attr.Alike.kind (alike : Attr.Alike world attr attr') : attr'.kind = attr.kind := by
  cases alike <;> rfl

theorem Foreign.Alike.kind (alike : Foreign.Alike world value value') : value'.kind = value.kind := by
  cases alike with
  | attr inside => exact inside.kind
  | _ => rfl

theorem Node.Alike.kind (alike : Node.Alike world node node') : node'.kind = node.kind := by
  cases alike with
  | foreign inside => exact inside.kind
  | _ => rfl

theorem Node.Alike.isNode (alike : Node.Alike world node node') : node'.isNode = node.isNode := by
  cases alike <;> rfl

theorem Node.Alike.isLeaf (alike : Node.Alike world node node') : node'.isLeaf = node.isLeaf := by
  cases alike <;> rfl

theorem Node.Alike.isNull (alike : Node.Alike world node node') : node'.isNull = node.isNull := by
  cases alike with
  | foreign inside => cases inside <;> rfl
  | _ => rfl

theorem Node.Alike.characters (alike : Node.Alike world node node') :
    Schema.characters node' = Schema.characters node := by
  cases alike with
  | foreign inside => cases inside <;> rfl
  | _ => rfl

theorem Attr.Alike.shown (alike : Attr.Alike world attr attr') : attr'.shown = attr.shown := by
  cases alike <;> rfl

theorem Attrs.Alike.shown {attrs attrs' : List (Attr κ)} (alike : Attrs.Alike world attrs attrs') :
    attrs'.map Attr.shown = attrs.map Attr.shown := by
  induction attrs generalizing attrs' with
  | nil =>
    cases alike
    rfl
  | cons attr rest ih =>
    cases alike with
    | cons here more => rw [List.map_cons,List.map_cons,here.shown,ih more]

mutual
theorem Node.Alike.shown : ∀ {node node' : Node κ}, Node.Alike world node node' →
    node'.shown = node.shown
  | _,_,.element named inside => by
    simp only [Node.shown,inside.shownAll,Node.fieldsWith,named.shown]
  | _,_,.text | _,_,.raw | _,_,.comment => rfl
  | _,_,.fragment inside => by simp only [Node.shown,inside.shownAll,Node.fieldsWith]
  | _,_,.deferred _ | _,_,.sequence _ => rfl
  | _,_,.foreign inside => by simp only [Node.shown,inside.shown]
theorem Nodes.Alike.shownAll : ∀ {nodes nodes' : List (Node κ)}, Nodes.Alike world nodes nodes' →
    Node.shownAll nodes' = Node.shownAll nodes
  | _,_,.nil => rfl
  | _,_,.cons here more => by simp only [Node.shownAll,here.shown,more.shownAll]
theorem Foreign.Alike.shown : ∀ {value value' : Foreign κ}, Foreign.Alike world value value' →
    value'.shown = value.shown
  | _,_,.list inside => by simp only [Foreign.shown,inside.shownAll]
  | _,_,.tuple inside => by simp only [Foreign.shown,inside.shownAll]
  | .marked _ true .., _,.marked inside _ | .marked _ false .., _,.marked inside _ => by
    simp only [Foreign.shown,inside.shownAll]
  | _,_,.attr inside => by simp only [Foreign.shown,inside.shown]
  | _,_,.null | _,_,.bool | _,_,.int | _,_,.float | _,_,.string | _,_,.safe | _,_,.record
  | _,_,.pair | _,_,.html _ | _,_,.source _ | _,_,.once .. | _,_,.feed _ | _,_,.lazy ..
  | _,_,.shadowed _ | _,_,.scoped | _,_,.scopedTag | _,_,.token => rfl
end

theorem Node.Alike.plain (alike : Node.Alike world node node') : node'.plain = node.plain := by
  cases alike with
  | element named inside =>
    simp only [Node.plain,Node.fieldsWith,Node.shownChildren,named.shown,inside.shownAll]
  | fragment inside =>
    simp only [Node.plain,Node.fieldsWith,Node.shownChildren,inside.shownAll]
  | foreign inside =>
    have shown := inside.shown
    cases inside with
    | attr inside => cases inside <;> rfl
    | string | safe | pair => rfl
    | _ => exact shown
  | _ => rfl

theorem Node.Alike.trusted (alike : Node.Alike world node node') :
    Node.Alike world (.raw node.plain) (.raw node'.plain) := by
  rw [alike.plain]
  exact .raw

theorem Nodes.Alike.append {one one' other other' : List (Node κ)} :
    Nodes.Alike world one one' → Nodes.Alike world other other' →
      Nodes.Alike world (one ++ other) (one' ++ other')
  | .nil,behind => behind
  | .cons here more,behind => .cons here (more.append behind)

theorem Attrs.Alike.append {one one' other other' : List (Attr κ)} :
    Attrs.Alike world one one' → Attrs.Alike world other other' →
      Attrs.Alike world (one ++ other) (one' ++ other')
  | .nil,behind => behind
  | .cons here more,behind => .cons here (more.append behind)

theorem Node.Alike.single (alike : Node.Alike world node node') :
    Nodes.Alike world [node] [node'] := .cons alike .nil

theorem Node.Alike.pieces (alike : Node.Alike world node node') :
    Nodes.Alike world node.pieces node'.pieces := by
  have whole := alike
  cases alike with
  | fragment inside => exact inside
  | _ => exact whole.single

theorem Nodes.Alike.forall₂ {nodes nodes' : List (Node κ)} :
    Nodes.Alike world nodes nodes' → List.Forall₂ (Node.Alike world) nodes nodes'
  | .nil => .nil
  | .cons here more => .cons here more.forall₂

theorem forall₂_getElem? {alike : α → β → Prop} {values : List α} {values' : List β}
    (same : List.Forall₂ alike values values') (place : Nat) :
    Option.Rel alike values[place]? values'[place]? := by
  induction same generalizing place with
  | nil => exact .none
  | cons here more ih =>
    cases place with
    | zero => exact .some here
    | succ place => simpa using ih place

theorem Node.Alike.leaf (alike : Node.Alike world node node') (leaf : node.isLeaf = true) :
    node' = node := by
  cases alike with
  | text | raw | comment => rfl
  | element | fragment | deferred | sequence | foreign => cases leaf

end values

theorem Attr.isStatic_alike {attr : Attr κ} (static : attr.isStatic = true) :
    Attr.Alike world attr attr := by
  cases attr with
  | fixed => exact .fixed
  | _ => cases static

theorem Attr.allStatic_alike {attrs : List (Attr κ)} (static : attrs.all Attr.isStatic = true) :
    Attrs.Alike world attrs attrs := by
  induction attrs with
  | nil => exact .nil
  | cons attr rest ih =>
    rw [List.all_cons,Bool.and_eq_true] at static
    exact .cons (Attr.isStatic_alike static.1) (ih static.2)

mutual
theorem Node.isStatic_alike : ∀ {node : Node κ}, node.isStatic = true → Node.Alike world node node
  | .element tag attributes children,static => by
    rw [Node.isStatic,Bool.and_eq_true] at static
    exact .element (Attr.allStatic_alike static.1) (Node.allStatic_alike static.2)
  | .text _,_ => .text
  | .raw _,_ => .raw
  | .comment _,_ => .comment
  | .fragment children,static => .fragment (Node.allStatic_alike static)
theorem Node.allStatic_alike : ∀ {nodes : List (Node κ)}, Node.allStatic nodes = true →
    Nodes.Alike world nodes nodes
  | [],_ => .nil
  | node :: rest,static => by
    rw [Node.allStatic,Bool.and_eq_true] at static
    exact .cons (Node.isStatic_alike static.1) (Node.allStatic_alike static.2)
end

inductive Checked.Alike (alike : α → β → Prop) : Checked α → Checked β → Prop where
  | ok (same : alike a b) : Checked.Alike alike (.ok a) (.ok b)
  | error : Checked.Alike alike (.error causes) (.error causes)

namespace Checked.Alike

theorem under {alike : α → β → Prop} {one : Checked α} {other : Checked β}
    (both : Checked.Alike alike one other) (step : Segment) :
    Checked.Alike alike (.under step one) (.under step other) := by
  cases both with
  | ok same => exact .ok same
  | error => exact .error

theorem map {alike : α → β → Prop} {alike' : γ → δ → Prop} {one : Checked α} {other : Checked β}
    {change : α → γ} {change' : β → δ} (both : Checked.Alike alike one other)
    (changed : ∀ a b, alike a b → alike' (change a) (change' b)) :
    Checked.Alike alike' (.map change one) (.map change' other) := by
  cases both with
  | ok same => exact .ok (changed _ _ same)
  | error => exact .error

theorem both {alike : α → β → Prop} {alike' : γ → δ → Prop} {one : Checked α} {other : Checked β}
    {one' : Checked γ} {other' : Checked δ} (first : Checked.Alike alike one other)
    (second : Checked.Alike alike' one' other') :
    Checked.Alike (fun a b => alike a.1 b.1 ∧ alike' a.2 b.2) (.both one one')
      (.both other other') := by
  cases first with
  | ok same =>
    cases second with
    | ok same' => exact .ok ⟨same,same'⟩
    | error => exact .error
  | error => cases second <;> exact .error

end Checked.Alike

theorem Node.Alike.acceptNode {node node' : Node κ} (alike : Node.Alike world node node') :
    Checked.Alike (Node.Alike world) (Schema.acceptNode node) (Schema.acceptNode node') := by
  have whole := alike
  cases alike with
  | foreign inside =>
    cases inside with
    | @record fields =>
      rw [Schema.acceptNode]
      cases read : (Schema.nodeOf (.object fields) : Checked (Node κ)) with
      | error problems => exact .error
      | ok node => exact .ok (Node.isStatic_alike (Schema.node_trimmed _ node read).1)
    | attr inside => cases inside <;> exact .error
    | _ => exact .error
  | _ => exact .ok whole

theorem Nodes.Alike.acceptAll {nodes nodes' : List (Node κ)} (alike : Nodes.Alike world nodes nodes')
    (place : Nat) :
    Checked.Alike (Nodes.Alike world) (Schema.acceptAll Schema.acceptNode place nodes)
      (Schema.acceptAll Schema.acceptNode place nodes') := by
  induction nodes generalizing nodes' place with
  | nil =>
    cases alike
    exact .ok .nil
  | cons node rest ih =>
    cases alike with
    | cons here more =>
      have read := (here.acceptNode.under (.index place)).both (ih more (place + 1))
      exact read.map fun _ _ same => .cons same.1 same.2

end Markup
