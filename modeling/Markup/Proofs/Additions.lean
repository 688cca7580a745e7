import Markup.Proofs.Composition

namespace Markup

variable {κ : Type}

inductive Addition (κ : Type) where
  | attr (value : Attr κ)
  | child (node : Node κ)

namespace Addition

def value : Addition κ → Node κ
  | .attr value => .foreign (.attr value)
  | .child node => node

def attrs : List (Addition κ) → List (Attr κ)
  | [] => []
  | .attr value :: rest => value :: attrs rest
  | .child _ :: rest => attrs rest

def children : List (Addition κ) → List (Node κ)
  | [] => []
  | .attr _ :: rest => children rest
  | .child node :: rest => node :: children rest

end Addition

open Addition

def Node.receive (node : Node κ) : Addition κ → Action (Node κ)
  | .attr value => node.attach (.foreign (.attr value))
  | .child other => node.append other

def Node.receiveAll (node : Node κ) (additions : List (Addition κ)) : Action (Node κ) :=
  additions.foldlM Node.receive node

-- What a node is once the waits it stands for were driven one after another,
-- each with a token and from a store of the schedule; none while it still waits.
def Node.outcome (host : Host κ) :
    List (Option Token × Store) → Node κ → Except Fault (Option (Node κ))
  | [],.deferred _ => .ok none
  | (given,store) :: later,.deferred pending =>
    match (Node.deferred pending).drive host given store with
    | .ok next _ => next.outcome host later
    | .error fault _ => .error fault
  | _,node => .ok (some node)

def comes (host : Host κ) (schedule : List (Option Token × Store)) :
    EStateM.Result Fault Store (Node κ) → Except Fault (Option (Node κ))
  | .ok node _ => node.outcome host schedule
  | .error fault _ => .error fault

-- The store a run leaves, but for the identities that were given out.
def traces : EStateM.Result Fault Store α → (Ident → Cursor) × (Token → Bool) × List Event
  | .ok _ after | .error _ after => (after.cursor,after.cancelled,after.journal)

def Store.traces (store : Store) : (Ident → Cursor) × (Token → Bool) × List Event :=
  (store.cursor,store.cancelled,store.journal)

structure Issued (start last : Store) : Prop where
  grown : start.supply ≤ last.supply
  traced : last.traces = start.traces

namespace Issued

theorem refl (store : Store) : Issued store store := ⟨Nat.le_refl _,rfl⟩

theorem trans (one : Issued start middle) (other : Issued middle last) : Issued start last :=
  ⟨Nat.le_trans one.grown other.grown,other.traced.trans one.traced⟩

theorem one (store : Store) : Issued store store.issued := ⟨Nat.le_succ _,rfl⟩

theorem cursor (issued : Issued start last) : last.cursor = start.cursor :=
  congrArg Prod.fst issued.traced

theorem cancelled (issued : Issued start last) : last.cancelled = start.cancelled :=
  congrArg (fun traces => traces.2.1) issued.traced

end Issued

section receiving

variable {additions : List (Addition κ)} {node : Node κ}

theorem receiveAll_nil (node : Node κ) (store : Store) :
    node.receiveAll [] store = .ok node store := rfl

theorem receiveAll_cons (node : Node κ) (first : Addition κ) (rest : List (Addition κ)) :
    node.receiveAll (first :: rest) = (do (← node.receive first).receiveAll rest) := by
  simp only [Node.receiveAll,List.foldlM_cons]

theorem receiveAll_children (nodes : List (Node κ)) :
    ∀ node : Node κ, node.receiveAll (nodes.map .child) = node.appendAll nodes := by
  induction nodes with
  | nil => exact fun _ => rfl
  | cons child rest ih =>
    intro node
    simp only [List.map_cons,receiveAll_cons,ih]
    simp only [Node.appendAll,List.foldlM_cons,Node.receive]

theorem attr?_proper {node : Node κ} (proper : node.isNode = true) : node.attr? = none := by
  cases node <;> first | rfl | simp [Node.isNode] at proper

theorem receiveAll_extend (proper : ∀ child ∈ children additions, child.isNode = true) :
    ∀ (node : Node κ), (additions.map value).foldlM Node.extend node = node.receiveAll additions := by
  induction additions with
  | nil => exact fun _ => rfl
  | cons first rest ih =>
    intro node
    have step : node.extend first.value = node.receive first := by
      cases first with
      | attr value => rfl
      | child other =>
        have inside : other.isNode = true := proper other (by simp [children])
        simp [Node.extend,value,attr?_proper inside,Node.receive]
    have later : ∀ child ∈ children rest, child.isNode = true := by
      intro child inside
      cases first with
      | attr value => exact proper child (by simpa [children] using inside)
      | child other => exact proper child (by simp [children,inside])
    simp only [List.map_cons,List.foldlM_cons,step,receiveAll_cons,ih later]

end receiving

theorem element_receives {additions : List (Addition κ)}
    (proper : ∀ child ∈ children additions, child.isNode = true) (tag : String) :
    ∀ (attributes : List (Attr κ)) (kids : List (Node κ)) (store : Store),
      (Node.element tag attributes kids).receiveAll additions store =
        .ok (.element tag (attributes ++ attrs additions)
          (kids ++ (children additions).flatMap Node.pieces)) store := by
  induction additions with
  | nil => simp [receiveAll_nil,attrs,children]
  | cons first rest ih =>
    intro attributes kids store
    cases first with
    | attr value =>
      rw [receiveAll_cons]
      simp only [Action.bind_apply,Node.receive,Node.attach,Node.attr?,Node.addAttribute,
        Action.pure_apply]
      rw [ih (by simpa [children] using proper)]
      simp [attrs,children]
    | child other =>
      obtain ⟨here,later⟩ : other.isNode = true ∧ ∀ child ∈ children rest, child.isNode = true := by
        simpa [children] using proper
      rw [receiveAll_cons]
      simp only [Action.bind_apply,Node.receive,append_element here]
      rw [ih later]
      simp [attrs,children]

-- A wait takes additions when it is driven: the wait around it is driven to
-- what the additions make of the result.
def DelaysAdditions (first : Pending κ) (additions : List (Addition κ)) (last : Pending κ) : Prop :=
  ∀ (host : Host κ) (given : Option Token), (Node.deferred last).drive host given =
    (do (← (Node.deferred first).drive host given).receiveAll additions)

theorem tokenOr_given (given : Option Token) (store : Store) :
    ∃ token after, Action.tokenOr given store = .ok token after := by
  cases given with
  | none => exact ⟨_,_,Action.tokenOr_none store⟩
  | some token => exact ⟨_,_,Action.tokenOr_some token store⟩

theorem delays_one {first last : Pending κ} (addition : Addition κ)
    (wraps : ∀ (host : Host κ) token, last.drive host token =
      (do Action.check token; (← first.drive host token).receive addition)) :
    DelaysAdditions first [addition] last := by
  intro host given
  funext store
  obtain ⟨token,after,got⟩ := tokenOr_given given store
  simp only [Node.drive,wraps,Action.bind_apply,got]
  by_cases live : after.cancelled token = false
  · simp only [Action.check_live live]
    cases first.drive host token after with
    | error fault last => rfl
    | ok found last =>
      simp only [Node.receiveAll,List.foldlM_cons,List.foldlM_nil,bind_pure]
  · simp [Action.check_stopped (eq_true_of_ne_false live)]

theorem delays_trans {first middle last : Pending κ} {one : Addition κ} {more : List (Addition κ)}
    (inner : DelaysAdditions first [one] middle) (outer : DelaysAdditions middle more last) :
    DelaysAdditions first (one :: more) last := by
  intro host given
  rw [outer host given,inner host given]
  simp [Node.receiveAll]

theorem wait_receives {additions : List (Addition κ)}
    (proper : ∀ child ∈ children additions, child.isNode = true) :
    ∀ (first : Pending κ) (store : Store), ∃ last after,
      (Node.deferred first).receiveAll additions store = .ok (.deferred last) after ∧
        Issued store after ∧ DelaysAdditions first additions last := by
  induction additions with
  | nil => exact fun first store => ⟨first,store,rfl,.refl _,fun _ _ => by simp [Node.receiveAll]⟩
  | cons addition rest ih =>
    intro first store
    cases addition with
    | attr value =>
      obtain ⟨last,after,received,issued,delays⟩ := ih (by simpa [children] using proper)
        (.attach store.supply first value) store.issued
      refine ⟨last,after,?_,(Issued.one _).trans issued,delays_trans (delays_one _ fun _ _ => rfl) delays⟩
      rw [receiveAll_cons]
      exact received
    | child other =>
      obtain ⟨here,later⟩ : other.isNode = true ∧ ∀ child ∈ children rest, child.isNode = true := by
        simpa [children] using proper
      obtain ⟨last,after,received,issued,delays⟩ := ih later (.append store.supply first other)
        store.issued
      refine ⟨last,after,?_,(Issued.one _).trans issued,delays_trans (delays_one _ fun _ _ => rfl) delays⟩
      rw [receiveAll_cons]
      simp only [Action.bind_apply,Node.receive,append_deferred here,received]

def Node.isClosed : Node κ → Bool
  | .text _ | .raw _ | .comment _ | .fragment _ => true
  | _ => false

theorem joinLeaves_closed {a b whole : Node κ} {store after : Store} (leaf : a.isLeaf = true)
    (joined : a.joinLeaves b store = .ok whole after) : whole.isClosed = true := by
  unfold Node.joinLeaves at joined
  split at joined <;> simp at joined <;> obtain ⟨rfl,_⟩ := joined <;> try rfl
  cases a <;> simp_all [Node.isLeaf,Node.isClosed]

theorem fragment_closed {nodes : List (Node κ)} {whole : Node κ} {store after : Store}
    (made : Schema.fragment nodes store = .ok whole after) : whole.isClosed = true := by
  unfold Schema.fragment at made
  cases checked : Schema.acceptAll Schema.acceptNode 0 nodes with
  | error problems => simp [checked,Checked.map,Checked.under,Action.ofChecked] at made
  | ok kids =>
    simp [checked,Checked.map,Checked.under] at made
    rw [←made.1]
    rfl

theorem closed_root {a : Node κ} (closed : a.isClosed = true) :
    a.isLeaf = true ∨ ∃ kids, a = .fragment kids := by
  cases a with
  | fragment kids => exact .inr ⟨kids,rfl⟩
  | text value | raw value | comment value => exact .inl rfl
  | _ => cases closed

theorem append_leaf {a b : Node κ} (leaf : a.isLeaf = true) (proper : b.isNode = true)
    (store : Store) :
    a.append b store =
      if b.isLeaf = true then a.joinLeaves b store else Schema.fragment (a :: b.pieces) store := by
  have first : a.isNode = true := by cases a <;> first | rfl | cases leaf
  simp only [Node.append,Action.bind_apply,requireNode_ok first,requireNode_ok proper]
  cases a with
  | text value | raw value | comment value => cases b.isLeaf <;> rfl
  | _ => cases leaf

theorem append_closed {a b whole : Node κ} {store after : Store} (closed : a.isClosed = true)
    (proper : b.isNode = true) (appended : a.append b store = .ok whole after) :
    whole.isClosed = true := by
  rcases closed_root closed with leaf | ⟨kids,rfl⟩
  · rw [append_leaf leaf proper] at appended
    split at appended
    · exact joinLeaves_closed leaf appended
    · exact fragment_closed appended
  · have first : (Node.fragment kids).isNode = true := rfl
    simp only [Node.append,Action.bind_apply,requireNode_ok first,requireNode_ok proper] at appended
    exact fragment_closed appended

theorem closed_receives {additions : List (Addition κ)}
    (proper : ∀ child ∈ children additions, child.isNode = true) :
    ∀ (a : Node κ) (store : Store), a.isClosed = true →
      a.receiveAll additions store = a.appendAll (children additions) store := by
  induction additions with
  | nil => exact fun _ _ _ => rfl
  | cons first rest ih =>
    intro a store closed
    cases first with
    | attr value =>
      have kept : a.receive (.attr value) store = .ok a store := by
        cases a <;> first | rfl | simp [Node.isClosed] at closed
      rw [receiveAll_cons]
      simp only [Action.bind_apply,kept,children]
      exact ih (by simpa [children] using proper) a store closed
    | child other =>
      obtain ⟨here,later⟩ : other.isNode = true ∧ ∀ child ∈ children rest, child.isNode = true := by
        simpa [children] using proper
      rw [receiveAll_cons,children]
      simp only [Node.appendAll,List.foldlM_cons,Action.bind_apply,Node.receive]
      cases appended : a.append other store with
      | error fault after => rfl
      | ok next after => exact ih later next after (append_closed closed here appended)

theorem children_only (nodes : List (Node κ)) : children (nodes.map .child) = nodes := by
  induction nodes with
  | nil => rfl
  | cons child rest ih => simp [children,ih]

section outcomes

variable {host : Host κ} {additions : List (Addition κ)}

theorem outcome_known {node : Node κ} (known : ∀ pending, node ≠ .deferred pending)
    (schedule : List (Option Token × Store)) : node.outcome host schedule = .ok (some node) := by
  cases schedule <;> cases node <;> first | rfl | exact absurd rfl (known _)

theorem outcome_wait (pending : Pending κ) (given : Option Token) (store : Store)
    (later : List (Option Token × Store)) :
    (Node.deferred pending).outcome host ((given,store) :: later) =
      comes host later ((Node.deferred pending).drive host given store) := by
  simp only [Node.outcome]
  cases (Node.deferred pending).drive host given store <;> rfl

theorem outcome_delayed {first last : Pending κ} (delays : DelaysAdditions first additions last)
    (given : Option Token) (store : Store) (later : List (Option Token × Store)) :
    (Node.deferred last).outcome host ((given,store) :: later) =
      match (Node.deferred first).drive host given store with
      | .ok found after => comes host later (found.receiveAll additions after)
      | .error fault _ => .error fault := by
  rw [outcome_wait,delays]
  simp only [Action.bind_apply]
  cases (Node.deferred first).drive host given store <;> rfl

theorem wait_comes (proper : ∀ child ∈ children additions, child.isNode = true)
    (pending : Pending κ) (store : Store) (given : Option Token) (start : Store)
    (later : List (Option Token × Store)) :
    comes host ((given,start) :: later) ((Node.deferred pending).receiveAll additions store) =
      match (Node.deferred pending).drive host given start with
      | .ok found after => comes host later (found.receiveAll additions after)
      | .error fault _ => .error fault := by
  obtain ⟨last,after,received,_,delays⟩ := wait_receives proper pending store
  rw [received,comes,outcome_delayed delays]

theorem wait_waits (proper : ∀ child ∈ children additions, child.isNode = true)
    (pending : Pending κ) (store : Store) :
    comes host [] ((Node.deferred pending).receiveAll additions store) = .ok none := by
  obtain ⟨last,after,received,_,_⟩ := wait_receives proper pending store
  rw [received]
  rfl

-- Induction along a schedule: a node that is known, one that waits at its end,
-- and a drive that fails or gives the next node.
theorem along (host : Host κ) {motive : List (Option Token × Store) → Node κ → Prop}
    (known : ∀ schedule node, (∀ pending, node ≠ .deferred pending) → motive schedule node)
    (waits : ∀ pending, motive [] (.deferred pending))
    (fails : ∀ given store later pending fault after,
      (Node.deferred pending).drive host given store = .error fault after →
        motive ((given,store) :: later) (.deferred pending))
    (gives : ∀ given store later pending found after,
      (Node.deferred pending).drive host given store = .ok found after → motive later found →
        motive ((given,store) :: later) (.deferred pending)) :
    ∀ schedule node, motive schedule node := by
  intro schedule
  induction schedule with
  | nil =>
    intro node
    cases node with
    | deferred pending => exact waits pending
    | _ => exact known [] _ (by simp)
  | cons start later ih =>
    intro node
    cases node with
    | deferred pending =>
      cases driven : (Node.deferred pending).drive host start.1 start.2 with
      | error fault after => exact fails _ _ later pending fault after driven
      | ok found after => exact gives _ _ later pending found after driven (ih found)
    | _ => exact known _ _ (by simp)

theorem appendTo_gives {id : Ident} {feed : Feed κ} {last : Pending κ} {given : Option Token}
    {store after : Store} {found : Node κ}
    (driven : (Node.deferred (.appendTo id feed last)).drive host given store = .ok found after) :
    ∃ whole, found = .sequence whole := by
  obtain ⟨token,start,got⟩ := tokenOr_given given store
  simp only [Node.drive,Pending.drive,Action.bind_apply,got] at driven
  by_cases live : start.cancelled token = false
  · simp only [Action.check_live live] at driven
    cases inner : last.drive host token start with
    | error fault middle => simp [inner] at driven
    | ok resolved middle =>
      simp only [inner,Action.fresh_apply,Action.pure_apply,EStateM.Result.ok.injEq] at driven
      exact ⟨_,driven.1.symm⟩
  · simp [Action.check_stopped (eq_true_of_ne_false live)] at driven

theorem feed_taken (proper : ∀ child ∈ children additions, child.isNode = true) :
    ∀ (feed : Feed κ) (store : Store), ∃ whole after,
      (Node.sequence feed).receiveAll additions store = .ok whole after ∧ Issued store after := by
  induction additions with
  | nil => exact fun feed store => ⟨_,store,rfl,.refl _⟩
  | cons first rest ih =>
    intro feed store
    rw [receiveAll_cons]
    cases first with
    | attr value => exact ih (by simpa [children] using proper) feed store
    | child other =>
      obtain ⟨here,later⟩ : other.isNode = true ∧ ∀ child ∈ children rest, child.isNode = true := by
        simpa [children] using proper
      simp only [Action.bind_apply,Node.receive]
      cases other with
      | sequence other =>
        obtain ⟨whole,after,taken,issued⟩ := ih later (.chain store.supply feed other) store.issued
        simp only [append_sequences]
        exact ⟨whole,after,taken,(Issued.one _).trans issued⟩
      | deferred pending =>
        obtain ⟨last,after,received,issued,_⟩ := wait_receives later
          (.appendTo store.supply feed pending) store.issued
        simp only [append_wait]
        exact ⟨_,after,received,(Issued.one _).trans issued⟩
      | _ =>
        rw [append_items here (by simp) (by simp)]
        obtain ⟨whole,after,taken,issued⟩ := ih later
          (.chain store.supply feed (.items store.issued.supply _)) store.issued.issued
        exact ⟨whole,after,taken,(Issued.one _).trans ((Issued.one _).trans issued)⟩

-- To a sequence attributes mean nothing, not even when a child that is still
-- deferred has made a wait of it: what that gives is a sequence again.
theorem feed_receives (proper : ∀ child ∈ children additions, child.isNode = true) :
    ∀ (feed : Feed κ) (store : Store) (schedule : List (Option Token × Store)),
      comes host schedule ((Node.sequence feed).receiveAll additions store) =
        comes host schedule ((Node.sequence feed).appendAll (children additions) store) := by
  induction additions with
  | nil => exact fun _ _ _ => rfl
  | cons first rest ih =>
    intro feed store schedule
    rw [receiveAll_cons]
    cases first with
    | attr value => exact ih (by simpa [children] using proper) feed store schedule
    | child other =>
      obtain ⟨here,later⟩ : other.isNode = true ∧ ∀ child ∈ children rest, child.isNode = true := by
        simpa [children] using proper
      rw [children]
      simp only [Node.appendAll,List.foldlM_cons,Action.bind_apply,Node.receive]
      cases other with
      | sequence other =>
        simp only [append_sequences]
        exact ih later _ store.issued schedule
      | deferred pending =>
        have plain : ∀ child ∈ children ((children rest).map .child), child.isNode = true := by
          rwa [children_only]
        simp only [append_wait]
        change _ = comes host schedule ((Node.deferred _).appendAll (children rest) store.issued)
        rw [←receiveAll_children]
        cases schedule with
        | nil => rw [wait_waits later,wait_waits plain]
        | cons start further =>
          rw [wait_comes later,wait_comes plain]
          cases driven : (Node.deferred (.appendTo store.supply feed pending)).drive host start.1
              start.2 with
          | error fault after => rfl
          | ok found after =>
            obtain ⟨whole,rfl⟩ := appendTo_gives driven
            simp only [receiveAll_children]
            exact ih later whole after further
      | _ =>
        rw [append_items here (by simp) (by simp)]
        exact ih later _ store.issued.issued schedule

inductive Root : Node κ → Prop where
  | element (tag : String) (attributes : List (Attr κ)) (kids : List (Node κ)) :
      Root (.element tag attributes kids)
  | closed (leaf : node.isClosed = true) : Root node
  | sequence (feed : Feed κ) : Root (.sequence feed)
  | deferred (pending : Pending κ) : Root (.deferred pending)

theorem isNode_root {node : Node κ} (proper : node.isNode = true) : Root node := by
  cases node with
  | element tag attributes kids => exact .element tag attributes kids
  | sequence feed => exact .sequence feed
  | deferred pending => exact .deferred pending
  | foreign value => simp [Node.isNode] at proper
  | _ => exact .closed rfl

theorem foreign_refuses (value : Foreign κ) (first : Addition κ) (rest : List (Addition κ))
    (store : Store) :
    (Node.foreign value).receiveAll (first :: rest) store = .error (.notNode value.kind) store := by
  rw [receiveAll_cons]
  cases first <;> rfl

theorem parts_nil (attrless : attrs additions = []) (childless : children additions = []) :
    additions = [] := by
  cases additions with
  | nil => rfl
  | cons first rest => cases first <;> simp [attrs,children] at attrless childless

section orders

variable {others : List (Addition κ)}

theorem foreign_orders (named : attrs additions = attrs others)
    (inside : children additions = children others) (value : Foreign κ) (store : Store) :
    (Node.foreign value).receiveAll additions store =
      (Node.foreign value).receiveAll others store := by
  cases additions with
  | nil =>
    have empty : others = [] := parts_nil named.symm inside.symm
    rw [empty]
  | cons first rest =>
    cases others with
    | nil =>
      have empty : first :: rest = [] := parts_nil named inside
      cases empty
    | cons first' rest' => rw [foreign_refuses,foreign_refuses]

-- Two orders of the same attributes and the same children come to the same: at
-- once for a root that is known, after each drive for one that is not.

theorem known_alike (proper : ∀ child ∈ children additions, child.isNode = true)
    (named : attrs additions = attrs others) (inside : children additions = children others)
    {a : Node κ} (known : ∀ pending, a ≠ .deferred pending) (store : Store)
    (schedule : List (Option Token × Store)) :
    comes host schedule (a.receiveAll additions store) =
      comes host schedule (a.receiveAll others store) := by
  have proper' : ∀ child ∈ children others, child.isNode = true := inside ▸ proper
  by_cases node : a.isNode = true
  · cases isNode_root node with
    | element tag attributes kids =>
      rw [element_receives proper,element_receives proper',named,inside]
    | closed leaf =>
      rw [closed_receives proper a store leaf,closed_receives proper' a store leaf,inside]
    | sequence feed => rw [feed_receives proper,feed_receives proper',inside]
    | deferred pending => exact absurd rfl (known pending)
  · cases a with
    | foreign value => rw [foreign_orders named inside]
    | _ => exact absurd rfl node

theorem orders_alike (proper : ∀ child ∈ children additions, child.isNode = true)
    (named : attrs additions = attrs others) (inside : children additions = children others)
    (schedule : List (Option Token × Store)) (a : Node κ) :
    ∀ store, comes host schedule (a.receiveAll additions store) =
      comes host schedule (a.receiveAll others store) := by
  have proper' : ∀ child ∈ children others, child.isNode = true := inside ▸ proper
  induction schedule, a using along host with
  | known schedule node known =>
    exact fun store => known_alike proper named inside known store schedule
  | waits pending => exact fun store => by rw [wait_waits proper,wait_waits proper']
  | fails given start later pending fault after driven =>
    exact fun store => by rw [wait_comes proper,wait_comes proper',driven]
  | gives given start later pending found after driven ih =>
    intro store
    rw [wait_comes proper,wait_comes proper',driven]
    exact ih after

theorem orders_traces (proper : ∀ child ∈ children additions, child.isNode = true)
    (named : attrs additions = attrs others) (inside : children additions = children others)
    (a : Node κ) (store : Store) :
    traces (a.receiveAll additions store) = traces (a.receiveAll others store) := by
  have proper' : ∀ child ∈ children others, child.isNode = true := inside ▸ proper
  by_cases node : a.isNode = true
  · cases isNode_root node with
    | element tag attributes kids => rw [element_receives proper,element_receives proper']; rfl
    | closed leaf =>
      rw [closed_receives proper a store leaf,closed_receives proper' a store leaf,inside]
    | sequence feed =>
      obtain ⟨_,_,taken,issued⟩ := feed_taken proper feed store
      obtain ⟨_,_,taken',issued'⟩ := feed_taken proper' feed store
      rw [taken,taken']
      exact issued.traced.trans issued'.traced.symm
    | deferred pending =>
      obtain ⟨_,_,taken,issued,_⟩ := wait_receives proper pending store
      obtain ⟨_,_,taken',issued',_⟩ := wait_receives proper' pending store
      rw [taken,taken']
      exact issued.traced.trans issued'.traced.symm
  · cases a with
    | foreign value => rw [foreign_orders named inside]
    | _ => exact absurd rfl node

end orders

theorem outcome_comes (proper : ∀ child ∈ children additions, child.isNode = true)
    {result expected : Except Fault (Option (Node κ))}
    (settles : ∀ node, result = .ok (some node) → ∀ store schedule,
      comes host schedule (node.receiveAll additions store) = expected)
    (waits : result = .ok none → expected = .ok none)
    (fails : ∀ fault, result = .error fault → expected = .error fault)
    (schedule : List (Option Token × Store)) (a : Node κ) :
    a.outcome host schedule = result →
      ∀ store, comes host schedule (a.receiveAll additions store) = expected := by
  induction schedule, a using along host with
  | known schedule node known =>
    intro found store
    rw [outcome_known known] at found
    exact settles node found.symm store schedule
  | waits pending => exact fun found store => by rw [wait_waits proper,waits found.symm]
  | fails given start later pending fault after driven =>
    intro found store
    rw [outcome_wait,driven] at found
    rw [wait_comes proper,driven,fails fault found.symm]
  | gives given start later pending found after driven ih =>
    intro reached store
    rw [outcome_wait,driven] at reached
    rw [wait_comes proper,driven]
    exact ih reached after

theorem element_comes (proper : ∀ child ∈ children additions, child.isNode = true) {tag : String}
    {attributes : List (Attr κ)} {kids : List (Node κ)} {schedule : List (Option Token × Store)}
    {a : Node κ} (found : a.outcome host schedule = .ok (some (.element tag attributes kids)))
    (store : Store) : comes host schedule (a.receiveAll additions store) =
      .ok (some (.element tag (attributes ++ attrs additions)
        (kids ++ (children additions).flatMap Node.pieces))) := by
  refine outcome_comes proper ?_ (by simp) (by simp) schedule a found store
  rintro node ⟨⟩ store schedule
  rw [element_receives proper,comes,outcome_known (by simp)]

theorem waiting_comes (proper : ∀ child ∈ children additions, child.isNode = true)
    {schedule : List (Option Token × Store)} {a : Node κ}
    (waits : a.outcome host schedule = .ok none) (store : Store) :
    comes host schedule (a.receiveAll additions store) = .ok none :=
  outcome_comes proper (by simp) (fun _ => rfl) (by simp) schedule a waits store

theorem failing_comes (proper : ∀ child ∈ children additions, child.isNode = true) {fault : Fault}
    {schedule : List (Option Token × Store)} {a : Node κ}
    (fails : a.outcome host schedule = .error fault) (store : Store) :
    comes host schedule (a.receiveAll additions store) = .error fault :=
  outcome_comes proper (by simp) (by simp) (by rintro _ ⟨⟩; rfl) schedule a fails store

def Node.isOther : Node κ → Bool
  | .sequence _ => true
  | node => node.isClosed

theorem other_root {a : Node κ} (root : a.isOther = true) :
    a.isClosed = true ∨ ∃ feed, a = .sequence feed := by
  cases a with
  | sequence feed => exact .inr ⟨feed,rfl⟩
  | _ => exact .inl root

theorem closed_other {a : Node κ} (closed : a.isClosed = true) : a.isOther = true := by
  cases a <;> first | rfl | exact closed

theorem append_other {a b next : Node κ} {store after : Store} (root : a.isOther = true)
    (proper : b.isNode = true) (appended : a.append b store = .ok next after) :
    next.isOther = true ∨ ∃ id feed last, next = .deferred (.appendTo id feed last) := by
  rcases other_root root with closed | ⟨feed,rfl⟩
  · exact .inl (closed_other (append_closed closed proper appended))
  · cases b with
    | sequence other =>
      rw [append_sequences] at appended
      cases appended
      exact .inl rfl
    | deferred pending =>
      rw [append_wait] at appended
      cases appended
      exact .inr ⟨_,_,_,rfl⟩
    | _ =>
      rw [append_items proper (by simp) (by simp)] at appended
      cases appended
      exact .inl rfl

theorem others_never (proper : ∀ child ∈ children additions, child.isNode = true) :
    ∀ {a : Node κ} (_ : a.isOther = true) (store : Store) (schedule : List (Option Token × Store))
      (tag : String) (attributes : List (Attr κ)) (kids : List (Node κ)),
        comes host schedule (a.receiveAll additions store) ≠
          .ok (some (.element tag attributes kids)) := by
  induction additions with
  | nil =>
    intro a root store schedule tag attributes kids
    rw [receiveAll_nil,comes,outcome_known (by rintro _ rfl; cases root)]
    rintro ⟨⟩
    cases root
  | cons first rest ih =>
    intro a root store schedule tag attributes kids
    rw [receiveAll_cons,Action.bind_apply]
    cases first with
    | attr value =>
      have kept : a.receive (.attr value) store = .ok a store := by
        cases a <;> first | rfl | simp [Node.isOther,Node.isClosed] at root
      rw [kept]
      exact ih (by simpa [children] using proper) root store schedule tag attributes kids
    | child other =>
      obtain ⟨here,later⟩ : other.isNode = true ∧ ∀ child ∈ children rest, child.isNode = true := by
        simpa [children] using proper
      rw [Node.receive]
      cases appended : a.append other store with
      | error fault after => simp [comes]
      | ok next after =>
        rcases append_other root here appended with root' | ⟨id,feed,last,rfl⟩
        · exact ih later root' after schedule tag attributes kids
        · cases schedule with
          | nil => simp [wait_waits later]
          | cons start further =>
            simp only [wait_comes later]
            cases driven : (Node.deferred (.appendTo id feed last)).drive host start.1 start.2 with
            | error fault after => simp
            | ok found after =>
              obtain ⟨whole,rfl⟩ := appendTo_gives driven
              exact ih later rfl after further tag attributes kids

theorem others_receive (proper : ∀ child ∈ children additions, child.isNode = true) {a : Node κ}
    (root : a.isOther = true) (store : Store) (schedule : List (Option Token × Store)) :
    comes host schedule (a.receiveAll additions store) =
      comes host schedule (a.appendAll (children additions) store) := by
  rcases other_root root with closed | ⟨feed,rfl⟩
  · rw [closed_receives proper a store closed]
  · exact feed_receives proper feed store schedule

theorem others_come (proper : ∀ child ∈ children additions, child.isNode = true) {root : Node κ}
    (other : root.isOther = true) (schedule : List (Option Token × Store)) (a : Node κ) :
    a.outcome host schedule = .ok (some root) → ∀ store,
      comes host schedule (a.receiveAll additions store) =
        comes host schedule (a.appendAll (children additions) store) ∧
      ∀ tag attributes kids, comes host schedule (a.receiveAll additions store) ≠
        .ok (some (.element tag attributes kids)) := by
  have plain : ∀ child ∈ children ((children additions).map .child), child.isNode = true := by
    rwa [children_only]
  induction schedule, a using along host with
  | known schedule node known =>
    intro found store
    rw [outcome_known known] at found
    cases found
    exact ⟨others_receive proper other store schedule,others_never proper other store schedule⟩
  | waits pending => exact fun found => by simp [Node.outcome] at found
  | fails given start later pending fault after driven =>
    exact fun found => by simp [outcome_wait,driven,comes] at found
  | gives given start later pending found after driven ih =>
    intro reached store
    rw [outcome_wait,driven] at reached
    rw [←receiveAll_children,wait_comes proper,wait_comes plain,driven]
    simpa only [receiveAll_children] using ih reached after

theorem outcome_settled {root : Node κ} (schedule : List (Option Token × Store)) (a : Node κ) :
    a.outcome host schedule = .ok (some root) → ∀ pending, root ≠ .deferred pending := by
  induction schedule, a using along host with
  | known schedule node known =>
    intro found
    rw [outcome_known known] at found
    cases found
    exact known
  | waits pending => exact fun found => by simp [Node.outcome] at found
  | fails given start later pending fault after driven =>
    exact fun found => by simp [outcome_wait,driven,comes] at found
  | gives given start later pending found after driven ih =>
    intro reached
    rw [outcome_wait,driven] at reached
    exact ih reached

end outcomes

-- A node as it is constructed: what a fragment holds are nodes as well.
def Node.Proper (node : Node κ) : Prop :=
  node.isNode = true ∧ ∀ piece ∈ node.pieces, piece.isNode = true

theorem joinLeaves_made {a : Node κ} (leaf : a.isLeaf = true) (b : Node κ) (store : Store) :
    ∃ whole after, a.joinLeaves b store = .ok whole after ∧ whole.isLeaf = true := by
  unfold Node.joinLeaves
  split <;> exact ⟨_,_,rfl,by first | rfl | exact leaf⟩

theorem leaf_proper {node : Node κ} (leaf : node.isLeaf = true) :
    node.isClosed = true ∧ node.Proper := by
  cases node with
  | text value | raw value | comment value =>
    exact ⟨rfl,rfl,fun piece inside => by rw [List.mem_singleton.mp inside]; rfl⟩
  | _ => cases leaf

theorem append_made {a b : Node κ} (closed : a.isClosed = true) (proper : a.Proper)
    (proper' : b.Proper) (store : Store) :
    ∃ whole after, a.append b store = .ok whole after ∧ whole.isClosed = true ∧ whole.Proper := by
  have grouped : ∀ nodes : List (Node κ), (∀ node ∈ nodes, node.isNode = true) →
      (Node.fragment nodes).isClosed = true ∧ (Node.fragment nodes).Proper :=
    fun nodes inside => ⟨rfl,rfl,inside⟩
  have both : ∀ node ∈ a.pieces ++ b.pieces, node.isNode = true := by
    intro node inside
    rcases List.mem_append.mp inside with here | there
    · exact proper.2 node here
    · exact proper'.2 node there
  rcases closed_root closed with leaf | ⟨kids,rfl⟩
  · rw [append_leaf leaf proper'.1]
    split
    · obtain ⟨whole,after,joined,leaf'⟩ := joinLeaves_made leaf b store
      exact ⟨whole,after,joined,leaf_proper leaf'⟩
    · have pieces : a.pieces = [a] := by cases a <;> first | rfl | cases leaf
      rw [pieces] at both
      exact ⟨_,_,fragment_apply both store,grouped _ both⟩
  · exact ⟨_,_,append_fragment proper'.1 proper.2 store proper'.2,grouped _ both⟩

theorem closed_made {nodes : List (Node κ)} (proper' : ∀ child ∈ nodes, child.Proper) :
    ∀ {a : Node κ}, a.isClosed = true → a.Proper → ∀ store,
      ∃ whole after, a.appendAll nodes store = .ok whole after := by
  induction nodes with
  | nil => exact fun {a} _ _ store => ⟨a,store,rfl⟩
  | cons child rest ih =>
    intro a closed proper store
    obtain ⟨here,later⟩ : child.Proper ∧ ∀ other ∈ rest, other.Proper := by simpa using proper'
    obtain ⟨next,after,appended,closed',proper⟩ := append_made closed proper here store
    simp only [Node.appendAll,List.foldlM_cons,Action.bind_apply,appended]
    exact ih later closed' proper after

theorem receiveAll_made {a : Node κ} {additions : List (Addition κ)} (proper : a.Proper)
    (proper' : ∀ child ∈ children additions, child.Proper) (store : Store) :
    ∃ whole after, a.receiveAll additions store = .ok whole after := by
  have nodes : ∀ child ∈ children additions, child.isNode = true :=
    fun child inside => (proper' child inside).1
  cases isNode_root proper.1 with
  | element tag attributes kids => exact ⟨_,_,element_receives nodes tag attributes kids store⟩
  | closed leaf =>
    rw [closed_receives nodes a store leaf]
    exact closed_made proper' leaf proper store
  | sequence feed =>
    obtain ⟨whole,after,taken,_⟩ := feed_taken nodes feed store
    exact ⟨whole,after,taken⟩
  | deferred pending =>
    obtain ⟨last,after,taken,_⟩ := wait_receives nodes pending store
    exact ⟨_,after,taken⟩

-- What adding attributes and children to a node comes to, next to another order
-- of the same attributes and the same children. A schedule stands for all that
-- may happen between building the node and driving the waits in it.
structure Independent (host : Host κ) (a : Node κ) (additions others : List (Addition κ))
    (store : Store) : Prop where
  made : ∃ whole after, a.receiveAll additions store = .ok whole after
  operator : (additions.map value).foldlM Node.extend a store = a.receiveAll additions store
  alike : ∀ schedule, comes host schedule (a.receiveAll additions store) =
    comes host schedule (a.receiveAll others store)
  traced : traces (a.receiveAll additions store) = traces (a.receiveAll others store)
  element : ∀ schedule tag attributes kids,
    a.outcome host schedule = .ok (some (.element tag attributes kids)) →
      comes host schedule (a.receiveAll additions store) =
        .ok (some (.element tag (attributes ++ attrs additions)
          (kids ++ (children additions).flatMap Node.pieces)))
  other : ∀ schedule root, a.outcome host schedule = .ok (some root) → root.isNode = true →
    (∀ tag attributes kids, root ≠ .element tag attributes kids) →
      comes host schedule (a.receiveAll additions store) =
        comes host schedule (a.appendAll (children additions) store) ∧
      ∀ tag attributes kids, comes host schedule (a.receiveAll additions store) ≠
        .ok (some (.element tag attributes kids))
  waits : ∀ schedule, a.outcome host schedule = .ok none →
    comes host schedule (a.receiveAll additions store) = .ok none
  fails : ∀ schedule fault, a.outcome host schedule = .error fault →
    comes host schedule (a.receiveAll additions store) = .error fault

theorem additions_independent (host : Host κ) {a : Node κ} {additions others : List (Addition κ)}
    (proper : a.Proper) (proper' : ∀ child ∈ children additions, child.Proper)
    (named : attrs additions = attrs others) (inside : children additions = children others)
    (store : Store) : Independent host a additions others store := by
  have nodes : ∀ child ∈ children additions, child.isNode = true :=
    fun child inside => (proper' child inside).1
  refine ⟨receiveAll_made proper proper' store,?_,?_,?_,?_,?_,?_,?_⟩
  · rw [receiveAll_extend nodes]
  · exact fun schedule => orders_alike nodes named inside schedule a store
  · exact orders_traces nodes named inside a store
  · exact fun schedule tag attributes kids found => element_comes nodes found store
  · intro schedule root found node apart
    cases isNode_root node with
    | element tag attributes kids => exact absurd rfl (apart tag attributes kids)
    | closed leaf => exact others_come nodes (closed_other leaf) schedule a found store
    | sequence feed => exact others_come nodes rfl schedule a found store
    | deferred pending => exact absurd rfl (outcome_settled schedule a found pending)
  · exact fun schedule waits => waiting_comes nodes waits store
  · exact fun schedule fault fails => failing_comes nodes fails store

def cardHost : Host Nat where
  depth := 0
  run _ _ := return .element "p" [.fixed "id" "card"] [.comment "card"]

def lateCard : Node Nat := .deferred (.body 0 "card" 0)

def cardParts : List (Addition Nat) := [.attr (.fixed "title" "x"),.child (.text "inside")]

theorem lateCard_independent : lateCard.Proper ∧ (∀ child ∈ children cardParts, child.Proper) ∧
    Independent cardHost lateCard cardParts cardParts.reverse {} ∧
      comes cardHost [(none,{})] (lateCard.receiveAll cardParts {}) =
        .ok (some (.element "p" [.fixed "id" "card",.fixed "title" "x"]
          [.comment "card",.text "inside"])) := by
  have late : lateCard.Proper := ⟨rfl,by simp [lateCard,Node.pieces,Node.isNode]⟩
  have inside : ∀ child ∈ children cardParts, child.Proper := by
    simp [cardParts,children,Node.Proper,Node.pieces,Node.isNode]
  have named : attrs cardParts = attrs cardParts.reverse := rfl
  have nodes : children cardParts = children cardParts.reverse := rfl
  exact ⟨late,inside,additions_independent cardHost late inside named nodes {},rfl⟩

end Markup
