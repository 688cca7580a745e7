import Markup.Proofs.Feed
import Markup.Proofs.Renaming.Agrees

namespace Markup

variable {κ : Type}

-- Composing, building, reading and driving do the same to values that are the
-- same up to names.

namespace Agrees

variable {token : Token} {pairs : Pairing} {sense : Sense κ} {node node' : Node κ}
  {value value' : Node κ}

section composing

variable {alike : Pairing → α → β → Prop} {next : Unit → Action α} {next' : Unit → Action β}

theorem required (same : sense.node pairs node node')
    (later : node.isNode = true → Agrees token pairs alike (next ()) (next' ())) :
    Agrees token pairs alike (node.requireNode >>= next) (node'.requireNode >>= next') := by
  unfold Node.requireNode
  rw [same.isNode,same.kind]
  cases proper : node.isNode with
  | true => exact later proper
  | false => exact throw _

theorem joinLeaves (leaf : node.isLeaf = true) :
    Agrees token pairs sense.node (node.joinLeaves value) (node.joinLeaves value) := by
  have whole : sense.node pairs node node := by
    cases node with
    | text => exact .text
    | raw => exact .raw
    | comment => exact .comment
    | element | fragment | deferred | sequence | foreign => cases leaf
  unfold Node.joinLeaves
  split
  · exact pure .comment
  · exact pure .comment
  · exact pure .raw
  · exact (log _ _).bind fun _ within _ _ _ => pure (whole.mono (sense.within within))
  · exact pure .text

theorem fragment {nodes nodes' : List (Node κ)}
    (same : Nodes.Alike (sense.world pairs) nodes nodes') :
    Agrees token pairs sense.node (Schema.fragment nodes) (Schema.fragment nodes') := by
  have read := (same.acceptAll 0).under (.field "children")
  exact ofChecked (read.map fun _ _ inside => .fragment inside)

theorem chained {feed feed' : Feed κ} {nodes nodes' : List (Node κ)}
    (first : Feed.Alike (sense.world pairs) feed feed')
    (second : Nodes.Alike (sense.world pairs) nodes nodes') :
    Agrees token pairs sense.node
      (do let own ← Action.fresh
          return .sequence (.chain own feed (.items (← Action.fresh) nodes)))
      (do let own ← Action.fresh
          return .sequence (.chain own feed' (.items (← Action.fresh) nodes'))) := by
  refine fresh.bind fun wider within own own' same => fresh.bind fun widest within' _ _ last => ?_
  have all := sense.within (within.trans within')
  exact pure (.sequence (.chain (within' _ _ same) (first.mono all) (.items last (second.mono all))))

theorem append (one : sense.node pairs node node') (other : sense.node pairs value value') :
    Agrees token pairs sense.node (node.append value) (node'.append value') := by
  refine required one fun proper => required other fun proper' => ?_
  have leaf : node.isLeaf = true → Agrees token pairs sense.node
      (if value.isLeaf then node.joinLeaves value else Schema.fragment (node :: value.pieces))
      (if value'.isLeaf then node'.joinLeaves value'
        else Schema.fragment (node' :: value'.pieces)) := by
    intro leaf
    rw [other.isLeaf]
    split
    · rename_i short
      rw [one.leaf leaf,other.leaf short]
      exact joinLeaves leaf
    · exact fragment (.cons one other.pieces)
  cases one with
  | element named inside => exact pure (.element named (inside.append other.pieces))
  | fragment inside => exact fragment (inside.append other.pieces)
  | deferred inside =>
    exact fresh.bind fun _ within _ _ _ =>
      pure (.deferred
        (.append (inside.mono (sense.within within)) (other.mono (sense.within within))))
  | sequence inside =>
    have items : Agrees token pairs sense.node _ _ := chained inside other.pieces
    cases other with
    | sequence more =>
      exact fresh.bind fun _ within _ _ same => pure (.sequence
        (.chain same (inside.mono (sense.within within)) (more.mono (sense.within within))))
    | deferred more =>
      exact fresh.bind fun _ within _ _ _ => pure (.deferred
        (.appendTo (inside.mono (sense.within within)) (more.mono (sense.within within))))
    | element | text | raw | comment | fragment => exact items
    | foreign => cases proper'
  | text | raw | comment => exact leaf rfl
  | foreign => cases proper

theorem addAttribute {attr attr' : Attr κ} (one : sense.node pairs node node')
    (other : Attr.Alike (sense.world pairs) attr attr') :
    Agrees token pairs sense.node (node.addAttribute attr) (node'.addAttribute attr') := by
  have whole := one
  cases one with
  | element named inside => exact pure (.element (named.append (.cons other .nil)) inside)
  | deferred inside =>
    exact fresh.bind fun _ within _ _ _ => pure (.deferred
      (.attach (inside.mono (sense.within within)) (other.mono (sense.within within))))
  | text | raw | comment | fragment | sequence | foreign => exact required whole fun _ => pure whole

theorem ofSource (same : sense.node pairs node node') :
    Agrees token pairs sense.node (Node.ofSource node) (Node.ofSource node') :=
  fresh.bind fun _ within _ _ _ => pure (.deferred (.coerce (same.mono (sense.within within))))

theorem ofFeed {feed feed' : Feed κ} (same : Feed.Alike (sense.world pairs) feed feed') :
    Agrees token pairs sense.node (Node.ofFeed (.foreign (.feed feed)))
      (Node.ofFeed (.foreign (.feed feed'))) :=
  fresh.bind fun _ within _ _ own => pure (.sequence (.coerce own (same.mono (sense.within within))))

theorem parsed (selector : String) :
    Agrees token pairs sense.node (parseElement selector) (parseElement selector) := by
  unfold parseElement
  split
  · refine pure (Node.isStatic_alike ?_)
    simp [Selector.element,Node.isStatic,Node.allStatic,Attr.isStatic]
  · exact (log _ _).bind fun _ _ _ _ _ => throw _

theorem unclosed {own own' : Ident} {more more' : Cursor → Action (Option (Node κ))}
    (same : pairs own own')
    (later : ∀ wider, pairs.Within wider → ∀ cursor,
      Agrees token wider (fun pairs => Option.Rel (sense.node pairs)) (more cursor) (more' cursor)) :
    Agrees token pairs (fun pairs => Option.Rel (sense.node pairs))
      (do let cursor ← Action.cursor own
          if cursor.phase = .closed then return none
          more cursor)
      (do let cursor ← Action.cursor own'
          if cursor.phase = .closed then return none
          more' cursor) := by
  refine (readCursor same).bind fun wider within cursor _ found => ?_
  cases found
  split
  · exact pure .none
  · exact later wider within cursor

end composing

section values

def ReadsListAlike (token : Token) (sense : Sense κ)
    (read read' : Ident → List κ → Action (List (Node κ))) :
    Prop :=
  ∀ {pairs own own' items items'}, pairs own own' → List.Forall₂ (sense.code pairs) items items' →
    Agrees token pairs (fun pairs => Nodes.Alike (sense.world pairs)) (read own items)
      (read' own' items')

-- A relation between two nodes that values are added to, which stay so related
-- as long as the values are alike.
structure KeptByAdding (token : Token) (sense : Sense κ) (rel : Pairing → Node κ → Node κ → Prop) :
    Prop where
  mono : ∀ {pairs wider : Pairing}, pairs.Within wider → ∀ {node node'},
    rel pairs node node' → rel wider node node'
  append : ∀ {pairs node node' value value'}, rel pairs node node' →
    sense.node pairs value value' → Agrees token pairs rel (node.append value) (node'.append value')
  addAttribute : ∀ {pairs node node' attr attr'}, rel pairs node node' →
    Attr.Alike (sense.world pairs) attr attr' →
      Agrees token pairs rel (node.addAttribute attr) (node'.addAttribute attr')

theorem KeptByAdding.alike : KeptByAdding token sense sense.node :=
  ⟨fun within _ _ => .mono (sense.within within),Agrees.append,Agrees.addAttribute⟩

def AddsListAlike (token : Token) (sense : Sense κ) (rel : Pairing → Node κ → Node κ → Prop)
    (read read' : Ident → List κ → Node κ → Action (Node κ)) : Prop :=
  ∀ {pairs own own' items items' node node'}, pairs own own' →
    List.Forall₂ (sense.code pairs) items items' → rel pairs node node' →
      Agrees token pairs rel (read own items node) (read' own' items' node')

variable {read read' : Ident → List κ → Action (List (Node κ))}
  {fill fill' : Ident → List κ → Node κ → Action (Node κ)}
  {rel : Pairing → Node κ → Node κ → Prop}

-- The recursion is on the values: after a step they are alike where more
-- belongs together.
mutual
theorem coerceWith (reads : ReadsListAlike token sense read read') :
    ∀ (value : Node κ) {value' : Node κ} {pairs : Pairing}, sense.node pairs value value' →
      Agrees token pairs sense.node (value.coerceWith read) (value'.coerceWith read')
  | .foreign value,_,_,.foreign same => coerceForeign reads value same
  | .element ..,_,_,.element named inside => pure (.element named inside)
  | .text _,_,_,.text => pure .text
  | .raw _,_,_,.raw => pure .raw
  | .comment _,_,_,.comment => pure .comment
  | .fragment _,_,_,.fragment inside => pure (.fragment inside)
  | .deferred _,_,_,.deferred inside => pure (.deferred inside)
  | .sequence _,_,_,.sequence inside => pure (.sequence inside)
theorem coerceForeign (reads : ReadsListAlike token sense read read') :
    ∀ (value : Foreign κ) {value' : Foreign κ} {pairs : Pairing},
      Foreign.Alike (sense.world pairs) value value' →
        Agrees token pairs sense.node (value.coerceWith read) (value'.coerceWith read')
  | .list items,_,_,.list inside | .tuple items,_,_,.tuple inside =>
    (coerceAll reads items inside).bind fun _ _ _ _ inside => pure (.fragment inside)
  | .lazy .., _,_,.lazy same listed =>
    (reads same listed).bind fun _ _ _ _ inside => pure (.fragment inside)
  | .safe _,_,_,.safe => pure .raw
  | .html .., _,_,.html inside | .marked .., _,_,.marked _ inside => pure inside.trusted
  | .string _,_,_,.string => pure .text
  | .attr _,_,_,.attr inside => by cases inside <;> exact .throw _
  | .null,_,_,.null | .bool _,_,_,.bool | .int _,_,_,.int | .float _,_,_,.float
  | .record _,_,_,.record | .pair .., _,_,.pair | .source .., _,_,.source _
  | .once .., _,_,.once _ _ | .feed _,_,_,.feed _ | .shadowed .., _,_,.shadowed _
  | .scoped .., _,_,.scoped | .scopedTag _,_,_,.scopedTag | .token _,_,_,.token => throw _
theorem coerceAll (reads : ReadsListAlike token sense read read') :
    ∀ (items : List (Node κ)) {items' : List (Node κ)} {pairs : Pairing},
      Nodes.Alike (sense.world pairs) items items' →
        Agrees token pairs (fun pairs => Nodes.Alike (sense.world pairs))
          (Node.coerceAll read items) (Node.coerceAll read' items')
  | [],_,_,.nil => pure .nil
  | item :: rest,_,_,.cons here more => by
    rw [Node.coerceAll_cons,Node.coerceAll_cons,here.isNull]
    split
    · exact coerceAll reads rest more
    · refine (coerceWith reads item here).bind fun _ within _ _ first => ?_
      refine (coerceAll reads rest (more.mono (sense.within within))).bind
        fun _ within' _ _ others => ?_
      exact pure (.cons (first.mono (sense.within within')) others)
end

mutual
theorem addWith (kept : KeptByAdding token sense rel)
    (fills : AddsListAlike token sense rel fill fill') :
    ∀ (value : Node κ) {value' node node' : Node κ} {pairs : Pairing},
      rel pairs node node' → sense.node pairs value value' →
        Agrees token pairs rel (node.addWith fill value) (node'.addWith fill' value')
  | .foreign value,_,_,_,_,one,.foreign same => addForeign kept fills value one same
  | .element ..,_,_,_,_,one,.element named inside => kept.append one (.element named inside)
  | .text _,_,_,_,_,one,.text => kept.append one .text
  | .raw _,_,_,_,_,one,.raw => kept.append one .raw
  | .comment _,_,_,_,_,one,.comment => kept.append one .comment
  | .fragment _,_,_,_,_,one,.fragment inside => kept.append one (.fragment inside)
  | .deferred _,_,_,_,_,one,.deferred inside => kept.append one (.deferred inside)
  | .sequence _,_,_,_,_,one,.sequence inside => kept.append one (.sequence inside)
theorem addForeign (kept : KeptByAdding token sense rel) (fills : AddsListAlike token sense rel fill fill') :
    ∀ (value : Foreign κ) {value' : Foreign κ} {node node' : Node κ} {pairs : Pairing},
      rel pairs node node' → Foreign.Alike (sense.world pairs) value value' →
        Agrees token pairs rel (value.addWith fill node) (value'.addWith fill' node')
  | .null,_,_,_,_,one,.null => pure one
  | .attr _,_,_,_,_,one,.attr inside => kept.addAttribute one inside
  | .list items,_,_,_,_,one,.list inside | .tuple items,_,_,_,_,one,.tuple inside
  | .marked _ _ items _,_,_,_,_,one,.marked inside _ => addAll kept fills items one inside
  | .lazy .., _,_,_,_,one,.lazy same listed => fills same listed one
  | .feed _,_,_,_,_,one,.feed inside =>
    (ofFeed inside).bind fun _ within _ _ made => kept.append (kept.mono within one) made
  | .once .., _,_,_,_,one,.once same run =>
    (ofSource (.foreign (.once same run))).bind fun _ within _ _ made =>
      kept.append (kept.mono within one) made
  | .safe _,_,_,_,_,one,.safe => kept.append one .raw
  | .html .., _,_,_,_,one,.html inside => kept.append one inside.trusted
  | .string _,_,_,_,_,one,.string => kept.append one .text
  | .bool _,_,_,_,_,_,.bool | .int _,_,_,_,_,_,.int | .float _,_,_,_,_,_,.float
  | .record _,_,_,_,_,_,.record | .pair .., _,_,_,_,_,.pair | .source .., _,_,_,_,_,.source _
  | .shadowed .., _,_,_,_,_,.shadowed _ | .scoped .., _,_,_,_,_,.scoped
  | .scopedTag _,_,_,_,_,_,.scopedTag | .token _,_,_,_,_,_,.token => throw _
theorem addAll (kept : KeptByAdding token sense rel)
    (fills : AddsListAlike token sense rel fill fill') :
    ∀ (items : List (Node κ)) {items' : List (Node κ)} {node node' : Node κ} {pairs : Pairing},
      rel pairs node node' → Nodes.Alike (sense.world pairs) items items' →
        Agrees token pairs rel (Node.addAllWith fill node items)
          (Node.addAllWith fill' node' items')
  | [],_,_,_,_,one,.nil => pure one
  | item :: rest,_,_,_,_,one,.cons here more =>
    (addWith kept fills item one here).bind fun _ within _ _ next =>
      addAll kept fills rest next (more.mono (sense.within within))
end

end values

end Agrees

namespace Host.Local

variable {token : Token} {sense : Sense κ} {host : Host κ} {pairs : Pairing}

section lists

variable {own own' : Ident} {items items' : List κ}

theorem lazyNext (sound : host.Local token sense) (same : pairs own own')
    (listed : List.Forall₂ (sense.code pairs) items items') :
    Agrees token pairs (fun pairs => Option.Rel (sense.node pairs)) (LazyList.next host own items)
      (LazyList.next host own' items') := by
  refine (Agrees.readCursor same).bind fun first within cursor _ found => ?_
  cases found
  have again := within _ _ same
  split
  · exact .throw _
  · exact .pure .none
  · have code := forall₂_getElem? listed cursor.position
    generalize items[cursor.position]? = here at code ⊢
    generalize items'[cursor.position]? = here' at code ⊢
    cases code with
    | none => exact (Agrees.setCursor again _).bind fun _ _ _ _ _ => .pure .none
    | some code =>
      refine (Agrees.setCursor again _).bind fun second within' _ _ _ => ?_
      have busy := within' _ _ again
      have given := sound.run (sense.mono (within.trans within') code) .none
      refine (given.closing busy).bind fun third more _ _ value => ?_
      refine (Agrees.setCursor (more _ _ busy) _).bind fun _ last _ _ _ => ?_
      exact .pure (.some (value.mono (sense.within last)))

theorem lazyFold {alike : Pairing → α → β → Prop} (sound : host.Local token sense)
    (same : pairs own own') (listed : List.Forall₂ (sense.code pairs) items items')
    (mono : ∀ {pairs wider : Pairing}, pairs.Within wider → ∀ {one other},
      alike pairs one other → alike wider one other)
    {step : α → Node κ → Action α} {step' : β → Node κ → Action β}
    (steps : ∀ {pairs state state' value value'}, alike pairs state state' →
      sense.node pairs value value' →
        Agrees token pairs alike (step state value) (step' state' value'))
    {state : α} {state' : β} (start : alike pairs state state') :
    Agrees token pairs alike (LazyList.fold host own items step state)
      (LazyList.fold host own' items' step' state') := by
  unfold LazyList.fold
  rw [← listed.length_eq]
  generalize items.length + 1 = fuel
  induction fuel generalizing pairs state state' with
  | zero => exact .throw _
  | succ fuel ih =>
    refine (sound.lazyNext same listed).bind fun wider within _ _ found => ?_
    cases found with
    | none => exact .pure (mono within start)
    | some value =>
      refine (steps (mono within start) value).bind fun _ within' _ _ next => ?_
      have grown := within.trans within'
      exact ih (grown _ _ same) (listed.imp fun _ _ => sense.mono grown) next

end lists

section building

variable {node node' value value' : Node κ} {arguments arguments' : List (Node κ)}

theorem coerceTo (sound : host.Local token sense) (depth : Nat)
    (same : sense.node pairs value value') :
    Agrees token pairs sense.node (value.coerceTo host depth) (value'.coerceTo host depth) := by
  induction depth generalizing value value' pairs with
  | zero => exact Agrees.coerceWith (fun _ _ => .throw _) value same
  | succ depth ih =>
    refine Agrees.coerceWith (fun own listed => ?_) value same
    refine sound.lazyFold own listed (fun within _ _ => .mono (sense.within within)) ?_ .nil
    intro pairs nodes nodes' item item' inside here
    rw [here.isNull]
    split
    · exact .pure inside
    · exact (ih here).bind fun _ within _ _ made =>
        .pure ((inside.mono (sense.within within)).append made.single)

theorem coerce (sound : host.Local token sense) (same : sense.node pairs value value') :
    Agrees token pairs sense.node (value.coerce host) (value'.coerce host) :=
  sound.coerceTo host.depth same

theorem addTo (sound : host.Local token sense) {rel : Pairing → Node κ → Node κ → Prop}
    (kept : Agrees.KeptByAdding token sense rel) (depth : Nat) (one : rel pairs node node')
    (other : sense.node pairs value value') :
    Agrees token pairs rel (Node.addTo host depth node value)
      (Node.addTo host depth node' value') := by
  induction depth generalizing node node' value value' pairs with
  | zero => exact Agrees.addWith kept (fun _ _ _ => .throw _) value one other
  | succ depth ih =>
    refine Agrees.addWith kept (fun own listed into => ?_) value one other
    exact sound.lazyFold own listed kept.mono ih into

theorem addArguments (sound : host.Local token sense) {rel : Pairing → Node κ → Node κ → Prop}
    (kept : Agrees.KeptByAdding token sense rel) (one : rel pairs node node')
    (given : Nodes.Alike (sense.world pairs) arguments arguments') :
    Agrees token pairs rel (arguments.foldlM (Node.add host) node)
      (arguments'.foldlM (Node.add host) node') := by
  induction arguments generalizing arguments' node node' pairs with
  | nil =>
    cases given
    exact .pure one
  | cons value rest ih =>
    cases given with
    | cons here more =>
      rw [List.foldlM_cons,List.foldlM_cons]
      exact (sound.addTo kept host.depth one here).bind fun _ within _ _ next =>
        ih next (more.mono (sense.within within))

theorem build (sound : host.Local token sense) (selector : String)
    (given : Nodes.Alike (sense.world pairs) arguments arguments') :
    Agrees token pairs sense.node (build host selector arguments) (build host selector arguments') :=
  (Agrees.parsed selector).bind fun _ within _ _ one =>
    sound.addArguments .alike one (given.mono (sense.within within))

theorem applyScoped (sound : host.Local token sense) (selector : String)
    (given : Nodes.Alike (sense.world pairs) arguments arguments') :
    Agrees token pairs sense.node (applyScoped host selector arguments)
      (applyScoped host selector arguments') := by
  cases given with
  | nil => exact .throw _
  | cons here more =>
    exact (sound.build _ here.single).bind fun _ within _ _ wrapper =>
      sound.build _ (.cons wrapper (more.mono (sense.within within)))

theorem apply (sound : host.Local token sense)
    (given : Nodes.Alike (sense.world pairs) arguments arguments') :
    ∀ {value value' : Foreign κ}, Foreign.Alike (sense.world pairs) value value' →
      Agrees token pairs sense.node (value.apply host arguments) (value'.apply host arguments')
  | _,_,.shadowed inside => sound.build _ (.cons inside given)
  | _,_,.scoped | _,_,.scopedTag => sound.applyScoped _ given
  | _,_,.attr inside => by cases inside <;> exact .throw _
  | _,_,.null | _,_,.bool | _,_,.int | _,_,.float | _,_,.string | _,_,.safe | _,_,.list _
  | _,_,.tuple _ | _,_,.marked .. | _,_,.record | _,_,.pair | _,_,.html _ | _,_,.source _
  | _,_,.once .. | _,_,.feed _ | _,_,.lazy .. | _,_,.token => .throw _

end building

section driving

variable {run run' : Token}

theorem refused (sound : host.Local token sense) {value value' : Foreign κ}
    (same : Foreign.Alike (sense.world pairs) value value') :
    Agrees token pairs sense.node
      (do let made ← value.apply host [.foreign (.token run)]
          throw (.noWait made.kind))
      (do let made ← value'.apply host [.foreign (.token run')]
          throw (.noWait made.kind)) := by
  refine (sound.apply (.cons (.foreign .token) .nil) same).bind fun _ _ _ _ made => ?_
  rw [made.kind]
  exact .throw _

theorem waited (sound : host.Local token sense) {own own' : Ident} {label : String} {code code' : κ}
    (same : pairs own own') (does : sense.code pairs code code') :
    Agrees token pairs sense.node (awaitSource host run (.foreign (.once own label code)))
      (awaitSource host run' (.foreign (.once own' label code'))) := by
  refine (Agrees.readCursor same).bind fun first within cursor _ found => ?_
  cases found
  have later := sense.mono within does
  have again := within _ _ same
  split
  · exact Agrees.throw .spent
  · refine (Agrees.close again).bind fun second within' _ _ _ => ?_
    refine (Agrees.log _ _).bind fun third last _ _ _ => ?_
    have grown := within'.trans last
    exact sound.run (sense.mono grown later) (.some (.own (grown _ _ again)))

theorem awaitForeign (sound : host.Local token sense) (runs : Token.Alike token pairs run run') :
    ∀ {value value' : Foreign κ}, Foreign.Alike (sense.world pairs) value value' →
      Agrees token pairs sense.node (awaitSource host run (.foreign value))
        (awaitSource host run' (.foreign value'))
  | _,_,.source code => (Agrees.log _ _).bind fun _ within _ _ _ =>
    sound.run (sense.mono within code) (.some (runs.mono within))
  | _,_,.once same does => sound.waited same does
  | _,_,.shadowed inside => sound.refused (.shadowed inside)
  | _,_,.scoped => sound.refused .scoped
  | _,_,.scopedTag => sound.refused .scopedTag
  | _,_,.attr inside => by cases inside <;> exact .throw _
  | _,_,.null | _,_,.bool | _,_,.int | _,_,.float | _,_,.string | _,_,.safe | _,_,.list _
  | _,_,.tuple _ | _,_,.marked .. | _,_,.record | _,_,.pair | _,_,.html _ | _,_,.feed _
  | _,_,.lazy .. | _,_,.token => .throw _

theorem awaitSource (sound : host.Local token sense) (runs : Token.Alike token pairs run run')
    {value value' : Node κ} (same : sense.node pairs value value') :
    Agrees token pairs sense.node (awaitSource host run value) (awaitSource host run' value') := by
  cases same with
  | foreign inside => exact sound.awaitForeign runs inside
  | _ => exact .throw _

theorem drive (sound : host.Local token sense) :
    ∀ {pairs : Pairing}, Token.Alike token pairs run run' →
      ∀ (pending : Pending κ) {pending' : Pending κ},
        Pending.Alike (sense.world pairs) pending pending' →
          Agrees token pairs sense.node (pending.drive host run) (pending'.drive host run')
  | _,runs,.body ..,_,.body code => (Agrees.log _ _).bind fun _ within _ _ _ =>
    sound.run (sense.mono within code) (.some (runs.mono within))
  | _,runs,.append _ first _,_,.append one other => by
    refine (Agrees.check runs).bind fun _ within _ _ _ => ?_
    refine (sound.drive (runs.mono within) first (one.mono (sense.within within))).bind
      fun _ within' _ _ resolved => ?_
    exact .append resolved (other.mono (sense.within (within.trans within')))
  | _,runs,.appendTo _ _ last,_,.appendTo one other => by
    refine (Agrees.check runs).bind fun _ within _ _ _ => ?_
    refine (sound.drive (runs.mono within) last (other.mono (sense.within within))).bind
      fun _ within' _ _ resolved => ?_
    exact .chained (one.mono (sense.within (within.trans within'))) resolved.single
  | _,runs,.attach _ inner _,_,.attach one other => by
    refine (Agrees.check runs).bind fun _ within _ _ _ => ?_
    refine (sound.drive (runs.mono within) inner (one.mono (sense.within within))).bind
      fun _ within' _ _ resolved => ?_
    exact .addAttribute resolved (other.mono (sense.within (within.trans within')))
  | _,runs,.coerce ..,_,.coerce source =>
    (sound.awaitSource runs source).bind fun _ _ _ _ value => sound.coerce value
  | _,runs,.maker _,_,.maker inside => sound.awaitForeign runs inside

theorem answer (sound : host.Local token sense) (runs : Token.Alike token pairs run run')
    {attr attr' : Attr κ} (same : Attr.Alike (sense.world pairs) attr attr') :
    Agrees token pairs sense.node (attr.answer host run) (attr'.answer host run') := by
  cases same with
  | fixed => exact .pure (.foreign .pair)
  | driven code =>
    exact (Agrees.log _ _).bind fun _ within _ _ _ =>
      sound.run (sense.mono within code) (.some (runs.mono within))
  | named name source =>
    refine (sound.awaitSource runs source).bind fun _ within _ _ value => ?_
    rw [value.plain,Schema.textField,Schema.textField,name.characters]
    refine (Agrees.checked _).bind fun _ _ pair _ read => ?_
    cases read
    exact .pure (.foreign .pair)

theorem pair {given given' : Node κ} (same : sense.node pairs given given') :
    Agrees token pairs (fun _ => Eq) given.pair given'.pair := by
  cases same with
  | foreign inside =>
    cases inside with
    | pair => exact .pure rfl
    | attr inside =>
      cases inside with
      | fixed => exact .pure rfl
      | driven | named => exact .throw _
    | _ => exact .throw _
  | _ => exact .throw _

theorem driveAttr (sound : host.Local token sense) (runs : Token.Alike token pairs run run')
    {attr attr' : Attr κ} (same : Attr.Alike (sense.world pairs) attr attr') :
    Agrees token pairs (fun _ => Eq) (attr.drive host run) (attr'.drive host run') :=
  (sound.answer runs same).bind fun _ _ _ _ found => pair found

theorem pullEntries (sound : host.Local token sense) {own own' : Ident} {label : String}
    {entries entries' : List (Entry κ)} (same : pairs own own')
    (listed : List.Forall₂ (Entry.Alike (sense.world pairs)) entries entries') :
    ∀ place, Agrees token pairs (fun pairs => Option.Rel (sense.node pairs))
      (pullEntries host own label place entries) (pullEntries host own' label place entries') := by
  induction entries generalizing entries' pairs with
  | nil =>
    intro place
    cases listed
    exact (Agrees.setCursor same _).bind fun _ _ _ _ _ =>
      (Agrees.log _ _).bind fun _ _ _ _ _ => .pure .none
  | cons entry rest ih =>
    intro place
    cases listed with
    | cons here more =>
      cases here with
      | act code =>
        refine (Agrees.setCursor same _).bind fun first within _ _ _ => ?_
        have again := within _ _ same
        have run := sound.run (sense.mono within code) .none
        refine (run.closing again).discard.bind fun second within' _ _ _ => ?_
        refine ih (within' _ _ again) (more.imp fun _ _ => ?_) (place + 1)
        exact .mono (sense.within (within.trans within'))
      | item code =>
        refine (Agrees.setCursor same _).bind fun first within _ _ _ => ?_
        refine (Agrees.log _ _).bind fun second within' _ _ _ => ?_
        have grown := within.trans within'
        have run := sound.run (sense.mono grown code) .none
        exact (run.closing (grown _ _ same)).bind fun _ _ _ _ value => .pure (.some value)

theorem pull (sound : host.Local token sense) :
    ∀ (feed : Feed κ) {feed' : Feed κ} {pairs : Pairing}, Feed.Alike (sense.world pairs) feed feed' →
      Agrees token pairs (fun pairs => Option.Rel (sense.node pairs)) (feed.pull host)
        (feed'.pull host)
  | .body .., _,_,.body same listed => by
    refine Agrees.unclosed same fun _ within cursor => ?_
    refine sound.pullEntries (within _ _ same) ?_ _
    exact List.forall₂_drop _ (listed.imp fun _ _ => .mono (sense.within within))
  | .endless .., _,_,.endless same listed => by
    refine Agrees.unclosed same fun _ within cursor => ?_
    refine sound.pullEntries (within _ _ same) (.cons (.item ?_) .nil) _
    exact sense.mono within (listed _)
  | .items _ nodes,.items _ nodes',_,.items same inside => by
    refine Agrees.unclosed same fun _ within cursor => ?_
    have again := within _ _ same
    have here := forall₂_getElem? (inside.mono (sense.within within)).forall₂ cursor.position
    generalize nodes[cursor.position]? = item at here ⊢
    generalize nodes'[cursor.position]? = item' at here ⊢
    cases here with
    | none => exact (Agrees.close again).bind fun _ _ _ _ _ => .pure .none
    | some node =>
      exact (Agrees.setCursor again _).bind fun _ within' _ _ _ =>
        .pure (.some (node.mono (sense.within within')))
  | .refused .., _,_,.refused same => by
    refine Agrees.unclosed same fun _ within _ => ?_
    exact (Agrees.close (within _ _ same)).bind fun _ _ _ _ _ => .throw _
  | .coerce _ inner,_,_,.coerce same inside => by
    refine Agrees.unclosed same fun _ within _ => ?_
    have again := within _ _ same
    have item := sound.pull inner (inside.mono (sense.within within))
    refine (item.closing again).bind fun _ within' _ _ found => ?_
    have own := within' _ _ again
    cases found with
    | none => exact (Agrees.close own).bind fun _ _ _ _ _ => .pure .none
    | some value =>
      exact ((sound.coerce value).closing own).bind fun _ _ _ _ made => .pure (.some made)
  | .chain own first second,.chain own' _ second',pairs,.chain same one other => by
    have last : ∀ {wider : Pairing}, pairs.Within wider →
        Agrees token wider (fun pairs => Option.Rel (sense.node pairs))
          (Feed.pullSecond host own second) (Feed.pullSecond host own' second') := by
      intro wider within
      have again := within _ _ same
      have item := sound.pull second (other.mono (sense.within within))
      refine (item.closing again).bind fun _ within' _ _ found => ?_
      cases found with
      | none => exact (Agrees.close (within' _ _ again)).bind fun _ _ _ _ _ => .pure .none
      | some node => exact .pure (.some node)
    refine Agrees.unclosed same fun _ within cursor => ?_
    have again := within _ _ same
    split
    · have item := sound.pull first (one.mono (sense.within within))
      refine (item.closing again).bind fun _ within' _ _ found => ?_
      cases found with
      | none =>
        exact (Agrees.setCursor (within' _ _ again) _).bind fun _ within'' _ _ _ =>
          last ((within.trans within').trans within'')
      | some node => exact .pure (.some node)
    · exact last within

end driving

end Host.Local

end Markup
