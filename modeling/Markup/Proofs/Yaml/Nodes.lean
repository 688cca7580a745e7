import Markup.Proofs.Yaml.Lexemes
import Markup.Yaml.Node

namespace Markup.Yaml

-- How a value is written in a text. A tag of its own takes an exclamation mark.
-- Without one a scalar is a text, or it is taken for what it looks like.
inductive Node.Grown (text : List Char) : Node → Prop where
  | scalar (kind : '!' ∈ text ∨ tag = .text ∨ tag = implied written ∧ Unbroken written) :
      Grown text (.scalar tag written)
  | sequence (kind : '!' ∈ text ∨ tag = .list) (items : ∀ item ∈ members, Grown text item) :
      Grown text (.sequence tag members)
  | mapping (kind : '!' ∈ text ∨ tag = .mapping) (keys : ∀ entry ∈ members, Grown text entry.1)
      (values : ∀ entry ∈ members, Grown text entry.2) : Grown text (.mapping tag members)
  | named (inner : Grown text node) : Grown text (.named name node)
  | enclosing : Grown text (.enclosing isMapping)

def Node.GrownEntry (text : List Char) (entry : Node × Node) : Prop :=
  entry.1.Grown text ∧ entry.2.Grown text

theorem Node.Grown.entries {text : List Char} {members : List (Node × Node)}
    (kind : '!' ∈ text ∨ tag = .mapping) (grown : ∀ entry ∈ members, GrownEntry text entry) :
    (Node.mapping tag members).Grown text :=
  .mapping kind (fun entry inside => (grown entry inside).1) fun entry inside =>
    (grown entry inside).2

def Marked (text : List Char) (tag : Option α) : Prop := tag.isSome → '!' ∈ text

structure Source.Sound (text : List Char) (source : Source) : Prop where
  stands : ∀ lexeme ∈ source.rest, lexeme.Stands text
  grown : ∀ {name node}, Json.lookup name source.anchors = some node → node.Grown text

namespace Reading

def Keeps (text : List Char) (fits : α → Prop) (reading : Reading α) : Prop :=
  ∀ source : Source, source.Sound text →
    match reading source with
    | .ok (value,after) => fits value ∧ after.Sound text
    | .error trouble => Uncut text trouble

section keeps

variable {text : List Char}

theorem keeps_pure {fits : α → Prop} (fit : fits value) : Keeps text fits (pure value) :=
  fun _ sound => ⟨fit,sound⟩

theorem keeps_malformed {fits : α → Prop} : Keeps text fits malformed := fun _ _ => uncut_bad

theorem keeps_bind {fits : α → Prop} {wanted : β → Prop} {first : Reading α}
    {next : α → Reading β} (keeps : Keeps text fits first)
    (goes : ∀ value, fits value → Keeps text wanted (next value)) :
    Keeps text wanted (first >>= next) := by
  intro source sound
  have begun := keeps source sound
  change match (first source).bind fun found => next found.1 found.2 with
    | .ok (value,after) => wanted value ∧ after.Sound text
    | .error trouble => Uncut text trouble
  cases made : first source with
  | error trouble =>
    rw [made] at begun
    exact begun
  | ok found =>
    rw [made] at begun
    exact goes found.1 begun.1 found.2 begun.2

theorem keeps_map {fits : α → Prop} {wanted : β → Prop} {change : α → β} {reading : Reading α}
    (keeps : Keeps text fits reading) (changed : ∀ value, fits value → wanted (change value)) :
    Keeps text wanted (change <$> reading) := by
  rw [map_eq_pure_bind]
  exact keeps_bind keeps fun value fit => keeps_pure (changed value fit)

theorem keeps_if {here : Prop} [Decidable here] {fits : α → Prop} {first second : Reading α}
    (whole : Keeps text fits first) (rest : Keeps text fits second) :
    Keeps text fits (if here then first else second) := by
  split
  · exact whole
  · exact rest

theorem keeps_get : Keeps text (Source.Sound text) get := fun _ sound => ⟨sound,sound⟩

theorem keeps_peek : Keeps text (Lexeme.Stands text) peek := by
  intro source sound
  cases ahead : source.rest with
  | nil =>
    simp only [peek,ahead]
    exact uncut_bad
  | cons lexeme rest =>
    have stands : lexeme.Stands text := sound.stands lexeme (ahead ▸ List.mem_cons_self)
    cases lexeme with
    | stop trouble =>
      simp only [peek,ahead]
      exact stands
    | _ =>
      simp only [peek,ahead]
      exact ⟨stands,sound⟩

theorem keeps_drop : Keeps text Any drop := fun _ sound =>
  ⟨trivial,fun lexeme inside => sound.stands lexeme (List.mem_of_mem_tail inside),sound.grown⟩

theorem keeps_take (expected : Lexeme) : Keeps text Any (take expected) :=
  keeps_bind keeps_peek fun _ _ => keeps_if keeps_drop keeps_malformed

theorem keeps_anchor : Keeps text Any anchor? := by
  refine keeps_bind keeps_peek fun lexeme _ => ?_
  split
  · exact keeps_bind keeps_drop fun _ _ => keeps_pure trivial
  · exact keeps_pure trivial

theorem keeps_tag : Keeps text (Marked text) tag? := by
  refine keeps_bind keeps_peek fun lexeme stands => ?_
  split
  · exact keeps_bind keeps_drop fun _ _ => keeps_pure fun _ => stands
  · exact keeps_pure nofun

theorem keeps_fullTag {tag : Option (Option String × String)} (marked : Marked text tag) :
    Keeps text (Marked text) (fullTag tag) := by
  unfold fullTag
  split
  · exact keeps_pure nofun
  · exact keeps_pure fun _ => marked rfl
  · refine keeps_bind keeps_get fun source _ => ?_
    split
    · exact keeps_pure fun _ => marked rfl
    · exact keeps_malformed

theorem keeps_properties : Keeps text (fun found => Marked text found.2) properties := by
  refine keeps_bind keeps_anchor fun name _ => ?_
  split
  · refine keeps_bind keeps_tag fun tag marked => ?_
    exact keeps_bind (keeps_fullTag marked) fun uri full => keeps_pure full
  · refine keeps_bind keeps_tag fun tag marked => ?_
    split
    · refine keeps_bind keeps_anchor fun name _ => ?_
      exact keeps_bind (keeps_fullTag marked) fun uri full => keeps_pure full
    · exact keeps_pure nofun

theorem keeps_setAnchor (name : Option String) {node : Node} (grown : node.Grown text) :
    Keeps text Any (setAnchor name node) := by
  cases name with
  | none => exact keeps_pure trivial
  | some name =>
    refine fun source sound => ⟨trivial,sound.stands,fun {other found} there => ?_⟩
    by_cases same : name = other
    · subst same
      rw [Json.lookup_setField_self] at there
      cases there
      exact grown
    · rw [Json.lookup_setField_other _ _ same] at there
      exact sound.grown there

theorem keeps_unusedAnchor (name : Option String) : Keeps text Any (unusedAnchor name) := by
  unfold unusedAnchor
  split
  · exact keeps_bind keeps_get fun _ _ => keeps_if keeps_malformed (keeps_pure trivial)
  · exact keeps_pure trivial

theorem keeps_finished (name : Option String) {node : Node} (grown : node.Grown text) :
    Keeps text (Node.Grown text) (finished name node) := by
  unfold finished
  split
  · exact keeps_bind (keeps_setAnchor _ (.named grown)) fun _ _ => keeps_pure (.named grown)
  · exact keeps_pure grown

theorem scalar_grown {tag : Option String} (marked : Marked text tag)
    (stands : (Lexeme.scalar written plain).Stands text) :
    (Node.scalar (scalarTag tag plain written) written).Grown text := by
  cases tag with
  | some uri => exact .scalar (.inl (marked rfl))
  | none =>
    cases plain with
    | false => exact .scalar (.inr (.inl rfl))
    | true => exact .scalar (.inr (.inr ⟨rfl,stands⟩))

theorem collectionTag_kind {tag : Option String} (marked : Marked text tag) (implied : Tag) :
    '!' ∈ text ∨ collectionTag tag implied = implied := by
  cases tag with
  | some uri => exact .inl (marked rfl)
  | none => exact .inr rfl

theorem nothing_grown : nothing.Grown text := .scalar (.inr (.inr ⟨by decide,by simp [Unbroken]⟩))

theorem keeps_bare (name : Option String) {tag : Option String} (marked : Marked text tag) :
    Keeps text (Node.Grown text) (bare name tag) := by
  have empty : (Lexeme.scalar "" true).Stands text := by simp [Lexeme.Stands,Unbroken]
  refine keeps_if keeps_malformed ?_
  exact keeps_bind (keeps_unusedAnchor name) fun _ _ =>
    keeps_finished name (scalar_grown marked empty)

theorem keeps_collection (name : Option String) (isMapping : Bool) {content : Reading Node}
    (keeps : Keeps text (Node.Grown text) content) :
    Keeps text (Node.Grown text) (collection name isMapping content) := by
  refine keeps_bind (keeps_unusedAnchor name) fun _ _ => ?_
  refine keeps_bind (keeps_setAnchor name .enclosing) fun _ _ => ?_
  exact keeps_bind keeps fun node grown => keeps_finished name grown

structure AllKeep (text : List Char) (fuel : Nat) : Prop where
  node : ∀ place, Keeps text (Node.Grown text) (node place fuel)
  nodeUnless : ∀ ends place, Keeps text (Node.Grown text) (nodeUnless ends place fuel)
  items : Keeps text (∀ item ∈ ·, Node.Grown text item) (items fuel)
  ownItems : Keeps text (∀ item ∈ ·, Node.Grown text item) (ownItems fuel)
  entries : Keeps text (∀ entry ∈ ·, Node.GrownEntry text entry) (entries fuel)
  valueUnless : ∀ ends place, Keeps text (Node.Grown text) (valueUnless ends place fuel)
  flowItems : ∀ first, Keeps text (∀ item ∈ ·, Node.Grown text item) (flowItems first fuel)
  flowEntries : ∀ first,
    Keeps text (∀ entry ∈ ·, Node.GrownEntry text entry) (flowEntries first fuel)

theorem allKeep_zero : AllKeep text 0 where
  node _ := keeps_malformed
  nodeUnless _ _ := keeps_malformed
  items := keeps_malformed
  ownItems := keeps_malformed
  entries := keeps_malformed
  valueUnless _ _ := keeps_malformed
  flowItems _ := keeps_malformed
  flowEntries _ := keeps_malformed

theorem keeps_reference (name : String) :
    Keeps text (Node.Grown text) (do
      drop
      match Json.lookup name (← get).anchors with
      | some node => pure node
      | none => malformed) := by
  refine keeps_bind keeps_drop fun _ _ => keeps_bind keeps_get fun source sound => ?_
  split
  · rename_i found
    exact keeps_pure (sound.grown found)
  · exact keeps_malformed

variable {fuel : Nat}

theorem AllKeep.node_succ (all : AllKeep text fuel) (place : Place) :
    Keeps text (Node.Grown text) (Reading.node place (fuel + 1)) := by
  have list {tag : Option String} (marked : Marked text tag) {content : Reading (List Node)}
      (keeps : Keeps text (∀ item ∈ ·, Node.Grown text item) content) :
      Keeps text (Node.Grown text) (Node.sequence (collectionTag tag .list) <$> content) :=
    keeps_map keeps fun _ grown => .sequence (collectionTag_kind marked .list) grown
  have mapping {tag : Option String} (marked : Marked text tag)
      {content : Reading (List (Node × Node))}
      (keeps : Keeps text (∀ entry ∈ ·, Node.GrownEntry text entry) content) :
      Keeps text (Node.Grown text) (Node.mapping (collectionTag tag .mapping) <$> content) :=
    keeps_map keeps fun _ grown => .entries (collectionTag_kind marked .mapping) grown
  unfold Reading.node
  refine keeps_bind keeps_peek fun lexeme _ => ?_
  split
  · exact keeps_reference _
  · refine keeps_bind keeps_properties fun found marked => ?_
    obtain ⟨name,tag⟩ := found
    refine keeps_bind keeps_peek fun lexeme stands => ?_
    refine keeps_if (keeps_collection name false (list marked all.ownItems)) ?_
    split
    · refine keeps_bind keeps_drop fun _ _ => keeps_bind (keeps_unusedAnchor name) fun _ _ => ?_
      exact keeps_finished name (scalar_grown marked stands)
    · exact keeps_bind keeps_drop fun _ _ =>
        keeps_collection name false (list marked (all.flowItems true))
    · exact keeps_bind keeps_drop fun _ _ =>
        keeps_collection name true (mapping marked (all.flowEntries true))
    · exact keeps_if (keeps_bare name marked) <| keeps_bind keeps_drop fun _ _ =>
        keeps_collection name false (list marked all.items)
    · exact keeps_if (keeps_bare name marked) <| keeps_bind keeps_drop fun _ _ =>
        keeps_collection name true (mapping marked all.entries)
    · exact keeps_bare name marked

theorem AllKeep.nodeUnless_succ (all : AllKeep text fuel) (ends : Lexeme → Bool) (place : Place) :
    Keeps text (Node.Grown text) (Reading.nodeUnless ends place (fuel + 1)) := by
  unfold Reading.nodeUnless
  exact keeps_bind keeps_peek fun _ _ => keeps_if (keeps_pure nothing_grown) (all.node place)

theorem AllKeep.valueUnless_succ (all : AllKeep text fuel) (ends : Lexeme → Bool) (place : Place) :
    Keeps text (Node.Grown text) (Reading.valueUnless ends place (fuel + 1)) := by
  unfold Reading.valueUnless
  refine keeps_bind keeps_peek fun lexeme _ => ?_
  split
  · exact keeps_bind keeps_drop fun _ _ => all.nodeUnless ends place
  · exact keeps_pure nothing_grown

theorem keeps_more {fits : α → Prop} {item : α} {rest : Reading (List α)} (fit : fits item)
    (keeps : Keeps text (∀ item ∈ ·, fits item) rest) :
    Keeps text (∀ item ∈ ·, fits item) ((item :: ·) <$> rest) :=
  keeps_map keeps fun _ fits => List.forall_mem_cons.mpr ⟨fit,fits⟩

theorem keeps_end {fits : α → Prop} :
    Keeps text (∀ item ∈ ·, fits item) (do drop; pure []) :=
  keeps_bind keeps_drop fun _ _ => keeps_pure nofun

theorem AllKeep.items_succ (all : AllKeep text fuel) :
    Keeps text (∀ item ∈ ·, Node.Grown text item) (Reading.items (fuel + 1)) := by
  unfold Reading.items
  refine keeps_bind keeps_peek fun lexeme _ => ?_
  split
  · refine keeps_bind keeps_drop fun _ _ => keeps_bind (all.nodeUnless _ _) fun item grown => ?_
    exact keeps_more grown all.items
  · exact keeps_end
  · exact keeps_malformed

theorem AllKeep.ownItems_succ (all : AllKeep text fuel) :
    Keeps text (∀ item ∈ ·, Node.Grown text item) (Reading.ownItems (fuel + 1)) := by
  unfold Reading.ownItems
  refine keeps_bind keeps_peek fun lexeme _ => ?_
  split
  · refine keeps_bind keeps_drop fun _ _ => keeps_bind (all.nodeUnless _ _) fun item grown => ?_
    exact keeps_more grown all.ownItems
  · exact keeps_pure nofun

theorem AllKeep.entries_succ (all : AllKeep text fuel) :
    Keeps text (∀ entry ∈ ·, Node.GrownEntry text entry) (Reading.entries (fuel + 1)) := by
  unfold Reading.entries
  refine keeps_bind keeps_peek fun lexeme _ => ?_
  split
  · refine keeps_bind keeps_drop fun _ _ => keeps_bind (all.nodeUnless _ _) fun key ofKey => ?_
    refine keeps_bind (all.valueUnless _ _) fun value ofValue => ?_
    exact keeps_more ⟨ofKey,ofValue⟩ all.entries
  · exact keeps_end
  · exact keeps_malformed

theorem keeps_separated {fits : α → Prop} {next : PUnit → Reading α} (first : Bool)
    (keeps : ∀ done, Keeps text fits (next done)) :
    Keeps text fits (if !first then take .flowEntry >>= next else next ()) :=
  keeps_if (keeps_bind (keeps_take _) fun _ _ => keeps _) (keeps _)

theorem AllKeep.flowItems_succ (all : AllKeep text fuel) (first : Bool) :
    Keeps text (∀ item ∈ ·, Node.Grown text item) (Reading.flowItems first (fuel + 1)) := by
  unfold Reading.flowItems
  refine keeps_bind keeps_peek fun lexeme _ => ?_
  split
  · exact keeps_end
  · refine keeps_separated first fun _ => keeps_bind keeps_peek fun lexeme _ => ?_
    split
    · exact keeps_end
    · refine keeps_bind keeps_drop fun _ _ => keeps_bind (all.nodeUnless _ _) fun key ofKey => ?_
      refine keeps_bind (all.valueUnless _ _) fun value ofValue => ?_
      refine keeps_more (.entries (.inr rfl) ?_) (all.flowItems false)
      exact List.forall_mem_singleton.mpr ⟨ofKey,ofValue⟩
    · exact keeps_bind (all.node _) fun item grown => keeps_more grown (all.flowItems false)

theorem AllKeep.flowEntries_succ (all : AllKeep text fuel) (first : Bool) :
    Keeps text (∀ entry ∈ ·, Node.GrownEntry text entry)
      (Reading.flowEntries first (fuel + 1)) := by
  unfold Reading.flowEntries
  refine keeps_bind keeps_peek fun lexeme _ => ?_
  split
  · exact keeps_end
  · refine keeps_separated first fun _ => keeps_bind keeps_peek fun lexeme _ => ?_
    split
    · exact keeps_end
    · refine keeps_bind keeps_drop fun _ _ => keeps_bind (all.nodeUnless _ _) fun key ofKey => ?_
      refine keeps_bind (all.valueUnless _ _) fun value ofValue => ?_
      exact keeps_more ⟨ofKey,ofValue⟩ (all.flowEntries false)
    · refine keeps_bind (all.node _) fun key ofKey => ?_
      exact keeps_more ⟨ofKey,nothing_grown⟩ (all.flowEntries false)

-- The induction is on the count that all readers share.
theorem allKeep : (fuel : Nat) → AllKeep text fuel
  | 0 => allKeep_zero
  | fuel + 1 =>
    have all := allKeep fuel
    { node := all.node_succ
      nodeUnless := all.nodeUnless_succ
      items := all.items_succ
      ownItems := all.ownItems_succ
      entries := all.entries_succ
      valueUnless := all.valueUnless_succ
      flowItems := all.flowItems_succ
      flowEntries := all.flowEntries_succ }

theorem keeps_directives (versioned : Bool) (handles : List (String × String)) (fuel : Nat) :
    Keeps text Any (directives versioned handles fuel) := by
  induction fuel generalizing versioned handles with
  | zero => exact keeps_malformed
  | succ fuel ih =>
    refine keeps_bind keeps_peek fun lexeme _ => ?_
    split
    · exact keeps_if keeps_malformed (keeps_bind keeps_drop fun _ _ => ih _ _)
    · exact keeps_if keeps_malformed (keeps_bind keeps_drop fun _ _ => ih _ _)
    · exact keeps_bind keeps_drop fun _ _ => ih _ _
    · exact keeps_pure trivial

theorem keeps_skipEnds (fuel : Nat) : Keeps text Any (skipEnds fuel) := by
  induction fuel with
  | zero => exact keeps_pure trivial
  | succ fuel ih =>
    exact keeps_bind keeps_peek fun _ _ =>
      keeps_if (keeps_bind keeps_drop fun _ _ => ih) (keeps_pure trivial)

theorem keeps_opening (fuel : Nat) : Keeps text Any (opening fuel) := by
  refine keeps_bind (keeps_skipEnds fuel) fun _ _ => keeps_bind keeps_peek fun _ _ => ?_
  refine keeps_if (keeps_pure trivial) ?_
  refine keeps_bind (keeps_directives false [] fuel) fun handles _ => ?_
  exact keeps_bind (keeps_take _) fun _ _ => keeps_pure trivial

theorem keeps_handles (handles : List (String × String)) :
    Keeps text Any (modify fun source => { source with handles := handles }) :=
  fun _ sound => ⟨trivial,sound.stands,sound.grown⟩

theorem keeps_content (fuel : Nat) : Keeps text (Node.Grown text) (content fuel) :=
  keeps_bind keeps_peek fun _ _ =>
    keeps_if (keeps_pure nothing_grown) ((allKeep fuel).node .block)

theorem keeps_ending (fuel : Nat) {node : Node} (grown : node.Grown text) :
    Keeps text (∀ root ∈ ·, Node.Grown text root) (document.ending fuel node) := by
  refine keeps_bind (keeps_opening fuel) fun next _ => ?_
  split
  · exact keeps_pure fun root same => by cases same; exact grown
  · exact keeps_malformed

theorem keeps_document (fuel : Nat) :
    Keeps text (∀ root ∈ ·, Node.Grown text root) (document fuel) := by
  refine keeps_bind keeps_peek fun first _ => keeps_if ?_ ?_
  · refine keeps_bind (keeps_opening fuel) fun handles _ => ?_
    split
    · exact keeps_pure nofun
    · refine keeps_bind (keeps_handles _) fun _ _ => ?_
      exact keeps_bind (keeps_content fuel) fun node grown => keeps_ending fuel grown
  · exact keeps_bind ((allKeep fuel).node .block) fun node grown => keeps_ending fuel grown

end keeps

end Reading

theorem ofText_grown (text : List Char) :
    match Node.ofText text with
    | .ok found => ∀ root ∈ found, root.Grown text
    | .error trouble => Uncut text trouble := by
  have kept := Reading.keeps_document (4 * (lexemes text).length + 10)
    ⟨lexemes text,Reading.usualHandles,[]⟩ ⟨lexemes_stand text,nofun⟩
  unfold Node.ofText
  dsimp only [StateT.run]
  cases made : Reading.document (4 * (lexemes text).length + 10)
      ⟨lexemes text,Reading.usualHandles,[]⟩ with
  | error trouble =>
    rw [made] at kept
    exact kept
  | ok found =>
    rw [made] at kept
    exact kept.1

end Markup.Yaml
