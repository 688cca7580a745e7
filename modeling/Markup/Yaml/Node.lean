import Markup.Yaml.Implied
import Markup.Yaml.Layout
import Markup.Json.Basic

namespace Markup.Yaml

-- A value as it is written. An anchored one keeps its name, so that it can be
-- told apart from an equal one; a reference stands for the value it names, and
-- inside that value for the value as a whole.
inductive Node where
  | scalar (tag : Tag) (text : String)
  | sequence (tag : Tag) (items : List Node)
  | mapping (tag : Tag) (entries : List (Node × Node))
  | named (name : String) (node : Node)
  | enclosing (isMapping : Bool)
  deriving Inhabited

structure Source where
  rest : List Lexeme
  handles : List (String × String)
  anchors : List (String × Node)

abbrev Reading (α : Type) := StateT Source (Except Trouble) α

namespace Reading

def malformed : Reading α := fun _ => .error .malformed

def peek : Reading Lexeme := fun source =>
  match source.rest with
  | [] => .error .malformed
  | .stop trouble :: _ => .error trouble
  | lexeme :: _ => .ok (lexeme,source)

def drop : Reading Unit := modify fun source => { source with rest := source.rest.tail }

def take (expected : Lexeme) : Reading Unit := do
  if (← peek) = expected then drop else malformed

def anchor? : Reading (Option String) := do
  match ← peek with
  | .anchor name => drop; pure (some name)
  | _ => pure none

def tag? : Reading (Option (Option String × String)) := do
  match ← peek with
  | .tag handle suffix => drop; pure (some (handle,suffix))
  | _ => pure none

def fullTag : Option (Option String × String) → Reading (Option String)
  | none => pure none
  | some (none,suffix) => pure (some suffix)
  | some (some handle,suffix) => do
    match Json.lookup handle (← get).handles with
    | some start => pure (some (start ++ suffix))
    | none => malformed

def properties : Reading (Option String × Option String) := do
  match ← anchor? with
  | some name =>
    let tag ← tag?
    pure (some name,← fullTag tag)
  | none =>
    match ← tag? with
    | some tag =>
      let name ← anchor?
      pure (name,← fullTag (some tag))
    | none => pure (none,none)

def setAnchor (name : Option String) (node : Node) : Reading Unit :=
  match name with
  | some name => modify fun source =>
      { source with anchors := Json.setField name node source.anchors }
  | none => pure ()

def unusedAnchor (name : Option String) : Reading Unit := do
  match name with
  | some name => if (Json.lookup name (← get).anchors).isSome then malformed else pure ()
  | none => pure ()

def scalarTag (tag : Option String) (plain : Bool) (text : String) : Tag :=
  match tag with
  | none => if plain then implied text else .text
  | some uri => if uri = "!" then implied text else .ofUri uri

def collectionTag (tag : Option String) (implied : Tag) : Tag :=
  match tag with
  | none => implied
  | some uri => if uri = "!" then implied else .ofUri uri

def nothing : Node := .scalar .null ""

def finished (name : Option String) (node : Node) : Reading Node :=
  match name with
  | some given => do
    let node := Node.named given node
    setAnchor name node
    pure node
  | none => pure node

-- Where a value may stand: among blocks, as the value of a key whose items may
-- stand in its own column, or in brackets.
inductive Place where
  | block
  | entry
  | flow
  deriving DecidableEq, Repr

def endsItem (l : Lexeme) : Bool := l == .blockEntry || l == .blockEnd
def endsOwnItem (l : Lexeme) : Bool := endsItem l || l == .key || l == .value
def endsEntry (l : Lexeme) : Bool := l == .key || l == .value || l == .blockEnd
def endsFlowItem (l : Lexeme) : Bool := l == .flowEntry || l == .flowSequenceEnd
def endsFlowEntry (l : Lexeme) : Bool := l == .flowEntry || l == .flowMappingEnd

def bare (name tag : Option String) : Reading Node := do
  if name.isNone ∧ tag.isNone then malformed
  else
    unusedAnchor name
    finished name (.scalar (scalarTag tag true "") "")

def collection (name : Option String) (isMapping : Bool) (content : Reading Node) :
    Reading Node := do
  unusedAnchor name
  setAnchor name (.enclosing isMapping)
  finished name (← content)

mutual
def node (place : Place) : Nat → Reading Node
  | 0 => malformed
  | fuel + 1 => do
    if let .reference name ← peek then
      drop
      match Json.lookup name (← get).anchors with
      | some node => pure node
      | none => malformed
    else
      let (name,tag) ← properties
      let lexeme ← peek
      if place = .entry ∧ lexeme = .blockEntry then
        collection name false (.sequence (collectionTag tag .list) <$> ownItems fuel)
      else
        match lexeme with
        | .scalar text plain =>
          drop
          unusedAnchor name
          finished name (.scalar (scalarTag tag plain text) text)
        | .flowSequence =>
          drop
          collection name false (.sequence (collectionTag tag .list) <$> flowItems true fuel)
        | .flowMapping =>
          drop
          collection name true (.mapping (collectionTag tag .mapping) <$> flowEntries true fuel)
        | .blockSequence =>
          if place = .flow then bare name tag
          else
            drop
            collection name false (.sequence (collectionTag tag .list) <$> items fuel)
        | .blockMapping =>
          if place = .flow then bare name tag
          else
            drop
            collection name true (.mapping (collectionTag tag .mapping) <$> entries fuel)
        | _ => bare name tag
def nodeUnless (ends : Lexeme → Bool) (place : Place) : Nat → Reading Node
  | 0 => malformed
  | fuel + 1 => do
    if ends (← peek) then pure nothing else node place fuel
def items : Nat → Reading (List Node)
  | 0 => malformed
  | fuel + 1 => do
    match ← peek with
    | .blockEntry =>
      drop
      let item ← nodeUnless endsItem .block fuel
      (item :: ·) <$> items fuel
    | .blockEnd => drop; pure []
    | _ => malformed
-- Items in the column of the key they belong to have no end of their own.
def ownItems : Nat → Reading (List Node)
  | 0 => malformed
  | fuel + 1 => do
    match ← peek with
    | .blockEntry =>
      drop
      let item ← nodeUnless endsOwnItem .block fuel
      (item :: ·) <$> ownItems fuel
    | _ => pure []
def entries : Nat → Reading (List (Node × Node))
  | 0 => malformed
  | fuel + 1 => do
    match ← peek with
    | .key =>
      drop
      let key ← nodeUnless endsEntry .entry fuel
      let value ← valueUnless endsEntry .entry fuel
      ((key,value) :: ·) <$> entries fuel
    | .blockEnd => drop; pure []
    | _ => malformed
def valueUnless (ends : Lexeme → Bool) (place : Place) : Nat → Reading Node
  | 0 => malformed
  | fuel + 1 => do
    match ← peek with
    | .value => drop; nodeUnless ends place fuel
    | _ => pure nothing
def flowItems (first : Bool) : Nat → Reading (List Node)
  | 0 => malformed
  | fuel + 1 => do
    match ← peek with
    | .flowSequenceEnd => drop; pure []
    | _ =>
      if !first then take .flowEntry
      match ← peek with
      | .flowSequenceEnd => drop; pure []
      | .key =>
        drop
        let key ← nodeUnless (fun l => l == .value || endsFlowItem l) .flow fuel
        let value ← valueUnless endsFlowItem .flow fuel
        (.mapping .mapping [(key,value)] :: ·) <$> flowItems false fuel
      | _ =>
        let item ← node .flow fuel
        (item :: ·) <$> flowItems false fuel
def flowEntries (first : Bool) : Nat → Reading (List (Node × Node))
  | 0 => malformed
  | fuel + 1 => do
    match ← peek with
    | .flowMappingEnd => drop; pure []
    | _ =>
      if !first then take .flowEntry
      match ← peek with
      | .flowMappingEnd => drop; pure []
      | .key =>
        drop
        let key ← nodeUnless (fun l => l == .value || endsFlowEntry l) .flow fuel
        let value ← valueUnless endsFlowEntry .flow fuel
        ((key,value) :: ·) <$> flowEntries false fuel
      | _ =>
        let key ← node .flow fuel
        ((key,nothing) :: ·) <$> flowEntries false fuel
end

def usualHandles : List (String × String) := [("!","!"), ("!!",Tag.space)]

def directives (versioned : Bool) (handles : List (String × String)) :
    Nat → Reading (List (String × String))
  | 0 => malformed
  | fuel + 1 => do
    match ← peek with
    | .directive (.version major _) =>
      if versioned ∨ major ≠ 1 then malformed
      else drop; directives true handles fuel
    | .directive (.handle name uri) =>
      if (Json.lookup name handles).isSome then malformed
      else drop; directives versioned (handles ++ [(name,uri)]) fuel
    | .directive .other => drop; directives versioned handles fuel
    | _ => pure handles

def endsDocument : Lexeme → Bool
  | .directive _ => true
  | .documentStart => true
  | .documentEnd => true
  | .finish => true
  | _ => false

def skipEnds : Nat → Reading Unit
  | 0 => pure ()
  | fuel + 1 => do
    if (← peek) = .documentEnd then drop; skipEnds fuel

def opening (fuel : Nat) : Reading (Option (List (String × String))) := do
  skipEnds fuel
  if (← peek) = .finish then pure none
  else
    let handles ← directives false [] fuel
    take .documentStart
    pure (some (handles ++ usualHandles))

def content (fuel : Nat) : Reading Node := do
  if endsDocument (← peek) then pure nothing else node .block fuel

def document (fuel : Nat) : Reading (Option Node) := do
  let first ← peek
  if endsDocument first ∧ first ≠ .documentEnd then
    match ← opening fuel with
    | none => pure none
    | some handles =>
      modify fun source => { source with handles := handles }
      let node ← content fuel
      ending node
  else
    let node ← node .block fuel
    ending node
where
  ending (node : Node) : Reading (Option Node) := do
    match ← opening fuel with
    | none => pure (some node)
    | some _ => malformed

end Reading

-- The counter bounds nesting and length: no step but one in a few keeps the
-- lexemes it finds.
def Node.ofText (text : List Char) : Except Trouble (Option Node) :=
  let found := lexemes text
  (·.1) <$> (Reading.document (4 * found.length + 10)).run ⟨found,Reading.usualHandles,[]⟩

end Markup.Yaml
