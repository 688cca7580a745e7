import Markup.Stream

namespace Markup

-- A tree in which nothing is left to be driven. A series is what a sequence
-- gave; it is written like a fragment, but a node that is appended to it later
-- joins the items.
inductive Tree where
  | element (tag : String) (attributes : List (String × String)) (children : List Tree)
  | text (value : String)
  | raw (value : String)
  | comment (value : String)
  | fragment (children : List Tree)
  | series (items : List Tree)

namespace Tree

mutual
def chunks (options : Options) : Tree → List String
  | .element tag attributes children =>
    if options.isVoid tag ∧ children.isEmpty then
      [Stream.voidTag options tag (Stream.attributesText attributes)]
    else
      Stream.openTag tag (Stream.attributesText attributes) ::
        (chunksAll options children ++ [Stream.closeTag tag])
  | .text value => [Text.escaped value]
  | .raw value => [value]
  | .comment value => ["<!--" ++ value ++ "-->"]
  | .fragment children => chunksAll options children
  | .series items => chunksAll options items
def chunksAll (options : Options) : List Tree → List String
  | [] => []
  | tree :: rest => tree.chunks options ++ chunksAll options rest
end

def heading (options : Options) : List String :=
  match options.doctype with
  | some doctype => if doctype = "" then [] else ["<!DOCTYPE " ++ doctype ++ ">"]
  | none => []

def markup (options : Options) (tree : Tree) : String :=
  String.join (heading options ++ tree.chunks options)

mutual
def toNode (κ : Type) : Tree → Node κ
  | .element tag attributes children =>
    .element tag (attributes.map fun (name,value) => .fixed name value) (toNodes κ children)
  | .text value => .text value
  | .raw value => .raw value
  | .comment value => .comment value
  | .fragment children => .fragment (toNodes κ children)
  | .series items => .fragment (toNodes κ items)
def toNodes (κ : Type) : List Tree → List (Node κ)
  | [] => []
  | tree :: rest => tree.toNode κ :: toNodes κ rest
end

theorem chunksAll_append (options : Options) (one other : List Tree) :
    chunksAll options (one ++ other) = chunksAll options one ++ chunksAll options other := by
  induction one with
  | nil => rfl
  | cons tree rest ih => simp [chunksAll,ih]

theorem declaration_eq (κ : Type) (options : Options) :
    Stream.declaration (κ := κ) options = (heading options).map .chunk := by
  unfold Stream.declaration heading
  cases options.doctype with
  | none => rfl
  | some doctype =>
    dsimp only
    split <;> rfl

end Tree

end Markup
