import Markup.Node.Basic

namespace Markup

variable {κ : Type}

def Json.kinded (kind : String) (fields : List (String × Json)) : Json :=
  .object (("kind", .string kind) :: fields)

def Token.dump (cancelled : Bool) : String :=
  "CancellationToken(cancelled=" ++ (if cancelled then "True" else "False") ++ ")"

def Attr.dump : Attr κ → Json
  | .fixed name value => .kinded "attribute" [("name", .string name), ("value", .string value)]
  | .driven .. | .named .. => .kinded "async_attribute" []

mutual
-- The data of a tree. What is deferred stays closed, and what has no data form
-- shows its kind only.
def Node.dump : Node κ → Json
  | .element tag attributes children =>
    .kinded "element" [("tag", .string tag), ("attributes", .array (attributes.map Attr.dump)),
      ("children", .array (Node.dumpAll children))]
  | .text value => .kinded "text" [("value", .string value)]
  | .raw value => .kinded "raw" [("value", .string value)]
  | .comment value => .kinded "comment" [("value", .string value)]
  | .fragment children => .kinded "fragment" [("children", .array (Node.dumpAll children))]
  | .deferred _ => .kinded "async_node" []
  | .sequence _ => .kinded "async_seq" []
  | .foreign value => value.dump
def Node.dumpAll : List (Node κ) → List Json
  | [] => []
  | node :: rest => node.dump :: Node.dumpAll rest
def Foreign.dump : Foreign κ → Json
  | .null => .null
  | .bool value => .bool value
  | .int value => .int value
  | .float value => .float value
  | .string value | .safe value => .string value
  | .list items | .tuple items | .marked _ _ items _ => .array (Node.dumpAll items)
  | .attr value => value.dump
  | .pair name value => .object [("name", .string name), ("value", .string value)]
  | .record _ => .object [("opaque", .string "dict")]
  | .html .. => .object [("opaque", .string "Html")]
  | .source .. | .shadowed .. | .scoped .. | .scopedTag .. =>
    .object [("opaque", .string "function")]
  | .once .. => .object [("opaque", .string "coroutine")]
  | .feed _ => .object [("opaque", .string "async_generator")]
  | .lazy .. => .object [("opaque", .string "generator")]
  | .token _ => .object [("opaque", .string "CancellationToken")]
end

theorem Node.dumpAll_eq_map (nodes : List (Node κ)) :
    Node.dumpAll nodes = nodes.map Node.dump := by
  induction nodes with
  | nil => rfl
  | cons node rest ih => simp [Node.dumpAll,ih]

end Markup
