import Markup.Node.Basic

namespace Markup

variable {κ : Type}

def Pending.ident : Pending κ → Option Ident
  | .body id .. | .append id .. | .appendTo id .. | .attach id .. | .coerce id .. => some id
  | .maker (.shadowed id ..) | .maker (.scoped id ..) => some id
  | .maker _ => none

def Feed.ident : Feed κ → Ident
  | .body id .. | .endless id .. | .items id .. | .chain id .. | .coerce id .. | .refused id .. => id

-- A constructor for a listed tag is one value however often it is looked up.
def Pending.same : Pending κ → Pending κ → Bool
  | .maker (.scopedTag a), .maker (.scopedTag b) => a == b
  | a, b => a.ident.isSome && a.ident == b.ident

def Attr.same : Attr κ → Attr κ → Bool
  | .fixed a x, .fixed b y => a == b && x == y
  | .driven a .., .driven b .. => a == b
  | .named a .., .named b .. => a == b
  | _, _ => false

def Attr.sameAll : List (Attr κ) → List (Attr κ) → Bool
  | [], [] => true
  | a :: as, b :: bs => a.same b && Attr.sameAll as bs
  | _, _ => false

def Foreign.number? : Foreign κ → Option (Int ⊕ Binary64)
  | .bool value => some (.inl (if value then 1 else 0))
  | .int value => some (.inl value)
  | .float value => some (.inr value)
  | _ => none

def Foreign.characters? : Foreign κ → Option String
  | .string value | .safe value => some value
  | _ => none

def Foreign.ident? : Foreign κ → Option Ident
  | .html id _ | .source id .. | .once id .. | .lazy id _ | .shadowed id ..
  | .scoped id _ => some id
  | .feed given => some given.ident
  | _ => none

mutual
def Node.same : Node κ → Node κ → Bool
  | .element a as xs, .element b bs ys => a == b && Attr.sameAll as bs && Node.sameAll xs ys
  | .text a, .text b => a == b
  | .raw a, .raw b => a == b
  | .comment a, .comment b => a == b
  | .fragment xs, .fragment ys => Node.sameAll xs ys
  | .deferred a, .deferred b => a.same b
  | .sequence a, .sequence b => a.ident == b.ident
  | .foreign a, .foreign b => a.same b
  | _, _ => false
def Node.sameAll : List (Node κ) → List (Node κ) → Bool
  | [], [] => true
  | a :: as, b :: bs => a.same b && Node.sameAll as bs
  | _, _ => false
def Foreign.same : Foreign κ → Foreign κ → Bool
  | .null, .null => true
  | .list xs, .list ys | .list xs, .marked _ false ys _ | .marked _ false xs _, .list ys
  | .marked _ false xs _, .marked _ false ys _ => Node.sameAll xs ys
  | .tuple xs, .tuple ys | .tuple xs, .marked _ true ys _ | .marked _ true xs _, .tuple ys
  | .marked _ true xs _, .marked _ true ys _ => Node.sameAll xs ys
  | .record a, .record b => (Json.object a).same (.object b)
  | .attr a, .attr b => a.same b
  | .pair a x, .pair b y => a == b && x == y
  | .scopedTag a, .scopedTag b => a == b
  | .token a, .token b => a == b
  | a, b =>
    match a.number?, b.number? with
    | some x, some y => Json.sameNumber x y
    | _, _ =>
      match a.characters?, b.characters? with
      | some x, some y => x == y
      | _, _ => a.ident?.isSome && a.ident? == b.ident?
end

end Markup
