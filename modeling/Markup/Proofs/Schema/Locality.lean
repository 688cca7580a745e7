import Markup.Proofs.Schema.Conformance

namespace Markup

variable {κ : Type}

namespace Schema

-- The way into data without the kinds that were chosen in unions. Such a kind
-- stands at the root of a union and behind each place in a list.
def bare (union : Bool) : List Segment → List Segment
  | [] => []
  | .index place :: rest => .index place :: bare true rest
  | .field name :: rest => if union then bare false rest else .field name :: bare false rest

def follow : List Segment → Json → Option Json
  | [],data => some data
  | .field name :: rest,.object fields => (Json.lookup name fields).bind (follow rest)
  | .index place :: rest,.array items => items[place]?.bind (follow rest)
  | _,_ => none

def outside (way : List Segment) (problems : List Problem) : List Problem :=
  problems.filter fun problem => !way.isPrefixOf problem.path

variable {fields : Fields} {name tag : String} {d data value : Json} {way path : List Segment}
  {cause : Cause}

section located

variable {union : Bool} {items : List Json} {place : Nat} {inner : Json} {read : Json → Checked α}

end located

section outside

variable {step : Segment} {items : List Json} {place : Nat} {inner other : Json}
  {read : Json → Checked α}

end outside

end Schema

end Markup
