namespace Markup

inductive Segment where
  | field (name : String)
  | index (place : Nat)
  deriving DecidableEq, Repr

inductive Family where
  | node
  | attr
  deriving DecidableEq, Repr

def Family.kinds : Family → List String
  | .node => ["element", "text", "raw", "comment", "fragment", "async_node", "async_seq"]
  | .attr => ["attribute", "async_attribute"]

def Family.expected (family : Family) : String :=
  ", ".intercalate (family.kinds.map fun kind => "'" ++ kind ++ "'")

inductive Cause where
  | missing
  | notText
  | notUnicode
  | notList
  | notSet
  | notBoolean
  | unclearBoolean
  | wrongKind (expected : String)
  | noTag
  | unknownTag (tag : String) (family : Family)
  | notObject
  | notModel (model : String)
  | notCallable
  | notIterable
  | frozen
  | iteration (message : String)
  deriving DecidableEq, Repr

def Cause.code : Cause → String
  | .missing => "missing"
  | .notText => "string_type"
  | .notUnicode => "string_unicode"
  | .notList => "list_type"
  | .notSet => "frozen_set_type"
  | .notBoolean => "bool_type"
  | .unclearBoolean => "bool_parsing"
  | .wrongKind _ => "literal_error"
  | .noTag => "union_tag_not_found"
  | .unknownTag .. => "union_tag_invalid"
  | .notObject => "model_attributes_type"
  | .notModel _ => "model_type"
  | .notCallable => "callable_type"
  | .notIterable => "is_instance_of"
  | .frozen => "frozen_instance"
  | .iteration _ => "iteration_error"

def Cause.message : Cause → String
  | .missing => "Field required"
  | .notText => "Input should be a valid string"
  | .notUnicode =>
    "Input should be a valid string, unable to parse raw data as a unicode string"
  | .notList => "Input should be a valid list"
  | .notSet => "Input should be a valid frozenset"
  | .notBoolean => "Input should be a valid boolean"
  | .unclearBoolean => "Input should be a valid boolean, unable to interpret input"
  | .wrongKind expected => "Input should be '" ++ expected ++ "'"
  | .noTag => "Unable to extract tag using discriminator 'kind'"
  | .unknownTag tag family =>
    "Input tag '" ++ tag ++ "' found using 'kind' does not match any of the expected tags: " ++
      family.expected
  | .notObject => "Input should be a valid dictionary or object to extract fields from"
  | .notModel model => "Input should be a valid dictionary or instance of " ++ model
  | .notCallable => "Input should be callable"
  | .notIterable => "Input should be an instance of AsyncIterable"
  | .frozen => "Instance is frozen"
  | .iteration message => "Error iterating over object, error: " ++ message

structure Problem where
  path : List Segment
  cause : Cause
  deriving DecidableEq, Repr

def Problem.under (step : Segment) (problem : Problem) : Problem :=
  ⟨step :: problem.path,problem.cause⟩

abbrev Checked (α : Type) := Except (List Problem) α

namespace Checked

def fail (cause : Cause) : Checked α := .error [⟨[],cause⟩]

def under (step : Segment) : Checked α → Checked α
  | .ok value => .ok value
  | .error problems => .error (problems.map (Problem.under step))

-- Both sides are read even if the first is wrong, so no problem hides another.
def both : Checked α → Checked β → Checked (α × β)
  | .ok a, .ok b => .ok (a,b)
  | .ok _, .error problems => .error problems
  | .error problems, .ok _ => .error problems
  | .error first, .error second => .error (first ++ second)

def map (f : α → β) : Checked α → Checked β
  | .ok value => .ok (f value)
  | .error problems => .error problems

def all : List (Checked α) → Checked (List α)
  | [] => .ok []
  | first :: rest => map (fun (a,as) => a :: as) (both first (all rest))

def problems : Checked α → List Problem
  | .ok _ => []
  | .error problems => problems

theorem problems_both (a : Checked α) (b : Checked β) :
    (both a b).problems = a.problems ++ b.problems := by
  cases a <;> cases b <;> simp [both,problems]

theorem problems_map (f : α → β) (a : Checked α) : (map f a).problems = a.problems := by
  cases a <;> rfl

theorem problems_under (step : Segment) (a : Checked α) :
    (under step a).problems = a.problems.map (Problem.under step) := by
  cases a <;> rfl

end Checked

end Markup
