import Markup.Problem
import Markup.Selector.Basic

namespace Markup

-- Why an operation on trees ends without a result. A raised fault comes from a
-- body written elsewhere and passes through unchanged.
inductive Fault where
  | selector (fault : Selector.Fault)
  | invalid (problems : List Problem)
  | cancelled (message : String)
  | unusable (kind : String)
  | notNode (kind : String)
  | notAttribute (kind : String)
  | unrenderable (kind : String)
  | noWait (kind : String)
  | noFeed (kind : String)
  | notIterable
  | notCallable (kind : String)
  | notSelector (kind : String)
  | tooManyArguments (model : String)
  | noMember (kind member : String)
  | noScope (tag : String)
  | missingShadow
  | spent
  | busyList
  | tooDeep
  | raised (kind message : String)
  deriving DecidableEq, Repr

namespace Fault

def kind : Fault → String
  | .selector _ => "ParseError"
  | .invalid _ => "ValidationError"
  | .cancelled _ => "CancelledError"
  | .unusable _ | .notNode _ | .notAttribute _ | .unrenderable _ | .noWait _
  | .noFeed _ | .notIterable | .notCallable _ | .notSelector _ | .tooManyArguments _
  | .missingShadow => "TypeError"
  | .noMember .. | .noScope _ => "AttributeError"
  | .spent => "RuntimeError"
  | .busyList => "ValueError"
  | .tooDeep => "RecursionError"
  | .raised kind _ => kind

def message : Fault → String
  | .selector fault => fault.message
  | .invalid problems => ((problems.map fun problem => problem.cause.message).head?).getD ""
  | .cancelled message => message
  | .unusable kind => "Cannot use " ++ kind ++ " as a markup node"
  | .notNode kind => "Expected a markup node, got " ++ kind
  | .notAttribute kind => "Expected an attribute node, got " ++ kind
  | .unrenderable kind => "Cannot render " ++ kind
  | .noWait kind => "object " ++ kind ++ " can't be used in 'await' expression"
  | .noFeed kind =>
    "'async for' requires an object with __aiter__ method, got " ++ kind
  | .notIterable => "reduce() arg 2 must support iteration"
  | .notCallable kind => "'" ++ kind ++ "' object is not callable"
  | .notSelector kind =>
    if kind ∈ ["list", "dict"] then "unhashable type: '" ++ kind ++ "'"
    else if kind ∈ ["Element", "Fragment"] then "unhashable type: 'list'"
    else "object of type '" ++ kind ++ "' has no len()"
  | .tooManyArguments model => model ++ " takes a single positional argument"
  | .noMember kind member => "'" ++ kind ++ "' object has no attribute '" ++ member ++ "'"
  | .noScope tag => "'types.SimpleNamespace' object has no attribute " ++ Text.quote tag
  | .missingShadow => "scopable.<locals>.build() missing 1 required positional argument: 'shadow'"
  | .spent => "cannot reuse already awaited coroutine"
  | .busyList => "generator already executing"
  | .tooDeep => "maximum recursion depth exceeded"
  | .raised _ message => message

def stopped : Fault := .cancelled "markup resolution was cancelled"

def inline (fault : Fault) : String :=
  if fault.message = "" then fault.kind else fault.kind ++ ": " ++ fault.message

end Fault

end Markup
