import Markup.Binary64

namespace Markup

-- Plain data. Whole numbers are kept apart from the rest, objects keep the
-- order of their fields, and a field name occurs once.
inductive Json where
  | null
  | bool (value : Bool)
  | int (value : Int)
  | float (value : Binary64)
  | string (value : String)
  | array (items : List Json)
  | object (fields : List (String × Json))
  deriving Inhabited

namespace Json

def lookup (name : String) : List (String × α) → Option α
  | [] => none
  | (key, value) :: rest => if key = name then some value else lookup name rest

def setField (name : String) (value : α) : List (String × α) → List (String × α)
  | [] => [(name, value)]
  | (key, old) :: rest =>
    if key = name then (key, value) :: rest else (key, old) :: setField name value rest

def field? (name : String) : Json → Option Json
  | .object fields => lookup name fields
  | _ => none

theorem lookup_setField_self (name : String) (value : α) (fields : List (String × α)) :
    lookup name (setField name value fields) = some value := by
  induction fields with
  | nil => simp [setField, lookup]
  | cons head rest ih =>
      obtain ⟨key,old⟩ := head
      by_cases h : key = name <;> simp [setField,lookup,h,ih]

theorem lookup_setField_other {name other : String} (value : α) (fields : List (String × α))
    (differ : name ≠ other) : lookup other (setField name value fields) = lookup other fields := by
  induction fields with
  | nil => simp [setField,lookup,differ]
  | cons head rest ih =>
      obtain ⟨key,old⟩ := head
      by_cases h : key = name
      · subst h
        simp [setField,lookup,differ]
      · by_cases k : key = other
        · subst k
          simp [setField,lookup,h]
        · simp [setField,lookup,h,k,ih]

def number? : Json → Option (Int ⊕ Binary64)
  | .bool value => some (.inl (if value then 1 else 0))
  | .int value => some (.inl value)
  | .float value => some (.inr value)
  | _ => none

def sameNumber : Int ⊕ Binary64 → Int ⊕ Binary64 → Bool
  | .inl a, .inl b => a == b
  | .inl a, .inr y => y.toInt? == some a
  | .inr x, .inl b => x.toInt? == some b
  | .inr x, .inr y => x.equal y

mutual
def same : Json → Json → Bool
  | .null, .null => true
  | .string a, .string b => a == b
  | .array a, .array b => sameItems a b
  | .object a, .object b => a.length == b.length && sameFields a b
  | a, b =>
    match number? a, number? b with
    | some x, some y => sameNumber x y
    | _, _ => false
def sameItems : List Json → List Json → Bool
  | [], [] => true
  | a :: as, b :: bs => same a b && sameItems as bs
  | _, _ => false
def sameFields : List (String × Json) → List (String × Json) → Bool
  | [], _ => true
  | (key, value) :: rest, fields =>
    (match lookup key fields with
     | some other => same value other
     | none => false) && sameFields rest fields
end

end Json

end Markup
