import Markup.Text.Alphabetic
import Markup.Text.Basic

namespace Markup.Selector

-- The compact form of an element, `tag#id.class[name=value]`: a tag, then parts
-- in any order and number, with blanks allowed between them.
structure Part where
  name : String
  value : String
  deriving DecidableEq, Repr

def inTag (c : Char) : Bool := Text.isAsciiLetter c || Text.isAsciiDigit c || c == '-'

def inName (c : Char) : Bool := Text.isAlphabetic c || Text.isAsciiDigit c || c == '-'

def opensPart (c : Char) : Bool := c == '#' || c == '.' || c == '['

def inClass (c : Char) : Bool := !Text.isBlank c && !opensPart c

def inId (c : Char) : Bool := !opensPart c

def inValue (c : Char) : Bool := c != ']'

inductive Detail where
  | noTag
  | unexpected (c : Char)
  | noName
  | expected (wanted : Char) (found : Option Char)
  deriving DecidableEq, Repr

def Detail.message : Detail → String
  | .noTag => "expected a tag name starting with an ASCII letter"
  | .unexpected c => "unexpected character " ++ Text.quoteChar c
  | .noName => "expected an attribute name"
  | .expected wanted found =>
    "expected " ++ Text.quoteChar wanted ++ " but found " ++
      (match found with
       | some c => Text.quoteChar c
       | none => "end of input")

structure Refusal where
  detail : Detail
  rest : List Char

abbrev Reading (α : Type) := Except Refusal (α × List Char)

def tagName (s : List Char) : Reading String :=
  match Text.dropBlank s with
  | [] => .error ⟨.noTag,[]⟩
  | c :: rest =>
    if Text.isAsciiLetter c then
      .ok (String.ofList ((c :: rest).takeWhile inTag),
        Text.dropBlank ((c :: rest).dropWhile inTag))
    else .error ⟨.noTag,c :: rest⟩

def bracketPart (s : List Char) : Reading Part :=
  let name := String.ofList (s.takeWhile inName)
  match s.takeWhile inName, s.dropWhile inName with
  | [], rest => .error ⟨.noName,rest⟩
  | _, [] => .error ⟨.expected '=' none,[]⟩
  | _, c :: more =>
    if c = '=' then
      match more.dropWhile inValue with
      | [] => .error ⟨.expected ']' none,[]⟩
      | _ :: rest =>
        let value := more.takeWhile inValue
        .ok (⟨name,String.ofList (if name = "id" then Text.trim value else value)⟩,rest)
    else .error ⟨.expected '=' (some c),c :: more⟩

def readPart (c : Char) (rest : List Char) : Reading Part :=
  if c = '#' then
    .ok (⟨"id",String.ofList (Text.trim (rest.takeWhile inId))⟩,rest.dropWhile inId)
  else if c = '.' then
    .ok (⟨"class",String.ofList (rest.takeWhile inClass)⟩,rest.dropWhile inClass)
  else if c = '[' then bracketPart rest
  else .error ⟨.unexpected c,c :: rest⟩

theorem length_dropWhile_le (p : Char → Bool) (s : List Char) :
    (s.dropWhile p).length ≤ s.length := (List.dropWhile_suffix p).length_le

theorem bracketPart_length {s : List Char} {part : Part} {rest : List Char}
    (done : bracketPart s = .ok (part,rest)) : rest.length ≤ s.length := by
  unfold bracketPart at done
  have after := length_dropWhile_le inName s
  split at done
  · simp at done
  · simp at done
  · rename_i c more opened _
    split at done
    · have inner := length_dropWhile_le inValue more
      split at done
      · simp at done
      · rename_i last tail cut
        simp only [Except.ok.injEq,Prod.mk.injEq] at done
        obtain ⟨_,rfl⟩ := done
        rw [opened] at after
        rw [cut] at inner
        simp only [List.length_cons] at after inner
        omega
    · simp at done

theorem readPart_length {c : Char} {s : List Char} {part : Part} {rest : List Char}
    (done : readPart c s = .ok (part,rest)) : rest.length ≤ s.length := by
  unfold readPart at done
  split at done
  · simp only [Except.ok.injEq,Prod.mk.injEq] at done
    exact done.2 ▸ length_dropWhile_le inId s
  · split at done
    · simp only [Except.ok.injEq,Prod.mk.injEq] at done
      exact done.2 ▸ length_dropWhile_le inClass s
    · split at done
      · exact bracketPart_length done
      · simp at done

def partsFrom : List Char → Except Refusal (List Part)
  | [] => .ok []
  | c :: s =>
    match _found : readPart c s with
    | .error refusal => .error refusal
    | .ok (part,rest) =>
      match partsFrom (Text.dropBlank rest) with
      | .error refusal => .error refusal
      | .ok parts => .ok (part :: parts)
termination_by s => s.length
decreasing_by
  have shorter := readPart_length _found
  have blank := length_dropWhile_le Text.isBlank rest
  simp only [Text.dropBlank,List.length_cons]
  omega

structure Shape where
  tag : String
  parts : List Part
  deriving DecidableEq, Repr

def readShape (s : List Char) : Except Refusal Shape :=
  match tagName s with
  | .error refusal => .error refusal
  | .ok (tag,rest) =>
    match partsFrom rest with
    | .error refusal => .error refusal
    | .ok parts => .ok ⟨tag,parts⟩

-- One attribute per name at the place of its first part. A later id replaces
-- the value, anything else is added to it after a space.
def insertPart (part : Part) : List Part → List Part
  | [] => [part]
  | first :: rest =>
    if first.name = part.name then
      ⟨first.name,if part.name = "id" then part.value else first.value ++ " " ++ part.value⟩ :: rest
    else first :: insertPart part rest

def merge (parts : List Part) : List Part :=
  parts.foldl (fun merged part => insertPart part merged) []

end Markup.Selector

namespace Markup

structure Selector where
  tag : String
  attributes : List Selector.Part
  deriving DecidableEq, Repr

namespace Selector

structure Fault where
  selector : String
  position : Nat
  detail : Detail
  deriving DecidableEq, Repr

def Fault.message (fault : Fault) : String :=
  "Failed to parse " ++ Text.quote fault.selector ++ ": " ++ fault.detail.message ++
    " at position " ++ fault.position.repr

def read (selector : String) : Except Fault Selector :=
  match readShape selector.toList with
  | .ok found => .ok ⟨found.tag,merge found.parts⟩
  | .error refusal => .error ⟨selector,selector.toList.length - refusal.rest.length,refusal.detail⟩

end Selector

end Markup
