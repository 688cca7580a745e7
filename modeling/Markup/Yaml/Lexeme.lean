import Markup.Yaml.Cursor
import Markup.Yaml.Trouble
import Markup.Json.Reader

namespace Markup.Yaml

inductive Directive where
  | version (major minor : Nat)
  | handle (name uri : String)
  | other
  deriving DecidableEq, Repr

-- What a text consists of. Blocks are opened and closed by lexemes of their
-- own, found from the columns. A stop stands where the text cannot be read on.
inductive Lexeme where
  | directive (value : Directive)
  | documentStart
  | documentEnd
  | blockSequence
  | blockMapping
  | blockEnd
  | flowSequence
  | flowSequenceEnd
  | flowMapping
  | flowMappingEnd
  | flowEntry
  | blockEntry
  | key
  | value
  | reference (name : String)
  | anchor (name : String)
  | tag (handle : Option String) (suffix : String)
  | scalar (text : String) (plain : Bool)
  | finish
  | stop (trouble : Trouble)
  deriving DecidableEq, Repr

abbrev Found (α : Type) := Except Trouble (α × Cursor)

def bad : Except Trouble α := .error .malformed

namespace Scalar

def hexDigits : Nat → List Char → Option Nat
  | 0, _ => some 0
  | n + 1, c :: rest => do
    let high ← Json.hexValue? c
    let low ← hexDigits n rest
    pure (high * Nat.pow 16 n + low)
  | _ + 1, [] => none

def namedEscape? : Char → Option Char
  | '0' => some '\x00'
  | 'a' => some '\x07'
  | 'b' => some '\x08'
  | 't' => some '\t'
  | '\t' => some '\t'
  | 'n' => some '\n'
  | 'v' => some '\x0b'
  | 'f' => some '\x0c'
  | 'r' => some '\r'
  | 'e' => some '\x1b'
  | ' ' => some ' '
  | '"' => some '"'
  | '\\' => some '\\'
  | '/' => some '/'
  | 'N' => some '\x85'
  | '_' => some '\xa0'
  | 'L' => some '\u2028'
  | 'P' => some '\u2029'
  | _ => none

def codeWidth? : Char → Option Nat
  | 'x' => some 2
  | 'u' => some 4
  | 'U' => some 8
  | _ => none

def character (code : Nat) : Except Trouble Char :=
  if code < 0x110000 then .ok (Char.ofNat code)
  else if code < 0x80000000 then .error .characterRange
  else .error .characterSize

def quotedBreaks : Nat → Cursor → Found (List Char)
  | 0, _ => bad
  | fuel + 1, c =>
    if c.atDocumentMarker then bad
    else
      let c := c.skipWhile fun char => char == ' ' || char == '\t'
      if c.startsBreak then
        let (text,c) := c.readBreak
        (quotedBreaks fuel c).map fun (more,c) => (text ++ more,c)
      else .ok ([],c)

def quotedSpaces (fuel : Nat) (c : Cursor) : Found (List Char) :=
  let (spaces,c) := c.take fun char => char == ' ' || char == '\t'
  match c.peek with
  | none => bad
  | some char =>
    if isBreak char then
      let (text,c) := c.readBreak
      (quotedBreaks fuel c).map fun (more,c) =>
        if text ≠ ['\n'] then (text ++ more,c)
        else if more.isEmpty then ([' '],c)
        else (more,c)
    else .ok (spaces,c)

def plainInQuotes (c : Char) : Bool :=
  !(c == '\'' || c == '"' || c == '\\' || isBlankOrBreak c)

def quotedText (double : Bool) : Nat → Cursor → Found (List Char)
  | 0, _ => bad
  | fuel + 1, c =>
    let (run,c) := c.take plainInQuotes
    let following (text : List Char) (c : Cursor) : Found (List Char) :=
      (quotedText double fuel c).map fun (more,c) => (run ++ (text ++ more),c)
    match c.peek with
    | none => bad
    | some '\'' =>
      if double then following ['\''] c.step
      else if c.ahead 1 = some '\'' then following ['\''] (c.skip 2)
      else .ok (run,c.step)
    | some '"' =>
      if double then .ok (run,c.step) else following ['"'] c.step
    | some '\\' =>
      if !double then following ['\\'] c.step
      else
        let c := c.step
        match c.peek with
        | none => bad
        | some char =>
          match namedEscape? char, codeWidth? char with
          | some plain, _ => following [plain] c.step
          | none, some width =>
            match hexDigits width c.step.rest with
            | none => bad
            | some code =>
              match character code with
              | .ok plain => following [plain] (c.step.skip width)
              | .error trouble => .error trouble
          | none, none =>
            if isBreak char then
              match quotedBreaks fuel c.readBreak.2 with
              | .ok (more,c) => following more c
              | .error trouble => .error trouble
            else bad
    | some _ =>
      match quotedSpaces fuel c with
      | .ok (spaces,c) => following spaces c
      | .error trouble => .error trouble

def quoted (double : Bool) (fuel : Nat) (c : Cursor) : Found String :=
  (quotedText double fuel c).map fun (text,c) => (String.ofList text,c)

inductive Chomping where
  | clip
  | strip
  | keep
  deriving DecidableEq, Repr

def chomping? : Option Char → Option Chomping
  | some '+' => some .keep
  | some '-' => some .strip
  | _ => none

def indentDigit? : Option Char → Option Nat
  | some c => if '0' ≤ c ∧ c ≤ '9' then some (c.toNat - '0'.toNat) else none
  | none => none

def indicators (c : Cursor) : Found (Chomping × Option Nat) :=
  let ending (chomping : Chomping) (indent : Option Nat) (c : Cursor) :
      Found (Chomping × Option Nat) :=
    if indent = some 0 then bad
    else if c.spaceAt 0 then .ok ((chomping,indent),c)
    else bad
  match chomping? c.peek with
  | some chomping =>
    match indentDigit? c.step.peek with
    | some indent => ending chomping (some indent) c.step.step
    | none => ending chomping none c.step
  | none =>
    match indentDigit? c.peek with
    | some indent =>
      match chomping? c.step.peek with
      | some chomping => ending chomping (some indent) c.step.step
      | none => ending .clip (some indent) c.step
    | none => ending .clip none c

def ignoredLine (c : Cursor) : Found Unit :=
  let c := c.skipSpaces
  let c := if c.peek = some '#' then c.skipLine else c
  if c.lineEnd then .ok ((),c.readBreak.2) else bad

def leadingLines : Nat → Nat → List Char → Cursor → List Char × Nat × Cursor
  | 0, widest, breaks, c => (breaks,widest,c)
  | fuel + 1, widest, breaks, c =>
    match c.peek with
    | some ' ' => leadingLines fuel (max widest c.step.column) breaks c.step
    | some char =>
      if isBreak char then
        let (text,c) := c.readBreak
        leadingLines fuel widest (breaks ++ text) c
      else (breaks,widest,c)
    | none => (breaks,widest,c)

def skipIndent (indent : Nat) (c : Cursor) : Cursor :=
  c.skip (min (indent - c.column) (c.rest.takeWhile (· == ' ')).length)

def innerLines (indent : Nat) : Nat → List Char → Cursor → List Char × Cursor
  | 0, breaks, c => (breaks,c)
  | fuel + 1, breaks, c =>
    let c := skipIndent indent c
    if c.startsBreak then
      let (text,c) := c.readBreak
      innerLines indent fuel (breaks ++ text) c
    else (breaks,c)

-- The lines of a block scalar behind some empty ones: their text, the break that
-- ended the last line, the empty lines behind it. Folding turns a single break
-- between two lines that start with text into a space.
def blockLines (folded : Bool) (indent : Nat) :
    Nat → List Char → Cursor → List Char × List Char × List Char × Cursor
  | 0, before, c => ([],[],before,c)
  | fuel + 1, before, c =>
    if c.column = indent ∧ c.peek.isSome then
      let startsWithText (c : Cursor) : Bool := c.peek.all fun char => char != ' ' && char != '\t'
      let leading := startsWithText c
      let (run,c) := c.take (!isBreak ·)
      let (lineBreak,c) := c.readBreak
      let (breaks,c) := innerLines indent fuel [] c
      if c.column = indent ∧ c.peek.isSome then
        let joint :=
          if folded ∧ lineBreak = ['\n'] ∧ leading ∧ startsWithText c then
            if breaks.isEmpty then [' '] else []
          else lineBreak
        let (more,ending) := blockLines folded indent fuel breaks c
        (before ++ (run ++ (joint ++ more)),ending)
      else (before ++ run,lineBreak,breaks,c)
    else ([],[],before,c)

def block (folded : Bool) (parent : Int) (fuel : Nat) (c : Cursor) : Found String :=
  match indicators c with
  | .error trouble => .error trouble
  | .ok ((chomping,increment),c) =>
    match ignoredLine c with
    | .error trouble => .error trouble
    | .ok ((),c) =>
      let least := (max (parent + 1) 1).toNat
      let (breaks,indent,c) :=
        match increment with
        | some increment =>
          let indent := least + increment - 1
          let (breaks,c) := innerLines indent fuel [] c
          (breaks,indent,c)
        | none =>
          let (breaks,widest,c) := leadingLines fuel 0 [] c
          (breaks,max least widest,c)
      let (text,lineBreak,breaks,c) := blockLines folded indent fuel breaks c
      let ending :=
        match chomping with
        | .strip => []
        | .clip => lineBreak
        | .keep => lineBreak ++ breaks
      .ok (String.ofList (text ++ ending),c)

def flowIndicator (c : Char) : Bool := c == ',' || c == '[' || c == ']' || c == '{' || c == '}'

-- A run of a plain scalar ends at a blank, at a colon that ends a key, and in
-- brackets at what has a meaning there.
def plainRun (inFlow : Bool) : List Char → List Char
  | [] => []
  | c :: rest =>
    let endsKey := rest.head?.all fun next => isBlankOrBreak next || (inFlow && flowIndicator next)
    if isBlankOrBreak c || (c == ':' && endsKey) || (inFlow && (c == '?' || flowIndicator c)) then []
    else c :: plainRun inFlow rest

structure Spaces where
  text : List Char
  newLine : Bool
  after : Cursor

def plainBreaks : Nat → List Char → Cursor → Option (List Char) × Cursor
  | 0, breaks, c => (some breaks,c)
  | fuel + 1, breaks, c =>
    match c.peek with
    | some ' ' => plainBreaks fuel breaks c.step
    | some char =>
      if isBreak char then
        let (text,c) := c.readBreak
        if c.atDocumentMarker then (none,c) else plainBreaks fuel (breaks ++ text) c
      else (some breaks,c)
    | none => (some breaks,c)

def plainSpaces (fuel : Nat) (c : Cursor) : Spaces :=
  let (spaces,c) := c.take (· == ' ')
  if c.startsBreak then
    let (text,c) := c.readBreak
    if c.atDocumentMarker then ⟨[],true,c⟩
    else
      match plainBreaks fuel [] c with
      | (none,c) => ⟨[],true,c⟩
      | (some breaks,c) =>
        if text ≠ ['\n'] then ⟨text ++ breaks,true,c⟩
        else if breaks.isEmpty then ⟨[' '],true,c⟩
        else ⟨breaks,true,c⟩
  else ⟨spaces,false,c⟩

def plainText (inFlow : Bool) (indent : Int) :
    Nat → List Char → Bool → Cursor → List Char × Bool × Cursor
  | 0, _, newLine, c => ([],newLine,c)
  | fuel + 1, spaces, newLine, c =>
    let run := if c.peek = some '#' then [] else plainRun inFlow c.rest
    if run.isEmpty then ([],newLine,c)
    else
      let gap := plainSpaces fuel (c.skip run.length)
      if gap.text.isEmpty ∨ gap.after.peek = some '#' ∨ (!inFlow ∧ (gap.after.column : Int) < indent)
      then (spaces ++ run,gap.newLine,gap.after)
      else
        let (more,ending) := plainText inFlow indent fuel gap.text gap.newLine gap.after
        (spaces ++ (run ++ more),ending)

def plain (inFlow : Bool) (indent : Int) (fuel : Nat) (c : Cursor) : String × Bool × Cursor :=
  let (text,ending) := plainText inFlow indent fuel [] false c
  (String.ofList text,ending)

end Scalar

namespace Mark

def uriChar (c : Char) : Bool :=
  (isWordChar c) || "-;/?:@&=+$,.!~*'()[]%".toList.contains c

def octets : Nat → Cursor → Option (List UInt8 × Cursor)
  | 0, c => some ([],c)
  | fuel + 1, c =>
    if c.peek = some '%' then do
      let high ← (c.ahead 1).bind Json.hexValue?
      let low ← (c.ahead 2).bind Json.hexValue?
      let (more,c) ← octets fuel (c.skip 3)
      pure (UInt8.ofNat (high * 16 + low) :: more,c)
    else some ([],c)

def uri : Nat → Cursor → Found (List Char)
  | 0, _ => bad
  | fuel + 1, c =>
    match c.peek with
    | some '%' =>
      match octets fuel c with
      | none => bad
      | some (bytes,c) =>
        match String.fromUTF8? (ByteArray.mk bytes.toArray) with
        | none => bad
        | some text => (uri fuel c).map fun (more,c) => (text.toList ++ more,c)
    | some char =>
      if uriChar char then (uri fuel c.step).map fun (more,c) => (char :: more,c)
      else .ok ([],c)
    | none => .ok ([],c)

def someUri (fuel : Nat) (c : Cursor) : Found String :=
  match uri fuel c with
  | .ok ([],_) => bad
  | .ok (text,c) => .ok (String.ofList text,c)
  | .error trouble => .error trouble

def handle (c : Cursor) : Found String :=
  if c.peek ≠ some '!' then bad
  else if c.ahead 1 = some ' ' then .ok ("!",c.step)
  else
    let (word,after) := c.step.take isWordChar
    if after.peek = some '!' then .ok (String.ofList ('!' :: word ++ ['!']),after.step) else bad

def hasHandle (rest : List Char) : Bool :=
  (rest.takeWhile fun char => !(char == ' ' || isBreak char)).contains '!'

def tag (fuel : Nat) (c : Cursor) : Found Lexeme :=
  let ending (handle : Option String) (suffix : String) (c : Cursor) : Found Lexeme :=
    if c.spaceAt 0 then .ok (.tag handle suffix,c) else bad
  if c.ahead 1 = some '<' then
    match someUri fuel (c.skip 2) with
    | .ok (suffix,c) => if c.peek = some '>' then ending none suffix c.step else bad
    | .error trouble => .error trouble
  else if c.blankAt 1 then ending none "!" c.step
  else if hasHandle c.rest.tail then
    match handle c with
    | .ok (name,c) =>
      match someUri fuel c with
      | .ok (suffix,c) => ending (some name) suffix c
      | .error trouble => .error trouble
    | .error trouble => .error trouble
  else
    match someUri fuel c.step with
    | .ok (suffix,c) => ending (some "!") suffix c
    | .error trouble => .error trouble

def name (c : Cursor) : Found String :=
  let (word,c) := c.take isWordChar
  if word.isEmpty then bad
  else if c.blankAt 0 ∨ c.peek.any ("?:,]\x7d%@`".toList.contains ·) then .ok (String.ofList word,c)
  else bad

def number (c : Cursor) : Found Nat :=
  let (digits,c) := c.take Json.isDigit
  if digits.isEmpty then bad
  else if Number.mostDigits < digits.length then .error (.manyDigits digits.length)
  else .ok (Json.digitsValue digits,c)

def version (c : Cursor) : Found Directive :=
  match number c.skipSpaces with
  | .error trouble => .error trouble
  | .ok (major,c) =>
    if c.peek ≠ some '.' then bad
    else
      match number c.step with
      | .error trouble => .error trouble
      | .ok (minor,c) => if c.spaceAt 0 then .ok (.version major minor,c) else bad

def tagHandle (fuel : Nat) (c : Cursor) : Found Directive :=
  match handle c.skipSpaces with
  | .error trouble => .error trouble
  | .ok (name,c) =>
    if c.peek ≠ some ' ' then bad
    else
      match someUri fuel c.skipSpaces with
      | .error trouble => .error trouble
      | .ok (uri,c) => if c.spaceAt 0 then .ok (.handle name uri,c) else bad

def directiveValue (fuel : Nat) (word : List Char) (c : Cursor) : Found Directive :=
  if word = ['Y', 'A', 'M', 'L'] then version c
  else if word = ['T', 'A', 'G'] then tagHandle fuel c
  else .ok (.other,c.skipLine)

def directive (fuel : Nat) (c : Cursor) : Found Lexeme :=
  let (word,c) := c.take isWordChar
  if word.isEmpty ∨ !c.spaceAt 0 then bad
  else
    match directiveValue fuel word c with
    | .error trouble => .error trouble
    | .ok (value,c) =>
      match Scalar.ignoredLine c with
      | .error trouble => .error trouble
      | .ok ((),c) => .ok (.directive value,c)

end Mark

end Markup.Yaml
