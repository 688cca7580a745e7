import Markup.Yaml.Lexeme

namespace Markup.Yaml

-- A lexeme that becomes a key when a colon follows on its line. Where the
-- block it stands in can only go on with a key, the colon has to come.
structure Candidate where
  place : Nat
  required : Bool
  index : Nat
  line : Nat
  column : Nat
  deriving DecidableEq, Repr

-- How far a text is cut into lexemes. Blocks are known by their column, the
-- innermost first; every open bracket keeps the candidate in front of it.
structure Layout where
  cursor : Cursor
  lexemes : List Lexeme
  indent : Int
  outer : List Int
  keyAllowed : Bool
  candidate : Option Candidate
  brackets : List (Option Candidate)

namespace Layout

def start (text : List Char) : Layout := ⟨Cursor.start text,[],-1,[],true,none,[]⟩

def inFlow (l : Layout) : Bool := !l.brackets.isEmpty

def fuel (l : Layout) : Nat := l.cursor.rest.length + 1

def add (lexeme : Lexeme) (l : Layout) : Layout := { l with lexemes := l.lexemes ++ [lexeme] }

def isStale (c : Cursor) (candidate : Candidate) : Bool :=
  candidate.line != c.line || candidate.index + 1024 < c.index

def fresh (c : Cursor) (candidate : Option Candidate) : Option Candidate :=
  candidate.filter (!isStale c ·)

def dropStale (l : Layout) : Except Trouble Layout :=
  if (l.candidate :: l.brackets).any (·.any fun x => isStale l.cursor x && x.required) then bad
  else .ok { l with
    candidate := fresh l.cursor l.candidate, brackets := l.brackets.map (fresh l.cursor) }

def dropCandidate (l : Layout) : Except Trouble Layout :=
  if l.candidate.any (·.required) then bad else .ok { l with candidate := none }

def saveCandidate (l : Layout) : Except Trouble Layout :=
  if l.keyAllowed then
    match l.dropCandidate with
    | .ok l =>
      let c := l.cursor
      let required := !l.inFlow && l.indent == (c.column : Int)
      .ok { l with candidate := some ⟨l.lexemes.length,required,c.index,c.line,c.column⟩ }
    | .error trouble => .error trouble
  else .ok l

def unwind (column : Int) : List Lexeme → Int → List Int → List Lexeme × Int × List Int
  | lexemes, indent, [] => (lexemes,indent,[])
  | lexemes, indent, next :: outer =>
    if column < indent then unwind column (lexemes ++ [.blockEnd]) next outer
    else (lexemes,indent,next :: outer)

def closeBlocks (column : Int) (l : Layout) : Layout :=
  if l.inFlow then l
  else
    let (lexemes,indent,outer) := unwind column l.lexemes l.indent l.outer
    { l with lexemes := lexemes, indent := indent, outer := outer }

def openBlock (lexeme : Lexeme) (place column : Nat) (l : Layout) : Layout :=
  if l.indent < (column : Int) then
    { l with
      lexemes := l.lexemes.take place ++ lexeme :: l.lexemes.drop place
      indent := column, outer := l.indent :: l.outer }
  else l

def skipGap : Nat → Bool → Cursor → Bool × Cursor
  | 0, crossed, c => (crossed,c)
  | fuel + 1, crossed, c =>
    let c := c.skipSpaces
    let c := if c.peek = some '#' then c.skipLine else c
    if c.startsBreak then skipGap fuel true c.step else (crossed,c)

def settle (l : Layout) : Except Trouble Layout :=
  match l.dropStale with
  | .error trouble => .error trouble
  | .ok l =>
    let c := l.cursor
    let c := if c.index = 0 ∧ c.peek = some '\ufeff' then c.step else c
    let (crossed,c) := skipGap l.fuel false c
    let keyAllowed := l.keyAllowed || (crossed && !l.inFlow)
    match dropStale { l with cursor := c, keyAllowed := keyAllowed } with
    | .error trouble => .error trouble
    | .ok l => .ok (l.closeBlocks c.column)

def outermost (l : Layout) : Except Trouble Layout :=
  match (l.closeBlocks (-1)).dropCandidate with
  | .ok l => .ok { l with keyAllowed := false }
  | .error trouble => .error trouble

def finish (l : Layout) : Except Trouble Layout :=
  match l.outermost with
  | .ok l => .ok (l.add .finish)
  | .error trouble => .error trouble

def skip (n : Nat) (l : Layout) : Layout := { l with cursor := l.cursor.skip n }

def take (found : Found Lexeme) (l : Layout) : Except Trouble Layout :=
  match found with
  | .ok (lexeme,c) => .ok (add lexeme { l with cursor := c })
  | .error trouble => .error trouble

def marker (lexeme : Lexeme) (l : Layout) : Except Trouble Layout :=
  match l.outermost with
  | .ok l => .ok ((l.skip 3).add lexeme)
  | .error trouble => .error trouble

def directive (l : Layout) : Except Trouble Layout :=
  match l.outermost with
  | .ok l => l.take (Mark.directive l.fuel l.cursor.step)
  | .error trouble => .error trouble

def openBracket (lexeme : Lexeme) (l : Layout) : Except Trouble Layout :=
  match l.saveCandidate with
  | .ok l =>
    .ok (add lexeme { l.skip 1 with
      keyAllowed := true, candidate := none, brackets := l.candidate :: l.brackets })
  | .error trouble => .error trouble

def closeBracket (lexeme : Lexeme) (l : Layout) : Except Trouble Layout :=
  match l.brackets with
  | [] => bad
  | candidate :: brackets =>
    .ok (add lexeme { l.skip 1 with
      keyAllowed := false, candidate := candidate, brackets := brackets })

def entry (lexeme : Lexeme) (l : Layout) : Except Trouble Layout :=
  match l.dropCandidate with
  | .ok l => .ok (add lexeme { l.skip 1 with keyAllowed := true })
  | .error trouble => .error trouble

def blockEntry (l : Layout) : Except Trouble Layout :=
  if l.inFlow then l.entry .blockEntry
  else if !l.keyAllowed then bad
  else (l.openBlock .blockSequence l.lexemes.length l.cursor.column).entry .blockEntry

def keyOrValue (lexeme : Lexeme) (l : Layout) : Except Trouble Layout :=
  if !l.inFlow && !l.keyAllowed then bad
  else
    let l := if l.inFlow then l else l.openBlock .blockMapping l.lexemes.length l.cursor.column
    match l.dropCandidate with
    | .ok l => .ok (add lexeme { l.skip 1 with keyAllowed := !l.inFlow })
    | .error trouble => .error trouble

def value (l : Layout) : Except Trouble Layout :=
  match l.candidate with
  | none => l.keyOrValue .value
  | some candidate =>
    let place := candidate.place
    let l := { l with
      lexemes := l.lexemes.take place ++ Lexeme.key :: l.lexemes.drop place
      keyAllowed := false, candidate := none }
    let l := if l.inFlow then l else l.openBlock .blockMapping place candidate.column
    .ok ((l.skip 1).add .value)

def mark (read : Nat → Cursor → Found Lexeme) (l : Layout) : Except Trouble Layout :=
  match l.saveCandidate with
  | .ok l => take (read l.fuel l.cursor) { l with keyAllowed := false }
  | .error trouble => .error trouble

def readName (lexeme : String → Lexeme) (_ : Nat) (c : Cursor) : Found Lexeme :=
  (Mark.name c.step).map fun (name,c) => (lexeme name,c)

def readQuoted (double : Bool) (fuel : Nat) (c : Cursor) : Found Lexeme :=
  (Scalar.quoted double fuel c.step).map fun (text,c) => (.scalar text false,c)

def block (folded : Bool) (l : Layout) : Except Trouble Layout :=
  match l.dropCandidate with
  | .ok l =>
    take ((Scalar.block folded l.indent l.fuel l.cursor.step).map fun (text,c) =>
      (.scalar text false,c)) { l with keyAllowed := true }
  | .error trouble => .error trouble

def plain (l : Layout) : Except Trouble Layout :=
  match l.saveCandidate with
  | .ok l =>
    let (text,crossed,c) := Scalar.plain l.inFlow (l.indent + 1) l.fuel l.cursor
    .ok (add (.scalar text true) { l with cursor := c, keyAllowed := crossed })
  | .error trouble => .error trouble

def indicators : List Char := "-?:,[]\x7b\x7d#&*!|>'\"%@`".toList

def startsPlain (char : Char) (l : Layout) : Bool :=
  !(isBlankOrBreak char || indicators.contains char) ||
    (!l.cursor.blankAt 1 && (char == '-' || (!l.inFlow && (char == '?' || char == ':'))))

def read (char : Char) (l : Layout) : Except Trouble Layout :=
  let c := l.cursor
  let ends := l.inFlow || c.blankAt 1
  if c.column = 0 ∧ char = '%' then l.directive
  else if c.column = 0 ∧ c.atMarker '-' then l.marker .documentStart
  else if c.column = 0 ∧ c.atMarker '.' then l.marker .documentEnd
  else if char = '[' then l.openBracket .flowSequence
  else if char = '{' then l.openBracket .flowMapping
  else if char = ']' then l.closeBracket .flowSequenceEnd
  else if char = '}' then l.closeBracket .flowMappingEnd
  else if char = ',' then l.entry .flowEntry
  else if char = '-' ∧ c.blankAt 1 then l.blockEntry
  else if char = '?' ∧ ends then l.keyOrValue .key
  else if char = ':' ∧ ends then l.value
  else if char = '*' then l.mark (readName .reference)
  else if char = '&' then l.mark (readName .anchor)
  else if char = '!' then l.mark Mark.tag
  else if char = '|' ∧ !l.inFlow then l.block false
  else if char = '>' ∧ !l.inFlow then l.block true
  else if char = '\'' then l.mark (readQuoted false)
  else if char = '"' then l.mark (readQuoted true)
  else if l.startsPlain char then l.plain
  else bad

-- Whether a lexeme is a key is known only later. So a reader can go no further
-- than to the first candidate when the text cannot be read on.
def stopped (trouble : Trouble) (l : Layout) : List Lexeme :=
  let pending := (l.candidate :: l.brackets).filterMap (fresh l.cursor)
  let reach := pending.foldl (fun reach x => min reach x.place) l.lexemes.length
  l.lexemes.take reach ++ [.stop trouble]

def run : Nat → Layout → List Lexeme
  | 0, l => l.stopped .malformed
  | fuel + 1, l =>
    match l.settle with
    | .error trouble => l.stopped trouble
    | .ok settled =>
      match settled.cursor.peek with
      | none =>
        match settled.finish with
        | .error trouble => l.stopped trouble
        | .ok done => done.lexemes
      | some char =>
        match settled.read char with
        | .error trouble => l.stopped trouble
        | .ok next => run fuel next

end Layout

-- Every step but the last reads a character, so the count suffices.
def lexemes (text : List Char) : List Lexeme := Layout.run (text.length + 1) (Layout.start text)

end Markup.Yaml
