namespace Markup.Yaml

-- Line breaks as they are left after the text was read: a newline has taken
-- the place of every carriage return.
def isBreak (c : Char) : Bool := c == '\n' || c == '\x85' || c == '\u2028' || c == '\u2029'

def isBlankOrBreak (c : Char) : Bool := c == ' ' || c == '\t' || isBreak c

def isAllowed (c : Char) : Bool :=
  let code := c.toNat
  code == 0x09 || code == 0x0a || code == 0x0d || (0x20 ≤ code && code ≤ 0x7e) || code == 0x85 ||
    (0xa0 ≤ code && code ≤ 0xd7ff) || (0xe000 ≤ code && code ≤ 0xfffd) || 0x10000 ≤ code

def isWordChar (c : Char) : Bool :=
  ('0' ≤ c && c ≤ '9') || ('A' ≤ c && c ≤ 'Z') || ('a' ≤ c && c ≤ 'z') || c == '-' || c == '_'

structure Cursor where
  rest : List Char
  line : Nat
  column : Nat
  index : Nat

namespace Cursor

def start (text : List Char) : Cursor := ⟨text,0,0,0⟩

def peek (c : Cursor) : Option Char := c.rest.head?

def ahead (c : Cursor) (n : Nat) : Option Char := c.rest[n]?

-- A byte order mark takes no column.
def step (c : Cursor) : Cursor :=
  match c.rest with
  | [] => c
  | char :: rest =>
    if isBreak char then ⟨rest,c.line + 1,0,c.index + 1⟩
    else if char = '\ufeff' then ⟨rest,c.line,c.column,c.index + 1⟩
    else ⟨rest,c.line,c.column + 1,c.index + 1⟩

def skip : Nat → Cursor → Cursor
  | 0, c => c
  | n + 1, c => skip n c.step

def take (p : Char → Bool) (c : Cursor) : List Char × Cursor :=
  let taken := c.rest.takeWhile p
  (taken,c.skip taken.length)

def skipWhile (p : Char → Bool) (c : Cursor) : Cursor := (c.take p).2

def skipSpaces (c : Cursor) : Cursor := c.skipWhile (· == ' ')

def skipLine (c : Cursor) : Cursor := c.skipWhile (!isBreak ·)

def blankAt (c : Cursor) (n : Nat) : Bool := (c.ahead n).all isBlankOrBreak

def spaceAt (c : Cursor) (n : Nat) : Bool := (c.ahead n).all fun char => char == ' ' || isBreak char

def lineEnd (c : Cursor) : Bool := c.peek.all isBreak

def startsBreak (c : Cursor) : Bool := c.peek.any isBreak

def breakText : Char → Char
  | '\u2028' => '\u2028'
  | '\u2029' => '\u2029'
  | _ => '\n'

def readBreak (c : Cursor) : List Char × Cursor :=
  match c.peek with
  | some char => if isBreak char then ([breakText char],c.step) else ([],c)
  | none => ([],c)

def atMarker (marker : Char) (c : Cursor) : Bool :=
  c.ahead 0 == some marker && c.ahead 1 == some marker && c.ahead 2 == some marker && c.blankAt 3

def atDocumentMarker (c : Cursor) : Bool := c.atMarker '-' || c.atMarker '.'

end Cursor

end Markup.Yaml
