namespace Markup.Yaml.Octets

def sextet? (c : Char) : Option Nat :=
  if 'A' ≤ c ∧ c ≤ 'Z' then some (c.toNat - 'A'.toNat)
  else if 'a' ≤ c ∧ c ≤ 'z' then some (c.toNat - 'a'.toNat + 26)
  else if '0' ≤ c ∧ c ≤ '9' then some (c.toNat - '0'.toNat + 52)
  else if c = '+' then some 62
  else if c = '/' then some 63
  else none

structure Group where
  count : Nat
  left : Nat
  pads : Nat

-- Characters outside the alphabet are skipped. A complete group with padding
-- ends the text; an incomplete one at the end has no value.
def read (group : Group) : List Char → Option (List UInt8)
  | [] => if group.count = 0 then some [] else none
  | c :: rest =>
    if c = '=' then
      if group.count < 2 then read group rest
      else if 4 ≤ group.count + group.pads + 1 then some []
      else read { group with pads := group.pads + 1 } rest
    else
      match sextet? c, group.count with
      | none, _ => read group rest
      | some bits, 0 => read ⟨1,bits,0⟩ rest
      | some bits, 1 =>
        (read ⟨2,bits % 16,0⟩ rest).map (UInt8.ofNat (group.left * 4 + bits / 16) :: ·)
      | some bits, 2 =>
        (read ⟨3,bits % 4,0⟩ rest).map (UInt8.ofNat (group.left * 16 + bits / 4) :: ·)
      | some bits, _ =>
        (read ⟨0,0,0⟩ rest).map (UInt8.ofNat (group.left * 64 + bits) :: ·)

def ofText (text : String) : Option (List UInt8) :=
  let s := text.toList
  if s.all fun c => c.toNat < 128 then read ⟨0,0,0⟩ s else none

end Markup.Yaml.Octets
