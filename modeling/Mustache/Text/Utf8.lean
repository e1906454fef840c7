import Mustache.Text.Basic

/-!
# UTF-8

Text as octets.  `decode` accepts well-formed sequences only, and a fault names the octets that rule
the input out: a lead octet together with those of its continuation octets that still fit.
-/

namespace Mustache

namespace Utf8

/-- Why octets are no UTF-8. -/
inductive Reason where
  /-- No character starts with the octet. -/
  | lead
  /-- The octet behind these does not continue them. -/
  | continuation
  /-- The input ends inside a character. -/
  | truncated
  deriving DecidableEq

/-- The place of a fault, the octets at fault, and why they are. -/
structure Fault where
  position : Nat
  octets : List UInt8
  reason : Reason
  deriving DecidableEq

/-- The ranges of the octets behind a lead octet; there is no character with a lead octet without
ranges, the ASCII ones apart. -/
def ranges (lead : UInt8) : List (UInt8 × UInt8) :=
  let tail : UInt8 × UInt8 := (0x80, 0xBF)
  if lead < 0xC2 then []
  else if lead < 0xE0 then [tail]
  else if lead = 0xE0 then [(0xA0, 0xBF), tail]
  else if lead = 0xED then [(0x80, 0x9F), tail]
  else if lead < 0xF0 then [tail, tail]
  else if lead = 0xF0 then [(0x90, 0xBF), tail, tail]
  else if lead < 0xF4 then [tail, tail, tail]
  else if lead = 0xF4 then [(0x80, 0x8F), tail, tail]
  else []

/-- The octets from the front of a list that fit the ranges, one each. -/
def fitting : List (UInt8 × UInt8) → List UInt8 → List UInt8
  | r :: rs, b :: bs => if r.1 ≤ b ∧ b ≤ r.2 then b :: fitting rs bs else []
  | _, _ => []

/-- The bits of a lead octet that count, given how many octets follow it. -/
def leadBits (lead : UInt8) (following : Nat) : Nat :=
  lead.toNat % Nat.pow 2 (6 - following)

/-- The character of a lead octet and the octets behind it. -/
def charOf (lead : UInt8) (tail : List UInt8) : Char :=
  Char.ofNat (tail.foldl (fun n b => n * 64 + b.toNat % 64) (leadBits lead tail.length))

/-- The text that octets spell, if `position` octets stand before them. -/
def decodeFrom (position : Nat) (octets : List UInt8) : Except Fault Text :=
  match octets with
  | [] => .ok []
  | lead :: rest =>
    if lead < 0x80 then (decodeFrom (position + 1) rest).map (Char.ofNat lead.toNat :: ·)
    else
      let wanted := ranges lead
      let tail := fitting wanted rest
      if wanted = [] then .error ⟨position, [lead], .lead⟩
      else if tail.length = wanted.length then
        (decodeFrom (position + 1 + tail.length) (rest.drop tail.length)).map
          (charOf lead tail :: ·)
      else if tail.length = rest.length then .error ⟨position, lead :: tail, .truncated⟩
      else .error ⟨position, lead :: tail, .continuation⟩
termination_by octets.length

/-- The text that octets spell. -/
def decode (octets : List UInt8) : Except Fault Text := decodeFrom 0 octets

/-- The octets of a text. -/
def encode (s : Text) : List UInt8 := s.flatMap String.utf8EncodeChar

example : decode [0x61, 0xE2, 0x82, 0xAC] = .ok ['a', '€'] := by cbv
example : decode [0x61, 0xE2, 0x82] = .error ⟨1, [0xE2, 0x82], .truncated⟩ := by cbv
example : decode [0xED, 0xA0, 0x80] = .error ⟨0, [0xED], .continuation⟩ := by cbv

end Utf8

end Mustache
