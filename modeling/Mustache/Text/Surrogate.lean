import Mustache.Text.Quoted
import Mustache.Text.Utf8

/-!
# Lone surrogates

A surrogate is a code point and no character.  Octets never spell one, but an escape in JSON text may
spell one that stands alone.  From there it goes through a template as any other code point does, and
only where it is to be written does it matter: it has no octets.

A text is a list of characters, so something has to stand in for a lone surrogate: an ideograph that
occurs nowhere else in what is read (`StandIns.apart`).  An ideograph means nothing to a template, to
JSON or to a setting, and that goes for a surrogate too, so it does not matter which one is taken.
There are enough of them unless all but two thousand of some forty thousand occur.
-/

namespace Mustache

/-- Does the character belong to the block of ideographs that stand-ins are taken from? -/
def isIdeograph (c : Char) : Bool := 0x20000 ≤ c.toNat && c.toNat < 0x2A6E0

/-- The ideographs of the block, in order. -/
def ideographs : List Char := (List.range' 0x20000 0xA6E0).map Char.ofNat

/-- The code units that are surrogates. -/
def isSurrogate (unit : Nat) : Bool := 0xD800 ≤ unit && unit < 0xE000

/-- The characters that stand in for lone surrogates, in the order of these. -/
structure StandIns where
  chars : List Char
  ideographic : ∀ c ∈ chars, isIdeograph c = true
  nodup : chars.Nodup

namespace StandIns

/-- No stand-ins at all. -/
def none : StandIns := ⟨[], by simp, List.nodup_nil⟩

theorem toNat_ofNat_ideograph {n : Nat} (h : n ∈ List.range' 0x20000 0xA6E0) :
    (Char.ofNat n).toNat = n := by
  have hvalid : n.isValidChar := by
    rw [List.mem_range'_1] at h
    exact .inr ⟨by omega, by omega⟩
  rw [Char.ofNat, dif_pos hvalid]
  rfl

theorem isIdeograph_of_mem_ideographs {c : Char} (h : c ∈ ideographs) : isIdeograph c = true := by
  obtain ⟨n, hn, rfl⟩ := List.mem_map.1 h
  rw [isIdeograph, toNat_ofNat_ideograph hn]
  rw [List.mem_range'_1] at hn
  simpa using hn

theorem nodup_ideographs : ideographs.Nodup := by
  refine List.pairwise_map.2 (List.Pairwise.imp_of_mem (fun hm hn hne h => hne ?_)
    List.nodup_range')
  rw [← toNat_ofNat_ideograph hm, h, toNat_ofNat_ideograph hn]

/-- The stand-ins that occur nowhere in a text. -/
def apart (used : Text) : StandIns :=
  let taken := used.filter isIdeograph
  let free := ideographs.filter fun c => !taken.contains c
  { chars := free.take 0x800
    ideographic := fun _ hc =>
      isIdeograph_of_mem_ideographs (List.mem_filter.1 (List.mem_of_mem_take hc)).1
    nodup := (nodup_ideographs.filter _).take }

variable (standIns : StandIns)

/-- What stands in for a lone surrogate, if there is something left to do so. -/
def char (unit : Nat) : Char := standIns.chars[unit - 0xD800]?.getD '\ufffd'

/-- Does the character stand in for a lone surrogate? -/
def stands (c : Char) : Bool := isIdeograph c && standIns.chars.contains c

/-- The lone surrogate that a character stands in for. -/
def unit (c : Char) : Nat := 0xD800 + standIns.chars.idxOf c

/-- There is no lone surrogate in the text. -/
def Free (s : Text) : Prop := ∀ c ∈ s, standIns.stands c = false

instance (s : Text) : Decidable (standIns.Free s) := List.decidableBAll _ s

/-- The text with its lone surrogates written as escapes. -/
def spell (s : Text) : Text :=
  s.flatMap fun c =>
    if standIns.stands c then '\\' :: 'u' :: Text.hex 4 (standIns.unit c) else [c]

/-- Lone surrogates in a row, and how many characters stand before them. -/
structure Fault where
  position : Nat
  surrogates : Text
  deriving DecidableEq

/-- The octets of a text, or the first lone surrogates in it. -/
def encode (s : Text) : Except Fault (List UInt8) :=
  match s.dropWhile (!standIns.stands ·) with
  | [] => .ok (Utf8.encode s)
  | back => .error ⟨s.length - back.length, back.takeWhile standIns.stands⟩

end StandIns

end Mustache
