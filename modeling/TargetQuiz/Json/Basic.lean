import TargetQuiz.Binary64.Shortest
import TargetQuiz.Text.Numeral
import TargetQuiz.Word

/-! JSON values and numbers. A number keeps its digits, since their meaning depends on the reader. A
binary number is not always read as the nearest one: the digits that fit a word are an integer, the
others count as places, and the result is scaled by a rounded power of ten. -/
namespace TargetQuiz

structure JsonNumber where
  negative : Bool
  whole : List Char
  fraction : Option (List Char)
  /-- Whether the exponent has a minus sign, and its digits. -/
  exponent : Option (Bool × List Char)
  deriving DecidableEq, Repr

inductive Json where
  | null
  | bool (b : Bool)
  | number (n : JsonNumber)
  | string (s : String)
  | array (items : List Json)
  | object (fields : List (String × Json))
  /-- Well-formed text that denotes no value, because a code for half a character stands alone in
  it. It may be passed over, but not be used. -/
  | unreadable
  deriving Repr

namespace JsonNumber

/-- The integer that a number denotes, if it is written as one. -/
def int? (n : JsonNumber) : Option Int :=
  if n.fraction.isSome || n.exponent.isSome then none
  else
    let value := Numeral.value n.whole
    if n.negative then (if value = 0 then none else some (-(value : Int))) else some value

def int64? (n : JsonNumber) : Option Int64 := n.int?.bind Word.int64?

def uint64? (n : JsonNumber) : Option UInt64 :=
  n.int?.bind fun z => if z < 0 then none else Word.uint64? z.toNat

def uint8? (n : JsonNumber) : Option UInt8 :=
  n.int?.bind fun z => if z < 0 then none else Word.uint8? z.toNat

def ofInt (z : Int) : JsonNumber := ⟨decide (z < 0), Numeral.ofNat z.natAbs, none, none⟩

/-- Take digits into a significand while it fits 64 bits; the digits that are left. -/
def takeDigits (significand : Nat) : List Char → Nat × List Char
  | [] => (significand, [])
  | c :: cs =>
    let longer := 10 * significand + (c.toNat - '0'.toNat)
    if longer < UInt64.size then takeDigits longer cs else (significand, c :: cs)

/-- The significand of a number and the place of its last digit, before its exponent counts. -/
def significand (n : JsonNumber) : Nat × Int :=
  let (whole, dropped) := takeDigits 0 n.whole
  let fraction := n.fraction.getD []
  let (all, unread) := takeDigits whole fraction
  (all, (dropped.length : Int) - (fraction.length - unread.length : Nat))

def maxTenPow : Nat := 308

def tenPowMagnitude (e : Nat) : Nat := Binary64.nearest (Nat.pow 10 e) 1

/-- Divide a magnitude by `10 ^ e`, at most `10 ^ 308` at a time. -/
def scaleDown (magnitude : Nat) (e : Nat) : Nat :=
  if e ≤ maxTenPow then Binary64.nearestQuotient magnitude (tenPowMagnitude e)
  else if magnitude = 0 then 0
  else scaleDown (Binary64.nearestQuotient magnitude (tenPowMagnitude maxTenPow)) (e - maxTenPow)
termination_by e
decreasing_by
  have : maxTenPow = 308 := rfl
  omega

def scale? (magnitude : Nat) (e : Int) : Option Nat :=
  if e < 0 then some (scaleDown magnitude (-e).toNat)
  else if maxTenPow < e.toNat then (if magnitude = 0 then some 0 else none)
  else
    let product := Binary64.nearestProduct magnitude (tenPowMagnitude e.toNat)
    if product < Binary64.infinity then some product else none

def maxExponent : Nat := 2147483647

def placeSum (place exponent : Int) : Int :=
  max (-2147483648) (min 2147483647 (place + exponent))

def magnitude? (n : JsonNumber) : Option Nat :=
  let (significand, place) := n.significand
  let base := Binary64.nearest significand 1
  match n.exponent with
  | none => if n.fraction.isNone && place == 0 then some base else scale? base place
  | some (negative, digits) =>
    let e := Numeral.value digits
    -- an exponent that fits no word is not weighed against the digits
    if maxExponent < e then (if negative || significand == 0 then some 0 else none)
    else scale? base (placeSum place (if negative then -(e : Int) else e))

def binary64? (n : JsonNumber) : Option Binary64 :=
  n.magnitude?.map (Binary64.ofMagnitude n.negative)

def positionalDigits : Int := 16

def positionalZeros : Int := 4

def exponentDigits : Nat := 2

/-- Lay out a decimal. The point stands `places` digits from the left; numbers that are neither
too large nor too small have no exponent, and a number without exponent always has a point. -/
def layOut (negative : Bool) (digits : List Char) (exponent : Int) : JsonNumber :=
  let places := (digits.length : Int) + exponent
  if 0 ≤ exponent ∧ places ≤ positionalDigits then
    ⟨negative, digits ++ List.replicate exponent.toNat '0', some ['0'], none⟩
  else if 0 < places ∧ places ≤ positionalDigits then
    ⟨negative, digits.take places.toNat, some (digits.drop places.toNat), none⟩
  else if -positionalZeros ≤ places ∧ places ≤ 0 then
    ⟨negative, ['0'], some (List.replicate (-places).toNat '0' ++ digits), none⟩
  else
    let more := digits.drop 1
    ⟨negative, digits.take 1, if more.isEmpty then none else some more,
      some (decide (places - 1 < 0), Numeral.padded exponentDigits (places - 1).natAbs)⟩

def ofBinary64 (x : Binary64) : JsonNumber :=
  let decimal := Binary64.shortest x.magnitude
  layOut x.isNegative (Numeral.ofNat decimal.digits) decimal.exponent

def text (n : JsonNumber) : List Char :=
  (if n.negative then ['-'] else []) ++ n.whole ++
    (match n.fraction with
      | some digits => '.' :: digits
      | none => []) ++
    (match n.exponent with
      | some (negative, digits) => 'e' :: (if negative then '-' else '+') :: digits
      | none => [])

end JsonNumber
end TargetQuiz
