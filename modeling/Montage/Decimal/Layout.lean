import Montage.Decimal.Shortest

/-!
# Laying out a number as text

The same digits are written in three ways: plainly in messages and command lines, with a point and a
bounded length in diagnostics, and as a number of a JSON document. A layout record says where each
writes an exponent and whether a whole number keeps its point.
-/

namespace Montage

namespace Decimal

/-- Choices in writing `0.d₁d₂… · 10 ^ point`. -/
structure Layout where
  /-- Positional for a leading digit from this power of ten on. -/
  lowest : Option Int
  /-- Positional for a leading digit up to this power of ten. -/
  highest : Option Int
  /-- A whole number ends in a point and a zero. -/
  keepPoint : Bool
  /-- A positive exponent has a sign. -/
  signExponent : Bool
  tie : Tie

/-- Positional throughout, without a point in whole numbers. -/
def Layout.plain : Layout := ⟨none, none, false, false, .up⟩

/-- Positional from `0.0001` up to below `10 ^ 16`. -/
def Layout.diagnostic : Layout := ⟨some (-4), some 15, true, false, .up⟩

/-- Positional from `0.00001` up to below `10 ^ 16`. -/
def Layout.json : Layout := ⟨some (-5), some 15, true, true, .even⟩

def digitsOf (n : Nat) : List Char := Nat.toDigits 10 n

/-- Text of `c · 10 ^ e` for digits `ds` of `c`. -/
def Layout.positional (l : Layout) (ds : List Char) (e : Int) : List Char :=
  if 0 ≤ e then
    ds ++ List.replicate e.toNat '0' ++ (if l.keepPoint then ['.', '0'] else [])
  else
    let behind := (-e).toNat
    if behind < ds.length then
      ds.take (ds.length - behind) ++ '.' :: ds.drop (ds.length - behind)
    else '0' :: '.' :: List.replicate (behind - ds.length) '0' ++ ds

def Layout.scientific (l : Layout) (ds : List Char) (power : Int) : List Char :=
  let mantissa := match ds with
    | [] => []
    | [d] => [d]
    | d :: rest => d :: '.' :: rest
  let sign := if power < 0 then ['-'] else if l.signExponent then ['+'] else []
  mantissa ++ 'e' :: sign ++ digitsOf power.natAbs

/-- Text of the positive number `c · 10 ^ e`. -/
def Layout.write (l : Layout) (c : Nat) (e : Int) : List Char :=
  let ds := digitsOf c
  let power := e + ds.length - 1
  if l.lowest.all (· ≤ power) && l.highest.all (power ≤ ·) then l.positional ds e
  else l.scientific ds power

def Layout.zero (l : Layout) : List Char := if l.keepPoint then ['0', '.', '0'] else ['0']

/-- `n` with its last `places` digits behind a point. -/
def fixedPoint (places n : Nat) : List Char :=
  if places = 0 then digitsOf n
  else
    let ds := digitsOf n
    let ds := List.replicate (places + 1 - ds.length) '0' ++ ds
    ds.take (ds.length - places) ++ '.' :: ds.drop (ds.length - places)

end Decimal

/-- A natural number with at least `width` digits, zeros in front. -/
def padded (width n : Nat) : String :=
  let ds := Decimal.digitsOf n
  String.ofList (List.replicate (width - ds.length) '0' ++ ds)

end Montage
