namespace Arbor.Decimal

inductive Exact where
  | undefined
  | infinite (negative : Bool)
  /-- The magnitude is `significand * 2 ^ exponent`. -/
  | finite (negative : Bool) (significand : Nat) (exponent : Int)
  deriving DecidableEq, Repr

def Exact.ofBits (bits : UInt64) : Exact :=
  let word := bits.toNat
  let negative := decide (Nat.pow 2 63 ≤ word)
  let exponent : Nat := word / Nat.pow 2 52 % Nat.pow 2 11
  let fraction : Nat := word % Nat.pow 2 52
  if exponent = 2047 then
    if fraction = 0 then .infinite negative else .undefined
  else if exponent = 0 then .finite negative fraction (-1074)
  else .finite negative (Nat.pow 2 52 + fraction) ((exponent : Int) - 1075)

def Exact.ofFloat (x : Float) : Exact := .ofBits x.toBits

structure Fraction where
  num : Nat
  den : Nat
  deriving DecidableEq, Repr

def Fraction.scaled (n b : Nat) (e : Int) : Fraction :=
  if 0 ≤ e then ⟨n * Nat.pow b e.toNat, 1⟩ else ⟨n, Nat.pow b (-e).toNat⟩

def Fraction.le (p q : Fraction) : Bool := p.num * q.den ≤ q.num * p.den

def digitCount (n : Nat) : Nat := (Nat.toDigits 10 n).length

def Fraction.leading (p : Fraction) : Int :=
  if p.den ≤ p.num then (digitCount (p.num / p.den) : Int) - 1
  else
    let places := digitCount (p.den / p.num)
    if p.den ≤ p.num * Nat.pow 10 (places - 1) then -((places : Int) - 1) else -(places : Int)

structure Scientific where
  digits : Nat
  exponent : Int
  deriving DecidableEq, Repr

def Scientific.fraction (d : Scientific) : Fraction := .scaled d.digits 10 d.exponent

def Scientific.stripped : Nat → Scientific → Scientific
  | 0, d => d
  | fuel + 1, d =>
      if d.digits ≠ 0 ∧ d.digits % 10 = 0 then stripped fuel ⟨d.digits / 10, d.exponent + 1⟩ else d

def Scientific.reduced (d : Scientific) : Scientific := d.stripped (digitCount d.digits)

def Scientific.text (d : Scientific) : List Char := Nat.toDigits 10 d.digits

def Scientific.leading (d : Scientific) : Int := d.exponent + (digitCount d.digits : Int) - 1

end Arbor.Decimal
