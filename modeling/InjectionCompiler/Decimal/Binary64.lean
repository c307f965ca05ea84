/-!
# Numbers of 64 bits

The numbers `m · 2 ^ e` with fewer than 54 bits in `m` and `e` at least -1074, as far as they lie
below 2 ^ 1024.  Every other ratio is rounded to the nearest of them, and a tie goes to an even
mantissa.  Signs are left to whoever uses the numbers.
-/

namespace InjectionCompiler.Decimal

structure Binary64 where
  mantissa : Nat
  exponent : Int
  deriving DecidableEq, Repr

namespace Binary64

def zero : Binary64 := ⟨0, 0⟩

/-- `num / den` as the nearest whole number, a tie going to the even one. -/
def roundHalfEven (num den : Nat) : Nat :=
  let whole := num / den
  let twice := 2 * (num % den)
  if twice < den then whole
  else if twice > den then whole + 1
  else whole + whole % 2

/-- The largest `k` with `2 ^ k ≤ num / den`. -/
def binaryOrder (num den : Nat) : Int :=
  let guess := (num.log2 : Int) - den.log2
  let fits :=
    if 0 ≤ guess then den * Nat.pow 2 guess.toNat ≤ num
    else den ≤ num * Nat.pow 2 (-guess).toNat
  if fits then guess else guess - 1

/-- The ratio of two numbers, scaled by a power of two. -/
def scaled (num den : Nat) (shift : Int) : Nat × Nat :=
  if 0 ≤ shift then (num * Nat.pow 2 shift.toNat, den) else (num, den * Nat.pow 2 (-shift).toNat)

/-- The number nearest to `num / den`, and nothing when that is too large. -/
def nearest (num den : Nat) : Option Binary64 :=
  if num = 0 then some zero
  else
    let exponent := max (-1074) (binaryOrder num den - 52)
    let (num, den) := scaled num den (-exponent)
    let mantissa := roundHalfEven num den
    if binaryOrder mantissa 1 + exponent < 1024 then some ⟨mantissa, exponent⟩ else none

def ratio (x : Binary64) : Nat × Nat :=
  scaled x.mantissa 1 x.exponent

def times (x y : Binary64) : Option Binary64 :=
  nearest (x.ratio.1 * y.ratio.1) (x.ratio.2 * y.ratio.2)

def dividedBy (x y : Binary64) : Option Binary64 :=
  nearest (x.ratio.1 * y.ratio.2) (x.ratio.2 * y.ratio.1)

end Binary64

end InjectionCompiler.Decimal
