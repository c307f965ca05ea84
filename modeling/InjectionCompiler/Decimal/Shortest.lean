import InjectionCompiler.Decimal.Binary64

/-!
# Shortest decimals

A number of 64 bits is written with the fewest digits that read back as the same number, and among
those with the digits nearest to its value.
-/

namespace InjectionCompiler.Decimal

/-- `digits · 10 ^ exponent`. -/
structure Numeral where
  digits : Nat
  exponent : Int
  deriving DecidableEq, Repr

def Numeral.ratio (x : Numeral) : Nat × Nat :=
  if 0 ≤ x.exponent then (x.digits * Nat.pow 10 x.exponent.toNat, 1)
  else (x.digits, Nat.pow 10 (-x.exponent).toNat)

def readsAs (x : Numeral) (y : Binary64) : Bool :=
  match Binary64.nearest x.ratio.1 x.ratio.2 with
  | some read => read.ratio.1 * y.ratio.2 = y.ratio.1 * read.ratio.2
  | none => false

/-- The largest `k` with `10 ^ k ≤ num / den`, found from a first guess above it. -/
def decimalOrder (num den : Nat) : Nat → Int → Int
  | 0, order => order
  | steps + 1, order =>
      let fits :=
        if 0 ≤ order then den * Nat.pow 10 order.toNat ≤ num
        else den ≤ num * Nat.pow 10 (-order).toNat
      if fits then order else decimalOrder num den steps (order - 1)

/-- The decimals with a given unit next to `num / den`, the nearer one first. -/
def neighbours (num den : Nat) (unit : Int) : List Numeral :=
  let (num, den) :=
    if 0 ≤ unit then (num, den * Nat.pow 10 unit.toNat)
    else (num * Nat.pow 10 (-unit).toNat, den)
  let below := num / den
  let nearer := Binary64.roundHalfEven num den
  let other := if nearer = below then below + 1 else below
  [⟨nearer, unit⟩, ⟨other, unit⟩]

/-- The first decimal that reads back, over units that get finer and finer. -/
def shortestFrom (y : Binary64) : Nat → Int → Numeral
  | 0, unit => ⟨(neighbours y.ratio.1 y.ratio.2 unit).head?.elim 0 Numeral.digits, unit⟩
  | steps + 1, unit =>
      match (neighbours y.ratio.1 y.ratio.2 unit).find? (readsAs · y) with
      | some found => found
      | none => shortestFrom y steps (unit - 1)

/-- Moves zeros at the end of the digits into the exponent. -/
def stripZeros : Nat → Numeral → Numeral
  | 0, x => x
  | steps + 1, x =>
      if x.digits ≠ 0 ∧ x.digits % 10 = 0 then stripZeros steps ⟨x.digits / 10, x.exponent + 1⟩
      else x

/-- The shortest decimal of a positive number.  Seventeen digits always suffice. -/
def shortest (y : Binary64) : Numeral :=
  let order := decimalOrder y.ratio.1 y.ratio.2 700 309
  stripZeros 20 (shortestFrom y 17 order)

/-! ## Spelling -/

/-- How the point and the exponent are written: plain notation is used while the point stands at
most `plainUpTo` digits to the right of the first digit, or fewer than `plainDownTo` zeros before
it.  A positive exponent has a sign where `signed` says so. -/
structure Spelling where
  plainUpTo : Int
  plainDownTo : Int
  signed : Bool

def zeros (count : Int) : String :=
  String.ofList (List.replicate count.toNat '0')

def spell (spelling : Spelling) (x : Numeral) : String :=
  let digits := toString x.digits
  let point := (digits.length : Int) + x.exponent
  if 0 ≤ x.exponent ∧ point ≤ spelling.plainUpTo then digits ++ zeros x.exponent ++ ".0"
  else if 0 < point ∧ point ≤ spelling.plainUpTo then
    String.ofList (digits.toList.take point.toNat) ++ "." ++
      String.ofList (digits.toList.drop point.toNat)
  else if point ≤ 0 ∧ -spelling.plainDownTo < point then "0." ++ zeros (-point) ++ digits
  else
    let fraction := String.ofList (digits.toList.drop 1)
    String.ofList (digits.toList.take 1) ++ (if fraction.isEmpty then "" else "." ++ fraction) ++
      "e" ++ (if spelling.signed && 0 < point then "+" else "") ++ toString (point - 1)

end InjectionCompiler.Decimal
