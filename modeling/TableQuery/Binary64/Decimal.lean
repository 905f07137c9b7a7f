import TableQuery.Binary64.Basic

/-!
Decimals and binary64 numbers. A decimal is rounded once where it stands for a number by itself, and
step by step in data (`Binary64.scale`); writing takes the fewest digits that round to the number
and, of those decimals, the nearest.
-/

namespace TableQuery

/-- `digits` times ten to the `exponent`. -/
structure Decimal where
  digits : Nat
  exponent : Int
  deriving DecidableEq, Repr, Inhabited

/-- Which of two equally near decimals is written. -/
inductive Tie where
  | toEven
  | up
  deriving DecidableEq, Repr

def decimalDigits (n : Nat) : List Char := Nat.toDigits 10 n

/-- The binary64 number nearest to a decimal. A decimal of `10^310` or more is infinite and one
below `10^-330` is zero, so its power of ten is not computed. -/
def Binary64.ofDecimal (negative : Bool) (d : Decimal) : Binary64 :=
  let length : Int := (decimalDigits d.digits).length
  if d.digits = 0 then .finite ⟨negative, 0⟩
  else if 310 < length + d.exponent then .infinite negative
  else if length + d.exponent < -330 then .finite ⟨negative, 0⟩
  else round negative (d.digits * Nat.pow 10 d.exponent.toNat * unitsPerOne)
    (Nat.pow 10 (-d.exponent).toNat)

/-- The reals that round to a number, in quarters of a unit; the ends belong to it if `closed`. -/
structure Interval where
  low : Nat
  high : Nat
  closed : Bool
  deriving Repr

/-- Neighbours are `2^shift` units apart, below a power of two half as much where halves exist. -/
def Interval.ofUnits (units : Nat) : Interval :=
  let shift := Nat.log2 units - 52
  let gap := Nat.pow 2 shift
  let below := if units = Nat.pow 2 (52 + shift) ∧ shift ≠ 0 then gap else 2 * gap
  ⟨4 * units - below, 4 * units + 2 * gap, units / gap % 2 == 0⟩

/-- Whether `num / den` quarters lie in the interval. -/
def Interval.contains (i : Interval) (num den : Nat) : Bool :=
  if i.closed then i.low * den ≤ num && num ≤ i.high * den
  else i.low * den < num && num < i.high * den

/-- The neighbour of a number on the grid of multiples of `10^exponent` that lies in the interval;
of two, the nearer. -/
def Interval.onGrid? (i : Interval) (tie : Tie) (units : Nat) (exponent : Int) : Option Nat :=
  let step := Nat.pow 10 exponent.toNat * (4 * unitsPerOne)
  let scale := Nat.pow 10 (-exponent).toNat
  let value := 4 * units * scale
  let floor := value / step
  let below := i.contains (floor * step) scale
  let above := i.contains ((floor + 1) * step) scale
  let fromBelow := value - floor * step
  let toAbove := (floor + 1) * step - value
  if below && above then
    if fromBelow < toAbove then some floor
    else if toAbove < fromBelow then some (floor + 1)
    else match tie with
      | .toEven => some (if floor % 2 = 0 then floor else floor + 1)
      | .up => some (floor + 1)
  else if below then some floor
  else if above then some (floor + 1)
  else none

/-- Tries finer and finer grids; seventeen digits always suffice. -/
def Interval.shortest (i : Interval) (tie : Tie) (units : Nat) : Nat → Int → Decimal
  | 0, exponent =>
    ⟨units * Nat.pow 10 (-exponent).toNat / (Nat.pow 10 exponent.toNat * unitsPerOne), exponent⟩
  | finer + 1, exponent =>
    match i.onGrid? tie units exponent with
    | some digits => ⟨digits, exponent⟩
    | none => i.shortest tie units finer (exponent - 1)

/-- The exponent of the leading decimal digit of a positive number of units. -/
def leadingExponent (units : Nat) : Int :=
  (decimalDigits (units * Nat.pow 10 400 / unitsPerOne)).length - 401

/-- The decimal with the fewest digits that rounds to the given positive number of units. -/
def shortestDecimal (tie : Tie) (units : Nat) : Decimal :=
  (Interval.ofUnits units).shortest tie units 17 (leadingExponent units)

/-- The digits of a decimal without final zeros, and how many of them stand before the point. -/
def Decimal.layout (d : Decimal) : List Char × Int :=
  let digits := decimalDigits d.digits
  let shown := (digits.reverse.dropWhile (· == '0')).reverse
  (shown, digits.length + d.exponent)

/-- Positional digits with a point among, before or behind them. -/
def positional (digits : List Char) (point : Int) (whole : List Char) : List Char :=
  if point ≤ 0 then '0' :: '.' :: (List.replicate (-point).toNat '0' ++ digits)
  else if point < digits.length then digits.take point.toNat ++ '.' :: digits.drop point.toNat
  else digits ++ List.replicate (point.toNat - digits.length) '0' ++ whole

/-- Data text: positional from `0.00001` up to below `10^16`, with `.0` behind a whole number;
else one digit before the point and a signed exponent. -/
def Scaled.text (x : Scaled) : String :=
  let sign := if x.negative then ['-'] else []
  if x.units = 0 then String.ofList (sign ++ ['0', '.', '0'])
  else
    let (digits, point) := (shortestDecimal .toEven x.units).layout
    if -5 < point ∧ point ≤ 16 then String.ofList (sign ++ positional digits point ['.', '0'])
    else
      let mantissa := match digits with
        | [] => []
        | [d] => [d]
        | d :: rest => d :: '.' :: rest
      let exponent := point - 1
      let mark := if exponent < 0 then ['e', '-'] else ['e', '+']
      String.ofList (sign ++ mantissa ++ mark ++ decimalDigits exponent.natAbs)

/-- Text in a message: always positional, a whole number without a point. -/
def Scaled.plainText (x : Scaled) : String :=
  let sign := if x.negative then ['-'] else []
  if x.units = 0 then String.ofList (sign ++ ['0'])
  else
    let (digits, point) := (shortestDecimal .up x.units).layout
    String.ofList (sign ++ positional digits point [])

def Binary64.plainText : Binary64 → String
  | .nan => "NaN"
  | .infinite negative => if negative then "-inf" else "inf"
  | .finite x => x.plainText

/-- A number written with a sign, digits, a fraction and an exponent, the last two optional. -/
structure Numeral where
  negative : Bool
  whole : List Char
  fraction : List Char
  exponent : Int
  deriving Repr

def digitsValue (digits : List Char) : Nat :=
  digits.foldl (fun n c => 10 * n + (c.toNat - '0'.toNat)) 0

/-- The digits of the fraction move the point to the left. -/
def Numeral.toDecimal (n : Numeral) : Decimal :=
  ⟨digitsValue (n.whole ++ n.fraction), n.exponent - n.fraction.length⟩

def splitMinus : List Char → Bool × List Char
  | '-' :: rest => (true, rest)
  | cs => (false, cs)

/-- An exponent mark with a signed number behind it; nothing stands for zero. -/
def exponentValue? : List Char → Option Int
  | [] => some 0
  | mark :: rest =>
    if mark == 'e' || mark == 'E' then
      let (negative, digits) := match rest with
        | '+' :: ds => (false, ds)
        | _ => splitMinus rest
      if digits.isEmpty || !digits.all Char.isDigit then none
      else some (if negative then -(digitsValue digits : Int) else digitsValue digits)
    else none

/-- Reads a numeral; digits before the point are required, digits behind a point too. -/
def Numeral.ofChars? (cs : List Char) : Option Numeral :=
  let (negative, unsigned) := splitMinus cs
  let whole := unsigned.takeWhile Char.isDigit
  let (fraction, rest, ok) := match unsigned.dropWhile Char.isDigit with
    | '.' :: more =>
      let digits := more.takeWhile Char.isDigit
      (digits, more.dropWhile Char.isDigit, !digits.isEmpty)
    | other => ([], other, true)
  if whole.isEmpty || !ok then none
  else (exponentValue? rest).map fun e => ⟨negative, whole, fraction, e⟩

/-- The number that digits make behind `n`, while it has 64 bits, and the digits that are left. -/
def takeDigits (n : Nat) : List Char → Nat × List Char
  | [] => (n, [])
  | c :: rest =>
    let next := 10 * n + (c.toNat - '0'.toNat)
    if next < Nat.pow 2 64 then takeDigits next rest else (n, c :: rest)

/-- The digits that fit in 64 bits. Those of the whole part that do not fit move the point, and the
fraction is read on behind those that do; what does not fit of it is dropped. -/
def Numeral.significand (n : Numeral) : Decimal :=
  let (whole, moved) := takeDigits 0 n.whole
  let (digits, dropped) := takeDigits whole n.fraction
  ⟨digits, n.exponent + moved.length - (n.fraction.length - dropped.length : Nat)⟩

namespace Binary64

def powerOfTen (k : Nat) : Binary64 := ofDecimal false ⟨1, k⟩

/-- Divides by `10^308` so many times, or until nothing is left. -/
def divideDown : Nat → Binary64 → Binary64
  | 0, x => x
  | k + 1, x => if x = .finite ⟨false, 0⟩ then x else divideDown k (x.div (powerOfTen 308))

/-- A decimal that is rounded more than once: its digits first, then what each power of ten makes of
them. A larger power than the 308th divides in steps. -/
def scale (d : Decimal) : Binary64 :=
  let x := round false (d.digits * unitsPerOne) 1
  if d.digits = 0 then x
  else if 0 ≤ d.exponent then x.mul (powerOfTen d.exponent.toNat)
  else
    let places := (-d.exponent).toNat
    let steps := (places - 1) / 308
    (divideDown steps x).div (powerOfTen (places - 308 * steps))

end Binary64

def Binary64.read? (text : String) : Option Binary64 :=
  match text with
  | "NaN" => some .nan
  | "inf" => some (.infinite false)
  | "-inf" => some (.infinite true)
  | _ => (Numeral.ofChars? text.toList).map fun n => ofDecimal n.negative n.toDecimal

end TableQuery
