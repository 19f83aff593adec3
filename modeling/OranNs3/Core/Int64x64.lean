import OranNs3.Lib.Words

/-!
# Fixed-point numbers

`int64x64_t`, the Q64.64 numbers that all simulation times pass through, in its two builds: on
native 128-bit integers (`src/src/core/model/int64x64-128.cc`, `namespace Int128`) and on Cairo's
pairs of 64-bit words (`src/src/core/model/int64x64-cairo.cc`, `namespace Cairo`). A number is its
`_v`, a signed 128-bit integer that counts multiples of `2 ^ -64`. An assertion or an abort ends a
computation, as does a division by zero; sums, products and shifts remember whether they lost a bit,
where the source expects that they do not. Cairo's own operations (`cairo-wideint.c`) are taken as
those of 128-bit integers.
-/

namespace OranNs3.Core

open Words

/-- What ends a computation before its value. `outOfFuel` is a loop that makes more rounds than it
may. -/
inductive Fault
  | assertion (msg : String)
  | abort (msg : String)
  | divisionByZero
  | outOfFuel
deriving DecidableEq

abbrev Calc := Words.Calc Fault

/-- `DIGITS`, the number of fraction digits of a quotient. -/
def DIGITS : Nat := 64

/-! ## Native integers -/

namespace Int128

/-- The high bit. -/
def HP128_MASK_HI_BIT : BitVec 128 := 1 <<< 127

/-- The mask of the fraction part, a `uint64_t`. -/
def HP_MASK_LO : BitVec 128 := 0xffffffffffffffff

/-- `output_sign`: whether the result is negative, and the two magnitudes. -/
def outputSign (sa sb : BitVec 128) : Bool × BitVec 128 × BitVec 128 :=
  let negA := decide (sa.toInt < 0)
  let negB := decide (sb.toInt < 0)
  let ua := if negA then -sa else sa
  let ub := if negB then -sb else sb
  (negA != negB, ua, ub)

/-- `Umul`. The sum in the second assertion may wrap, which is what it tests. -/
def umul (a b : BitVec 128) : Calc (BitVec 128) := do
  let al := a &&& HP_MASK_LO
  let bl := b &&& HP_MASK_LO
  let ah := a >>> 64
  let bh := b >>> 64
  let low ← mul al bl
  let res := low >>> 64
  let ahbl ← mul ah bl
  let albh ← mul al bh
  let mid ← add ahbl albh
  let res ← add res mid
  let high ← mul ah bh
  check (high ≤ 1 <<< 63) (.assertion "overflow detected")
  let high ← shl high 64
  check (res ≤ res + high) (.assertion "overflow detected")
  add res high

def mul (v o : BitVec 128) : Calc (BitVec 128) := do
  let (negative, a, b) := outputSign v o
  let result ← umul a b
  if negative then
    check (result ≤ HP128_MASK_HI_BIT) (.assertion "overflow detected")
    pure (-result)
  else
    check (result < HP128_MASK_HI_BIT) (.assertion "overflow detected")
    pure result

/-- A quotient and its remainder. -/
def divrem (a b : BitVec 128) : Calc (BitVec 128 × BitVec 128) :=
  if b = 0 then throw .divisionByZero else pure (a / b, a % b)

/-- The loop of `Udiv` that skips trailing zeros in the divisor: the divisor and the shift. -/
def skipTrailingZeros (den : BitVec 128) (shift : Nat) : Calc (BitVec 128 × Nat) :=
  if shift < DIGITS ∧ den &&& 1 = 0 then do
    let den ← shr den 1
    skipTrailingZeros den (shift + 1)
  else pure (den, shift)
termination_by DIGITS - shift

/-- The loop of `Udiv` that skips leading zeros in the remainder: the remainder and the shift. -/
def skipLeadingZeros (digis : Nat) (rem : BitVec 128) (shift : Nat) : Calc (BitVec 128 × Nat) :=
  if digis + shift < DIGITS ∧ rem &&& HP128_MASK_HI_BIT = 0 then do
    let rem ← shl rem 1
    skipLeadingZeros digis rem (shift + 1)
  else pure (rem, shift)
termination_by DIGITS - (digis + shift)

/-- The loop of `Udiv` that casts off denominator bits: the divisor and the shift. -/
def castOff (digis : Nat) (rem den : BitVec 128) (shift : Nat) : Calc (BitVec 128 × Nat) :=
  if digis + shift < DIGITS ∧ (den &&& 1 = 0 ∨ rem < den) then do
    let den ← shr den 1
    castOff digis rem den (shift + 1)
  else pure (den, shift)
termination_by DIGITS - (digis + shift)

/-- The variables of `Udiv`. -/
structure DivState where
  rem : BitVec 128
  den : BitVec 128
  result : BitVec 128
  digis : Nat
  shift : Nat
deriving DecidableEq

/-- The body of the main loop of `Udiv`. -/
def udivRound (s : DivState) : Calc DivState := do
  let (rem, shift) ← skipLeadingZeros s.digis s.rem s.shift
  let (den, shift) ← castOff s.digis rem s.den shift
  let (quo, rem) ← divrem rem den
  let result ← shl s.result shift
  let result ← add result quo
  pure ⟨rem, den, result, s.digis + shift, 0⟩

/-- The main loop of `Udiv`, of which the condition is tested at most `fuel` times. -/
def udivLoop : Nat → DivState → Calc DivState
  | 0, _ => throw .outOfFuel
  | fuel + 1, s =>
    if s.digis < DIGITS ∧ s.rem ≠ 0 then do
      let s ← udivRound s
      udivLoop fuel s
    else pure s

def udiv (fuel : Nat) (a b : BitVec 128) : Calc (BitVec 128) := do
  let (quo, rem) ← divrem a b
  check (rem < b) (.assertion "Remainder not less than divisor")
  let (den, shift) ← skipTrailingZeros b 0
  let s ← udivLoop fuel ⟨rem, den, quo, 0, shift⟩
  if s.digis < DIGITS then shl s.result (DIGITS - s.digis) else pure s.result

/-- `Div`, where the negation of the least integer is itself. -/
def div (fuel : Nat) (v o : BitVec 128) : Calc (BitVec 128) := do
  let (negative, a, b) := outputSign v o
  let result ← udiv fuel a b
  pure (if negative then -result else result)

def umulByInvert (a b : BitVec 128) : Calc (BitVec 128) := do
  check (b ≤ HP128_MASK_HI_BIT) (.assertion "b <= HP128_MASK_HI_BIT")
  let al := a &&& HP_MASK_LO
  let bl := b &&& HP_MASK_LO
  let ah := a >>> 64
  let bh := b >>> 64
  let high ← Words.mul ah bh
  let ahbl ← Words.mul ah bl
  let albh ← Words.mul al bh
  let mid ← add ahbl albh
  add high (mid >>> 64)

def mulByInvert (v o : BitVec 128) : Calc (BitVec 128) := do
  let negResult := decide (v.toInt < 0)
  let result ← umulByInvert (if negResult then -v else v) o
  pure (if negResult then -result else result)

/-- The constructor from a 64-bit integer. -/
def ofInt64 (v : BitVec 64) : BitVec 128 := v.signExtend 128 <<< 64

/-- The constructor from an integer portion and a fractional one. -/
def ofHighLow (hi lo : BitVec 64) : BitVec 128 := hi.signExtend 128 <<< 64 ||| lo.setWidth 128

def getHigh (v : BitVec 128) : BitVec 64 := (v.sshiftRight 64).setWidth 64

def getInt (v : BitVec 128) : BitVec 64 :=
  let negative := decide (v.toInt < 0)
  let value := if negative then -v else v
  let retval := (value >>> 64).setWidth 64
  if negative then -retval else retval

def invert (fuel : Nat) (v : BitVec 64) : Calc (BitVec 128) := do
  check (1 < v) (.assertion "v > 1")
  let result ← udiv fuel (1 <<< 64) (v.setWidth 128)
  let tmp ← mulByInvert (ofHighLow v 0) result
  if getHigh tmp ≠ 1 then add result 1 else pure result

end Int128

/-! ## Pairs of words -/

namespace Cairo

/-- `cairo_uint128_t` and `cairo_int128_t`. -/
structure Uint128 where
  lo : BitVec 64
  hi : BitVec 64
deriving DecidableEq

namespace Uint128

/-- The integer of a pair. -/
def bits (a : Uint128) : BitVec 128 := a.hi ++ a.lo

/-- The pair of an integer. -/
def ofBits (v : BitVec 128) : Uint128 := ⟨v.setWidth 64, (v >>> 64).setWidth 64⟩

end Uint128

open Uint128

/-- `_cairo_uint64x64_128_mul`. -/
def uint64x64Mul (a b : BitVec 64) : Uint128 := ofBits (a.setWidth 128 * b.setWidth 128)

/-- `_cairo_uint64_to_uint128`. -/
def uint64ToUint128 (a : BitVec 64) : Uint128 := ⟨a, 0⟩

/-- `_cairo_uint128_add`. -/
def uint128Add (a b : Uint128) : Calc Uint128 := ofBits <$> add a.bits b.bits

/-- `_cairo_uint128_lsl` and `_cairo_int128_lsl`. -/
def uint128Lsl (a : Uint128) (n : Nat) : Calc Uint128 := ofBits <$> shl a.bits n

/-- `_cairo_uint128_rsl`. -/
def uint128Rsl (a : Uint128) (n : Nat) : Calc Uint128 := ofBits <$> shr a.bits n

/-- `_cairo_uint128_negate`. -/
def uint128Negate (a : Uint128) : Uint128 := ofBits (-a.bits)

/-- `_cairo_int128_negative`. -/
def int128Negative (a : Uint128) : Bool := decide (a.bits.toInt < 0)

/-- `_cairo_uint128_lt`. -/
def uint128Lt (a b : Uint128) : Prop := a.bits < b.bits
deriving Decidable

/-- `_cairo_uint128_divrem`, whose loop does not end where the divisor is zero. -/
def uint128Divrem (a b : Uint128) : Calc (Uint128 × Uint128) :=
  if b.bits = 0 then throw .divisionByZero else pure
    (ofBits (a.bits / b.bits), ofBits (a.bits % b.bits))

def HPCAIRO_MASK_HI_BIT : BitVec 64 := 1 <<< 63

/-- `output_sign`. -/
def outputSign (sa sb : Uint128) : Bool × Uint128 × Uint128 :=
  let negA := int128Negative sa
  let negB := int128Negative sb
  let ua := if negA then uint128Negate sa else sa
  let ub := if negB then uint128Negate sb else sb
  (negA && !negB || !negA && negB, ua, ub)

def umul (a b : Uint128) : Calc Uint128 := do
  let loPart := uint64x64Mul a.lo b.lo
  let midPart ← uint128Add (uint64x64Mul a.lo b.hi) (uint64x64Mul a.hi b.lo)
  let hiPart := uint64x64Mul a.hi b.hi
  check (hiPart.hi = 0)
    (.abort "High precision 128 bits multiplication error: multiplication overflow.")
  let result ← uint128Add (uint64ToUint128 loPart.hi) (uint64ToUint128 midPart.lo)
  let res1 ← uint128Add (uint64ToUint128 midPart.hi) (uint64ToUint128 hiPart.lo)
  let res1 ← uint128Lsl res1 64
  uint128Add result res1

def mul (v o : Uint128) : Calc Uint128 := do
  let (sign, a, b) := outputSign v o
  let result ← umul a b
  pure (if sign then uint128Negate result else result)

/-- The loop of `Udiv` that skips trailing zeros in the divisor. -/
def skipTrailingZeros (den : Uint128) (shift : Nat) : Calc (Uint128 × Nat) :=
  if shift < DIGITS ∧ den.lo &&& 1 = 0 then do
    let den ← uint128Rsl den 1
    skipTrailingZeros den (shift + 1)
  else pure (den, shift)
termination_by DIGITS - shift

/-- The loop of `Udiv` that skips leading zeros in the remainder. -/
def skipLeadingZeros (digis : Nat) (rem : Uint128) (shift : Nat) : Calc (Uint128 × Nat) :=
  if digis + shift < DIGITS ∧ rem.hi &&& HPCAIRO_MASK_HI_BIT = 0 then do
    let rem ← uint128Lsl rem 1
    skipLeadingZeros digis rem (shift + 1)
  else pure (rem, shift)
termination_by DIGITS - (digis + shift)

/-- The loop of `Udiv` that casts off denominator bits. -/
def castOff (digis : Nat) (rem den : Uint128) (shift : Nat) : Calc (Uint128 × Nat) :=
  if digis + shift < DIGITS ∧ (den.lo &&& 1 = 0 ∨ uint128Lt rem den) then do
    let den ← uint128Rsl den 1
    castOff digis rem den (shift + 1)
  else pure (den, shift)
termination_by DIGITS - (digis + shift)

/-- The variables of `Udiv`. -/
structure DivState where
  rem : Uint128
  den : Uint128
  result : Uint128
  digis : Nat
  shift : Nat
deriving DecidableEq

/-- The body of the main loop of `Udiv`. -/
def udivRound (s : DivState) : Calc DivState := do
  let (rem, shift) ← skipLeadingZeros s.digis s.rem s.shift
  let (den, shift) ← castOff s.digis rem s.den shift
  let (quo, rem) ← uint128Divrem rem den
  let result ← uint128Lsl s.result shift
  let result ← uint128Add result quo
  pure ⟨rem, den, result, s.digis + shift, 0⟩

/-- The main loop of `Udiv`, of which the condition is tested at most `fuel` times. -/
def udivLoop : Nat → DivState → Calc DivState
  | 0, _ => throw .outOfFuel
  | fuel + 1, s =>
    if s.digis < DIGITS ∧ s.rem ≠ ⟨0, 0⟩ then do
      let s ← udivRound s
      udivLoop fuel s
    else pure s

def udiv (fuel : Nat) (a b : Uint128) : Calc Uint128 := do
  let (quo, rem) ← uint128Divrem a b
  check (uint128Lt rem b) (.assertion "Remainder not less than divisor")
  let (den, shift) ← skipTrailingZeros b 0
  let s ← udivLoop fuel ⟨rem, den, quo, 0, shift⟩
  if s.digis < DIGITS then uint128Lsl s.result (DIGITS - s.digis) else pure s.result

def div (fuel : Nat) (v o : Uint128) : Calc Uint128 := do
  let (sign, a, b) := outputSign v o
  let result ← udiv fuel a b
  pure (if sign then uint128Negate result else result)

end Cairo

end OranNs3.Core
