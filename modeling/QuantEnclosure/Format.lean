import QuantEnclosure.Bound

/-!
Fixed-point formats.  A format of `bits` bits and `scaling` fractional bits represents the numbers
`k · 2^-scaling` for the integers `k` of its range.  Widths and scalings are 32-bit words and any
word can be written down; a valid format has 1 to 52 bits and a scaling from -64 to 64.
-/

namespace QuantEnclosure

open Scalar

/-- The range of integers that a format spends its bits on. -/
inductive Strategy where
  /-- `0` to `2^bits - 1`. -/
  | positiveOnly
  /-- `-2^(bits-1)` to `2^(bits-1) - 1`. -/
  | symmetric
  deriving DecidableEq, Repr

def Strategy.name : Strategy → String
  | .positiveOnly => "positive_only"
  | .symmetric => "symmetric"

structure Format where
  strategy : Strategy
  bits : UInt32
  scaling : Int32
  deriving DecidableEq, Repr

namespace Format

/-! ## Validity -/

/-- Integers of up to this many bits are exact in binary64. -/
def maxBits : Nat := 52

def maxScaling : Nat := 64

inductive Fault where
  | zeroWidth
  | tooWide (bits : Nat)
  | scalingOutside (scaling : Int)
  deriving DecidableEq, Repr

def Fault.text : Fault → String
  | .zeroWidth => "bit width must be at least 1"
  | .tooWide bits => s!"bit width {bits} exceeds the maximum of {maxBits}"
  | .scalingOutside scaling => s!"scaling {scaling} is outside [-{maxScaling}, {maxScaling}]"

/-- The negative of a scaling, which must be a 32-bit word again. -/
def negated (s : Int32) : Outcome Int :=
  if s = Int32.minValue then violate .wordRange else .ok (-s.toInt)

/-- The first fault of a format: its width is looked at before its scaling. -/
def fault? (f : Format) : Outcome (Option Fault) :=
  if f.bits = 0 then .ok (some .zeroWidth)
  else if maxBits < f.bits.toNat then .ok (some (.tooWide f.bits.toNat))
  else do
    let magnitude ← if f.scaling < 0 then negated f.scaling else .ok f.scaling.toInt
    .ok (if (maxScaling : Int) < magnitude then some (.scalingOutside f.scaling.toInt) else none)

/-- Refuses a format with a fault; `label` names the format in the message. -/
def validateAs (label : String) (f : Format) : Outcome Unit := do
  match ← f.fault? with
  | none => .ok ()
  | some fault => refuse (.invalidConfig (label ++ fault.text))

def validate (f : Format) : Outcome Unit := f.validateAs ""

def ofParts (strategy : Strategy) (bits : UInt32) (scaling : Int32) : Outcome Format := do
  let f : Format := ⟨strategy, bits, scaling⟩
  f.validate
  .ok f

/-! ## Represented numbers -/

variable {α : Type} [Scalar α]

def signedBits (f : Format) : Int32 := f.bits.toInt32

def intRange (f : Format) : Outcome (α × α) :=
  match f.strategy with
  | .positiveOnly => .ok (0, twoPow f.signedBits.toInt - 1)
  | .symmetric =>
    if f.signedBits = Int32.minValue then violate .wordRange
    else
      let h : α := twoPow (f.signedBits.toInt - 1)
      .ok (-h, h - 1)

/-- The factor `2^scaling` that takes represented numbers to integers. -/
def scaleFactor (f : Format) : α := twoPow f.scaling.toInt

/-- The distance `2^-scaling` of neighbouring represented numbers. -/
def step (f : Format) : Outcome α := do
  let s ← negated f.scaling
  .ok (twoPow s)

def representable (f : Format) : Outcome (Bound α) := do
  let (lo, hi) ← f.intRange
  let s ← f.step
  Bound.between (lo * s) (hi * s)

/-! ## Rounding to the format -/

/-- The function that takes a number to the grid and then into the range of the format. -/
def quantizer (f : Format) : Outcome (α → α) := do
  let (lo, hi) ← f.intRange
  if lo ≤ hi then
    let s ← f.step
    .ok fun x => nearestIn lo hi (round (x * f.scaleFactor)) * s
  else violate .orderedLimits

def quantize (f : Format) (x : α) : Outcome α := do
  let q ← f.quantizer
  .ok (q x)

def quantizeVec (f : Format) (xs : List α) : Outcome (List α) := xs.mapM f.quantize

/-- An interval for the error `quantize x - x` over `x ∈ b`: half a step, and beyond the range the
distance to it. -/
def errorRange (f : Format) (b : Bound α) : Outcome (Bound α) := do
  let s ← f.step
  let rep ← f.representable
  Bound.between (-(half * s) + lesser (rep.upper - b.upper) 0)
    (half * s + greater (rep.lower - b.lower) 0)

def quantizeBox (f : Format) (bounds : List (Bound α)) : Outcome (List (Bound α)) :=
  bounds.mapM fun b => do
    let l ← f.quantize b.lower
    let u ← f.quantize b.upper
    Bound.between l u

end Format

end QuantEnclosure
