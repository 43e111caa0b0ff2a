import QuantEnclosure.Relaxation

/-!
Relaxations of the staircase that rounds a number and clamps it to `[0, ceiling]`.  A closed form
covers the integers of an interval; `roundClampRelaxation` widens it to all numbers of the
interval by the exact range of the deviation between the staircase and the line.
-/

namespace QuantEnclosure

open Scalar

variable {α : Type} [Scalar α]

/-- The staircase: the nearest integer, kept in `[0, ceiling]`. -/
def roundClamp (ceiling x : α) : Outcome α := clamp 0 ceiling (round x)

/-- The place of an interval relative to `0` and the ceiling. -/
inductive RoundClampCase where
  | zero
  | saturated
  | interior
  | spansBoth
  | spansLower
  | spansUpper
  deriving DecidableEq, Repr

namespace RoundClampCase

def all : List RoundClampCase := [zero, saturated, interior, spansBoth, spansLower, spansUpper]

def index : RoundClampCase → Nat
  | zero => 0
  | saturated => 1
  | interior => 2
  | spansBoth => 3
  | spansLower => 4
  | spansUpper => 5

def name : RoundClampCase → String
  | zero => "Zero"
  | saturated => "Saturated"
  | interior => "Interior"
  | spansBoth => "SpansBoth"
  | spansLower => "SpansLower"
  | spansUpper => "SpansUpper"

end RoundClampCase

/-! ## The closed form -/

/-- The slope over an interval that reaches below zero and above the ceiling: the line through
the first rise or the line through the last, whichever is steeper. -/
def spanningSlope (l u ceiling : α) : α :=
  let d := ceiling - l
  if (d ≤ u ∧ half ≤ d) ∨ (u ≤ d ∧ -half ≤ l) then ceiling / (u - half)
  else ceiling / (ceiling - l - half)

/-- A relaxation of the staircase over the integers of an interval. -/
def roundClampFormula (b : Bound α) (ceiling : α) : Relaxation α × RoundClampCase :=
  let l := b.lower
  let u := b.upper
  if u ≤ 0 then (.constant 0, .zero)
  else if ceiling ≤ l then (.constant ceiling, .saturated)
  else if 0 ≤ l ∧ u ≤ ceiling then (⟨1, 0, half⟩, .interior)
  else if l ≤ 0 ∧ ceiling ≤ u then
    let a := spanningSlope l u ceiling
    (.ofIntercepts a (greater (-a * l) (ceiling - a * (ceiling - half)))
      (lesser (-half * a) (ceiling - a * u)), .spansBoth)
  else if l ≤ 0 then
    let top := round u
    if top == 0 then (.constant 0, .spansLower)
    else
      let a := top / (top - l - half)
      (.ofIntercepts a (-a * l) (-half * a), .spansLower)
  else
    let bottom := round l
    if bottom == ceiling then (.constant ceiling, .spansUpper)
    else
      let a := (ceiling - bottom) / (u - bottom - half)
      (.ofIntercepts a (ceiling - a * (ceiling - half)) (ceiling - a * u), .spansUpper)

/-! ## The deviation of the staircase from a line -/

/-- The distance of the point `(x, y)` above the line `slope · x`. -/
def deviation (slope x y : α) : α := y - slope * x

/-- Both sides of the rise from `k` to `k + 1`, if it lies inside the interval. -/
def insertRise (b : Bound α) (slope : α) (range : Bound α) (k : α) : Bound α :=
  let jump := k + half
  if b.lower < jump ∧ jump ≤ b.upper then
    (range.insert (deviation slope jump k)).insert (deviation slope jump (k + 1))
  else range

/-- The range of `roundClamp x - slope · x` over an interval.  Between two rises the deviation is
linear, and from rise to rise its extremes move linearly, so the ends of the interval and the
first and the last rise suffice. -/
def staircaseDeviation (b : Bound α) (ceiling slope : α) : Outcome (Bound α) := do
  let yl ← roundClamp ceiling b.lower
  let yu ← roundClamp ceiling b.upper
  let ends := (Bound.point (deviation slope b.lower yl)).insert (deviation slope b.upper yu)
  let first := greater (floor (b.lower - half) + 1) 0
  let last := lesser (floor (b.upper - half)) (ceiling - 1)
  .ok (if first ≤ last then insertRise b slope (insertRise b slope ends first) last else ends)

/-- A relaxation of the staircase over all numbers of an interval: the closed form, widened to
the range of the deviation where that sticks out. -/
def roundClampRelaxation (b : Bound α) (ceiling : α) : Outcome (Relaxation α × RoundClampCase) := do
  let (r, c) := roundClampFormula b ceiling
  let band ← Bound.around r.offset r.error
  let range ← staircaseDeviation b ceiling r.slope
  if band.encloses range then .ok (r, c)
  else
    let wide := band.union range
    .ok (⟨r.slope, wide.midpoint, wide.radius⟩, c)

end QuantEnclosure
