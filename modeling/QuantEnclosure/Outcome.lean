/-!
How a computation of the analysis can end without a value: it is refused for a reason that the
caller can act on (`AnalysisError`), or a precondition that the code relies on does not hold
(`Precondition`).  The second kind carries no message: it says that the numbers left the range in
which the definitions mean anything.
-/

namespace QuantEnclosure

inductive AnalysisError where
  | shapeMismatch (context : String) (expected got : List Nat)
  | unsupportedActivation (text : String)
  | invalidConfig (reason : String)
  | invalidNetwork (reason : String)
  | dimensionLimit (dim limit : Nat)
  | numericalInstability (reason : String)
  | modelLoad (reason : String)
  /-- The failure `source` of the layer at position `index`. -/
  | layer (index : Nat) (activation : String) (source : AnalysisError)
  deriving DecidableEq, Repr

namespace AnalysisError

def shapeText (shape : List Nat) : String :=
  "[" ++ ", ".intercalate (shape.map Nat.repr) ++ "]"

def message : AnalysisError → String
  | shapeMismatch context expected got =>
    "Shape mismatch in " ++ context ++ ": expected " ++ shapeText expected ++
      ", got " ++ shapeText got
  | unsupportedActivation text => "Unsupported activation: " ++ text
  | invalidConfig reason => "Invalid quantization configuration: " ++ reason
  | invalidNetwork reason => "Invalid network: " ++ reason
  | dimensionLimit dim limit =>
    s!"Vertex enumeration over {dim} dimensions exceeds the limit of {limit}"
  | numericalInstability reason => "Numerical instability: " ++ reason
  | modelLoad reason => "Model loading failed: " ++ reason
  | layer index activation source =>
    s!"Layer {index} ({activation}) failed: " ++ source.message

/-- The error and the errors behind it, outermost first. -/
def chain : AnalysisError → List AnalysisError
  | layer index activation source => layer index activation source :: source.chain
  | e => [e]

end AnalysisError

/-- What the definitions take for granted about their numbers. -/
inductive Precondition where
  /-- The ends of an interval are in order. -/
  | orderedEnds
  /-- A radius is not negative. -/
  | nonnegativeRadius
  /-- The limits of a clamp are in order. -/
  | orderedLimits
  /-- Two shapes reported as different are different. -/
  | distinctShapes
  /-- A bit width or a scaling stays within 32 bits. -/
  | wordRange
  /-- A matrix can be stored. -/
  | storable
  deriving DecidableEq, Repr

/-- Why a computation has no value. -/
inductive Failure where
  | violated (condition : Precondition)
  | refused (error : AnalysisError)
  deriving DecidableEq, Repr

/-- A value, or the reason why there is none. -/
abbrev Outcome := Except Failure

def refuse {α : Type} (e : AnalysisError) : Outcome α := .error (.refused e)

def violate {α : Type} (c : Precondition) : Outcome α := .error (.violated c)

def Failure.shapeMismatch (context : String) (expected got : List Nat) : Failure :=
  if expected = got then .violated .distinctShapes
  else .refused (.shapeMismatch context expected got)

/-- Names the layer in which a refusal arose. -/
def Failure.inLayer (index : Nat) (activation : String) : Failure → Failure
  | .violated c => .violated c
  | .refused e => .refused (.layer index activation e)

/-- Checks that two dimensions agree, and keeps the evidence. -/
def ensureDim (context : String) (expected got : Nat) : Outcome (PLift (expected = got)) :=
  if h : expected = got then .ok ⟨h⟩
  else .error (.shapeMismatch context [expected] [got])

end QuantEnclosure
