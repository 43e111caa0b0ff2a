import QuantEnclosure.Propagation

/-!
Many regions at once.  Small batches are worked through in order; larger ones are spread over
workers that finish in any order.  Either way the results stand in the order of the regions.
-/

namespace QuantEnclosure

/-- When a batch is spread over workers, and over how many.  The number of workers and the reports
of progress have no part in the results.  That workers cannot be set up is left out here: it
depends on the machine and not on the batch. -/
structure BatchConfig where
  engine : EngineConfig
  /-- A batch with fewer regions is worked through in order. -/
  parallelFrom : Nat
  maxThreads : Option Nat
  reportProgress : Bool
  deriving DecidableEq, Repr

def BatchConfig.standard : BatchConfig := ⟨.standard, 4, none, false⟩

namespace Batch

def firstFailure {β : Type} : List (Outcome β) → Option Failure
  | [] => none
  | .error e :: _ => some e
  | .ok _ :: rest => firstFailure rest

/-- Collects results that were finished in the order `finished`, a list of positions: all values
in their own order, or the failure that was seen first. -/
def collect {β : Type} (finished : List Nat) (results : List (Outcome β)) : Outcome (List β) :=
  match firstFailure (finished.filterMap (results[·]?)) with
  | some e => .error e
  | none => results.mapM id

variable {α : Type} [Scalar α]

/-- The analysis of every region; `finished` is the order in which workers would finish. -/
def propagate (cfg : BatchConfig) (finished : List Nat) (n : Network α) (c : Config)
    (regions : List (Zonotope α)) : Outcome (List (Analysis α)) :=
  if regions.length < cfg.parallelFrom then
    regions.mapM (QuantEnclosure.propagate cfg.engine n c)
  else collect finished (regions.map (QuantEnclosure.propagate cfg.engine n c))

def errorZonotopes (finished : List Nat) (n : Network α) (c : Config)
    (regions : List (Zonotope α)) : Outcome (List (Zonotope α)) := do
  let analyses ← propagate .standard finished n c regions
  .ok (analyses.map Analysis.error)

end Batch

end QuantEnclosure
