import QuantEnclosure.Outcome
import QuantEnclosure.Scalar

/-!
Vectors as lists and matrices as lists of rows of one width.  The width is kept beside the rows,
because a matrix without rows still has columns.  Sums are taken in a fixed order: a matrix times
a vector adds the products of a row in eight lanes (`laneSum`), a matrix times a matrix adds from
left to right.
-/

namespace QuantEnclosure

open Scalar

/-! ## Sums in eight lanes -/

structure Lanes (α : Type) where
  l0 : α
  l1 : α
  l2 : α
  l3 : α
  l4 : α
  l5 : α
  l6 : α
  l7 : α

namespace Lanes

variable {α : Type} [Scalar α]

def zero : Lanes α := ⟨0, 0, 0, 0, 0, 0, 0, 0⟩

/-- Opposite lanes are joined first, then the four pairs from left to right. -/
def total (p : Lanes α) : α :=
  0 + (p.l0 + p.l4) + (p.l1 + p.l5) + (p.l2 + p.l6) + (p.l3 + p.l7)

/-- Adds eight numbers at a time to the lanes; fewer than eight are added at the end. -/
def sum (p : Lanes α) : List α → α
  | a :: b :: c :: d :: e :: f :: g :: h :: rest =>
    sum ⟨p.l0 + a, p.l1 + b, p.l2 + c, p.l3 + d, p.l4 + e, p.l5 + f, p.l6 + g, p.l7 + h⟩ rest
  | rest => rest.foldl (· + ·) p.total

end Lanes

def laneSum {α : Type} [Scalar α] (xs : List α) : α := Lanes.zero.sum xs

/-! ## Matrices -/

/-- A matrix: its rows, all of the same width. -/
structure Matrix (α : Type) where
  cols : Nat
  rows : List (List α)
  width_eq : ∀ r ∈ rows, r.length = cols

namespace Matrix

variable {α : Type}

def height (m : Matrix α) : Nat := m.rows.length

def ofRows? (rows : List (List α)) : Option (Matrix α) :=
  let cols := (rows.head?.map List.length).getD 0
  if h : ∀ r ∈ rows, r.length = cols then some ⟨cols, rows, h⟩ else none

def ofFn (height cols : Nat) (f : Nat → Nat → α) : Matrix α where
  cols := cols
  rows := (List.range height).map fun i => (List.range cols).map (f i)
  width_eq := by simp

def map {β : Type} (f : α → β) (m : Matrix α) : Matrix β where
  cols := m.cols
  rows := m.rows.map (List.map f)
  width_eq := by
    intro r hr
    obtain ⟨s, hs, rfl⟩ := List.mem_map.mp hr
    simpa using m.width_eq s hs

/-- Entry by entry, on the part that both matrices have. -/
def zipWith (f : α → α → α) (a b : Matrix α) : Matrix α where
  cols := min a.cols b.cols
  rows := List.zipWith (List.zipWith f) a.rows b.rows
  width_eq := by
    intro r hr
    obtain ⟨i, hi, rfl⟩ := List.getElem_of_mem hr
    simp only [List.length_zipWith, Nat.lt_min] at hi
    simp [a.width_eq _ (List.getElem_mem hi.1), b.width_eq _ (List.getElem_mem hi.2)]

def beside (a b : Matrix α) : Matrix α where
  cols := a.cols + b.cols
  rows := List.zipWith (· ++ ·) a.rows b.rows
  width_eq := by
    intro r hr
    obtain ⟨i, hi, rfl⟩ := List.getElem_of_mem hr
    simp only [List.length_zipWith, Nat.lt_min] at hi
    simp [a.width_eq _ (List.getElem_mem hi.1), b.width_eq _ (List.getElem_mem hi.2)]

/-- The largest signed 64-bit word. -/
def storageLimit : Nat := 9223372036854775807

/-- Checks that a matrix can be stored: the bytes of its entries can be counted by a signed 64-bit
word, and so can the columns of a matrix without rows and the rows of one without columns. -/
def ensureStorable (height cols : Nat) : Outcome Unit :=
  if max 1 height * max 1 cols ≤ storageLimit ∧ 8 * (height * cols) ≤ storageLimit then .ok ()
  else violate .storable

variable [Scalar α]

/-- The matrix of zeros; without rows no entry is written, however many columns there are. -/
def zeros (height cols : Nat) : Matrix α where
  cols := cols
  rows := (List.range height).map fun _ => List.replicate cols 0
  width_eq := by
    intro r hr
    obtain ⟨_, _, rfl⟩ := List.mem_map.mp hr
    simp

theorem rows_zeros (height cols : Nat) :
    (zeros height cols : Matrix α).rows = List.replicate height (List.replicate cols 0) := by
  simp [zeros, List.map_const']

def diagonal (v : List α) : Matrix α where
  cols := v.length
  rows := v.zipIdx.map fun (x, i) => (List.range v.length).map fun j => if i = j then x else 0
  width_eq := by
    intro r hr
    obtain ⟨p, _, rfl⟩ := List.mem_map.mp hr
    simp

/-- The scalar product, with the products added in eight lanes. -/
def dot (xs ys : List α) : α := laneSum (List.zipWith (· * ·) xs ys)

def mulVec (m : Matrix α) (v : List α) : List α := m.rows.map fun r => dot r v

/-- A row times a matrix: the rows of the matrix, each times its factor, added in order. -/
def rowMul (factors : List α) (m : Matrix α) : List α :=
  (factors.zip m.rows).foldl
    (fun acc p => List.zipWith (fun a x => a + p.1 * x) acc p.2) (List.replicate m.cols 0)

theorem length_rowMul_aux (ps : List (α × List α)) (acc : List α)
    (h : ∀ p ∈ ps, p.2.length = acc.length) :
    (ps.foldl (fun acc p => List.zipWith (fun a x => a + p.1 * x) acc p.2) acc).length =
      acc.length := by
  induction ps generalizing acc with
  | nil => rfl
  | cons p ps ih =>
    have hp := h p (List.mem_cons_self ..)
    have e : (List.zipWith (fun a x => a + p.1 * x) acc p.2).length = acc.length := by simp [hp]
    rw [List.foldl_cons, ih _ fun q hq => by rw [e]; exact h q (List.mem_cons_of_mem _ hq), e]

theorem length_rowMul (factors : List α) (m : Matrix α) :
    (rowMul factors m).length = m.cols := by
  unfold rowMul
  rw [length_rowMul_aux]
  · simp
  · intro p hp
    simpa using m.width_eq p.2 (List.of_mem_zip hp).2

def mul (a b : Matrix α) : Matrix α where
  cols := b.cols
  rows := a.rows.map fun r => rowMul r b
  width_eq := by
    intro r hr
    obtain ⟨s, _, rfl⟩ := List.mem_map.mp hr
    exact length_rowMul s b

def add (a b : Matrix α) : Matrix α := zipWith (· + ·) a b

def sub (a b : Matrix α) : Matrix α := zipWith (· - ·) a b

def scale (factor : α) (m : Matrix α) : Matrix α := m.map (· * factor)

/-- Row `i` times the factor `i`. -/
def scaleRows (factors : List α) (m : Matrix α) : Matrix α where
  cols := m.cols
  rows := List.zipWith (fun f r => r.map (· * f)) factors m.rows
  width_eq := by
    intro r hr
    obtain ⟨i, hi, rfl⟩ := List.getElem_of_mem hr
    simp only [List.length_zipWith, Nat.lt_min] at hi
    simp [m.width_eq _ (List.getElem_mem hi.2)]

def isFinite (m : Matrix α) : Bool := m.rows.all (List.all · Scalar.isFinite)

end Matrix

/-! ## Vectors -/

namespace Vec

variable {α : Type} [Scalar α]

def add (xs ys : List α) : List α := List.zipWith (· + ·) xs ys

def sub (xs ys : List α) : List α := List.zipWith (· - ·) xs ys

def mul (xs ys : List α) : List α := List.zipWith (· * ·) xs ys

def scale (factor : α) (xs : List α) : List α := xs.map (· * factor)

def isFinite (xs : List α) : Bool := xs.all Scalar.isFinite

end Vec

end QuantEnclosure
