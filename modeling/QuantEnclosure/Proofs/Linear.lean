import Mathlib.Tactic.Ring
import QuantEnclosure.Scalar.Exact
import QuantEnclosure.Proofs.Shape

/-!
Linear algebra on lists in exact arithmetic.  The order in which a sum is taken does not matter,
so `dot` is the plain scalar product; it is bilinear, and every operation on matrices has the
expected effect on the product with a vector.
-/

namespace QuantEnclosure

open Scalar

/-! ## Sums -/

private theorem foldl_add_eq (a : ℚ) (xs : List ℚ) : xs.foldl (· + ·) a = a + xs.sum := by
  induction xs generalizing a with
  | nil => simp
  | cons x xs ih => rw [List.foldl_cons, ih, List.sum_cons, add_assoc]

theorem Lanes.sum_eq (p : Lanes ℚ) (xs : List ℚ) : p.sum xs = p.total + xs.sum := by
  fun_induction Lanes.sum p xs with
  | case1 p a b c d e f g h rest ih =>
    rw [ih]
    simp only [Lanes.total, List.sum_cons]
    ring
  | case2 p rest =>
    exact foldl_add_eq p.total rest

theorem laneSum_eq_sum (xs : List ℚ) : laneSum xs = xs.sum := by
  have h : (Lanes.zero : Lanes ℚ).total = 0 := by
    simp [Lanes.zero, Lanes.total]
  rw [laneSum, Lanes.sum_eq, h, zero_add]

namespace Matrix

/-! ## The scalar product -/

@[simp] theorem dot_nil_left (v : List ℚ) : dot [] v = 0 := by
  simp [dot, laneSum_eq_sum]

@[simp] theorem dot_nil_right (r : List ℚ) : dot r [] = 0 := by
  simp [dot, laneSum_eq_sum]

@[simp] theorem dot_cons (a b : ℚ) (r v : List ℚ) : dot (a :: r) (b :: v) = a * b + dot r v := by
  simp [dot, laneSum_eq_sum]

theorem dot_comm (r v : List ℚ) : dot r v = dot v r := by
  induction r generalizing v with
  | nil => simp
  | cons a r ih =>
    cases v with
    | nil => simp
    | cons b v =>
      rw [dot_cons, dot_cons, ih]
      ring

/-- A linear combination of two rows, entry by entry. -/
theorem dot_zipWith (f : ℚ → ℚ → ℚ) (p q : ℚ) (hf : ∀ a b, f a b = p * a + q * b)
    (r s v : List ℚ) (h : r.length = s.length) :
    dot (List.zipWith f r s) v = p * dot r v + q * dot s v := by
  induction r generalizing s v with
  | nil =>
    obtain rfl := List.length_eq_zero_iff.mp h.symm
    simp
  | cons a r ih =>
    cases s with
    | nil => simp at h
    | cons b s =>
      cases v with
      | nil => simp
      | cons c v =>
        have hrs := ih s v (by simpa using h)
        simp only [List.zipWith_cons_cons, dot_cons, hrs, hf]
        ring

theorem dot_add_left (r s v : List ℚ) (h : r.length = s.length) :
    dot (Vec.add r s) v = dot r v + dot s v := by
  have := dot_zipWith (· + ·) 1 1 (by intros; ring) r s v h
  simpa [Vec.add] using this

theorem dot_sub_left (r s v : List ℚ) (h : r.length = s.length) :
    dot (Vec.sub r s) v = dot r v - dot s v := by
  rw [Vec.sub, dot_zipWith (· - ·) 1 (-1) (by intros; ring) r s v h]
  ring

theorem dot_map_mul (f : ℚ) (r v : List ℚ) : dot (r.map (· * f)) v = f * dot r v := by
  induction r generalizing v with
  | nil => simp
  | cons a r ih =>
    cases v with
    | nil => simp
    | cons b v =>
      simp only [List.map_cons, dot_cons, ih]
      ring

theorem dot_append (r s v w : List ℚ) (h : r.length = v.length) :
    dot (r ++ s) (v ++ w) = dot r v + dot s w := by
  induction r generalizing v with
  | nil =>
    obtain rfl := List.length_eq_zero_iff.mp h.symm
    simp
  | cons a r ih =>
    cases v with
    | nil => simp at h
    | cons b v =>
      simp only [List.cons_append, dot_cons, ih v (by simpa using h)]
      ring

theorem dot_replicate_zero (n : Nat) (v : List ℚ) : dot (List.replicate n 0) v = 0 := by
  induction n generalizing v with
  | zero => simp
  | succ n ih =>
    cases v with
    | nil => simp
    | cons b v => simp [List.replicate_succ, ih]

theorem dot_ones (r : List ℚ) : dot r (List.replicate r.length 1) = r.sum := by
  induction r with
  | nil => simp
  | cons a r ih => simp [List.replicate_succ, ih]

/-- A row with one entry that is not zero. -/
theorem dot_unit (n i : Nat) (x : ℚ) (w : List ℚ) (hw : w.length = n) (hi : i < w.length) :
    dot ((List.range n).map fun j => if i = j then x else 0) w = x * w[i] := by
  induction w generalizing n i with
  | nil => simp at hi
  | cons b w ih =>
    obtain rfl : n = w.length + 1 := by simpa using hw.symm
    rw [List.range_succ_eq_map, List.map_cons, List.map_map, dot_cons]
    cases i with
    | zero =>
      have hz : ((fun j => if 0 = j then x else 0) ∘ Nat.succ) = fun _ => (0 : ℚ) := by
        funext j
        simp
      rw [hz, List.map_const', dot_replicate_zero]
      simp
    | succ i =>
      have hs : ((fun j => if i + 1 = j then x else 0) ∘ Nat.succ) =
          fun j => if i = j then x else 0 := by
        funext j
        simp
      rw [hs, ih w.length i rfl (by simpa using hi)]
      simp

/-! ## Products of matrices -/

private theorem dot_fold (ps : List (ℚ × List ℚ)) (acc v : List ℚ)
    (h : ∀ p ∈ ps, p.2.length = acc.length) :
    dot (ps.foldl (fun acc p => List.zipWith (fun a x => a + p.1 * x) acc p.2) acc) v =
      dot acc v + (ps.map fun p => p.1 * dot p.2 v).sum := by
  induction ps generalizing acc with
  | nil => simp
  | cons p ps ih =>
    have hp : acc.length = p.2.length := (h p (List.mem_cons_self ..)).symm
    have hacc : (List.zipWith (fun a x => a + p.1 * x) acc p.2).length = acc.length := by
      simp [hp]
    rw [List.foldl_cons, ih _ fun q hq => by rw [hacc]; exact h q (List.mem_cons_of_mem _ hq),
      dot_zipWith _ 1 p.1 (by intros; ring) acc p.2 v hp, List.map_cons, List.sum_cons]
    ring

private theorem dot_map_dot (factors : List ℚ) (rows : List (List ℚ)) (v : List ℚ) :
    dot factors (rows.map fun r => dot r v) =
      ((factors.zip rows).map fun p => p.1 * dot p.2 v).sum := by
  induction factors generalizing rows with
  | nil => simp
  | cons f factors ih =>
    cases rows with
    | nil => simp
    | cons r rows => simp [ih]

theorem dot_rowMul (factors : List ℚ) (m : Matrix ℚ) (v : List ℚ) :
    dot (rowMul factors m) v = dot factors (m.mulVec v) := by
  have h : ∀ p ∈ factors.zip m.rows, p.2.length = (List.replicate m.cols (0 : ℚ)).length := by
    intro p hp
    simpa using m.width_eq p.2 (List.of_mem_zip hp).2
  rw [rowMul, dot_fold _ _ _ h, dot_replicate_zero, zero_add, mulVec, dot_map_dot]

theorem mulVec_mul (a b : Matrix ℚ) (v : List ℚ) :
    (a.mul b).mulVec v = a.mulVec (b.mulVec v) := by
  simp [mulVec, mul, dot_rowMul]

theorem mulVec_add (a b : Matrix ℚ) (v : List ℚ) (h : a.cols = b.cols) :
    (a.add b).mulVec v = Vec.add (a.mulVec v) (b.mulVec v) := by
  apply List.ext_getElem
  · simp
  · intro i hi _
    have ha : i < a.rows.length ∧ i < b.rows.length := by simpa using hi
    have hw : a.rows[i].length = b.rows[i].length := by
      rw [a.width_eq _ (List.getElem_mem ha.1), b.width_eq _ (List.getElem_mem ha.2), h]
    simpa [mulVec, add, zipWith, Vec.add] using dot_add_left _ _ v hw

theorem mulVec_sub (a b : Matrix ℚ) (v : List ℚ) (h : a.cols = b.cols) :
    (a.sub b).mulVec v = Vec.sub (a.mulVec v) (b.mulVec v) := by
  apply List.ext_getElem
  · simp
  · intro i hi _
    have ha : i < a.rows.length ∧ i < b.rows.length := by simpa using hi
    have hw : a.rows[i].length = b.rows[i].length := by
      rw [a.width_eq _ (List.getElem_mem ha.1), b.width_eq _ (List.getElem_mem ha.2), h]
    simpa [mulVec, sub, zipWith, Vec.sub] using dot_sub_left _ _ v hw

theorem mulVec_beside (a b : Matrix ℚ) (v w : List ℚ) (h : v.length = a.cols) :
    (a.beside b).mulVec (v ++ w) = Vec.add (a.mulVec v) (b.mulVec w) := by
  apply List.ext_getElem
  · simp
  · intro i hi _
    have ha : i < a.rows.length ∧ i < b.rows.length := by simpa using hi
    have hw : a.rows[i].length = v.length := by
      rw [a.width_eq _ (List.getElem_mem ha.1), h]
    simpa [mulVec, beside, Vec.add] using dot_append _ b.rows[i] v w hw

theorem mulVec_scaleRows (f : List ℚ) (m : Matrix ℚ) (v : List ℚ) :
    (m.scaleRows f).mulVec v = Vec.mul f (m.mulVec v) := by
  apply List.ext_getElem
  · simp
  · intro i _ _
    simp [mulVec, scaleRows, Vec.mul, dot_map_mul]

theorem mulVec_scale (f : ℚ) (m : Matrix ℚ) (v : List ℚ) :
    (m.scale f).mulVec v = Vec.scale f (m.mulVec v) := by
  apply List.ext_getElem
  · simp
  · intro i _ _
    simp [mulVec, scale, map, Vec.scale, dot_map_mul]
    ring

theorem mulVec_zeros (h c : Nat) (v : List ℚ) :
    (zeros h c).mulVec v = List.replicate h 0 := by
  simp [mulVec, rows_zeros, dot_replicate_zero]

theorem mulVec_diagonal (v w : List ℚ) (h : w.length = v.length) :
    (diagonal v).mulVec w = Vec.mul v w := by
  apply List.ext_getElem
  · simp [h]
  · intro i hi _
    have hv : i < v.length := by simpa using hi
    simpa [mulVec, diagonal, Vec.mul] using dot_unit v.length i v[i] w h (by omega)

theorem mulVec_vecAdd (m : Matrix ℚ) (v w : List ℚ) (h : v.length = w.length) :
    m.mulVec (Vec.add v w) = Vec.add (m.mulVec v) (m.mulVec w) := by
  apply List.ext_getElem
  · simp
  · intro i _ _
    simp only [mulVec, Vec.add, List.getElem_map, List.getElem_zipWith]
    rw [dot_comm, dot_comm _ v, dot_comm _ w]
    exact dot_add_left v w _ h

theorem mulVec_vecSub (m : Matrix ℚ) (v w : List ℚ) (h : v.length = w.length) :
    m.mulVec (Vec.sub v w) = Vec.sub (m.mulVec v) (m.mulVec w) := by
  apply List.ext_getElem
  · simp
  · intro i _ _
    simp only [mulVec, Vec.sub, List.getElem_map, List.getElem_zipWith]
    rw [dot_comm, dot_comm _ v, dot_comm _ w]
    exact dot_sub_left v w _ h

theorem mulVec_vecScale (m : Matrix ℚ) (f : ℚ) (v : List ℚ) :
    m.mulVec (Vec.scale f v) = Vec.scale f (m.mulVec v) := by
  apply List.ext_getElem
  · simp
  · intro i _ _
    simp only [mulVec, Vec.scale, List.getElem_map]
    rw [dot_comm, dot_map_mul, dot_comm, mul_comm]

end Matrix

end QuantEnclosure
