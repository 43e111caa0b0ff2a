import QuantEnclosure.Scalar.Exact
import QuantEnclosure.Bound

/-!
Intervals as sets of rational numbers.  Widening an interval keeps what it holds, and an interval
that holds a line at two places holds it in between.
-/

namespace QuantEnclosure.Bound

instance : Membership ℚ (Bound ℚ) where
  mem b x := b.lower ≤ x ∧ x ≤ b.upper

theorem mem_iff {b : Bound ℚ} {x : ℚ} : x ∈ b ↔ b.lower ≤ x ∧ x ≤ b.upper := Iff.rfl

theorem contains_iff {b : Bound ℚ} {x : ℚ} : b.contains x = true ↔ x ∈ b := by
  simp [contains, mem_iff]

theorem mem_point (x : ℚ) : x ∈ point x := ⟨le_refl x, le_refl x⟩

theorem mem_insert_self (b : Bound ℚ) (x : ℚ) : x ∈ b.insert x := by
  simp [mem_iff, insert]

theorem mem_insert_of_mem {b : Bound ℚ} {y : ℚ} (h : y ∈ b) (x : ℚ) : y ∈ b.insert x := by
  simp only [mem_iff, insert, Scalar.lesser_eq_min, Scalar.greater_eq_max]
  exact ⟨(min_le_left _ _).trans h.1, h.2.trans (le_max_left _ _)⟩

theorem mem_union_left {b : Bound ℚ} (c : Bound ℚ) {x : ℚ} (h : x ∈ b) : x ∈ b.union c := by
  simp only [mem_iff, union, Scalar.lesser_eq_min, Scalar.greater_eq_max]
  exact ⟨(min_le_left _ _).trans h.1, h.2.trans (le_max_left _ _)⟩

theorem mem_union_right (b : Bound ℚ) {c : Bound ℚ} {x : ℚ} (h : x ∈ c) : x ∈ b.union c := by
  simp only [mem_iff, union, Scalar.lesser_eq_min, Scalar.greater_eq_max]
  exact ⟨(min_le_right _ _).trans h.1, h.2.trans (le_max_right _ _)⟩

theorem union_eq_left {b c : Bound ℚ} (h : b.encloses c = true) : b.union c = b := by
  have hb : b.lower ≤ c.lower ∧ c.upper ≤ b.upper := by simpa [encloses] using h
  simp [union, min_eq_left hb.1, max_eq_left hb.2]

/-- An interval encloses two others exactly if it encloses the smallest one around them. -/
theorem encloses_union_iff {b c d : Bound ℚ} :
    d.encloses (b.union c) ↔ d.encloses b ∧ d.encloses c := by
  simp only [encloses, union, Scalar.lesser_eq_min, Scalar.greater_eq_max, Bool.and_eq_true,
    decide_eq_true_eq, le_min_iff, max_le_iff]
  constructor
  · rintro ⟨⟨h₁, h₂⟩, h₃, h₄⟩
    exact ⟨⟨h₁, h₃⟩, h₂, h₄⟩
  · rintro ⟨⟨h₁, h₃⟩, h₂, h₄⟩
    exact ⟨⟨h₁, h₂⟩, h₃, h₄⟩

/-- A line that is inside the interval at `s` and at `t` is inside it between them. -/
theorem mem_line {b : Bound ℚ} {p q r s t : ℚ} (hr : s ≤ r) (ht : r ≤ t)
    (hs : p * s + q ∈ b) (hq : p * t + q ∈ b) : p * r + q ∈ b := by
  obtain ⟨hs₁, hs₂⟩ := hs
  obtain ⟨ht₁, ht₂⟩ := hq
  rcases le_total 0 p with hp | hp
  · have h₁ := mul_le_mul_of_nonneg_left hr hp
    have h₂ := mul_le_mul_of_nonneg_left ht hp
    exact ⟨by linarith, by linarith⟩
  · have h₁ := mul_le_mul_of_nonpos_left hr hp
    have h₂ := mul_le_mul_of_nonpos_left ht hp
    exact ⟨by linarith, by linarith⟩

/-- An interval consists of the numbers within its radius of its midpoint. -/
theorem midpoint_radius (b : Bound ℚ) :
    (⟨b.midpoint - b.radius, b.midpoint + b.radius⟩ : Bound ℚ) = b := by
  obtain ⟨l, u⟩ := b
  simp only [midpoint, radius, Scalar.half_eq, mk.injEq]
  constructor <;> linarith

end QuantEnclosure.Bound
