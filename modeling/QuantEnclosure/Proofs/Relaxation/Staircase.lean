import QuantEnclosure.Relaxation.RoundClamp
import QuantEnclosure.Proofs.Outcome
import QuantEnclosure.Proofs.Relaxation.Rectifier
import QuantEnclosure.Proofs.Scalar.Rounding
import Mathlib.Tactic.Ring

/-!
The staircase that rounds and clamps, in exact arithmetic with an integer ceiling.  On each step
it is constant (`stair_spec`), so its deviation from a line is bounded by the ends of the interval
and the first and the last rise (`deviation_mem_range`).
-/

namespace QuantEnclosure

open Scalar

/-! ## Steps -/

def stair (ceiling x : ℚ) : ℚ := nearestIn 0 ceiling (Scalar.round x)

theorem roundClamp_eq {ceiling : ℚ} (h : 0 ≤ ceiling) (x : ℚ) :
    roundClamp ceiling x = .ok (stair ceiling x) := clamp_eq h _

/-- The staircase is at an integer `k` of its range, and `x` lies on the step of `k`: the lowest
step has no lower end and the highest no upper end. -/
theorem stair_spec {c : ℤ} (hc : 0 ≤ c) (x : ℚ) :
    ∃ k : ℤ, stair c x = k ∧ 0 ≤ k ∧ k ≤ c ∧ (0 < k → (k : ℚ) - 1 / 2 ≤ x) ∧
      (k < c → x < (k : ℚ) + 1 / 2) := by
  obtain ⟨r, hr⟩ := exists_round_eq x
  have hwithin := round_within x
  rw [hr] at hwithin
  unfold stair nearestIn
  rw [hr]
  split
  · next h =>
    have hneg : x < 0 := by
      by_contra hx
      have := (round_bounds_of_nonneg (not_lt.mp hx)).1
      rw [hr] at this
      linarith
    exact ⟨0, by simp, le_refl 0, hc, by simp, fun _ => by push_cast; linarith⟩
  · next h =>
    split
    · next h' =>
      have hcr : (c : ℚ) + 1 ≤ r := by
        have : c + 1 ≤ r := by exact_mod_cast h'
        exact_mod_cast this
      exact ⟨c, rfl, hc, le_refl c, fun _ => by linarith [hwithin.1], by simp⟩
    · next h' =>
      have h₀ : 0 ≤ r := by exact_mod_cast not_lt.mp h
      have hrc : r ≤ c := by exact_mod_cast not_lt.mp h'
      refine ⟨r, rfl, h₀, hrc, fun _ => hwithin.1, fun _ => ?_⟩
      rcases le_or_gt 0 x with hx | hx
      · have := (round_bounds_of_nonneg hx).2.2
        rwa [hr] at this
      · have : (0 : ℚ) ≤ r := by exact_mod_cast h₀
        linarith

/-- The staircase is at `k` wherever `x` lies on the step of `k`. -/
theorem stair_eq {c k : ℤ} (h₀ : 0 ≤ k) (hc : k ≤ c) {x : ℚ}
    (hl : 0 < k → (k : ℚ) - 1 / 2 ≤ x) (hu : k < c → x < (k : ℚ) + 1 / 2) : stair c x = k := by
  obtain ⟨j, hj, hj₀, hjc, hjl, hju⟩ := stair_spec (h₀.trans hc) x
  rw [hj]
  rcases lt_trichotomy j k with h | rfl | h
  · have h₁ := hju (by omega)
    have h₂ := hl (by omega)
    have h₃ : (j : ℚ) + 1 ≤ k := by exact_mod_cast h
    linarith
  · rfl
  · have h₁ := hu (by omega)
    have h₂ := hjl (by omega)
    have h₃ : (k : ℚ) + 1 ≤ j := by exact_mod_cast h
    linarith

/-- Up to zero the staircase is at its bottom. -/
theorem stair_of_nonpos {c : ℤ} (hc : 0 ≤ c) {x : ℚ} (hx : x ≤ 0) : stair c x = 0 := by
  have h := stair_eq (k := 0) (c := c) (x := x) le_rfl hc (by simp)
    fun _ => by push_cast; linarith
  exact_mod_cast h

/-- From the ceiling on the staircase is at its top. -/
theorem stair_of_ceiling_le {c : ℤ} (hc : 0 ≤ c) {x : ℚ} (hx : (c : ℚ) ≤ x) : stair c x = c :=
  stair_eq hc le_rfl (fun _ => by linarith) (by simp)

/-! ## The deviation from a line -/

def endDeviations (b : Bound ℚ) (ceiling slope : ℚ) : Bound ℚ :=
  (Bound.point (deviation slope b.lower (stair ceiling b.lower))).insert
    (deviation slope b.upper (stair ceiling b.upper))

def deviationRange (b : Bound ℚ) (ceiling slope : ℚ) : Bound ℚ :=
  let ends := endDeviations b ceiling slope
  let first : ℚ := max ((⌊b.lower - 1 / 2⌋ : ℚ) + 1) 0
  let last : ℚ := min (⌊b.upper - 1 / 2⌋ : ℚ) (ceiling - 1)
  if first ≤ last then insertRise b slope (insertRise b slope ends first) last else ends

theorem staircaseDeviation_eq {ceiling : ℚ} (h : 0 ≤ ceiling) (b : Bound ℚ) (slope : ℚ) :
    staircaseDeviation b ceiling slope = .ok (deviationRange b ceiling slope) := by
  refine bind_eq_ok.mpr ⟨_, roundClamp_eq h b.lower, ?_⟩
  refine bind_eq_ok.mpr ⟨_, roundClamp_eq h b.upper, ?_⟩
  simp only [greater_eq_max, lesser_eq_min, half_eq]
  rfl

theorem mem_insertRise_of_mem {b range : Bound ℚ} {slope k y : ℚ} (h : y ∈ range) :
    y ∈ insertRise b slope range k := by
  unfold insertRise
  dsimp only
  split
  · exact Bound.mem_insert_of_mem (Bound.mem_insert_of_mem h _) _
  · exact h

/-- Both sides of a rise inside the interval are inserted. -/
theorem mem_insertRise_self {b : Bound ℚ} (range : Bound ℚ) (slope : ℚ) {k : ℚ}
    (hl : b.lower < k + 1 / 2) (hu : k + 1 / 2 ≤ b.upper) :
    deviation slope (k + 1 / 2) k ∈ insertRise b slope range k ∧
      deviation slope (k + 1 / 2) (k + 1) ∈ insertRise b slope range k := by
  unfold insertRise
  simp only [half_eq]
  rw [if_pos ⟨hl, hu⟩]
  exact ⟨Bound.mem_insert_of_mem (Bound.mem_insert_self _ _) _, Bound.mem_insert_self _ _⟩

section

variable {b : Bound ℚ} {c : ℤ} (slope : ℚ)

theorem mem_deviationRange_of_mem {y : ℚ} (h : y ∈ endDeviations b c slope) :
    y ∈ deviationRange b c slope := by
  unfold deviationRange
  dsimp only
  split
  · exact mem_insertRise_of_mem (mem_insertRise_of_mem h)
  · exact h

theorem deviation_lower_mem :
    deviation slope b.lower (stair c b.lower) ∈ deviationRange b c slope :=
  mem_deviationRange_of_mem slope (Bound.mem_insert_of_mem (Bound.mem_point _) _)

theorem deviation_upper_mem :
    deviation slope b.upper (stair c b.upper) ∈ deviationRange b c slope :=
  mem_deviationRange_of_mem slope (Bound.mem_insert_self _ _)

/-- Both sides of every rise inside the interval are in the range: the first and the last rise
are inserted, and in between both sides move along a line. -/
theorem deviation_rise_mem {j : ℤ} (h₀ : 0 ≤ j) (hc : j < c) (hl : b.lower < (j : ℚ) + 1 / 2)
    (hu : (j : ℚ) + 1 / 2 ≤ b.upper) :
    deviation slope (j + 1 / 2) j ∈ deviationRange b c slope ∧
      deviation slope (j + 1 / 2) (j + 1) ∈ deviationRange b c slope := by
  have hfirst : max ((⌊b.lower - 1 / 2⌋ : ℚ) + 1) 0 ≤ j := by
    have h₁ : ⌊b.lower - 1 / 2⌋ + 1 ≤ j := by
      have : ⌊b.lower - 1 / 2⌋ < j := Int.floor_lt.mpr (by linarith)
      omega
    exact max_le (by exact_mod_cast h₁) (by exact_mod_cast h₀)
  have hlast : (j : ℚ) ≤ min (⌊b.upper - 1 / 2⌋ : ℚ) (c - 1) := by
    have h₁ : j ≤ ⌊b.upper - 1 / 2⌋ := Int.le_floor.mpr (by linarith)
    have h₂ : j ≤ c - 1 := by omega
    exact le_min (by exact_mod_cast h₁) (by exact_mod_cast h₂)
  unfold deviationRange
  dsimp only
  rw [if_pos (hfirst.trans hlast)]
  generalize hf : max ((⌊b.lower - 1 / 2⌋ : ℚ) + 1) 0 = first at *
  generalize hg : min (⌊b.upper - 1 / 2⌋ : ℚ) (c - 1) = last at *
  have hlower : b.lower < first + 1 / 2 := by
    have h₁ := Int.lt_floor_add_one (b.lower - 1 / 2)
    have h₂ := le_max_left ((⌊b.lower - 1 / 2⌋ : ℚ) + 1) 0
    linarith
  have hupper : last + 1 / 2 ≤ b.upper := by
    have h₁ := Int.floor_le (b.upper - 1 / 2)
    have h₂ := min_le_left (⌊b.upper - 1 / 2⌋ : ℚ) (c - 1)
    linarith
  obtain ⟨f₁, f₂⟩ := mem_insertRise_self (endDeviations b c slope) slope hlower (by linarith)
  obtain ⟨g₁, g₂⟩ := mem_insertRise_self (insertRise b slope (endDeviations b c slope) first) slope
    (show b.lower < last + 1 / 2 by linarith) hupper
  have below : ∀ k : ℚ, deviation slope (k + 1 / 2) k = (1 - slope) * k + -(slope / 2) := by
    intro k
    unfold deviation
    ring
  have above : ∀ k : ℚ,
      deviation slope (k + 1 / 2) (k + 1) = (1 - slope) * k + (1 - slope / 2) := by
    intro k
    unfold deviation
    ring
  rw [below] at f₁ g₁ ⊢
  rw [above] at f₂ g₂ ⊢
  exact ⟨Bound.mem_line hfirst hlast (mem_insertRise_of_mem f₁) g₁,
    Bound.mem_line hfirst hlast (mem_insertRise_of_mem f₂) g₂⟩

/-- The deviation of the staircase from a line stays in the range over the whole interval: on the
step of `x` it is a line, and each end of that step is an end of the interval or a rise. -/
theorem deviation_mem_range (hc : 0 ≤ c) {x : ℚ} (hx : x ∈ b) :
    deviation slope x (stair c x) ∈ deviationRange b c slope := by
  obtain ⟨k, hk, hk₀, hkc, hkl, hku⟩ := stair_spec hc x
  obtain ⟨hl, hu⟩ := hx
  have line : ∀ y : ℚ, deviation slope y k = -slope * y + k := by
    intro y
    unfold deviation
    ring
  have left : ∃ s, s ≤ x ∧ deviation slope s k ∈ deviationRange b c slope := by
    by_cases h : 0 < k ∧ b.lower < (k : ℚ) - 1 / 2
    · refine ⟨k - 1 / 2, hkl h.1, ?_⟩
      have hrise := (deviation_rise_mem (b := b) (c := c) slope (j := k - 1) (by omega)
        (by omega) (by push_cast; linarith) (by push_cast; linarith [hkl h.1])).2
      push_cast at hrise
      convert hrise using 2 <;> ring
    · have hstair : stair c b.lower = k := by
        apply stair_eq hk₀ hkc
        · intro hpos
          by_contra hlt
          exact h ⟨hpos, not_le.mp hlt⟩
        · intro hlt
          linarith [hku hlt]
      exact ⟨b.lower, hl, hstair ▸ deviation_lower_mem slope⟩
  have right : ∃ t, x ≤ t ∧ deviation slope t k ∈ deviationRange b c slope := by
    by_cases h : k < c ∧ (k : ℚ) + 1 / 2 ≤ b.upper
    · refine ⟨k + 1 / 2, (hku h.1).le, ?_⟩
      exact (deviation_rise_mem slope hk₀ h.1 (by linarith [hku h.1]) h.2).1
    · have hstair : stair c b.upper = k := by
        apply stair_eq hk₀ hkc
        · intro hpos
          linarith [hkl hpos]
        · intro hlt
          by_contra hge
          exact h ⟨hlt, not_lt.mp hge⟩
      exact ⟨b.upper, hu, hstair ▸ deviation_upper_mem slope⟩
  obtain ⟨s, hs, hsm⟩ := left
  obtain ⟨t, ht, htm⟩ := right
  rw [line] at hsm htm
  rw [hk, line]
  exact Bound.mem_line hs ht hsm htm

end

end QuantEnclosure
