import QuantEnclosure.Proofs.Format.Region
import QuantEnclosure.Proofs.Propagation.Tracking

/-!
The input region in exact arithmetic.  Every coordinate of a region has a linear part, which takes
its interval to the rounded interval, and a residue that covers the distance of the rounding error
from that line.  So the trajectory before the first layer tracks every point of the region and its
rounded point.
-/

namespace QuantEnclosure.Trajectory

open Scalar Zonotope

/-! ## One coordinate -/

theorem inputErrors_eq_ok {f : Format} {hs qs : List (Bound ℚ)} {rs ss : List ℚ}
    {errors : List (ℚ × ℚ)} (h : inputErrors f hs qs rs ss = .ok errors) (i : Nat)
    (hh : i < hs.length) (hq : i < qs.length) (hr : i < rs.length) (hs' : i < ss.length)
    (he : i < errors.length) : inputError f hs[i] qs[i] rs[i] ss[i] = .ok errors[i] := by
  rw [inputErrors_eq_mapM] at h
  have herror := getElem_of_mapM_ok h i (by simp [hh, hq, hr, hs']) he
  simpa only [List.getElem_zip] using herror

/-- The line that takes `[-r, r]` to the interval from `a` to `b` stays in it. -/
theorem line_mem {a b r t : ℚ} (hr : 0 < r) (ht : |t| ≤ r) :
    (b - a) / (2 * r) * t + (a + b) / 2 ∈ (⟨min a b, max a b⟩ : Bound ℚ) := by
  obtain ⟨h₁, h₂⟩ := abs_le.mp ht
  apply Bound.mem_line h₁ h₂
  · have : (b - a) / (2 * r) * -r + (a + b) / 2 = a := by
      field_simp
      ring
    rw [this]
    exact ⟨min_le_left _ _, le_max_left _ _⟩
  · have : (b - a) / (2 * r) * r + (a + b) / 2 = b := by
      field_simp
      ring
    rw [this]
    exact ⟨min_le_right _ _, le_max_right _ _⟩

/-- The residue covers the distance between a number of the interval from `a` to `b` and a number
of `range`. -/
theorem within_residue {range : Bound ℚ} {a b x y : ℚ} (hx : x ∈ (⟨min a b, max a b⟩ : Bound ℚ))
    (hy : y ∈ range) :
    x - max (range.upper - min a b) (max a b - range.lower) ≤ y ∧
      y ≤ x + max (range.upper - min a b) (max a b - range.lower) := by
  obtain ⟨x₁, x₂⟩ := hx
  obtain ⟨y₁, y₂⟩ := hy
  dsimp only at x₁ x₂
  have h₁ := le_max_left (range.upper - min a b) (max a b - range.lower)
  have h₂ := le_max_right (range.upper - min a b) (max a b - range.lower)
  exact ⟨by linarith, by linarith⟩

/-- The linear part and the residue of a coordinate hold its rounding error: `t` is the distance
from the center `c` of the interval with radius `r`. -/
theorem inputError_holds {f : Format} (hf : f.Valid) {c r t slope residue : ℚ} (ht : |t| ≤ r)
    {q : Bound ℚ} (hq : q = ⟨f.rounded (c - r), f.rounded (c + r)⟩)
    (h : inputError f ⟨c - r, c + r⟩ q r q.radius = .ok (slope, residue)) :
    (⟨slope, q.midpoint - c, residue⟩ : Relaxation ℚ).Holds t (f.rounded (c + t) - (c + t)) := by
  obtain ⟨h₁, h₂⟩ := abs_le.mp ht
  unfold inputError at h
  split at h
  · next hz =>
    have hz : r = 0 := by simpa using hz
    have htz : t = 0 := abs_nonpos_iff.mp (hz ▸ ht)
    cases h
    have hmid : q.midpoint = f.rounded c := by
      simp only [hq, hz, Bound.midpoint, half_eq, sub_zero, add_zero]
      ring
    simp [Relaxation.Holds, hmid, htz]
  · next hz =>
    have hz : r ≠ 0 := by simpa using hz
    have hpos : 0 < r := lt_of_le_of_ne ((abs_nonneg t).trans ht) (Ne.symm hz)
    rw [Format.errorRange_eq hf] at h
    obtain ⟨range, hrange, h⟩ := bind_eq_ok.mp h
    cases hrange
    cases h
    have herror : f.rounded (c + t) - (c + t) ∈ f.errorBand ⟨c - r, c + r⟩ := by
      apply f.rounded_sub_mem
      exact ⟨by dsimp only; linarith, by dsimp only; linarith⟩
    have hline : (q.radius / r - 1) * t + (q.midpoint - c) =
        (q.upper - (c + r) - (q.lower - (c - r))) / (2 * r) * t +
          (q.lower - (c - r) + (q.upper - (c + r))) / 2 := by
      simp only [Bound.radius, Bound.midpoint, half_eq]
      field_simp
      ring
    simp only [Relaxation.Holds, hline, lesser_eq_min, greater_eq_max]
    exact within_residue (line_mem hpos ht) herror

/-! ## The whole region -/

/-- The relaxation of the rounding error of each coordinate, over the distance of the point from the
center of the region. -/
def inputRelaxations (errors : List (ℚ × ℚ)) (offsets : List ℚ) : List (Relaxation ℚ) :=
  List.zipWith (fun e o => ⟨e.1, o, e.2⟩) errors offsets

theorem inputRelaxations_parts (errors : List (ℚ × ℚ)) (offsets : List ℚ)
    (h : errors.length = offsets.length) :
    (inputRelaxations errors offsets).map Relaxation.slope = errors.map Prod.fst ∧
      (inputRelaxations errors offsets).map Relaxation.offset = offsets ∧
      (inputRelaxations errors offsets).map Relaxation.error = errors.map Prod.snd := by
  induction errors generalizing offsets with
  | nil =>
    obtain rfl := List.length_eq_zero_iff.mp h.symm
    simp [inputRelaxations]
  | cons e errors ih =>
    cases offsets with
    | nil => simp at h
    | cons o offsets => simpa [inputRelaxations] using ih offsets (by simpa using h)

theorem inputRelaxations_holds {f : Format} (hf : f.Valid) {region : Zonotope ℚ}
    {errors : List (ℚ × ℚ)} (hlen : errors.length = region.dim)
    (h : inputErrors f region.box (f.roundedBox region.box) region.radii
      ((f.roundedBox region.box).map Bound.radius) = .ok errors)
    {noise : List ℚ} (hn : IsNoise region.order noise) (i : Nat)
    (hr : i < (inputRelaxations errors (Vec.sub
      ((f.roundedBox region.box).map Bound.midpoint) region.center)).length)
    (hx : i < (region.generators.mulVec noise).length)
    (hy : i < (Vec.sub ((region.value noise).map f.rounded) (region.value noise)).length) :
    (inputRelaxations errors (Vec.sub
      ((f.roundedBox region.box).map Bound.midpoint) region.center))[i].Holds
      (region.generators.mulVec noise)[i]
      (Vec.sub ((region.value noise).map f.rounded) (region.value noise))[i] := by
  have hi : i < region.dim := by simpa using hx
  have hrow : i < region.generators.rows.length := by simpa using hx
  have hrad : i < region.radii.length := by simpa using hi
  have hbox : i < region.box.length := by simpa using hi
  have ht : |(region.generators.mulVec noise)[i]| ≤ region.radii[i] := by
    simpa [Matrix.mulVec, radii_eq] using abs_dot_le region.generators.rows[i] noise hn.within
  have herr := inputErrors_eq_ok h i hbox (by simpa using hi) hrad (by simpa using hi)
    (by omega)
  simp only [box, List.getElem_zipWith, List.getElem_map, Format.roundedBox] at herr
  have := inputError_holds hf ht rfl herr
  simpa [inputRelaxations, Vec.sub, Vec.add, value, Format.roundedBox, box] using this

/-- Before the first layer the trajectory tracks every point of the region: the noise is that of
the point, followed by one share for each coordinate. -/
theorem start_tracks {cfg : EngineConfig} {f : Format} (hf : f.Valid) {region : Zonotope ℚ}
    {t : Trajectory ℚ} {method : RegionMethod} (h : start cfg f region = .ok (t, method))
    {noise : List ℚ} (hn : IsNoise region.order noise) :
    ∃ rest, t.Tracks (noise ++ rest) (region.value noise)
      ((region.value noise).map f.rounded) := by
  obtain ⟨hull, quantized, quantizedHull, errors, hh, hq, hqh, he, hs⟩ := start_eq_ok h
  have hordered := f.roundedBox_lower_le_upper region.box_lower_le_upper
  rw [hull_eq] at hh hqh
  cases hh
  cases hqh
  obtain rfl := Format.quantizeRegion_eq_ok hf hq
  rw [box_ofBox hordered, radii_ofBox hordered] at he
  have hlen := hs.length_eq
  have holds := inputRelaxations_holds hf hlen he hn
  obtain ⟨hslope, hoffset, herror⟩ := inputRelaxations_parts errors
    (Vec.sub ((f.roundedBox region.box).map Bound.midpoint) region.center) (by simp [hlen])
  generalize hrel : inputRelaxations errors (Vec.sub
    ((f.roundedBox region.box).map Bound.midpoint) region.center) = relaxations
    at holds hslope hoffset herror
  have hrlen : relaxations.length = region.dim := by
    simp [← hrel, inputRelaxations, hlen]
  have hx : (region.generators.mulVec noise).length = relaxations.length := by simp [hrlen]
  have hy : (Vec.sub ((region.value noise).map f.rounded) (region.value noise)).length =
      relaxations.length := by simp [hrlen]
  have hshares := isNoise_shares hx hy holds
  have hlines := lines_add_shares hx hy holds
  rw [hrlen] at hshares
  generalize shares relaxations _ _ = rest at hshares hlines
  refine ⟨rest, ?_, ?_, ?_, ?_, ?_⟩
  · rw [hs.exact_eq]
    exact hn.append hshares
  · rw [hs.exact_eq, ← cols_generators, hs.error_generators]
    simp [hlen]
  · rw [hs.exact_eq]
    exact value_pad region _ hn.length_eq
  · rw [← hlines, hslope, hoffset, herror, value, hs.error_center, hs.error_generators,
      Matrix.mulVec_beside _ _ _ _ (by simp [hn.length_eq]), Matrix.mulVec_scaleRows,
      Matrix.mulVec_diagonal _ _ (by simp [hshares.length_eq, hlen])]
    apply List.ext_getElem
    · simp [ofBox, hlen, hshares.length_eq]
    · intro i _ _
      simp only [Vec.add, Vec.mul, Vec.sub, List.getElem_zipWith, ofBox]
      ring
  · simp

end QuantEnclosure.Trajectory
