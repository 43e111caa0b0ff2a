import QuantEnclosure.Format.Region
import QuantEnclosure.Proofs.Format.Quantizer
import QuantEnclosure.Proofs.Zonotope.Hull
import QuantEnclosure.Proofs.Zonotope.Presentation

/-!
Quantized regions in exact arithmetic.  Both ways of finding the box of a quantized region give
the box between the rounded ends of the interval hull, because rounding is monotone; every rounded
point lies in it, and each of its ends is the rounded coordinate of some point.  Which regions the
method `auto` refuses is said by `quantizeRegion_auto`.
-/

namespace QuantEnclosure.Format

open Scalar

variable {f : Format}

def roundedBox (f : Format) (bounds : List (Bound ℚ)) : List (Bound ℚ) :=
  bounds.map fun b => ⟨f.rounded b.lower, f.rounded b.upper⟩

@[simp] theorem length_roundedBox (f : Format) (bounds : List (Bound ℚ)) :
    (f.roundedBox bounds).length = bounds.length := by
  simp [roundedBox]

theorem roundedBox_lower_le_upper (f : Format) {bounds : List (Bound ℚ)}
    (hb : ∀ b ∈ bounds, b.lower ≤ b.upper) : ∀ b ∈ f.roundedBox bounds, b.lower ≤ b.upper := by
  intro b hmem
  obtain ⟨b', hmem', rfl⟩ := List.mem_map.mp hmem
  exact f.rounded_mono (hb b' hmem')

theorem quantizeBox_eq (h : f.Valid) {bounds : List (Bound ℚ)}
    (hb : ∀ b ∈ bounds, b.lower ≤ b.upper) : f.quantizeBox bounds = .ok (f.roundedBox bounds) := by
  apply mapM_ok
  intro b hmem
  refine bind_eq_ok.mpr ⟨_, quantize_eq h b.lower, ?_⟩
  refine bind_eq_ok.mpr ⟨_, quantize_eq h b.upper, ?_⟩
  exact if_pos (f.rounded_mono (hb b hmem))

theorem closedRegion_eq (h : f.Valid) (z : Zonotope ℚ) :
    f.closedRegion z = .ok (.ofBox (f.roundedBox z.box)) := by
  refine bind_eq_ok.mpr ⟨z.box, z.finiteHull_eq, ?_⟩
  exact bind_eq_ok.mpr ⟨_, quantizeBox_eq h z.box_lower_le_upper, rfl⟩

/-- The box around the rounded corners is the box between the rounded ends. -/
theorem around_rounded_corners (f : Format) {bounds : List (Bound ℚ)}
    (hb : ∀ b ∈ bounds, b.lower ≤ b.upper) :
    Box.around ((Box.corners bounds).map (List.map f.rounded)) = .ok (f.roundedBox bounds) :=
  Box.around_map_corners fun b hmem => f.rounded_mono (hb b hmem)

theorem enumerateRegion_eq (h : f.Valid) (z : Zonotope ℚ) {limit : Nat} (hl : z.dim ≤ limit)
    (hcap : z.dim < Box.enumerationCap) :
    f.enumerateRegion z limit = .ok (.ofBox (f.roundedBox z.box)) := by
  refine bind_eq_ok.mpr ⟨z.box, z.finiteHull_eq, ?_⟩
  refine bind_eq_ok.mpr ⟨_, Box.vertices_eq (by simpa using hl) (by simpa using hcap), ?_⟩
  refine bind_eq_ok.mpr ⟨_, mapM_ok _ fun v _ => quantizeVec_eq h v, ?_⟩
  exact bind_eq_ok.mpr ⟨_, f.around_rounded_corners z.box_lower_le_upper, rfl⟩

/-- Beyond the limit or the cap no corner is enumerated, whatever the format. -/
theorem enumerateRegion_refused (f : Format) (z : Zonotope ℚ) {limit : Nat}
    (h : limit < z.dim ∨ Box.enumerationCap ≤ z.dim) :
    f.enumerateRegion z limit = refuse (.dimensionLimit z.dim limit) := by
  unfold enumerateRegion Box.vertices
  rw [z.finiteHull_eq]
  simp only [bind, Except.bind, Zonotope.length_box]
  rw [if_pos h]
  rfl

theorem enumerateRegion_eq_ok (h : f.Valid) {z q : Zonotope ℚ} {limit : Nat}
    (he : f.enumerateRegion z limit = .ok q) :
    z.dim ≤ limit ∧ z.dim < Box.enumerationCap ∧ q = .ofBox (f.roundedBox z.box) := by
  have hdim : z.dim ≤ limit ∧ z.dim < Box.enumerationCap := by
    obtain ⟨bounds, hb, he⟩ := bind_eq_ok.mp he
    obtain ⟨points, hp, _⟩ := bind_eq_ok.mp he
    rw [z.finiteHull_eq] at hb
    cases hb
    obtain ⟨hlimit, hcap, _⟩ := Box.vertices_eq_ok hp
    rw [Zonotope.length_box] at hlimit hcap
    exact ⟨hlimit, hcap⟩
  refine ⟨hdim.1, hdim.2, ?_⟩
  rw [enumerateRegion_eq h z hdim.1 hdim.2] at he
  exact (Except.ok.inj he).symm

/-- Whatever the method, a quantized region is the box between the rounded ends. -/
theorem quantizeRegion_eq_ok (h : f.Valid) {z q : Zonotope ℚ} {method used : RegionMethod}
    {limit : Nat} (hq : f.quantizeRegion z method limit = .ok (q, used)) :
    q = .ofBox (f.roundedBox z.box) := by
  unfold quantizeRegion at hq
  split at hq
  · rw [closedRegion_eq h z] at hq
    cases hq
    rfl
  · obtain ⟨q', he, hq⟩ := bind_eq_ok.mp hq
    cases hq
    exact (enumerateRegion_eq_ok h he).2.2

/-- The method can be applied to a region of dimension `dim`: enumeration needs a dimension within
the limit and below the cap. -/
def Admits (method : RegionMethod) (dim limit : Nat) : Prop :=
  method.applied dim limit = .perDimension ∨ (dim ≤ limit ∧ dim < Box.enumerationCap)

/-- Only a method that can be applied quantizes a region. -/
theorem admits_of_quantizeRegion_ok (h : f.Valid) {z q : Zonotope ℚ} {method used : RegionMethod}
    {limit : Nat} (hq : f.quantizeRegion z method limit = .ok (q, used)) :
    Admits method z.dim limit := by
  unfold quantizeRegion at hq
  split at hq
  · next hm => exact Or.inl hm
  · obtain ⟨q', he, _⟩ := bind_eq_ok.mp hq
    obtain ⟨hlimit, hcap, _⟩ := enumerateRegion_eq_ok h he
    exact Or.inr ⟨hlimit, hcap⟩

theorem quantizeRegion_eq (h : f.Valid) (z : Zonotope ℚ) {method : RegionMethod} {limit : Nat}
    (hm : Admits method z.dim limit) :
    ∃ used, f.quantizeRegion z method limit = .ok (.ofBox (f.roundedBox z.box), used) := by
  unfold quantizeRegion
  split
  · exact ⟨_, bind_eq_ok.mpr ⟨_, closedRegion_eq h z, rfl⟩⟩
  · next hn =>
    rcases hm with hm | ⟨hl, hcap⟩
    · exact absurd hm hn
    · exact ⟨_, bind_eq_ok.mpr ⟨_, enumerateRegion_eq h z hl hcap, rfl⟩⟩

/-! ## The box is exact -/

theorem hull_of_quantizeRegion_ok (h : f.Valid) {z q : Zonotope ℚ} {method used : RegionMethod}
    {limit : Nat} (hq : f.quantizeRegion z method limit = .ok (q, used)) :
    q.hull = .ok (f.roundedBox z.box) := by
  rw [quantizeRegion_eq_ok h hq, Zonotope.hull_eq,
    Zonotope.box_ofBox (f.roundedBox_lower_le_upper z.box_lower_le_upper)]

theorem used_ne_auto_of_quantizeRegion_ok {z q : Zonotope ℚ} {method used : RegionMethod} {limit : Nat}
    (hq : f.quantizeRegion z method limit = .ok (q, used)) : used ≠ .auto := by
  unfold quantizeRegion at hq
  split at hq
  · obtain ⟨_, _, hq⟩ := bind_eq_ok.mp hq
    cases hq
    decide
  · obtain ⟨_, _, hq⟩ := bind_eq_ok.mp hq
    cases hq
    decide

/-- A rounded point lies in the box between the rounded ends, coordinate by coordinate. -/
theorem rounded_value_within_box (f : Format) (z : Zonotope ℚ) {noise : List ℚ}
    (h : Zonotope.IsNoise z.order noise) :
    List.Forall₂ (fun (b : Bound ℚ) y => b.contains y = true) (f.roundedBox z.box)
      ((z.value noise).map f.rounded) := by
  rw [roundedBox, List.forall₂_map_left_iff, List.forall₂_map_right_iff]
  refine (z.value_forall₂_box h).flip.imp fun b x hx => ?_
  exact Bound.contains_iff.mpr ⟨f.rounded_mono hx.1, f.rounded_mono hx.2⟩

/-- A quantized region is the smallest box around the rounded points of the region, whatever the
method.  Every rounded point lies in its interval hull, and each end of an interval is the rounded
coordinate of a point of the region.  The reported method is never `auto`. -/
theorem quantizeRegion_exact (f : Format) (hf : f.validate = .ok ()) (z q : Zonotope ℚ)
    (method used : RegionMethod) (limit : Nat)
    (hq : f.quantizeRegion z method limit = .ok (q, used)) :
    ∃ hull, q.hull = .ok hull ∧ hull.length = z.dim ∧
      (∀ noise, Zonotope.IsNoise z.order noise →
        ∃ x y, z.pointAt noise = .ok x ∧ f.quantizeVec x = .ok y ∧
          List.Forall₂ (fun b e => b.contains e = true) hull y) ∧
      (∀ (i : Nat) (hi : i < hull.length),
        (∃ x ∈ z, ∃ hx : i < x.length, f.quantize x[i] = .ok hull[i].lower) ∧
          ∃ x ∈ z, ∃ hx : i < x.length, f.quantize x[i] = .ok hull[i].upper) ∧
      used ≠ .auto := by
  have hv := validateAs_eq_ok.mp hf
  refine ⟨_, hull_of_quantizeRegion_ok hv hq, by simp, fun noise hn => ?_, fun i hi => ⟨?_, ?_⟩,
    used_ne_auto_of_quantizeRegion_ok hq⟩
  · exact ⟨_, _, z.pointAt_eq hn.length_eq, quantizeVec_eq hv _, f.rounded_value_within_box z hn⟩
  · obtain ⟨x, hx, hxi, he⟩ := z.exists_mem_lower (i := i) (by simpa using hi)
    refine ⟨x, hx, hxi, ?_⟩
    simp [quantize_eq hv, he, roundedBox]
  · obtain ⟨x, hx, hxi, he⟩ := z.exists_mem_upper (i := i) (by simpa using hi)
    refine ⟨x, hx, hxi, ?_⟩
    simp [quantize_eq hv, he, roundedBox]

/-- Three coordinates on two symbols: the first and the last depend on both, the second is fixed. -/
def skewRegion : Zonotope ℚ where
  center := [0, 1 / 3, 1 / 4]
  generators := ⟨2, [[1 / 4, 1 / 8], [0, 0], [1, -1 / 2]], by decide⟩
  height_eq := rfl

/-- The last coordinate of `skewRegion` reaches from `-5/4` to `7/4`, beyond both ends of the
format, and its rounded interval has those ends. -/
theorem skewRegion_quantized :
    (⟨.symmetric, 8, 8⟩ : Format).validate = .ok () ∧
      ∃ q used, (⟨.symmetric, 8, 8⟩ : Format).quantizeRegion skewRegion .auto 16 = .ok (q, used) ∧
        q.hull = .ok [⟨-3 / 8, 3 / 8⟩, ⟨85 / 256, 85 / 256⟩, ⟨-1 / 2, 127 / 256⟩] ∧
        (∃ x ∈ skewRegion, ∃ hx : 2 < x.length,
          (⟨.symmetric, 8, 8⟩ : Format).quantize x[2] = .ok (127 / 256)) ∧
        used ≠ .auto := by
  have hf : (⟨.symmetric, 8, 8⟩ : Format).validate = .ok () := rfl
  have hv := validateAs_eq_ok.mp hf
  have hm : Admits .auto skewRegion.dim 16 := .inr ⟨by decide, by decide⟩
  have hbox : roundedBox ⟨.symmetric, 8, 8⟩ skewRegion.box =
      [⟨-3 / 8, 3 / 8⟩, ⟨85 / 256, 85 / 256⟩, ⟨-1 / 2, 127 / 256⟩] := by
    decide +kernel
  obtain ⟨used, hq⟩ := quantizeRegion_eq hv skewRegion hm
  obtain ⟨hull, hh, _, _, hends, hused⟩ := quantizeRegion_exact _ hf skewRegion _ .auto used 16 hq
  have hhull := (hull_of_quantizeRegion_ok hv hq).trans (congrArg Except.ok hbox)
  cases hh.symm.trans hhull
  exact ⟨hf, _, used, hq, hhull, (hends 2 (by decide)).2, hused⟩

/-! ## The method that chooses for itself -/

/-- What `auto` does with a region.  Above the limit it takes the closed form; within the limit it
enumerates corners, and the box is the same.  The limit does not know of the cap: a region of 64
dimensions or more that is within the limit is refused, although the closed form has its box. -/
theorem quantizeRegion_auto (f : Format) (hf : f.validate = .ok ()) (z : Zonotope ℚ)
    (limit : Nat) :
    ∃ q, f.closedRegion z = .ok q ∧
      f.quantizeRegion z .auto limit =
        if limit < z.dim then .ok (q, .perDimension)
        else if z.dim < 64 then .ok (q, .vertexEnumeration)
        else refuse (.dimensionLimit z.dim limit) := by
  have hv := validateAs_eq_ok.mp hf
  refine ⟨_, closedRegion_eq hv z, ?_⟩
  unfold quantizeRegion RegionMethod.applied
  rcases lt_or_ge limit z.dim with hlimit | hlimit
  · simp only [if_pos hlimit, if_neg (not_le.mpr hlimit)]
    rw [closedRegion_eq hv z]
    rfl
  · simp only [if_pos hlimit, if_neg (not_lt.mpr hlimit)]
    rcases lt_or_ge z.dim 64 with hcap | hcap
    · rw [if_pos hcap, enumerateRegion_eq hv z hlimit hcap]
      rfl
    · rw [if_neg (not_lt.mpr hcap), enumerateRegion_refused f z (.inr hcap)]
      rfl

def wideOrigin : Zonotope ℚ := .point (List.replicate 64 0)

/-- With the limit 64 the origin of 64 dimensions is refused for exceeding the limit; with the
lower limit 63 it is not. -/
theorem wideOrigin_auto_refused :
    (⟨.symmetric, 8, 8⟩ : Format).validate = .ok () ∧
      ∃ q, (⟨.symmetric, 8, 8⟩ : Format).closedRegion wideOrigin = .ok q ∧
        (⟨.symmetric, 8, 8⟩ : Format).quantizeRegion wideOrigin .auto 64 =
          refuse (.dimensionLimit 64 64) ∧
        (⟨.symmetric, 8, 8⟩ : Format).quantizeRegion wideOrigin .auto 63 =
          .ok (q, .perDimension) := by
  have hdim : wideOrigin.dim = 64 := List.length_replicate
  obtain ⟨q, hq, h₆₄⟩ := quantizeRegion_auto ⟨.symmetric, 8, 8⟩ rfl wideOrigin 64
  obtain ⟨q', hq', h₆₃⟩ := quantizeRegion_auto ⟨.symmetric, 8, 8⟩ rfl wideOrigin 63
  cases hq.symm.trans hq'
  rw [hdim] at h₆₄ h₆₃
  exact ⟨rfl, q, hq, h₆₄, h₆₃⟩

end QuantEnclosure.Format
