import QuantEnclosure.Proofs.Relaxation.RealPoints

/-!
The range of the deviation is exact.  Each of its ends is one of a few numbers: the deviation at an
end of the interval, or one side of the first or the last rise (`ends_deviationRange`).  The upper
side of a rise is the deviation at the rise, the lower side its limit from the left, so every
number of the list is attained or approached inside the interval.  With the bound over the whole
interval this makes the ends the infimum and the supremum.
-/

namespace QuantEnclosure

open Scalar Filter Topology

def stairDeviation (c : ℤ) (slope x : ℚ) : ℚ := deviation slope x (stair c x)

/-- The rise from `k` to `k + 1` is one of the staircase and lies in the interval, after its lower
end. -/
structure RisesIn (b : Bound ℚ) (c k : ℤ) : Prop where
  nonneg : 0 ≤ k
  lt_ceiling : k < c
  lower_lt : b.lower < k + 1 / 2
  le_upper : (k : ℚ) + 1 / 2 ≤ b.upper

/-- `e` is the deviation at a point of the interval, or its limit from the left at a rise. -/
def Approached (b : Bound ℚ) (c : ℤ) (slope e : ℚ) : Prop :=
  (∃ x ∈ b, stairDeviation c slope x = e) ∨
    ∃ k, RisesIn b c k ∧ Tendsto (stairDeviation c slope) (𝓝[<] ((k : ℚ) + 1 / 2)) (𝓝 e)

section

variable {b range : Bound ℚ} {c k : ℤ} {slope : ℚ}

/-! ## The two sides of a rise -/

theorem stair_rise (h₀ : 0 ≤ k) (hc : k < c) : stair c (k + 1 / 2) = k + 1 := by
  have h := stair_eq (c := c) (k := k + 1) (x := k + 1 / 2) (by omega) (by omega)
    (fun _ => by push_cast; linarith) (fun _ => by push_cast; linarith)
  push_cast at h
  exact h

/-- The upper side is attained at the rise. -/
theorem RisesIn.approached_above (h : RisesIn b c k) :
    Approached b c slope (deviation slope (k + 1 / 2) (k + 1)) := by
  refine .inl ⟨k + 1 / 2, ⟨h.lower_lt.le, h.le_upper⟩, ?_⟩
  rw [stairDeviation, stair_rise h.nonneg h.lt_ceiling]

/-- Just below a rise the staircase is still at `k`. -/
theorem stair_eventually_eq (h₀ : 0 ≤ k) (hc : k < c) :
    ∀ᶠ x in 𝓝[<] ((k : ℚ) + 1 / 2), stair c x = k := by
  have hstep : (k : ℚ) - 1 / 2 < k + 1 / 2 := by linarith
  filter_upwards [Ioo_mem_nhdsLT hstep] with x hx
  exact stair_eq h₀ hc.le (fun _ => hx.1.le) fun _ => hx.2

/-- The lower side is the limit from the left. -/
theorem RisesIn.approached_below (h : RisesIn b c k) :
    Approached b c slope (deviation slope (k + 1 / 2) k) := by
  refine .inr ⟨k, h, ?_⟩
  have hline : Continuous fun x => deviation slope x k := by
    unfold deviation
    fun_prop
  refine Tendsto.congr' ?_ (hline.tendsto _ |>.mono_left nhdsWithin_le_nhds)
  filter_upwards [stair_eventually_eq h.nonneg h.lt_ceiling] with x hx
  rw [stairDeviation, hx]

/-! ## The ends of the range -/

def Bound.Ends (P : ℚ → Prop) (b : Bound ℚ) : Prop := P b.lower ∧ P b.upper

theorem Bound.Ends.insert {P : ℚ → Prop} (h : range.Ends P) {x : ℚ} (hx : P x) :
    (range.insert x).Ends P := by
  simp only [Bound.Ends, Bound.insert, lesser_eq_min, greater_eq_max]
  constructor
  · rcases min_choice range.lower x with he | he
    · rw [he]
      exact h.1
    · rw [he]
      exact hx
  · rcases max_choice range.upper x with he | he
    · rw [he]
      exact h.2
    · rw [he]
      exact hx

theorem ends_endDeviations (hb : b.lower ≤ b.upper) :
    (endDeviations b c slope).Ends (Approached b c slope) := by
  have hl : Approached b c slope (deviation slope b.lower (stair c b.lower)) :=
    .inl ⟨b.lower, ⟨le_rfl, hb⟩, rfl⟩
  have hu : Approached b c slope (deviation slope b.upper (stair c b.upper)) :=
    .inl ⟨b.upper, ⟨hb, le_rfl⟩, rfl⟩
  exact Bound.Ends.insert ⟨hl, hl⟩ hu

theorem ends_insertRise (h₀ : 0 ≤ k) (hc : k < c) (h : range.Ends (Approached b c slope)) :
    (insertRise b slope range k).Ends (Approached b c slope) := by
  unfold insertRise
  simp only [half_eq]
  split
  · next hin =>
    have hrise : RisesIn b c k := ⟨h₀, hc, hin.1, hin.2⟩
    exact (h.insert hrise.approached_below).insert hrise.approached_above
  · exact h

/-- Both ends of the range are attained or approached in the interval. -/
theorem ends_deviationRange (hb : b.lower ≤ b.upper) :
    (deviationRange b c slope).Ends (Approached b c slope) := by
  have hfirst : max ((⌊b.lower - 1 / 2⌋ : ℚ) + 1) 0 = (max (⌊b.lower - 1 / 2⌋ + 1) 0 : ℤ) := by
    push_cast
    rfl
  have hlast : min (⌊b.upper - 1 / 2⌋ : ℚ) (c - 1) = (min ⌊b.upper - 1 / 2⌋ (c - 1) : ℤ) := by
    push_cast
    rfl
  unfold deviationRange
  simp only [hfirst, hlast, Int.cast_le]
  generalize hf : max (⌊b.lower - 1 / 2⌋ + 1) 0 = first
  generalize hg : min ⌊b.upper - 1 / 2⌋ (c - 1) = last
  have h₀ : 0 ≤ first := by omega
  have hc : last < c := by omega
  split
  · next hle =>
    exact ends_insertRise (by omega) hc
      (ends_insertRise h₀ (by omega) (ends_endDeviations hb))
  · exact ends_endDeviations hb

/-! ## Infimum and supremum -/

def deviations (b : Bound ℚ) (c : ℤ) (slope : ℚ) : Set ℚ :=
  stairDeviation c slope '' {x | x ∈ b}

theorem Approached.mem_closure {e : ℚ} (h : Approached b c slope e) :
    e ∈ closure (deviations b c slope) := by
  rcases h with ⟨x, hx, he⟩ | ⟨k, hk, hlim⟩
  · exact subset_closure ⟨x, hx, he⟩
  · refine mem_closure_of_tendsto hlim ?_
    filter_upwards [Ioo_mem_nhdsLT hk.lower_lt] with x hx
    exact ⟨x, ⟨hx.1.le, hx.2.le.trans hk.le_upper⟩, rfl⟩

theorem isGLB_deviationRange (hc : 0 ≤ c) (hb : b.lower ≤ b.upper) :
    IsGLB (deviations b c slope) (deviationRange b c slope).lower := by
  refine isGLB_of_mem_closure ?_ (ends_deviationRange hb).1.mem_closure
  rintro _ ⟨x, hx, rfl⟩
  exact (deviation_mem_range slope hc hx).1

theorem isLUB_deviationRange (hc : 0 ≤ c) (hb : b.lower ≤ b.upper) :
    IsLUB (deviations b c slope) (deviationRange b c slope).upper := by
  refine isLUB_of_mem_closure ?_ (ends_deviationRange hb).2.mem_closure
  rintro _ ⟨x, hx, rfl⟩
  exact (deviation_mem_range slope hc hx).2

end

/-- With an integer ceiling from one on and any slope, the range that `staircaseDeviation` computes
is that of the deviations over the interval: its ends are their infimum and their supremum, and
each is the deviation at a point of the interval or the limit from the left at a rise inside it.
The deviations at real numbers stay between the same ends, and `stair` is what `roundClamp`
gives. -/
theorem staircaseDeviation_exact (b : Bound ℚ) (hb : b.lower ≤ b.upper) (c : ℤ) (hc : 1 ≤ c)
    (slope : ℚ) :
    ∃ range, staircaseDeviation b (c : ℚ) slope = .ok range ∧
      IsGLB (deviations b c slope) range.lower ∧ IsLUB (deviations b c slope) range.upper ∧
      Approached b c slope range.lower ∧ Approached b c slope range.upper ∧
      (∀ x : ℝ, b.lower ≤ x → x ≤ b.upper →
        range.lower ≤ realStair c x - slope * x ∧ realStair c x - slope * x ≤ range.upper) ∧
      ∀ x : ℚ, roundClamp (c : ℚ) x = .ok (stair c x) := by
  have hc₀ : 0 ≤ c := by omega
  have hceiling : (0 : ℚ) ≤ c := by exact_mod_cast hc₀
  obtain ⟨hlower, hupper⟩ : (deviationRange b c slope).Ends (Approached b c slope) :=
    ends_deviationRange hb
  refine ⟨deviationRange b c slope, staircaseDeviation_eq hceiling b slope,
    isGLB_deviationRange hc₀ hb, isLUB_deviationRange hc₀ hb, hlower, hupper,
    fun x hl hu => ?_, roundClamp_eq hceiling⟩
  obtain ⟨h₁, h₂⟩ := realStair_mem_band hc₀ (fun y hy => deviation_mem_range slope hc₀ hy) hl hu
  exact ⟨by linarith, by linarith⟩

/-- The interval begins at one rise and holds the next one, at `3/2`: there the infimum `-1/2` is
approached from the left. -/
theorem stepFromRise_exact :
    staircaseDeviation (⟨1 / 2, 7 / 4⟩ : Bound ℚ) 2 1 = .ok ⟨-1 / 2, 1 / 2⟩ ∧
      IsGLB (deviations ⟨1 / 2, 7 / 4⟩ 2 1) (-1 / 2) ∧
      IsLUB (deviations ⟨1 / 2, 7 / 4⟩ 2 1) (1 / 2) := by
  have hr : staircaseDeviation (⟨1 / 2, 7 / 4⟩ : Bound ℚ) 2 1 = .ok ⟨-1 / 2, 1 / 2⟩ := by
    decide +kernel
  obtain ⟨range, hok, hglb, hlub, _⟩ :=
    staircaseDeviation_exact ⟨1 / 2, 7 / 4⟩ (by norm_num) 2 (by decide) 1
  cases hok.symm.trans hr
  exact ⟨hr, hglb, hlub⟩

end QuantEnclosure
