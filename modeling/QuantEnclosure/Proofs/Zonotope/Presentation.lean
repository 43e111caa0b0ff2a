import QuantEnclosure.Proofs.Zonotope.Tightness

/-!
The same set of points from different generators, in exact arithmetic.  The points of a zonotope
determine its interval hull (`box_eq_of_mem_iff`), because both ends of every interval are attained;
so they determine its center and its radii.  Generator columns in another order, with other signs or
with columns of zeros behind them stand for the same points (`Relabeled.mem_iff`).
-/

namespace QuantEnclosure

/-! ## Columns -/

namespace Matrix

def column (m : Matrix ℚ) (j : Nat) : List ℚ := m.rows.map fun r => r[j]?.getD 0

def columns (m : Matrix ℚ) : List (List ℚ) := (List.range m.cols).map m.column

@[simp] theorem length_columns (m : Matrix ℚ) : m.columns.length = m.cols := by
  simp [columns]

/-- A row is made of the entries of the columns. -/
theorem row_eq_columns (m : Matrix ℚ) {i : Nat} (hi : i < m.rows.length) :
    m.rows[i] = m.columns.map fun g => g[i]?.getD 0 := by
  have hw := m.width_eq _ (List.getElem_mem hi)
  apply List.ext_getElem
  · simp [hw]
  · intro j hj _
    simp [columns, column, List.getElem?_eq_getElem hi, List.getElem?_eq_getElem hj]

end Matrix

namespace Zonotope

open QuantEnclosure.Matrix

/-! ## Noise vectors, entry by entry -/

theorem isNoise_cons {n : Nat} {e : ℚ} {w : List ℚ} :
    IsNoise (n + 1) (e :: w) ↔ (-1 ≤ e ∧ e ≤ 1) ∧ IsNoise n w := by
  constructor
  · rintro ⟨hlen, hw⟩
    exact ⟨hw e (List.mem_cons_self ..), by simpa using hlen,
      fun x hx => hw x (List.mem_cons_of_mem _ hx)⟩
  · rintro ⟨he, hlen, hw⟩
    refine ⟨by simp [hlen], fun x hx => ?_⟩
    rcases List.mem_cons.mp hx with rfl | hx
    · exact he
    · exact hw x hx

/-- The noise of two groups of symbols is noise of each of them. -/
theorem IsNoise.split {m k : Nat} {w : List ℚ} (h : IsNoise (m + k) w) :
    ∃ u v, w = u ++ v ∧ IsNoise m u ∧ IsNoise k v := by
  have hlen := h.length_eq
  refine ⟨w.take m, w.drop m, (List.take_append_drop m w).symm, ⟨?_, ?_⟩, ⟨?_, ?_⟩⟩
  · simp [hlen]
  · exact fun e he => h.within e (List.mem_of_mem_take he)
  · simp [hlen]
  · exact fun e he => h.within e (List.mem_of_mem_drop he)

theorem length_of_mem {z : Zonotope ℚ} {x : List ℚ} (h : x ∈ z) : x.length = z.dim := by
  obtain ⟨noise, _, rfl⟩ := mem_iff_exists_value.mp h
  exact length_value z noise

/-! ## The points determine the hull -/

theorem exists_mem_lower (z : Zonotope ℚ) {i : Nat} (hi : i < z.box.length) :
    ∃ x ∈ z, ∃ hx : i < x.length, x[i] = z.box[i].lower := by
  obtain ⟨noise, hn, he⟩ := z.exists_corner_lower hi
  exact ⟨_, z.value_mem hn.isNoise, List.getElem?_eq_some_iff.mp he⟩

theorem exists_mem_upper (z : Zonotope ℚ) {i : Nat} (hi : i < z.box.length) :
    ∃ x ∈ z, ∃ hx : i < x.length, x[i] = z.box[i].upper := by
  obtain ⟨noise, hn, he⟩ := z.exists_corner_upper hi
  exact ⟨_, z.value_mem hn.isNoise, List.getElem?_eq_some_iff.mp he⟩

theorem mem_box_of_mem {z : Zonotope ℚ} {x : List ℚ} (h : x ∈ z) (i : Nat)
    (hb : i < z.box.length) (hx : i < x.length) : x[i] ∈ z.box[i] := by
  obtain ⟨noise, hn, rfl⟩ := mem_iff_exists_value.mp h
  exact z.value_mem_box hn i hb hx

/-- More points have a wider hull. -/
theorem box_subset {z z' : Zonotope ℚ} (h : ∀ x ∈ z, x ∈ z') (i : Nat) (hb : i < z.box.length)
    (hb' : i < z'.box.length) :
    z'.box[i].lower ≤ z.box[i].lower ∧ z.box[i].upper ≤ z'.box[i].upper := by
  obtain ⟨x, hx, hi, hl⟩ := z.exists_mem_lower hb
  obtain ⟨y, hy, hj, hu⟩ := z.exists_mem_upper hb
  rw [← hl, ← hu]
  exact ⟨(mem_box_of_mem (h x hx) i hb' hi).1, (mem_box_of_mem (h y hy) i hb' hj).2⟩

/-- Zonotopes with the same points have the same interval hull. -/
theorem box_eq_of_mem_iff {z z' : Zonotope ℚ} (h : ∀ x, x ∈ z ↔ x ∈ z') : z.box = z'.box := by
  have hdim : z.dim = z'.dim := by
    have hzero : IsNoise z.order (List.replicate z.order 0) := ⟨by simp, by simp⟩
    have hpoint := z.value_mem hzero
    rw [← length_of_mem hpoint, length_of_mem ((h _).mp hpoint)]
  apply List.ext_getElem (by simp [hdim])
  intro i hb hb'
  have h₁ := box_subset (fun x => (h x).mp) i hb hb'
  have h₂ := box_subset (fun x => (h x).mpr) i hb' hb
  have hlower := le_antisymm h₂.1 h₁.1
  have hupper := le_antisymm h₁.2 h₂.2
  cases hz : z.box[i]
  cases hz' : z'.box[i]
  simp_all

theorem center_eq_midpoints (z : Zonotope ℚ) : z.center = z.box.map Bound.midpoint := by
  apply List.ext_getElem
  · simp
  · intro i _ _
    simp only [box, List.getElem_map, List.getElem_zipWith, Bound.midpoint, Scalar.half_eq]
    ring

theorem radii_eq_radius (z : Zonotope ℚ) : z.radii = z.box.map Bound.radius := by
  apply List.ext_getElem
  · simp
  · intro i _ _
    simp only [box, List.getElem_map, List.getElem_zipWith, Bound.radius, Scalar.half_eq]
    ring

/-! ## The points of derived zonotopes -/

theorem mem_sum {a b s : Zonotope ℚ} (h : a.sum b = .ok s) {p : List ℚ} :
    p ∈ s ↔ ∃ x ∈ a, ∃ y ∈ b, p = Vec.add x y := by
  obtain ⟨_, _, hg⟩ := sum_eq_ok h
  have horder : s.order = a.order + b.order := by
    rw [← cols_generators, hg]
    rfl
  rw [mem_iff_exists_value, horder]
  constructor
  · rintro ⟨noise, hn, rfl⟩
    obtain ⟨v, w, rfl, hv, hw⟩ := hn.split
    exact ⟨_, a.value_mem hv, _, b.value_mem hw, value_sum h hv.length_eq⟩
  · rintro ⟨x, hx, y, hy, rfl⟩
    obtain ⟨v, hv, rfl⟩ := mem_iff_exists_value.mp hx
    obtain ⟨w, hw, rfl⟩ := mem_iff_exists_value.mp hy
    exact ⟨v ++ w, hv.append hw, value_sum h hv.length_eq⟩

theorem mem_scale {f : ℚ} {z : Zonotope ℚ} {p : List ℚ} :
    p ∈ z.scale f ↔ ∃ x ∈ z, p = Vec.scale f x := by
  rw [mem_iff_exists_value, order_scale]
  constructor
  · rintro ⟨noise, hn, rfl⟩
    exact ⟨_, z.value_mem hn, value_scale f z noise⟩
  · rintro ⟨x, hx, rfl⟩
    obtain ⟨noise, hn, rfl⟩ := mem_iff_exists_value.mp hx
    exact ⟨noise, hn, value_scale f z noise⟩

theorem mem_pad {z : Zonotope ℚ} {k : Nat} {p : List ℚ} : p ∈ z.pad k ↔ p ∈ z := by
  rw [mem_iff_exists_value, mem_iff_exists_value, order_pad]
  constructor
  · rintro ⟨noise, hn, rfl⟩
    obtain ⟨v, w, rfl, hv, _⟩ := hn.split
    exact ⟨v, hv, (z.value_pad k hv.length_eq).symm⟩
  · rintro ⟨v, hv, rfl⟩
    have hzero : IsNoise k (List.replicate k 0) := ⟨by simp, by simp⟩
    exact ⟨v ++ List.replicate k 0, hv.append hzero, z.value_pad k hv.length_eq⟩

/-! ## Other names for the noise symbols -/

abbrev SameUpToSign (g g' : List ℚ) : Prop := g' = g ∨ g' = g.map (- ·)

theorem SameUpToSign.symm {g g' : List ℚ} (h : SameUpToSign g g') : SameUpToSign g' g := by
  rcases h with rfl | rfl
  · exact Or.inl rfl
  · exact Or.inr (by simp)

/-- The other zonotope has the same generator columns in another order, or with other signs, or
with columns of zeros behind them, or comes from several such changes. -/
inductive Relabeled : Zonotope ℚ → Zonotope ℚ → Prop
  | permuted {z z' : Zonotope ℚ} (center : z'.center = z.center)
      (columns : z.generators.columns.Perm z'.generators.columns) : Relabeled z z'
  | flipped {z z' : Zonotope ℚ} (center : z'.center = z.center)
      (columns : List.Forall₂ SameUpToSign z.generators.columns z'.generators.columns) :
      Relabeled z z'
  | padded (z : Zonotope ℚ) (k : Nat) : Relabeled z (z.pad k)
  | trans {z₁ z₂ z₃ : Zonotope ℚ} : Relabeled z₁ z₂ → Relabeled z₂ z₃ → Relabeled z₁ z₃

/-- What noise on the columns `gs` reaches, noise on the columns `gs'` reaches too, coordinate by
coordinate. -/
def Covers (gs' gs : List (List ℚ)) : Prop :=
  ∀ noise, IsNoise gs.length noise → ∃ noise', IsNoise gs'.length noise' ∧
    ∀ i : Nat, dot (gs'.map fun g => g[i]?.getD 0) noise' = dot (gs.map fun g => g[i]?.getD 0) noise

theorem covers_nil : Covers [] [] := fun noise hn => ⟨noise, hn, fun _ => rfl⟩

/-- One more column on both sides, if need be with the other sign, which its noise then takes. -/
theorem Covers.cons {g g' : List ℚ} {gs gs' : List (List ℚ)} (hg : SameUpToSign g g')
    (h : Covers gs' gs) : Covers (g' :: gs') (g :: gs) := by
  intro noise hn
  cases noise with
  | nil => exact absurd hn.length_eq (by simp)
  | cons e noise =>
    obtain ⟨⟨hl, hu⟩, hn⟩ := isNoise_cons.mp hn
    obtain ⟨noise', hn', hdot⟩ := h noise hn
    rcases hg with rfl | rfl
    · exact ⟨e :: noise', isNoise_cons.mpr ⟨⟨hl, hu⟩, hn'⟩, fun i => by simp [hdot i]⟩
    · refine ⟨-e :: noise', isNoise_cons.mpr ⟨⟨by linarith, by linarith⟩, hn'⟩, fun i => ?_⟩
      have hentry : (g.map (- ·))[i]?.getD 0 = -g[i]?.getD 0 := by
        cases hi : g[i]? <;> simp [hi]
      simp only [List.map_cons, dot_cons, hentry, hdot i]
      ring

/-- The noise of two symbols changes places with their columns. -/
theorem covers_swap (g₁ g₂ : List ℚ) (gs : List (List ℚ)) :
    Covers (g₁ :: g₂ :: gs) (g₂ :: g₁ :: gs) := by
  intro noise hn
  match noise, hn with
  | [], hn => exact absurd hn.length_eq (by simp)
  | [_], hn => exact absurd hn.length_eq (by simp)
  | e₁ :: e₂ :: noise, hn =>
    obtain ⟨he₁, hn⟩ := isNoise_cons.mp hn
    obtain ⟨he₂, hn⟩ := isNoise_cons.mp hn
    refine ⟨e₂ :: e₁ :: noise, isNoise_cons.mpr ⟨he₂, isNoise_cons.mpr ⟨he₁, hn⟩⟩, fun i => ?_⟩
    simp only [List.map_cons, dot_cons]
    ring

theorem Covers.trans {gs₁ gs₂ gs₃ : List (List ℚ)} (h₁ : Covers gs₂ gs₁) (h₂ : Covers gs₃ gs₂) :
    Covers gs₃ gs₁ := by
  intro noise hn
  obtain ⟨noise₁, hn₁, hdot₁⟩ := h₁ noise hn
  obtain ⟨noise₂, hn₂, hdot₂⟩ := h₂ noise₁ hn₁
  exact ⟨noise₂, hn₂, fun i => (hdot₂ i).trans (hdot₁ i)⟩

theorem covers_of_perm {gs gs' : List (List ℚ)} (h : gs.Perm gs') : Covers gs' gs := by
  induction h with
  | nil => exact covers_nil
  | cons g _ ih => exact ih.cons (Or.inl rfl)
  | swap g₁ g₂ gs => exact covers_swap g₁ g₂ gs
  | trans _ _ ih₁ ih₂ => exact ih₁.trans ih₂

theorem covers_of_flip {gs gs' : List (List ℚ)} (h : List.Forall₂ SameUpToSign gs gs') :
    Covers gs' gs := by
  induction h with
  | nil => exact covers_nil
  | cons hg _ ih => exact ih.cons hg

theorem mem_of_covers {z z' : Zonotope ℚ} (hc : z'.center = z.center)
    (h : Covers z'.generators.columns z.generators.columns) {x : List ℚ} (hx : x ∈ z) : x ∈ z' := by
  obtain ⟨noise, hn, rfl⟩ := mem_iff_exists_value.mp hx
  obtain ⟨noise', hn', hdot⟩ := h noise (by simpa using hn)
  have hdim : z'.dim = z.dim := by rw [← length_center, hc, length_center]
  refine mem_iff_exists_value.mpr ⟨noise', by simpa using hn', ?_⟩
  rw [value, value, hc]
  congr 1
  apply List.ext_getElem
  · simp [hdim]
  · intro i hi' hi
    have hrow : i < z.generators.rows.length := by simpa using hi
    have hrow' : i < z'.generators.rows.length := by simpa using hi'
    simp only [mulVec, List.getElem_map]
    rw [row_eq_columns _ hrow, row_eq_columns _ hrow', hdot i]

/-- Other names for the noise symbols stand for the same points. -/
theorem Relabeled.mem_iff {z z' : Zonotope ℚ} (h : Relabeled z z') (x : List ℚ) :
    x ∈ z ↔ x ∈ z' := by
  induction h with
  | permuted center columns =>
    exact ⟨mem_of_covers center (covers_of_perm columns),
      mem_of_covers center.symm (covers_of_perm columns.symm)⟩
  | flipped center columns =>
    exact ⟨mem_of_covers center (covers_of_flip columns),
      mem_of_covers center.symm (covers_of_flip (columns.flip.imp fun _ _ => SameUpToSign.symm))⟩
  | padded z k => exact mem_pad.symm
  | trans _ _ ih₁ ih₂ => exact ih₁.trans ih₂

end Zonotope

end QuantEnclosure
