import QuantEnclosure.Format.Config
import QuantEnclosure.Format.Region
import QuantEnclosure.Relaxation.RoundClamp
import QuantEnclosure.Proofs.Shape
import QuantEnclosure.Proofs.Zonotope.Hull

/-!
The errors with which a computation can be refused, in any arithmetic.  `RefusesOnly P x` says
that every refusal of `x` satisfies `P`; it is followed through a computation part by part.
Numbers by themselves only violate preconditions, which is no refusal.  Zonotopes refuse numbers
that are not finite, and a region refuses to enumerate too many corners; no shape is ever refused
where the dimensions fit.
-/

namespace QuantEnclosure

open Scalar

/-- Every error with which the computation is refused satisfies `P`. -/
def RefusesOnly {β : Type} (P : AnalysisError → Prop) (x : Outcome β) : Prop :=
  ∀ e, x = .error (.refused e) → P e

namespace AnalysisError

def IsInstability (e : AnalysisError) : Prop := ∃ reason, e = numericalInstability reason

def IsInvalidConfig (e : AnalysisError) : Prop := ∃ reason, e = invalidConfig reason

end AnalysisError

section

variable {β γ : Type} {P : AnalysisError → Prop}

/-! ## Parts of a computation -/

/-- Whether a computation fails in a given way can be found out by running it. -/
instance (x : Outcome β) (g : Failure) : Decidable (x = .error g) :=
  match x with
  | .ok _ => isFalse nofun
  | .error f => decidable_of_iff (f = g) (by simp)

theorem bind_eq_error {x : Outcome β} {f : β → Outcome γ} {g : Failure} :
    (x >>= f) = .error g ↔ x = .error g ∨ ∃ a, x = .ok a ∧ f a = .error g := by
  cases x with
  | error e => simp [bind, Except.bind]
  | ok a => simp [bind, Except.bind]

theorem refusesOnly_ok (b : β) : RefusesOnly P (.ok b) := by
  intro e h
  cases h

theorem refusesOnly_violate (c : Precondition) : RefusesOnly P (violate c : Outcome β) := by
  intro e h
  cases h

theorem refusesOnly_refuse {e : AnalysisError} (h : P e) : RefusesOnly P (refuse e : Outcome β) := by
  intro e' he
  cases he
  exact h

theorem RefusesOnly.mono {Q : AnalysisError → Prop} {x : Outcome β} (h : RefusesOnly P x)
    (hPQ : ∀ e, P e → Q e) : RefusesOnly Q x :=
  fun e he => hPQ e (h e he)

theorem RefusesOnly.bind {x : Outcome β} {f : β → Outcome γ} (hx : RefusesOnly P x)
    (hf : ∀ b, x = .ok b → RefusesOnly P (f b)) : RefusesOnly P (x >>= f) := by
  intro e h
  rcases bind_eq_error.mp h with h | ⟨b, hb, h⟩
  · exact hx e h
  · exact hf b hb e h

/-- Two dimensions that agree are not refused. -/
theorem refusesOnly_ensureDim (context : String) {m n : Nat} (h : m = n) :
    RefusesOnly P (ensureDim context m n) := by
  rw [ensureDim_of_eq context h]
  exact refusesOnly_ok _

theorem refusesOnly_mapM {f : β → Outcome γ} {xs : List β} (h : ∀ x ∈ xs, RefusesOnly P (f x)) :
    RefusesOnly P (xs.mapM f) := by
  induction xs with
  | nil => exact refusesOnly_ok []
  | cons x xs ih =>
    rw [List.mapM_cons]
    refine (h x (List.mem_cons_self ..)).bind fun y _ => ?_
    refine (ih fun z hz => h z (List.mem_cons_of_mem _ hz)).bind fun ys _ => ?_
    exact refusesOnly_ok _

theorem refusesOnly_forM {f : β → Outcome PUnit} {xs : List β}
    (h : ∀ x ∈ xs, RefusesOnly P (f x)) : RefusesOnly P (xs.forM f) := by
  induction xs with
  | nil => exact refusesOnly_ok _
  | cons x xs ih =>
    refine (h x (List.mem_cons_self ..)).bind fun _ _ => ?_
    exact ih fun z hz => h z (List.mem_cons_of_mem _ hz)

end

variable {α : Type} [Scalar α] {P : AnalysisError → Prop}

/-! ## Numbers -/

namespace Bound

theorem between_refusesOnly (l u : α) : RefusesOnly P (between l u) := by
  unfold between
  split
  · exact refusesOnly_ok _
  · exact refusesOnly_violate _

theorem around_refusesOnly (c r : α) : RefusesOnly P (around c r) := by
  unfold around
  split
  · exact refusesOnly_ok _
  · exact refusesOnly_violate _

end Bound

namespace Format

theorem negated_refusesOnly (s : Int32) : RefusesOnly P (negated s) := by
  unfold negated
  split
  · exact refusesOnly_violate _
  · exact refusesOnly_ok _

theorem step_refusesOnly (f : Format) : RefusesOnly P (f.step : Outcome α) :=
  (negated_refusesOnly f.scaling).bind fun _ _ => refusesOnly_ok _

theorem intRange_refusesOnly (f : Format) : RefusesOnly P (f.intRange : Outcome (α × α)) := by
  unfold intRange
  split
  · exact refusesOnly_ok _
  · split
    · exact refusesOnly_violate _
    · exact refusesOnly_ok _

/-- A format is refused for one of its faults. -/
theorem validateAs_refusesOnly (label : String) (f : Format) :
    RefusesOnly AnalysisError.IsInvalidConfig (f.validateAs label) := by
  have hfault : RefusesOnly AnalysisError.IsInvalidConfig f.fault? := by
    unfold fault?
    split
    · exact refusesOnly_ok _
    · split
      · exact refusesOnly_ok _
      · dsimp only
        split
        · exact (negated_refusesOnly _).bind fun _ _ => refusesOnly_ok _
        · exact refusesOnly_ok _
  refine hfault.bind fun fault _ => ?_
  cases fault with
  | none => exact refusesOnly_ok _
  | some fault => exact refusesOnly_refuse ⟨_, rfl⟩

theorem quantizer_refusesOnly (f : Format) : RefusesOnly P (f.quantizer : Outcome (α → α)) := by
  refine f.intRange_refusesOnly.bind fun range _ => ?_
  dsimp only
  split
  · exact f.step_refusesOnly.bind fun _ _ => refusesOnly_ok _
  · exact refusesOnly_violate _

theorem quantize_refusesOnly (f : Format) (x : α) : RefusesOnly P (f.quantize x) :=
  f.quantizer_refusesOnly.bind fun _ _ => refusesOnly_ok _

theorem errorRange_refusesOnly (f : Format) (b : Bound α) : RefusesOnly P (f.errorRange b) := by
  refine f.step_refusesOnly.bind fun s _ => ?_
  refine RefusesOnly.bind ?_ fun rep _ => Bound.between_refusesOnly _ _
  refine f.intRange_refusesOnly.bind fun range _ => ?_
  exact f.step_refusesOnly.bind fun _ _ => Bound.between_refusesOnly _ _

theorem quantizeBox_refusesOnly (f : Format) (bounds : List (Bound α)) :
    RefusesOnly P (f.quantizeBox bounds) := by
  refine refusesOnly_mapM fun b _ => ?_
  refine (f.quantize_refusesOnly b.lower).bind fun l _ => ?_
  exact (f.quantize_refusesOnly b.upper).bind fun u _ => Bound.between_refusesOnly l u

end Format

theorem Config.validate_refusesOnly (c : Config) :
    RefusesOnly AnalysisError.IsInvalidConfig c.validate :=
  refusesOnly_forM fun _ _ => Format.validateAs_refusesOnly _ _

theorem roundClamp_refusesOnly (ceiling x : α) : RefusesOnly P (roundClamp ceiling x) := by
  unfold roundClamp clamp
  split
  · exact refusesOnly_ok _
  · exact refusesOnly_violate _

theorem roundClampRelaxation_refusesOnly (b : Bound α) (ceiling : α) :
    RefusesOnly P (roundClampRelaxation b ceiling) := by
  unfold roundClampRelaxation
  refine (Bound.around_refusesOnly _ _).bind fun band _ => ?_
  refine RefusesOnly.bind ?_ fun range _ => ?_
  · refine (roundClamp_refusesOnly _ _).bind fun yl _ => ?_
    exact (roundClamp_refusesOnly _ _).bind fun yu _ => refusesOnly_ok _
  · split
    · exact refusesOnly_ok _
    · exact refusesOnly_ok _

/-! ## Zonotopes -/

namespace Zonotope

theorem hull_refusesOnly (z : Zonotope α) : RefusesOnly P z.hull :=
  refusesOnly_mapM fun p _ => Bound.around_refusesOnly p.1 p.2

theorem finiteHull_refusesOnly (z : Zonotope α) :
    RefusesOnly AnalysisError.IsInstability z.finiteHull := by
  refine z.hull_refusesOnly.bind fun bounds _ => ?_
  split
  · exact refusesOnly_ok _
  · exact refusesOnly_refuse ⟨_, rfl⟩

theorem ofParts_refusesOnly {center : List α} {generators : Matrix α}
    (h : center.length = generators.height) :
    RefusesOnly AnalysisError.IsInstability (ofParts center generators) := by
  refine (refusesOnly_ensureDim _ h).bind fun _ _ => ?_
  dsimp only
  split
  · exact refusesOnly_ok _
  · exact refusesOnly_refuse ⟨_, rfl⟩

omit [Scalar α] in
theorem appendColumns_refusesOnly {z : Zonotope α} {columns : Matrix α}
    (h : columns.height = z.dim) : RefusesOnly P (z.appendColumns columns) := by
  obtain ⟨z', hz, _⟩ := z.appendColumns_ok columns h
  rw [hz]
  exact refusesOnly_ok z'

theorem rowScaling_refusesOnly {factors : List α} {m : Matrix α} (h : m.height = factors.length) :
    RefusesOnly P (rowScaling factors m) := by
  rw [rowScaling_ok factors m h]
  exact refusesOnly_ok _

end Zonotope

/-! ## Boxes and regions -/

namespace Box

/-- Points of the dimension of a box are inserted without refusal. -/
theorem insertAll_refusesOnly {bounds : List (Bound α)} {ws : List (List α)}
    (h : ∀ w ∈ ws, w.length = bounds.length) : RefusesOnly P (insertAll bounds ws) := by
  induction ws generalizing bounds with
  | nil => exact refusesOnly_ok bounds
  | cons w ws ih =>
    have hw := h w (List.mem_cons_self ..)
    have hlen : (insert bounds w).length = bounds.length := by simp [insert, hw]
    refine (refusesOnly_ensureDim _ hw.symm).bind fun _ _ => ih fun v hv => ?_
    rw [hlen]
    exact h v (List.mem_cons_of_mem _ hv)

/-- Points of one dimension, at least one of them, have a box. -/
theorem around_refusesOnly {points : List (List α)} {dim : Nat} (hne : points ≠ [])
    (h : ∀ v ∈ points, v.length = dim) : RefusesOnly P (around points) := by
  cases points with
  | nil => exact absurd rfl hne
  | cons v ws =>
    refine insertAll_refusesOnly fun w hw => ?_
    rw [List.length_map, h v (List.mem_cons_self ..), h w (List.mem_cons_of_mem _ hw)]

/-- A box around points of one dimension has this dimension. -/
theorem length_of_around_ok {points : List (List α)} {dim : Nat}
    (h : ∀ v ∈ points, v.length = dim) {box : List (Bound α)} (hb : around points = .ok box) :
    box.length = dim := by
  cases points with
  | nil => cases hb
  | cons v ws => rw [length_of_insertAll_ok hb, List.length_map, h v (List.mem_cons_self ..)]

omit [Scalar α] in
theorem vertices_refusesOnly (bounds : List (Bound α)) (limit : Nat) :
    RefusesOnly (· = .dimensionLimit bounds.length limit) (vertices bounds limit) := by
  unfold vertices
  split
  · exact refusesOnly_refuse rfl
  · exact refusesOnly_ok _

end Box

namespace Format

/-- The quantized corners of a box of `dim` intervals are points of dimension `dim`, at least one
of them. -/
theorem quantized_corners {f : Format} {bounds : List (Bound α)} {quantized : List (List α)}
    (h : (Box.corners bounds).mapM f.quantizeVec = .ok quantized) :
    quantized ≠ [] ∧ ∀ v ∈ quantized, v.length = bounds.length := by
  have hlen := length_of_mapM_ok h
  constructor
  · rintro rfl
    have hpos := List.length_pos_of_ne_nil (Box.corners_ne_nil bounds)
    rw [← hlen, List.length_nil] at hpos
    omega
  · intro v hv
    obtain ⟨i, hi, rfl⟩ := List.getElem_of_mem hv
    have hc : i < (Box.corners bounds).length := by omega
    have hvec := getElem_of_mapM_ok h i hc hi
    rw [length_of_mapM_ok hvec]
    exact Box.length_of_mem_corners (List.getElem_mem hc)

/-- The refusals of a quantized region: a number that is not finite, or too many corners. -/
def RefusesRegion (dim limit : Nat) (e : AnalysisError) : Prop :=
  e.IsInstability ∨ e = .dimensionLimit dim limit

theorem enumerateRegion_refusesOnly (f : Format) (z : Zonotope α) (limit : Nat) :
    RefusesOnly (RefusesRegion z.dim limit) (f.enumerateRegion z limit) := by
  refine (z.finiteHull_refusesOnly.mono fun e he => Or.inl he).bind fun bounds hb => ?_
  have hlen := Zonotope.length_of_hull_ok (Zonotope.hull_of_finiteHull_ok hb)
  have hvertices := Box.vertices_refusesOnly bounds limit
  rw [hlen] at hvertices
  refine (hvertices.mono fun e he => Or.inr he).bind fun points hp => ?_
  obtain ⟨_, _, rfl⟩ := Box.vertices_eq_ok hp
  refine (refusesOnly_mapM fun v _ => refusesOnly_mapM fun x _ =>
    f.quantize_refusesOnly x).bind fun quantized hq => ?_
  obtain ⟨hne, hall⟩ := quantized_corners hq
  exact (Box.around_refusesOnly hne hall).bind fun box _ => refusesOnly_ok _

theorem quantizeRegion_refusesOnly (f : Format) (z : Zonotope α) (method : RegionMethod)
    (limit : Nat) :
    RefusesOnly (RefusesRegion z.dim limit) (f.quantizeRegion z method limit) := by
  unfold quantizeRegion
  split
  · refine RefusesOnly.bind ?_ fun q _ => refusesOnly_ok _
    refine (z.finiteHull_refusesOnly.mono fun e he => Or.inl he).bind fun bounds _ => ?_
    exact (f.quantizeBox_refusesOnly bounds).bind fun box _ => refusesOnly_ok _
  · exact (f.enumerateRegion_refusesOnly z limit).bind fun q _ => refusesOnly_ok _

/-- A quantized region has the dimension of the region. -/
theorem dim_of_quantizeRegion_ok {f : Format} {z q : Zonotope α} {method used : RegionMethod}
    {limit : Nat} (h : f.quantizeRegion z method limit = .ok (q, used)) : q.dim = z.dim := by
  unfold quantizeRegion at h
  split at h
  · obtain ⟨q', hq, h⟩ := bind_eq_ok.mp h
    cases h
    obtain ⟨bounds, hb, hq⟩ := bind_eq_ok.mp hq
    obtain ⟨box, hbox, hq⟩ := bind_eq_ok.mp hq
    cases hq
    rw [Zonotope.dim_ofBox, length_of_mapM_ok hbox]
    exact Zonotope.length_of_hull_ok (Zonotope.hull_of_finiteHull_ok hb)
  · obtain ⟨q', hq, h⟩ := bind_eq_ok.mp h
    cases h
    obtain ⟨bounds, hb, hq⟩ := bind_eq_ok.mp hq
    obtain ⟨points, hp, hq⟩ := bind_eq_ok.mp hq
    obtain ⟨quantized, hm, hq⟩ := bind_eq_ok.mp hq
    obtain ⟨box, hbox, hq⟩ := bind_eq_ok.mp hq
    cases hq
    obtain ⟨_, _, rfl⟩ := Box.vertices_eq_ok hp
    rw [Zonotope.dim_ofBox, Box.length_of_around_ok (quantized_corners hm).2 hbox]
    exact Zonotope.length_of_hull_ok (Zonotope.hull_of_finiteHull_ok hb)

end Format

end QuantEnclosure
