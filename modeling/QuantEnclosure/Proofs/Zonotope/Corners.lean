import Mathlib.Algebra.BigOperators.Fin
import QuantEnclosure.Proofs.Zonotope.Hull

/-!
Boxes and their corners in both directions.  The corners of a box are numbered by the choices of a
side in each dimension, a choice being read as the binary digits of its number
(`getElem?_corners_of_choice`); every number below `2^n` belongs to one choice
(`existsUnique_choice`).  A box is found around points of one dimension and around nothing else,
and around the corners of a box it is that box again (`vertices_complete`).
-/

namespace QuantEnclosure

def Bound.side {α : Type} (b : Bound α) (upper : Bool) : α := if upper then b.upper else b.lower

namespace Box

/-! ## Choices as numbers -/

theorem ofBits_eq_sum {n : Nat} (choice : Fin n → Bool) :
    Nat.ofBits choice = ∑ i, (choice i).toNat * 2 ^ (i : Nat) := by
  induction n with
  | zero => simp
  | succ n ih =>
    have hrest : 2 * ∑ i, ((choice ∘ Fin.succ) i).toNat * 2 ^ (i : Nat) =
        ∑ i : Fin n, (choice i.succ).toNat * 2 ^ (i.succ : Nat) := by
      rw [Finset.mul_sum]
      refine Finset.sum_congr rfl fun i _ => ?_
      simp only [Function.comp_apply, Fin.val_succ, pow_succ]
      ring
    rw [Nat.ofBits_succ, ih, hrest, Fin.sum_univ_succ, Nat.add_comm]
    simp

/-- Every number below `2^n` is that of one choice of a side in each of `n` dimensions. -/
theorem existsUnique_choice {n k : Nat} (hk : k < 2 ^ n) :
    ∃! choice : Fin n → Bool, ∑ i, (choice i).toNat * 2 ^ (i : Nat) = k := by
  simp only [← ofBits_eq_sum]
  refine ⟨fun i => k.testBit i, ?_, fun choice hchoice => ?_⟩
  · exact (Nat.ofBits_testBit k n).trans (Nat.mod_eq_of_lt hk)
  · funext i
    rw [← hchoice, Nat.testBit_ofBits_lt choice i i.isLt]

/-! ## Corners by number -/

section

variable {α : Type}

theorem length_corners (bounds : List (Bound α)) :
    (corners bounds).length = 2 ^ bounds.length := by
  induction bounds with
  | nil => rfl
  | cons b rest ih => simp [corners, List.length_flatMap, ih, pow_succ]

/-- In a list of pairs the parity of a position says which member of its pair stands there. -/
theorem getElem?_flatMap_pair {β γ : Type} (f : Bool → β → γ) (xs : List β) (k : Nat) :
    (xs.flatMap fun x => [f false x, f true x])[k]? = xs[k / 2]?.map (f (k.testBit 0)) := by
  induction xs generalizing k with
  | nil => simp
  | cons x xs ih =>
    match k with
    | 0 => rfl
    | 1 => rfl
    | k + 2 =>
      have hdiv : (k + 2) / 2 = k / 2 + 1 := by omega
      have hbit : (k + 2).testBit 0 = k.testBit 0 := by simp [Nat.testBit_zero]
      rw [hdiv, hbit, List.getElem?_cons_succ, ← ih k]
      rfl

/-- Corner `k` takes the upper end in the dimensions whose bit of `k` is set: its lowest bit chooses
the side of the first interval, and the other bits number a corner of the rest. -/
theorem getElem?_corners (bounds : List (Bound α)) {k : Nat} (hk : k < 2 ^ bounds.length) :
    (corners bounds)[k]? = some (bounds.mapIdx fun i b => b.side (k.testBit i)) := by
  induction bounds generalizing k with
  | nil =>
    obtain rfl : k = 0 := by simpa using hk
    rfl
  | cons b rest ih =>
    have hhalf : k / 2 < 2 ^ rest.length := by
      rw [List.length_cons, pow_succ] at hk
      omega
    have hpair := getElem?_flatMap_pair (fun upper v => b.side upper :: v) (corners rest) k
    rw [ih hhalf] at hpair
    simpa [corners, Bound.side, List.mapIdx_cons, Nat.testBit_succ] using hpair

/-- The corner with given sides stands at the number of the choice. -/
theorem getElem?_corners_of_choice (bounds : List (Bound α))
    (choice : Fin bounds.length → Bool) :
    (corners bounds)[∑ i, (choice i).toNat * 2 ^ (i : Nat)]? =
      some (List.ofFn fun i => bounds[i].side (choice i)) := by
  rw [← ofBits_eq_sum, getElem?_corners bounds (Nat.ofBits_lt_two_pow choice)]
  congr 1
  apply List.ext_getElem
  · simp
  · intro i hi _
    have hb : i < bounds.length := by simpa using hi
    simp [Nat.testBit_ofBits_lt choice i hb]

end

/-! ## Points of another dimension -/

section

variable {α : Type} [Scalar α]

/-- The first point of another dimension ends the search for a box. -/
theorem insertAll_of_ne {bounds : List (Bound α)} {before : List (List α)} {w : List α} {n : Nat}
    (hn : bounds.length = n) (hbefore : ∀ u ∈ before, u.length = n) (hw : w.length ≠ n)
    (after : List (List α)) : insertAll bounds (before ++ w :: after) =
      refuse (.shapeMismatch "vertex dimension" [n] [w.length]) := by
  induction before generalizing bounds with
  | nil =>
    subst hn
    exact ensureDim_bind_of_ne _ hw.symm _
  | cons u before ih =>
    have hu := hbefore u (List.mem_cons_self ..)
    have hlen : (insert bounds u).length = n := by simp [insert, hu, hn]
    rw [List.cons_append, insertAll, ensureDim_of_eq _ (hn.trans hu.symm)]
    exact ih hlen fun p hp => hbefore p (List.mem_cons_of_mem _ hp)

/-- Points that do not all have the dimension of the first one have no box. -/
theorem around_of_exists_ne {v : List α} {ws : List (List α)} (h : ∃ w ∈ ws, w.length ≠ v.length) :
    ∃ before w after, ws = before ++ w :: after ∧ (∀ u ∈ before, u.length = v.length) ∧
      w.length ≠ v.length ∧ around (v :: ws) =
        refuse (.shapeMismatch "vertex dimension" [v.length] [w.length]) := by
  cases hfind : ws.find? fun w => w.length ≠ v.length with
  | none =>
    rw [List.find?_eq_none] at hfind
    obtain ⟨w, hw, hne⟩ := h
    exact absurd hne (by simpa using hfind w hw)
  | some w =>
    obtain ⟨hw, before, after, rfl, hbefore⟩ := List.find?_eq_some_iff_append.mp hfind
    have hw : w.length ≠ v.length := by simpa using hw
    have hbefore : ∀ u ∈ before, u.length = v.length := fun u hu => by simpa using hbefore u hu
    exact ⟨before, w, after, rfl, hbefore, hw,
      insertAll_of_ne (List.length_map ..) hbefore hw after⟩

end

/-! ## Completeness -/

theorem around_corners {bounds : List (Bound ℚ)} (h : ∀ b ∈ bounds, b.lower ≤ b.upper) :
    around (corners bounds) = .ok bounds := by
  simpa using around_map_corners (g := id) h

/-- Within the limit and below the cap all `2^n` corners of a box are listed, in any arithmetic: the
one with given sides stands at the number that the choice of sides has in binary digits, and every
position is that of one choice.  In exact arithmetic the box found around points of one dimension
is the smallest one that holds them, with every end attained.  Nothing but an empty list and a point
of another dimension than the first is refused, and the corners of a box whose ends are in order
have that box. -/
theorem vertices_complete {α : Type} (box : List (Bound α)) (limit : Nat) :
    (box.length ≤ limit → box.length < 64 →
      ∃ vs, vertices box limit = .ok vs ∧ vs.length = 2 ^ box.length ∧
        (∀ v ∈ vs, v.length = box.length) ∧
        (∀ choice : Fin box.length → Bool, vs[∑ i, (choice i).toNat * 2 ^ (i : Nat)]? =
          some (List.ofFn fun i => box[i].side (choice i))) ∧
        ∀ k < vs.length, ∃! choice : Fin box.length → Bool,
          ∑ i, (choice i).toNat * 2 ^ (i : Nat) = k) ∧
    (∀ (v : List ℚ) ws, (∀ w ∈ ws, w.length = v.length) →
      ∃ hull, around (v :: ws) = .ok hull ∧ IsHull hull (v :: ws) ∧
        ∀ other, (∀ p ∈ v :: ws,
          List.Forall₂ (fun (b : Bound ℚ) e => b.contains e = true) other p) →
          List.Forall₂ (fun (b b' : Bound ℚ) => b.encloses b' = true) other hull) ∧
    around ([] : List (List ℚ)) =
      refuse (.invalidConfig "cannot bound an empty vertex set") ∧
    (∀ (v : List ℚ) ws, (∃ w ∈ ws, w.length ≠ v.length) →
      ∃ before w after, ws = before ++ w :: after ∧ (∀ u ∈ before, u.length = v.length) ∧
        w.length ≠ v.length ∧ around (v :: ws) =
          refuse (.shapeMismatch "vertex dimension" [v.length] [w.length])) ∧
    ∀ bounds : List (Bound ℚ), bounds.length ≤ limit → bounds.length < 64 →
      (∀ b ∈ bounds, b.lower ≤ b.upper) →
      ∃ vs, vertices bounds limit = .ok vs ∧ around vs = .ok bounds := by
  refine ⟨fun hlimit hcap => ?_, fun v ws hws => ?_, rfl, fun v ws => around_of_exists_ne,
    fun bounds hlimit hcap hb => ⟨_, vertices_eq hlimit hcap, around_corners hb⟩⟩
  · refine ⟨_, vertices_eq hlimit hcap, length_corners box, fun v => length_of_mem_corners,
      getElem?_corners_of_choice box, fun k hk => ?_⟩
    rw [length_corners] at hk
    exact existsUnique_choice hk
  · obtain ⟨hull, hbox, h⟩ := around_isHull v ws hws
    have hv := List.mem_cons_self (a := v) (l := ws)
    refine ⟨hull, hbox, h, fun other hother => encloses_of_isHull h ?_ hother⟩
    rw [← h.length_eq v hv, (hother v hv).length_eq]

def flatBox : List (Bound ℚ) := [⟨0, 1⟩, ⟨-2, 2⟩, ⟨5, 5⟩]

/-- Corner `3 = 1 + 2` of the flat box is upper in the first two dimensions. -/
theorem flatBox_vertices_complete :
    (∃ vs, vertices flatBox 16 = .ok vs ∧ vs.length = 8 ∧ vs[3]? = some [1, 2, 5] ∧
      (∃! choice : Fin 3 → Bool, ∑ i, (choice i).toNat * 2 ^ (i : Nat) = 3) ∧
      around vs = .ok flatBox) ∧
    (∃ hull, around [[1, -1], [-3, 1 / 2], [0, 4]] = .ok hull ∧
      IsHull hull [[1, -1], [-3, 1 / 2], [0, 4]]) ∧
    around [[1, 2], ([1] : List ℚ)] = refuse (.shapeMismatch "vertex dimension" [2] [1]) := by
  obtain ⟨hvertices, hsmallest, _, hragged, hback⟩ := vertices_complete flatBox 16
  obtain ⟨vs, hvs, hlen, _, hchoice, hunique⟩ := hvertices (by decide) (by decide)
  obtain ⟨vs', hvs', haround⟩ := hback flatBox (by decide) (by decide) (by decide +kernel)
  cases hvs.symm.trans hvs'
  obtain ⟨hull, hhull, h, _⟩ := hsmallest [1, -1] [[-3, 1 / 2], [0, 4]] (by decide)
  obtain ⟨before, w, after, hsplit, _, _, hrefused⟩ :=
    hragged [1, 2] [[1]] ⟨[1], by decide, by decide⟩
  refine ⟨⟨vs, hvs, hlen, hchoice ![true, true, false], hunique 3 (by rw [hlen]; decide), haround⟩,
    ⟨hull, hhull, h⟩, ?_⟩
  cases before with
  | nil =>
    cases hsplit
    exact hrefused
  | cons u before => simp at hsplit

end Box

end QuantEnclosure
