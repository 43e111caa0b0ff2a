import QuantEnclosure.Outcome
import Mathlib.Data.List.Forall2

/-!
Reading a successful computation backwards.  A computation in several parts has a value only if
each part has one, a checked dimension was the expected one, and a list of computations gives one
value for each entry.
-/

namespace QuantEnclosure

theorem bind_eq_ok {ε α β : Type} {x : Except ε α} {f : α → Except ε β} {b : β} :
    (x >>= f) = .ok b ↔ ∃ a, x = .ok a ∧ f a = .ok b := by
  cases x with
  | error e => simp [bind, Except.bind]
  | ok a => simp [bind, Except.bind]

theorem ensureDim_of_eq (context : String) {m n : Nat} (h : m = n) :
    ensureDim context m n = .ok ⟨h⟩ :=
  dif_pos h

theorem ensureDim_of_ne (context : String) {m n : Nat} (h : m ≠ n) :
    ensureDim context m n = .error (.refused (.shapeMismatch context [m] [n])) := by
  have hshapes : [m] ≠ [n] := by simpa using h
  rw [ensureDim, dif_neg h, Failure.shapeMismatch, if_neg hshapes]

theorem ensureDim_bind_eq_ok {β : Type} {context : String} {m n : Nat}
    {f : PLift (m = n) → Outcome β} {b : β} :
    (ensureDim context m n >>= f) = .ok b ↔ ∃ h : m = n, f ⟨h⟩ = .ok b := by
  rw [bind_eq_ok]
  constructor
  · rintro ⟨⟨h⟩, _, hf⟩
    exact ⟨h, hf⟩
  · rintro ⟨h, hf⟩
    exact ⟨⟨h⟩, ensureDim_of_eq context h, hf⟩

/-- A computation that begins with two dimensions that differ is refused. -/
theorem ensureDim_bind_of_ne {β : Type} (context : String) {m n : Nat} (h : m ≠ n)
    (f : PLift (m = n) → Outcome β) :
    (ensureDim context m n >>= f) = refuse (.shapeMismatch context [m] [n]) := by
  rw [ensureDim_of_ne context h]
  rfl

/-! ## Lists of computations -/

theorem mapM_cons_eq_ok {ε α β : Type} {f : α → Except ε β} {x : α} {xs : List α} {zs : List β} :
    (x :: xs).mapM f = .ok zs ↔ ∃ y ys, f x = .ok y ∧ xs.mapM f = .ok ys ∧ zs = y :: ys := by
  rw [List.mapM_cons, bind_eq_ok]
  constructor
  · rintro ⟨y, hy, h⟩
    obtain ⟨ys, hys, h⟩ := bind_eq_ok.mp h
    exact ⟨y, ys, hy, hys, (Except.ok.inj h).symm⟩
  · rintro ⟨y, ys, hy, hys, rfl⟩
    exact ⟨y, hy, bind_eq_ok.mpr ⟨ys, hys, rfl⟩⟩

/-- A list of computations has the values of its entries, one for each. -/
theorem mapM_eq_ok {ε α β : Type} {f : α → Except ε β} {xs : List α} {ys : List β} :
    xs.mapM f = .ok ys ↔ List.Forall₂ (fun x y => f x = .ok y) xs ys := by
  induction xs generalizing ys with
  | nil =>
    rw [List.forall₂_nil_left_iff]
    constructor
    · intro h
      cases h
      rfl
    · rintro rfl
      rfl
  | cons x xs ih =>
    rw [mapM_cons_eq_ok, List.forall₂_cons_left_iff]
    constructor
    · rintro ⟨y, zs, hy, hzs, rfl⟩
      exact ⟨y, zs, hy, ih.mp hzs, rfl⟩
    · rintro ⟨y, zs, hy, hzs, rfl⟩
      exact ⟨y, zs, hy, ih.mpr hzs, rfl⟩

/-- The values of a list of computations that all succeed. -/
theorem mapM_ok {ε α β : Type} {f : α → Except ε β} {g : α → β} (xs : List α)
    (h : ∀ x ∈ xs, f x = .ok (g x)) : xs.mapM f = .ok (xs.map g) := by
  induction xs with
  | nil => rfl
  | cons x xs ih =>
    have hxs := ih fun y hy => h y (List.mem_cons_of_mem _ hy)
    exact mapM_cons_eq_ok.mpr ⟨g x, xs.map g, h x (List.mem_cons_self ..), hxs, rfl⟩

/-- Computations that each have a value have one together. -/
theorem exists_mapM_ok {ε α β : Type} {f : α → Except ε β} (xs : List α)
    (h : ∀ x ∈ xs, ∃ y, f x = .ok y) : ∃ ys, xs.mapM f = .ok ys := by
  induction xs with
  | nil => exact ⟨[], rfl⟩
  | cons x xs ih =>
    obtain ⟨y, hy⟩ := h x (List.mem_cons_self ..)
    obtain ⟨ys, hys⟩ := ih fun z hz => h z (List.mem_cons_of_mem _ hz)
    exact ⟨y :: ys, mapM_cons_eq_ok.mpr ⟨y, ys, hy, hys, rfl⟩⟩

theorem length_of_mapM_ok {ε α β : Type} {f : α → Except ε β} {xs : List α} {ys : List β}
    (h : xs.mapM f = .ok ys) : ys.length = xs.length := by
  induction xs generalizing ys with
  | nil =>
    cases h
    rfl
  | cons x xs ih =>
    obtain ⟨y, zs, _, hzs, rfl⟩ := mapM_cons_eq_ok.mp h
    simp [ih hzs]

/-- The value at a position is the value of the computation at that position. -/
theorem getElem_of_mapM_ok {ε α β : Type} {f : α → Except ε β} {xs : List α} {ys : List β}
    (h : xs.mapM f = .ok ys) (i : Nat) (hx : i < xs.length) (hy : i < ys.length) :
    f xs[i] = .ok ys[i] := by
  induction xs generalizing ys i with
  | nil => simp at hx
  | cons x xs ih =>
    obtain ⟨y, zs, hf, hzs, rfl⟩ := mapM_cons_eq_ok.mp h
    cases i with
    | zero => exact hf
    | succ i => exact ih hzs i (by simpa using hx) (by simpa using hy)

end QuantEnclosure
