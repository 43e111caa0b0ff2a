import Mathlib.Data.List.Forall2
import Mathlib.Tactic.IntervalCases
import QuantEnclosure.Json.Printer

/-!
Reading back what was written.  `Reads v d` says that a text of `v` has the tree `d`, wherever it
stands in a longer text.  It holds of integers (`reads_int`) and strings (`reads_string`), and of an
object if it holds of its fields (`reads_object`).  The tree gives the data back: `string?` the
characters of a string, `Numeral.value?` an integer of up to 64 bits.
-/

namespace QuantEnclosure.Json

/-! ## Digits -/

def digitValue (c : Char) : Nat := c.toNat - '0'.toNat

def decimalDigits (n : Nat) : List Nat := (Nat.toDigits 10 n).map digitValue

def Numeral.ofInt (i : Int) : Numeral := ⟨decide (i < 0), decimalDigits i.natAbs, [], none⟩

theorem exists_of_isDigit {c : Char} (h : c.isDigit = true) :
    ∃ k, 48 ≤ k ∧ k ≤ 57 ∧ c = Char.ofNat k := by
  refine ⟨c.toNat, ?_, ?_, (Char.ofNat_toNat c).symm⟩
  · simpa [Char.isDigit, UInt32.le_iff_toNat_le] using (Bool.and_eq_true_iff.mp h).1
  · simpa [Char.isDigit, UInt32.le_iff_toNat_le] using (Bool.and_eq_true_iff.mp h).2

/-- Only zero is written with a zero in front. -/
theorem toDigits_eq_cons {n : Nat} (h : 0 < n) :
    ∃ c cs, Nat.toDigits 10 n = c :: cs ∧ c ≠ '0' := by
  induction n using Nat.strongRecOn with
  | ind n ih =>
    rw [Nat.toDigits_eq_if (by decide)]
    split
    · exact ⟨_, [], rfl, by rw [ne_eq, Nat.digitChar_eq_zero]; omega⟩
    · obtain ⟨c, cs, hc, hne⟩ := ih (n / 10) (by omega) (by omega)
      exact ⟨c, cs ++ [(n % 10).digitChar], by rw [hc]; rfl, hne⟩

theorem le_ofDigitChars (cs : List Char) (init : Nat) : init ≤ Nat.ofDigitChars 10 cs init := by
  rw [Nat.ofDigitChars_eq_ofDigitChars_zero]
  exact (Nat.le_mul_of_pos_left init (by positivity)).trans (Nat.le_add_right _ _)

theorem absorb_map_digitValue {limit : Nat} (cs : List Char) (acc : Nat)
    (h : Nat.ofDigitChars 10 cs acc ≤ limit) :
    Numeral.absorb limit acc (cs.map digitValue) = (Nat.ofDigitChars 10 cs acc, []) := by
  induction cs generalizing acc with
  | nil => rfl
  | cons c cs ih =>
    rw [Nat.ofDigitChars_cons] at h ⊢
    have hstep : acc * 10 + digitValue c = 10 * acc + (c.toNat - '0'.toNat) := by
      rw [digitValue, mul_comm]
    have hfits := (le_ofDigitChars cs _).trans h
    rw [List.map_cons, Numeral.absorb, hstep, if_neg (by omega), ih _ h]

/-- The digits of a number add up to it. -/
theorem absorb_decimalDigits {limit n : Nat} (h : n ≤ limit) :
    Numeral.absorb limit 0 (decimalDigits n) = (n, []) := by
  rw [decimalDigits, absorb_map_digitValue, Nat.ofDigitChars_ten_toDigits]
  rwa [Nat.ofDigitChars_ten_toDigits]

/-- An integer of up to 64 bits is the value of its numeral. -/
theorem Numeral.value?_ofInt {i : Int} (hl : -9223372036854775808 ≤ i)
    (hu : i ≤ 18446744073709551615) : (ofInt i).value? = some (.int i) := by
  have habs : i.natAbs ≤ significandLimit := by
    unfold significandLimit
    omega
  unfold value? ofInt
  rw [absorb_decimalDigits habs]
  by_cases hneg : i < 0
  · have hword : ¬ (i = 0 ∨ 9223372036854775808 < i.natAbs) := by omega
    simp [hneg, hword, abs_of_neg hneg]
  · simp [hneg, not_lt.mp hneg]

/-! ## Strings -/

def unitsOf (s : String) : List Nat := s.toList.map Char.toNat

theorem textOfUnits?_map_toNat (cs : List Char) : textOfUnits? (cs.map Char.toNat) = some cs := by
  induction cs with
  | nil => rfl
  | cons c cs ih =>
    have hvalid : c.toNat < 0xD800 ∨ 0xDFFF < c.toNat ∧ c.toNat < 0x110000 := c.valid
    rw [List.map_cons, textOfUnits?.eq_def]
    dsimp only
    rw [if_neg (by omega), if_neg (by omega), ih, Char.ofNat_toNat]
    rfl

theorem string?_unitsOf (s : String) : string? (unitsOf s) = some s := by
  simp [string?, unitsOf, textOfUnits?_map_toNat]

namespace Token

theorem run_cons (s : State) (c : Char) (cs : List Char) :
    run s (c :: cs) = (step s c).1 ++ run (step s c).2 cs := rfl

/-- A control character that has no escape of its own. -/
theorem run_hexPair {n : Nat} (h : n < 32) (units : List Nat) (rest : List Char) :
    run (.string units) (['\\', 'u', '0', '0'] ++ hexPair n ++ rest) =
      run (.string (n :: units)) rest := by
  interval_cases n <;> rfl

theorem run_escapeChar (c : Char) (units : List Nat) (rest : List Char) :
    run (.string units) (escapeChar c ++ rest) = run (.string (c.toNat :: units)) rest := by
  have hofNat := Char.ofNat_toNat c
  unfold escapeChar
  split
  · next h => rw [eq_of_beq h]; rfl
  split
  · next h => rw [eq_of_beq h]; rfl
  split
  · next h => rw [eq_of_beq h]; rfl
  split
  · next h => rw [eq_of_beq h]; rfl
  split
  · next h => rw [eq_of_beq h]; rfl
  split
  · next h => rw [← hofNat, h]; rfl
  split
  · next h => rw [← hofNat, h]; rfl
  split
  · next h => exact run_hexPair h units rest
  · next hquote hslash _ _ _ _ _ hcontrol =>
    simp only [beq_iff_eq] at hquote hslash
    rw [List.singleton_append, run_cons]
    simp [step, hquote, hslash, hcontrol]

theorem run_chars (cs : List Char) (units : List Nat) (rest : List Char) :
    run (.string units) (cs.flatMap escapeChar ++ rest) =
      run (.string ((cs.map Char.toNat).reverse ++ units)) rest := by
  induction cs generalizing units with
  | nil => rfl
  | cons c cs ih =>
    rw [List.flatMap_cons, List.append_assoc, run_escapeChar, ih]
    simp

/-- A written string is one token. -/
theorem run_stringText (s : String) (rest : List Char) :
    run .between (stringText s ++ rest) = .string (unitsOf s) :: run .between rest := by
  have hopen : run .between (stringText s ++ rest) =
      run (.string []) (s.toList.flatMap escapeChar ++ ('"' :: rest)) := by
    simp only [stringText, List.cons_append, List.append_assoc, List.nil_append]
    rfl
  rw [hopen, run_chars, run_cons]
  simp [step, unitsOf]

/-! ## Numerals -/

/-- The text does not go on with a numeral that stands before it. -/
def Separated (rest : List Char) : Prop :=
  ∀ c ∈ rest.head?, c.isDigit = false ∧ c ≠ '.' ∧ c ≠ 'e' ∧ c ≠ 'E'

/-- A digit after nothing or after a sign begins a numeral: `s` waits for it. -/
def AwaitsDigit (s : State) (negative : Bool) : Prop :=
  ∀ c, c.isDigit = true → step s c =
    ([], .numeral (if digitValue c = 0 then .zero else .whole)
      ⟨negative, [digitValue c], [], none⟩)

theorem between_awaitsDigit : AwaitsDigit .between false := by
  intro c hc
  obtain ⟨k, hl, hu, rfl⟩ := exists_of_isDigit hc
  interval_cases k <;> rfl

theorem sign_awaitsDigit : AwaitsDigit (.numeral .sign ⟨true, [], [], none⟩) true := by
  intro c hc
  obtain ⟨k, hl, hu, rfl⟩ := exists_of_isDigit hc
  interval_cases k <;> rfl

/-- A numeral without point and exponent ends before a text that does not go on with it. -/
theorem run_numeral_end {part : Part} (hp : part = .zero ∨ part = .whole) (n : Numeral)
    {rest : List Char} (h : Separated rest) :
    run (.numeral part n) rest = ofReversed n :: run .between rest := by
  cases rest with
  | nil => rcases hp with rfl | rfl <;> rfl
  | cons c cs =>
    obtain ⟨hdigit, hpoint, he, hE⟩ := h c rfl
    have hstep : step (.numeral part n) c = (ofReversed n :: (begin c).1, (begin c).2) := by
      rcases hp with rfl | rfl <;> simp [step, extend?, digit?, ends, hdigit, hpoint, he, hE]
    rw [run_cons, run_cons, hstep]
    rfl

theorem run_digits (negative : Bool) {cs : List Char} (h : ∀ c ∈ cs, c.isDigit = true)
    (read : List Nat) (rest : List Char) :
    run (.numeral .whole ⟨negative, read, [], none⟩) (cs ++ rest) =
      run (.numeral .whole ⟨negative, (cs.map digitValue).reverse ++ read, [], none⟩) rest := by
  induction cs generalizing read with
  | nil => rfl
  | cons c cs ih =>
    have hc := h c (List.mem_cons_self ..)
    have hstep : step (.numeral .whole ⟨negative, read, [], none⟩) c =
        ([], .numeral .whole ⟨negative, digitValue c :: read, [], none⟩) := by
      simp [step, extend?, digit?, hc, digitValue]
    rw [List.cons_append, run_cons, hstep, List.nil_append,
      ih (fun x hx => h x (List.mem_cons_of_mem _ hx))]
    simp

/-- The digits of a number are one token, whether a sign stands before them or not. -/
theorem run_toDigits {s : State} {negative : Bool} (hs : AwaitsDigit s negative) (n : Nat)
    {rest : List Char} (h : Separated rest) :
    run s (Nat.toDigits 10 n ++ rest) =
      .number ⟨negative, decimalDigits n, [], none⟩ :: run .between rest := by
  have hdigits : ∀ c ∈ Nat.toDigits 10 n, c.isDigit = true :=
    fun c hc => Nat.isDigit_of_mem_toDigits (by decide) (by decide) hc
  rcases Nat.eq_zero_or_pos n with rfl | hn
  · rw [Nat.toDigits_zero, List.singleton_append, run_cons, hs '0' rfl]
    exact run_numeral_end (Or.inl rfl) _ h
  · obtain ⟨c, cs, hcs, hne⟩ := toDigits_eq_cons hn
    rw [hcs] at hdigits
    have hc := hdigits c (List.mem_cons_self ..)
    have hvalue : digitValue c ≠ 0 := by
      obtain ⟨k, hl, hu, rfl⟩ := exists_of_isDigit hc
      interval_cases k <;> simp_all [digitValue]
    rw [decimalDigits, hcs, List.cons_append, run_cons, hs c hc, if_neg hvalue, List.nil_append,
      run_digits negative (fun x hx => hdigits x (List.mem_cons_of_mem _ hx)),
      run_numeral_end (Or.inr rfl) _ h]
    simp [ofReversed]

/-- A written integer is one token. -/
theorem run_int (i : Int) {rest : List Char} (h : Separated rest) :
    run .between ((toString i).toList ++ rest) =
      .number (Numeral.ofInt i) :: run .between rest := by
  cases i with
  | ofNat n =>
    have htext : (toString (Int.ofNat n)).toList = Nat.toDigits 10 n := by
      show (Nat.repr n).toList = _
      rw [Nat.repr_eq_ofList_toDigits, String.toList_ofList]
    rw [htext, run_toDigits between_awaitsDigit n h]
    rfl
  | negSucc n =>
    have htext : (toString (Int.negSucc n)).toList = '-' :: Nat.toDigits 10 (n + 1) := by
      show ("-" ++ Nat.repr (n + 1)).toList = _
      simp [Nat.repr_eq_ofList_toDigits]
    rw [htext]
    show run (.numeral .sign ⟨true, [], [], none⟩) (Nat.toDigits 10 (n + 1) ++ rest) = _
    rw [run_toDigits sign_awaitsDigit (n + 1) h]
    simp [Numeral.ofInt, Int.negSucc_lt_zero]

/-! ## Space -/

theorem run_newline (depth : Nat) (rest : List Char) :
    run .between (newline depth ++ rest) = run .between rest := by
  have hspaces (k : Nat) : run .between (List.replicate k ' ' ++ rest) = run .between rest := by
    induction k with
    | zero => rfl
    | succ k ih => rw [List.replicate_succ, List.cons_append, ← ih]; rfl
  exact hspaces (2 * depth)

end Token

/-! ## Trees -/

namespace Value

open Token

/-- A text of `v` has the tree `d`, at any depth, in any place and before any text that does not
go on with a numeral. -/
def Reads (v : Value) (d : Doc) : Prop :=
  ∀ (depth : Nat) (stack : List Doc.Frame) (rest : List Char), Separated rest →
    Doc.build .value stack (run .between (v.pretty depth ++ rest)) =
      Doc.build (.after d) stack (run .between rest)

/-- A text that holds nothing but `v`. -/
theorem Reads.ofText {v : Value} {d : Doc} (h : v.Reads d) : Doc.ofText v.toText = (d, true) := by
  have hbuild := h 0 [] [] (by simp [Separated])
  rw [List.append_nil] at hbuild
  rw [Doc.ofText, Token.ofText, toText, String.toList_ofList, hbuild]
  rfl

theorem reads_int (i : Int) : (number (.int i)).Reads (.number (.ofInt i)) := by
  intro depth stack rest h
  rw [show (number (.int i)).pretty depth = (toString i).toList by rw [pretty]; rfl, run_int i h]
  rfl

theorem reads_string (s : String) : (string s).Reads (.string (unitsOf s)) := by
  intro depth stack rest _
  rw [pretty, run_stringText]
  rfl

/-- The tree `g` of a field `f`: its key and its value. -/
def ReadsField (f : String × Value) (g : List Nat × Doc) : Prop :=
  g.1 = unitsOf f.1 ∧ f.2.Reads g.2

theorem separated_fields (depth : Nat) (fs : List (String × Value)) (rest : List Char) :
    Separated (prettyFields (depth + 1) fs ++ (newline depth ++ rest)) := by
  cases fs with
  | nil => simp [prettyFields, newline, Separated]
  | cons f fs => simp [prettyFields, Separated]

/-- The key and the value of a field, when the object waits for them. -/
theorem build_field {f : String × Value} {g : List Nat × Doc} (h : ReadsField f g) (empty : Bool)
    (depth : Nat) (done : List (List Nat × Doc)) (stack : List Doc.Frame) {rest : List Char}
    (hrest : Separated rest) :
    Doc.build (.key done empty) stack
        (run .between (stringText f.1 ++ (':' :: ' ' :: (f.2.pretty depth ++ rest)))) =
      Doc.build (.after g.2) (.fields done g.1 :: stack) (run .between rest) := by
  obtain ⟨hkey, hvalue⟩ := h
  rw [run_stringText, ← hvalue depth _ rest hrest, hkey]
  rfl

/-- The fields after the first one, and the end of the object. -/
theorem build_fields (depth : Nat) {fs : List (String × Value)} {gs : List (List Nat × Doc)}
    (h : List.Forall₂ ReadsField fs gs) (done : List (List Nat × Doc)) (g : List Nat × Doc)
    (stack : List Doc.Frame) (rest : List Char) :
    Doc.build (.after g.2) (.fields done g.1 :: stack)
        (run .between (prettyFields (depth + 1) fs ++ (newline depth ++ ('\x7d' :: rest)))) =
      Doc.build (.after (.object (done.reverse ++ g :: gs) true)) stack (run .between rest) := by
  induction h generalizing done g with
  | nil =>
    rw [prettyFields, List.nil_append, run_newline, ← List.reverse_cons]
    rfl
  | @cons f g' fs gs hf _ ih =>
    have htext : prettyFields (depth + 1) (f :: fs) ++ (newline depth ++ ('\x7d' :: rest)) =
        ',' :: (newline (depth + 1) ++ (stringText f.1 ++ (':' :: ' ' :: (f.2.pretty (depth + 1) ++
          (prettyFields (depth + 1) fs ++ (newline depth ++ ('\x7d' :: rest))))))) := by
      simp [prettyFields]
    have hcomma := build_field hf false (depth + 1) (g :: done) stack
      (separated_fields depth fs ('\x7d' :: rest))
    rw [htext, run_cons]
    show Doc.build (.key (g :: done) false) stack (run .between (newline (depth + 1) ++ _)) = _
    rw [run_newline, hcomma, ih]
    simp

/-- An object whose fields can be read can be read. -/
theorem reads_object {fs : List (String × Value)} {gs : List (List Nat × Doc)}
    (h : List.Forall₂ ReadsField fs gs) : (object fs).Reads (.object gs true) := by
  intro depth stack rest _
  cases h with
  | nil =>
    rw [pretty]
    rfl
  | @cons f g fs gs hf hfs =>
    have htext : (object (f :: fs)).pretty depth ++ rest =
        '\x7b' :: (newline (depth + 1) ++ (stringText f.1 ++ (':' :: ' ' ::
          (f.2.pretty (depth + 1) ++ (prettyFields (depth + 1) fs ++
            (newline depth ++ ('\x7d' :: rest))))))) := by
      simp [pretty]
    have hfirst := build_field hf true (depth + 1) [] stack
      (separated_fields depth fs ('\x7d' :: rest))
    rw [htext, run_cons]
    show Doc.build (.key [] true) stack (run .between (newline (depth + 1) ++ _)) = _
    rw [run_newline, hfirst, build_fields depth hfs]
    rfl

end Value

end QuantEnclosure.Json
