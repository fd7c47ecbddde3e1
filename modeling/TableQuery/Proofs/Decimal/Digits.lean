import Mathlib.Algebra.Group.Nat.Defs
import TableQuery.Decimal.Layout

/-! # The digits of a number

`digitsOf n` spells `n` without a superfluous zero, and `ofDigits` takes it back. -/

namespace TableQuery

variable {n k : Nat} {c : Char} {ds : List Char}

theorem ofDigits_eq_ofDigitChars (ds : List Char) : ofDigits ds = Nat.ofDigitChars 10 ds 0 := by
  rw [Nat.ofDigitChars_eq_foldl]
  rfl

theorem ofDigits_append (ds ds' : List Char) :
    ofDigits (ds ++ ds') = 10 ^ ds'.length * ofDigits ds + ofDigits ds' := by
  simp only [ofDigits_eq_ofDigitChars]
  rw [Nat.ofDigitChars_append, Nat.ofDigitChars_eq_ofDigitChars_zero]

theorem ofDigits_cons (c : Char) (ds : List Char) :
    ofDigits (c :: ds) = 10 ^ ds.length * digitValue c + ofDigits ds := by
  have single : ofDigits [c] = digitValue c := by simp [ofDigits]
  rw [← single, ← ofDigits_append, List.singleton_append]

theorem ofDigits_zeros (k : Nat) : ofDigits (Decimal.zeros k) = 0 := by
  rw [ofDigits_eq_ofDigitChars, Decimal.zeros, Nat.ofDigitChars_replicate_zero, Nat.mul_zero]

theorem ofDigits_zeros_append (k : Nat) (ds : List Char) : ofDigits (Decimal.zeros k ++ ds) = ofDigits ds := by
  rw [ofDigits_append, ofDigits_zeros, Nat.mul_zero, Nat.zero_add]

theorem ofDigits_append_zeros (ds : List Char) (k : Nat) : ofDigits (ds ++ Decimal.zeros k) = ofDigits ds * 10 ^ k := by
  rw [ofDigits_append, ofDigits_zeros, Nat.add_zero, Nat.mul_comm, Decimal.zeros, List.length_replicate]

theorem digitValue_lt (h : isDigit c = true) : digitValue c < 10 := by
  have nine : c.toNat ≤ 57 := by
    simp only [isDigit, Bool.and_eq_true, decide_eq_true_eq] at h
    exact h.2
  unfold digitValue
  omega

theorem ofDigits_lt (h : ∀ c ∈ ds, isDigit c = true) : ofDigits ds < 10 ^ ds.length := by
  induction ds with
  | nil => simp [ofDigits]
  | cons c ds ih =>
    obtain ⟨first, others⟩ := List.forall_mem_cons.mp h
    have low := ih others
    have high : 10 ^ ds.length * digitValue c ≤ 10 ^ ds.length * 9 :=
      Nat.mul_le_mul_left _ (Nat.le_of_lt_succ (digitValue_lt first))
    rw [ofDigits_cons, List.length_cons, Nat.pow_succ]
    omega

theorem isDigit_of_mem_digitsOf (h : c ∈ digitsOf n) : isDigit c = true := by
  have digit := Nat.isDigit_of_mem_toDigits (by decide) (by decide) h
  simpa [isDigit, Char.isDigit, Char.le_def] using digit

theorem digitsOf_ne_nil (n : Nat) : digitsOf n ≠ [] := Nat.toDigits_ne_nil

theorem ofDigits_digitsOf (n : Nat) : ofDigits (digitsOf n) = n := by
  rw [ofDigits_eq_ofDigitChars]
  exact Nat.ofDigitChars_toDigits (by decide) (by decide)

theorem length_digitsOf_le (pos : 0 < k) (h : n < 10 ^ k) : (digitsOf n).length ≤ k :=
  (Nat.length_toDigits_le_iff (by decide) pos).mpr h

theorem lt_ten_pow_length (n : Nat) : n < 10 ^ (digitsOf n).length := by
  have value := ofDigits_lt fun c hc => isDigit_of_mem_digitsOf (c := c) (n := n) hc
  rwa [ofDigits_digitsOf] at value

theorem ten_pow_length_le (h : 0 < n) : 10 ^ ((digitsOf n).length - 1) ≤ n := by
  refine Nat.le_of_not_lt fun less => ?_
  rcases Nat.eq_zero_or_pos ((digitsOf n).length - 1) with one | more
  · simp [one] at less
    omega
  · have := length_digitsOf_le more less
    omega

/-- The first digit of a number other than zero is no zero: one digit fewer would do otherwise. -/
theorem head?_digitsOf (h : 0 < n) : (digitsOf n).head? ≠ some '0' := by
  intro zero
  obtain ⟨ds, eq⟩ := List.head?_eq_some_iff.mp zero
  have value := ofDigits_digitsOf n
  rw [eq, ofDigits_cons, show digitValue '0' = 0 from rfl, Nat.mul_zero, Nat.zero_add] at value
  have small : n < 10 ^ ds.length := by
    rw [← value]
    exact ofDigits_lt fun c hc => isDigit_of_mem_digitsOf (n := n) (by simp [eq, hc])
  cases ds with
  | nil => simp at small; omega
  | cons d ds =>
    have := length_digitsOf_le (by simp) small
    simp only [eq, List.length_cons] at this
    omega

theorem eq_zero_of_digitValue (h : isDigit c = true) (zero : digitValue c = 0) : c = '0' := by
  have low : 48 ≤ c.toNat := by
    simp only [isDigit, Bool.and_eq_true, decide_eq_true_eq] at h
    exact h.1
  refine Char.toNat_inj.mp (show c.toNat = 48 from ?_)
  unfold digitValue at zero
  omega

theorem head?_of_ofDigits (ne : ds ≠ []) (digits : ∀ c ∈ ds, isDigit c = true) (zero : ofDigits ds = 0) :
    ds.head? = some '0' := by
  cases ds with
  | nil => exact absurd rfl ne
  | cons c ds =>
    rw [ofDigits_cons, Nat.add_eq_zero_iff, Nat.mul_eq_zero] at zero
    have value : digitValue c = 0 := zero.1.resolve_left (Nat.ne_of_gt (Nat.pow_pos (by decide)))
    rw [List.head?_cons, eq_zero_of_digitValue (digits c (by simp)) value]

end TableQuery
