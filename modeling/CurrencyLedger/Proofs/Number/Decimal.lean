import CurrencyLedger.Number.Numeral

/-!
The written form of numbers: digits only, no zero in front of another digit, and no more digits
than the size of the number asks for.
-/

namespace CurrencyLedger.Decimal

theorem isDigit_of_mem_digits {n : Nat} {c : Char} (h : c ∈ digits n) :
    Numeral.isDigit c = true := by
  induction n using Nat.strongRecOn with
  | _ n ih =>
    have last {d : Nat} (hd : d < 10) (hc : c = digitChar d) : Numeral.isDigit c = true := by
      rw [hc, Numeral.isDigit, digitValue?_digitChar hd]
      rfl
    rw [digits] at h
    split at h
    · exact last ‹_› (List.mem_singleton.1 h)
    · rcases List.mem_append.1 h with h | h
      · exact ih (n / 10) (by omega) h
      · exact last (Nat.mod_lt n (by decide)) (List.mem_singleton.1 h)

/-- A character that is no digit is not among the digits. -/
theorem not_mem_digits {c : Char} (h : Numeral.isDigit c = false) (n : Nat) : c ∉ digits n :=
  fun hc => Bool.false_ne_true (h.symm.trans (isDigit_of_mem_digits hc))

theorem digits_of_lt {n : Nat} (h : n < 10) : digits n = [digitChar n] := by
  rw [digits, if_pos h]

theorem digits_of_le {n : Nat} (h : 10 ≤ n) :
    digits n = digits (n / 10) ++ [digitChar (n % 10)] := by
  rw [digits, if_neg (Nat.not_lt.2 h)]

theorem head?_digits_of_le {n : Nat} (h : 10 ≤ n) :
    (digits n).head? = (digits (n / 10)).head? := by
  rw [digits_of_le h, List.head?_append]
  cases hd : digits (n / 10) with
  | nil => exact absurd hd (digits_ne_nil (n / 10))
  | cons c cs => rfl

theorem digitChar_ne_zero : ∀ d < 10, 0 < d → digitChar d ≠ '0' := by
  decide

theorem head?_digits_ne_zero {n : Nat} (h : 0 < n) : (digits n).head? ≠ some '0' := by
  induction n using Nat.strongRecOn with
  | _ n ih =>
    rcases Nat.lt_or_ge n 10 with hn | hn
    · rw [digits_of_lt hn, List.head?_cons]
      exact fun e => digitChar_ne_zero n hn h (Option.some.inj e)
    · rw [head?_digits_of_le hn]
      exact ih (n / 10) (by omega) (by omega)

/-- Only the number zero starts with a zero. -/
theorem length_digits_of_head? {n : Nat} (h : (digits n).head? = some '0') :
    (digits n).length = 1 := by
  rcases Nat.eq_zero_or_pos n with rfl | hn
  · rw [digits_of_lt (by decide)]
    rfl
  · exact absurd h (head?_digits_ne_zero hn)

theorem length_digits_le {n places : Nat} (h : n < Nat.pow 10 (places + 1)) :
    (digits n).length ≤ places + 1 := by
  induction places generalizing n with
  | zero =>
    rw [digits_of_lt h]
    exact Nat.le_refl 1
  | succ places ih =>
    rcases Nat.lt_or_ge n 10 with hn | hn
    · rw [digits_of_lt hn]
      exact Nat.le_add_left 1 _
    · have := ih ((Nat.div_lt_iff_lt_mul (by decide)).2 h)
      rw [digits_of_le hn, List.length_append, List.length_singleton]
      omega

theorem valueFrom?_zeros (count : Nat) (cs : List Char) :
    valueFrom? 0 (List.replicate count '0' ++ cs) = valueFrom? 0 cs := by
  induction count with
  | zero => rfl
  | succ count ih => exact ih

theorem grouped_digits (n : Nat) : grouped (digits n) = .ok n := by
  have hmem : '_' ∉ digits n := not_mem_digits (by decide) n
  have hfilter : (digits n).filter (· ≠ '_') = digits n :=
    List.filter_eq_self.2 fun c hc => decide_eq_true fun e => hmem (e ▸ hc)
  have hvalue := valueFrom?_digits n
  rw [← hfilter] at hvalue
  unfold grouped
  split
  · exact absurd ‹_› (digits_ne_nil n)
  · next h => exact absurd (h ▸ List.mem_cons_self) hmem
  · rw [hvalue]

/-- A written integer reads back. -/
theorem signed_intChars (n : Int) : signed (intChars n) = .ok n := by
  unfold intChars
  split
  · simp only [signed, grouped_digits, bind, Except.bind, pure, Except.pure, Except.ok.injEq]
    omega
  · have value : (n.natAbs : Int) = n := by omega
    unfold signed
    split
    · next h => exact absurd (h ▸ List.mem_cons_self) (not_mem_digits (by decide) n.natAbs)
    · next h => exact absurd (h ▸ List.mem_cons_self) (not_mem_digits (by decide) n.natAbs)
    · simp only [grouped_digits, bind, Except.bind, pure, Except.pure, value]

end CurrencyLedger.Decimal
