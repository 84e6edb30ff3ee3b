import CurrencyLedger.Proofs.Number.Decimal
import Mathlib.Data.Nat.Digits.Lemmas

/-!
Runs of digits as they may be given: with zeros in front. The number that a run stands for is read,
and but for the zeros the run is what the number is written as.
-/

namespace CurrencyLedger.Decimal

/-- The number that digits stand for. -/
def number (ds : List Char) : Nat :=
  Nat.ofDigits 10 (ds.reverse.map fun c => c.toNat - 48)

/-- One or more digits. -/
structure IsRun (ds : List Char) : Prop where
  ne_nil : ds ≠ []
  isDigit : ∀ c ∈ ds, c.isDigit = true

theorem number_nil : number [] = 0 :=
  rfl

theorem number_append (ds es : List Char) :
    number (ds ++ es) = number ds * 10 ^ es.length + number es := by
  rw [number, List.reverse_append, List.map_append, Nat.ofDigits_append, List.length_map,
    List.length_reverse, ← number, ← number, Nat.add_comm, Nat.mul_comm]

theorem number_singleton (c : Char) : number [c] = c.toNat - 48 := by
  simp [number]

theorem number_zeros (count : Nat) : number (List.replicate count '0') = 0 := by
  induction count with
  | zero => rfl
  | succ count ih =>
    rw [List.replicate_succ', number_append, ih, number_singleton]
    rfl

theorem digitValue?_eq_some_iff {c : Char} {d : Nat} :
    digitValue? c = some d ↔ c.isDigit = true ∧ d = c.toNat - 48 := by
  have hdigit : c.isDigit = true ↔ 48 ≤ c.toNat ∧ c.toNat ≤ 57 := by
    rw [Char.isDigit, Bool.and_eq_true, decide_eq_true_iff, decide_eq_true_iff,
      ge_iff_le, UInt32.le_iff_toNat_le, UInt32.le_iff_toNat_le]
    rfl
  rw [digitValue?, hdigit, Option.ite_none_right_eq_some, Option.some.injEq]
  exact and_congr_right fun _ => eq_comm

theorem valueFrom?_eq_some_iff {ds : List Char} {n : Nat} :
    valueFrom? 0 ds = some n ↔ (∀ c ∈ ds, c.isDigit = true) ∧ n = number ds := by
  induction ds using List.reverseRecOn generalizing n with
  | nil => exact ⟨fun h => ⟨nofun, (Option.some.inj h).symm⟩, fun h => congrArg some h.2.symm⟩
  | append_singleton ds c ih =>
    rw [valueFrom?_append, number_append, number_singleton]
    simp only [Option.bind_eq_some_iff, ih, valueFrom?, Option.bind_eq_bind,
      digitValue?_eq_some_iff, Option.some.injEq, List.mem_append, List.mem_singleton]
    constructor
    · rintro ⟨lead, ⟨hds, rfl⟩, d, ⟨hc, rfl⟩, rfl⟩
      refine ⟨?_, by simp [Nat.mul_comm]⟩
      rintro c' (h | rfl)
      · exact hds c' h
      · exact hc
    · rintro ⟨hall, rfl⟩
      exact ⟨_, ⟨fun c' h => hall c' (.inl h), rfl⟩, _, ⟨hall c (.inr rfl), rfl⟩,
        by simp [Nat.mul_comm]⟩

theorem value?_eq_some_iff {ds : List Char} {n : Nat} :
    value? ds = some n ↔ IsRun ds ∧ n = number ds := by
  cases ds with
  | nil => exact iff_of_false nofun fun h => h.1.ne_nil rfl
  | cons c ds =>
    rw [value?]
    · refine valueFrom?_eq_some_iff.trans ⟨?_, ?_⟩
      · exact fun ⟨h, hn⟩ => ⟨⟨List.cons_ne_nil _ _, h⟩, hn⟩
      · exact fun ⟨h, hn⟩ => ⟨h.isDigit, hn⟩
    · exact nofun

theorem digitValue_lt {c : Char} (h : c.isDigit = true) : c.toNat - 48 < 10 := by
  have value := digitValue?_eq_some_iff.2 ⟨h, rfl⟩
  obtain ⟨⟨-, hle⟩, -⟩ := Option.ite_none_right_eq_some.1 value
  omega

theorem digitChar_digitValue {c : Char} (h : c.isDigit = true) :
    digitChar (c.toNat - 48) = c := by
  have value := digitValue?_eq_some_iff.2 ⟨h, rfl⟩
  obtain ⟨⟨hle, -⟩, -⟩ := Option.ite_none_right_eq_some.1 value
  rw [digitChar, Nat.add_sub_cancel' hle, Char.ofNat_toNat]

theorem number_lt {ds : List Char} (h : ∀ c ∈ ds, c.isDigit = true) :
    number ds < 10 ^ ds.length := by
  have hlength : (ds.reverse.map fun c => c.toNat - 48).length = ds.length := by simp
  rw [number, ← hlength]
  refine Nat.ofDigits_lt_base_pow_length (by decide) fun d hd => ?_
  obtain ⟨c, hc, rfl⟩ := List.mem_map.1 hd
  exact digitValue_lt (h c (List.mem_reverse.1 hc))

/-- Digits are those of their number with zeros in front. -/
theorem IsRun.exists_zeros {ds : List Char} (run : IsRun ds) :
    ∃ count, ds = List.replicate count '0' ++ digits (number ds) := by
  obtain ⟨ne, hall⟩ := run
  induction ds using List.reverseRecOn with
  | nil => exact absurd rfl ne
  | append_singleton ds c ih =>
    have hc := hall c (List.mem_append_right _ List.mem_cons_self)
    have hd := digitValue_lt hc
    rw [number_append, number_singleton, List.length_singleton, Nat.pow_one]
    have hchar := digitChar_digitValue hc
    generalize c.toNat - 48 = d at hd hchar ⊢
    subst hchar
    by_cases hds : ds = []
    · subst hds
      exact ⟨0, by rw [number_nil, Nat.zero_mul, Nat.zero_add, digits_of_lt hd]; rfl⟩
    · obtain ⟨count, hcount⟩ := ih hds fun c' h => hall c' (List.mem_append_left _ h)
      rcases Nat.eq_zero_or_pos (number ds) with hzero | pos
      · rw [hzero, digits_of_lt (by decide)] at hcount
        refine ⟨count + 1, ?_⟩
        rw [hzero, Nat.zero_mul, Nat.zero_add, digits_of_lt hd, List.replicate_succ', hcount]
        rfl
      · refine ⟨count, ?_⟩
        rw [digits_of_le (n := number ds * 10 + d) (by omega),
          show (number ds * 10 + d) / 10 = number ds by omega,
          show (number ds * 10 + d) % 10 = d by omega, ← List.append_assoc, ← hcount]

theorem valueFrom?_zeros_iff {ds : List Char} {count n : Nat} :
    valueFrom? 0 (ds ++ List.replicate count '0') = some n ↔
      (∀ c ∈ ds, c.isDigit = true) ∧ n = number ds * 10 ^ count := by
  rw [valueFrom?_eq_some_iff, number_append, number_zeros, List.length_replicate, Nat.add_zero]
  refine and_congr_left' ⟨fun h c hc => h c (List.mem_append_left _ hc), fun h c hc => ?_⟩
  rcases List.mem_append.1 hc with hc | hc
  · exact h c hc
  · rw [List.eq_of_mem_replicate hc]
    rfl

theorem IsRun.point_not_mem {ds : List Char} (run : IsRun ds) : '.' ∉ ds :=
  fun h => absurd (run.isDigit '.' h) (by decide)

end CurrencyLedger.Decimal
