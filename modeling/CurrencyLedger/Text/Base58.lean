import CurrencyLedger.Number.BigEndian

/-!
Base 58: a byte string as a number written with 58 letters and digits, with one leading `1` for each
leading zero byte.
-/

namespace CurrencyLedger.Base58

def alphabet : List Char :=
  "123456789ABCDEFGHJKLMNPQRSTUVWXYZabcdefghijkmnopqrstuvwxyz".toList

def digit (n : Nat) : Char :=
  alphabet.getD n '1'

/-- The digits of `n`, none for 0. -/
def digits (n : Nat) : List Char :=
  if n = 0 then [] else digits (n / 58) ++ [digit (n % 58)]

def encode (bytes : List UInt8) : List Char :=
  List.replicate (bytes.takeWhile (· == 0)).length '1' ++ digits (BigEndian.number bytes)

theorem length_digits_le {n k : Nat} (h : n < Nat.pow 58 k) : (digits n).length ≤ k := by
  induction k generalizing n with
  | zero =>
    have : n = 0 := Nat.lt_one_iff.1 h
    simp [this, digits]
  | succ k ih =>
    rw [digits]
    split
    · simp
    · simpa using ih ((Nat.div_lt_iff_lt_mul (by decide)).2 h)

theorem lt_length_digits {n k : Nat} (h : Nat.pow 58 k ≤ n) : k < (digits n).length := by
  have hn : n ≠ 0 := Nat.ne_of_gt (Nat.lt_of_lt_of_le (Nat.pow_pos (by decide)) h)
  induction k generalizing n with
  | zero =>
    rw [digits, if_neg hn]
    simp
  | succ k ih =>
    have hk : Nat.pow 58 k ≤ n / 58 := (Nat.le_div_iff_mul_le (by decide)).2 h
    rw [digits, if_neg hn]
    simpa using ih hk (Nat.ne_of_gt (Nat.lt_of_lt_of_le (Nat.pow_pos (by decide)) hk))

theorem alphabet_isAlphanum : ∀ c ∈ alphabet, c.isAlphanum = true :=
  List.all_eq_true.mp (by decide +kernel : alphabet.all Char.isAlphanum = true)

theorem digit_isAlphanum (n : Nat) : (digit n).isAlphanum = true := by
  rw [digit, List.getD_eq_getElem?_getD]
  cases h : alphabet[n]? with
  | none => rfl
  | some c => exact alphabet_isAlphanum c (List.mem_of_getElem? h)

theorem isAlphanum_of_mem_digits {n : Nat} {c : Char} (h : c ∈ digits n) : c.isAlphanum = true := by
  induction n using Nat.strongRecOn with
  | _ n ih =>
    rw [digits] at h
    split at h
    · simp at h
    · next hn =>
      rcases List.mem_append.1 h with h | h
      · exact ih (n / 58) (by omega) h
      · rw [List.mem_singleton.1 h]; exact digit_isAlphanum _

theorem isAlphanum_of_mem_encode {bytes : List UInt8} {c : Char} (h : c ∈ encode bytes) :
    c.isAlphanum = true := by
  rcases List.mem_append.1 h with h | h
  · rw [List.eq_of_mem_replicate h]; rfl
  · exact isAlphanum_of_mem_digits h

/-- A byte string that does not start with three zeros is a large number. -/
theorem le_number_of_takeWhile {bytes : List UInt8} {z : Nat}
    (hz : (bytes.takeWhile (· == 0)).length = z) (hl : z < bytes.length) :
    Nat.pow 256 (bytes.length - z - 1) ≤ BigEndian.number bytes := by
  induction bytes generalizing z with
  | nil => simp at hl
  | cons b rest ih =>
    rw [BigEndian.number_cons]
    by_cases hb : b = 0
    · subst hb
      simp at hz
      subst hz
      have := ih rfl (by simpa using hl)
      simp only [List.length_cons]
      have e : rest.length + 1 - ((rest.takeWhile (· == 0)).length + 1) - 1 =
          rest.length - (rest.takeWhile (· == 0)).length - 1 := by omega
      rw [e]
      exact Nat.le_trans this (Nat.le_add_left _ _)
    · simp [hb] at hz
      subst hz
      have hpos : 1 ≤ b.toNat := by
        rcases Nat.eq_zero_or_pos b.toNat with h | h
        · exact absurd (UInt8.toNat_inj.1 (by simpa using h)) hb
        · exact h
      simp only [List.length_cons, Nat.sub_zero, Nat.add_sub_cancel]
      have := Nat.mul_le_mul_right (Nat.pow 256 rest.length) hpos
      omega

/-- The text of 32 bytes has from 3 to 76 digits. -/
theorem length_encode_bounds {bytes : List UInt8} (h : bytes.length = 32) :
    3 ≤ (encode bytes).length ∧ (encode bytes).length ≤ 76 := by
  have hz : (bytes.takeWhile (· == 0)).length ≤ bytes.length :=
    List.Sublist.length_le (List.takeWhile_sublist _)
  have hd : (digits (BigEndian.number bytes)).length ≤ 44 := length_digits_le (by
    have := BigEndian.number_lt bytes
    rw [h] at this
    exact Nat.lt_of_lt_of_le this (by decide))
  rw [encode, List.length_append, List.length_replicate]
  refine ⟨?_, by omega⟩
  rcases Nat.lt_or_ge (bytes.takeWhile (· == 0)).length 3 with hlt | hge
  · have hle := @le_number_of_takeWhile bytes _ rfl (by omega)
    have h29 : Nat.pow 256 29 ≤
        Nat.pow 256 (bytes.length - (bytes.takeWhile (· == 0)).length - 1) :=
      Nat.pow_le_pow_right (by decide) (by omega)
    have := lt_length_digits (n := BigEndian.number bytes) (k := 2)
      (Nat.le_trans (by decide) (Nat.le_trans h29 hle))
    omega
  · omega

example : encode [0, 0, 58] = ['1', '1', '2', '1'] := by cbv

end CurrencyLedger.Base58
