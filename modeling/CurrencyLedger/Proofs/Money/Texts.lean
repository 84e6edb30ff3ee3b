import CurrencyLedger.Money.Amount
import CurrencyLedger.Money.Ratio
import CurrencyLedger.Proofs.Number.Decimal
import Mathlib.Data.List.TakeWhile

/-!
Texts of magnitudes and of fee ratios read back. A ratio is written without the zeros at the end of
its nine places, which the reader puts there again.
-/

namespace CurrencyLedger

theorem Amount.parseMagnitude_ofInt (n : Int) : parseMagnitude (Decimal.ofInt n) = .ok n := by
  rw [parseMagnitude, Decimal.ofInt, String.toList_ofList, Decimal.signed_intChars]

namespace Ratio

/-- The nine places of a fraction. -/
def paddedPlaces (n : Nat) : List Char :=
  List.replicate (9 - (Decimal.digits n).length) '0' ++ Decimal.digits n

theorem length_paddedPlaces {n : Nat} (h : n < scale) : (paddedPlaces n).length = 9 := by
  have := @Decimal.length_digits_le n 8 h
  rw [paddedPlaces, List.length_append, List.length_replicate]
  omega

theorem valueFrom?_paddedPlaces (n : Nat) : Decimal.valueFrom? 0 (paddedPlaces n) = some n := by
  rw [paddedPlaces, Decimal.valueFrom?_zeros, Decimal.valueFrom?_digits]

/-- The zeros that are not written stand at the end. -/
theorem places_append_zeros {n : Nat} (h : n < scale) :
    (places n).length ≤ 9 ∧
      places n ++ List.replicate (9 - (places n).length) '0' = paddedPlaces n := by
  have hsplit := List.takeWhile_append_dropWhile (p := (· == '0')) (l := (paddedPlaces n).reverse)
  have hplaces : places n = ((paddedPlaces n).reverse.dropWhile (· == '0')).reverse := rfl
  have hzeros : (paddedPlaces n).reverse.takeWhile (· == '0') =
      List.replicate ((paddedPlaces n).reverse.takeWhile (· == '0')).length '0' :=
    List.eq_replicate_of_mem fun c hc => by simpa using List.mem_takeWhile_imp hc
  generalize (paddedPlaces n).reverse.takeWhile (· == '0') = zeros at hsplit hzeros
  have hpadded : places n ++ zeros = paddedPlaces n := by
    rw [hplaces, hzeros, ← List.reverse_replicate, ← hzeros, ← List.reverse_append, hsplit,
      List.reverse_reverse]
  have hlength := congrArg List.length hpadded
  rw [List.length_append, length_paddedPlaces h] at hlength
  refine ⟨by omega, ?_⟩
  rw [← hpadded, show 9 - (places n).length = zeros.length by omega, ← hzeros]

theorem places_ne_nil {n : Nat} (pos : 0 < n) (h : n < scale) : places n ≠ [] := fun hnil => by
  have hvalue := valueFrom?_paddedPlaces n
  rw [← (places_append_zeros h).2, hnil, List.nil_append, ← List.append_nil (List.replicate _ _),
    Decimal.valueFrom?_zeros] at hvalue
  exact Nat.ne_of_lt pos (Option.some.inj hvalue)

theorem point_not_mem_digits (n : Nat) : '.' ∉ Decimal.digits n :=
  Decimal.not_mem_digits (by decide) n

theorem partsOf?_eq_some {cs whole places : List Char} {w p : Nat}
    (hwhole : cs.takeWhile (· != '.') = whole) (hplaces : (cs.dropWhile (· != '.')).drop 1 = places)
    (pointed : cs.contains '.' = true → places ≠ []) (short : places.length ≤ 9)
    (hw : Decimal.value? whole = some w)
    (hp : Decimal.valueFrom? 0 (places ++ List.replicate (9 - places.length) '0') = some p)
    (bound : w * scale + p < UInt64.size) : partsOf? cs = some (w * scale + p) := by
  unfold partsOf?
  rw [hwhole, hplaces, if_pos ⟨pointed, short⟩]
  exact Option.bind_eq_some_iff.2 ⟨w, hw, Option.bind_eq_some_iff.2 ⟨p, hp, if_pos bound⟩⟩

theorem partsOf?_digits {n : Nat} (bound : n * scale + 0 < UInt64.size) :
    partsOf? (Decimal.digits n) = some (n * scale + 0) := by
  have hall : ∀ c ∈ Decimal.digits n, (c != '.') = true := fun c hc =>
    bne_iff_ne.2 fun e => point_not_mem_digits n (e ▸ hc)
  have hplaces : ((Decimal.digits n).dropWhile (· != '.')).drop 1 = [] := by
    rw [List.dropWhile_eq_nil_iff.2 hall, List.drop_nil]
  refine partsOf?_eq_some (List.takeWhile_eq_self_iff.2 hall) hplaces ?_ (Nat.zero_le 9)
    (Decimal.value?_digits n) rfl bound
  intro h
  exact absurd (by simpa using h) (point_not_mem_digits n)

theorem partsOf?_pointed {n p : Nat} (pos : 0 < p) (lt : p < scale)
    (bound : n * scale + p < UInt64.size) :
    partsOf? (Decimal.digits n ++ '.' :: places p) = some (n * scale + p) := by
  have hall : ∀ c ∈ Decimal.digits n, (c != '.') = true := fun c hc =>
    bne_iff_ne.2 fun e => point_not_mem_digits n (e ▸ hc)
  obtain ⟨short, padded⟩ := places_append_zeros lt
  refine partsOf?_eq_some ?_ ?_ (fun _ => places_ne_nil pos lt) short (Decimal.value?_digits n)
    (padded ▸ valueFrom?_paddedPlaces p) bound
  · rw [List.takeWhile_append_of_pos hall]
    simp
  · rw [List.dropWhile_append_of_pos hall]
    simp

theorem partsOf?_chars (r : Ratio) : partsOf? r.chars = some r.parts := by
  have sum : r.parts / scale * scale + r.parts % scale = r.parts := Nat.div_add_mod' _ _
  have bound : r.parts / scale * scale + r.parts % scale < UInt64.size := by
    rw [sum]
    exact Nat.lt_of_le_of_lt r.le_one (by decide : scale < UInt64.size)
  unfold chars
  split
  · next h =>
    rw [h] at sum bound
    rw [partsOf?_digits bound, sum]
  · next h =>
    rw [partsOf?_pointed (Nat.pos_of_ne_zero h) (Nat.mod_lt _ (by decide)) bound, sum]

theorem parse_text (r : Ratio) : parse r.text = .ok r := by
  simp only [parse, text, String.toList_ofList, partsOf?_chars, ofParts]
  exact dif_pos r.le_one

end Ratio

end CurrencyLedger
