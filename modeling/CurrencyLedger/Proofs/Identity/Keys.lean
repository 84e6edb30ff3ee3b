import CurrencyLedger.Identity.KeySet
import CurrencyLedger.Proofs.Collection.Traversal

/-!
Texts of public keys read back, and a key set is made again of its keys. A native key is found by
the parity of its ordinate; of an Ethereum key the reader computes the ordinate and compares it with
the one that is written, so the parity that a point is held by has to be that of its ordinate.
-/

namespace CurrencyLedger

namespace Curve

theorem powMod_lt {modulus : Nat} (h : 1 < modulus) (base exponent : Nat) :
    powMod modulus base exponent < modulus := by
  suffices ∀ (bits : List Bool) (acc : Nat), acc < modulus →
      bits.foldl (fun acc bit =>
        if bit then acc * acc % modulus * base % modulus else acc * acc % modulus) acc < modulus
    from this (bits 256 exponent) 1 h
  intro bits
  induction bits with
  | nil => exact fun _ hacc => hacc
  | cons bit rest ih =>
    intro acc _
    rw [List.foldl_cons]
    apply ih
    split <;> exact Nat.mod_lt _ (Nat.lt_of_lt_of_le Nat.one_pos (Nat.le_of_lt h))

/-- Of two numbers with an odd sum one is odd. -/
theorem parity_choice {y size : Nat} (lt : y < size) (hsize : size % 2 = 1) (odd : Bool) :
    ((if (y % 2 == 1) = odd then y else size - y) % 2 == 1) = odd := by
  split
  · assumption
  · cases odd <;> grind

/-- The ordinate of a parity has it, as the size of the field is odd. -/
theorem ordinate?_parity {odd : Bool} {x y : Nat} (h : ordinate? odd x = some y) :
    (y % 2 == 1) = odd ∧ y ≤ fieldSize := by
  have lt := powMod_lt (by decide : 1 < fieldSize) ((x * x % fieldSize * x + 7) % fieldSize)
    ((fieldSize + 1) / 4)
  simp only [ordinate?, Option.ite_none_right_eq_some, Option.some.injEq] at h
  obtain ⟨-, rfl⟩ := h
  refine ⟨parity_choice lt rfl odd, ?_⟩
  split
  · exact Nat.le_of_lt lt
  · exact Nat.sub_le _ _

theorem Point.parity_y (p : Point) : (p.y % 2 == 1) = p.odd :=
  (ordinate?_parity (Option.some_get p.onCurve).symm).1

theorem Point.y_le (p : Point) : p.y ≤ fieldSize :=
  (ordinate?_parity (Option.some_get p.onCurve).symm).2

end Curve

namespace PublicKey

theorem fieldSize_lt : Curve.fieldSize < Nat.pow 256 32 := by
  decide

theorem ofBytes?_compressed (p : Curve.Point) : ofBytes? (compressed p) = some p := by
  have hx : BigEndian.number (BigEndian.bytes 32 p.x) = p.x :=
    BigEndian.number_bytes (Nat.lt_trans p.x_lt fieldSize_lt)
  have hp := p.ofAbscissa?_self
  rw [compressed, ofBytes?, if_pos (BigEndian.length_bytes 32 p.x), hx]
  cases hodd : p.odd <;> rw [hodd] at hp <;> simpa using hp

theorem ofBytes?_uncompressed (p : Curve.Point) : ofBytes? (uncompressed p) = some p := by
  have hx : BigEndian.number (BigEndian.bytes 32 p.x) = p.x :=
    BigEndian.number_bytes (Nat.lt_trans p.x_lt fieldSize_lt)
  have hy : BigEndian.number (BigEndian.bytes 32 p.y) = p.y :=
    BigEndian.number_bytes (Nat.lt_of_le_of_lt p.y_le fieldSize_lt)
  have length : (coordinates p).length = 64 := by
    simp [coordinates]
  have front : (coordinates p).take 32 = BigEndian.bytes 32 p.x :=
    List.take_left' (BigEndian.length_bytes 32 p.x)
  have back : (coordinates p).drop 32 = BigEndian.bytes 32 p.y :=
    List.drop_left' (BigEndian.length_bytes 32 p.x)
  rw [uncompressed, ofBytes?, if_neg (by rw [length]; decide), if_pos length, ofCoordinates?]
  simp only [front, back, hx, hy, p.parity_y, p.ofAbscissa?_self, bind, Option.bind_some, true_or,
    and_self, if_true]

theorem split?_append (body : String) (kind : KeyKind) :
    KeyKind.split? KeyKind.publicEnding (body ++ kind.publicEnding) = some (kind, body) := by
  cases kind with
  | native =>
    simp only [KeyKind.split?, List.findSome?_cons, String.toList_append, Text.dropSuffix?_append,
      Option.map_some, String.ofList_toList]
  | ethereum =>
    have other : Text.dropSuffix? KeyKind.native.publicEnding.toList
        (body.toList ++ KeyKind.ethereum.publicEnding.toList) = none := by
      rw [Option.eq_none_iff_forall_ne_some]
      intro front h
      have := (List.append_inj' (Text.dropSuffix?_eq_some_iff.1 h) (by decide)).2
      exact absurd this (by decide)
    simp only [KeyKind.split?, List.findSome?_cons, String.toList_append, other, Option.map_none,
      Text.dropSuffix?_append, Option.map_some, String.ofList_toList]

theorem parse_text (key : PublicKey) : parse key.text = .ok key := by
  obtain ⟨kind, point⟩ := key
  simp only [parse, text, split?_append]
  cases kind with
  | native => simp only [body, Hex.decode_text, ofBytes?_compressed]
  | ethereum => simp only [body, Hex.decode_text, ofBytes?_uncompressed]

theorem text_injective : Function.Injective text :=
  Traversal.injective_of_reads parse_text

end PublicKey

namespace KeySet

theorem order_self (s : KeySet) : order s.keys = s.keys := by
  refine List.mergeSort_of_pairwise (s.sorted.imp fun h => ?_)
  exact decide_eq_true h

/-- Every key set passes the check of its own keys. -/
theorem make_self (s : KeySet) : make s.keys s.threshold = .ok s := by
  have hdistinct : Check.distinct WeightedKey.checked KeyFault.duplicated s.keys = .ok () := by
    refine Check.distinct_eq_ok_iff.2 ⟨s.keys.map (·.key), Traversal.mapM_eq_map fun k hk => ?_,
      s.distinct⟩
    exact if_pos (s.weights k hk)
  unfold make
  simp only [order_self]
  rw [dif_pos s.count, dif_pos s.thresholdRange]
  split
  · next hfault =>
    rw [order_self, hdistinct] at hfault
    cases hfault
  · rw [dif_pos s.reachable]

end KeySet

end CurrencyLedger
