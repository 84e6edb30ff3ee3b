import CurrencyLedger.Proofs.Identity.Keys

/-!
Key sets in their canonical form. Keys have a strict order, so `KeySet.make` does not tell apart the
orders in which keys are given; and the byte strings that are hashed of key sets can be taken apart,
though neither the keys are counted in them nor the lengths of their texts told: the second digit of
a key tells its kind and so its length, and no key starts with the zero byte of a threshold.
-/

namespace CurrencyLedger

/-- A number is made up of a multiple and a rest in one way. -/
theorem eq_of_mul_add_eq {size a b x y : Nat} (hx : x < size) (hy : y < size)
    (h : a * size + x = b * size + y) : a = b ∧ x = y := by
  have pos : 0 < size := Nat.zero_lt_of_lt hx
  have parts {c z : Nat} (hz : z < size) :
      (c * size + z) / size = c ∧ (c * size + z) % size = z := by
    rw [Nat.div_mod_unique pos, Nat.mul_comm, Nat.add_comm]
    exact ⟨rfl, hz⟩
  obtain ⟨ha, hx⟩ := @parts a x hx
  rw [h] at ha hx
  obtain ⟨hb, hy⟩ := @parts b y hy
  exact ⟨ha.symm.trans hb, hx.symm.trans hy⟩

namespace PublicKey

/-- The order tells all keys apart. -/
theorem rank_injective : Function.Injective rank := by
  rintro ⟨kind, odd, x, onCurve⟩ ⟨kind', odd', x', onCurve'⟩ h
  obtain ⟨hlead, rfl⟩ := eq_of_mul_add_eq (Curve.Point.x_lt ⟨odd, x, onCurve⟩)
    (Curve.Point.x_lt ⟨odd', x', onCurve'⟩) h
  have hodd : odd = odd' := by
    cases kind <;> cases kind' <;> cases odd <;> cases odd' <;> simp at hlead <;> rfl
  have hkind : kind = kind' := by
    cases kind <;> cases kind' <;> cases odd <;> cases odd' <;> simp at hlead <;> rfl
  subst hodd hkind
  rfl

/-- The bytes of a key's text: a zero digit, a digit for its kind and more. -/
theorem utf8_text_start (key : PublicKey) :
    ∃ mark rest, Text.utf8 key.text = 48 :: mark :: rest ∧
      (mark = 52 ↔ key.kind = .ethereum) := by
  obtain ⟨kind, point⟩ := key
  cases kind with
  | native =>
    refine ⟨if point.odd then 51 else 50,
      Text.utf8 (Hex.text (BigEndian.bytes 32 point.x)) ++ Text.utf8 KeyKind.native.publicEnding,
      ?_, ?_⟩
    · simp only [text, body, compressed, Text.utf8_append, Hex.utf8_text_cons, List.cons_append]
      cases point.odd <;> rfl
    · cases point.odd <;> simp
  | ethereum =>
    refine ⟨52, Text.utf8 (Hex.text (coordinates point)) ++
      Text.utf8 KeyKind.ethereum.publicEnding, ?_, by simp⟩
    simp only [text, body, uncompressed, Text.utf8_append, Hex.utf8_text_cons, List.cons_append]
    rfl

/-- Keys of a kind have texts of one length. -/
theorem length_utf8_text (key : PublicKey) :
    (Text.utf8 key.text).length = if key.kind = .ethereum then 133 else 69 := by
  obtain ⟨kind, point⟩ := key
  cases kind with
  | native =>
    have hbody : (compressed point).length = 33 := by simp [compressed]
    simp only [text, body, Text.utf8_append, List.length_append, Hex.length_utf8_text, hbody]
    rfl
  | ethereum =>
    have hbody : (uncompressed point).length = 65 := by simp [uncompressed, coordinates]
    simp only [text, body, Text.utf8_append, List.length_append, Hex.length_utf8_text, hbody]
    rfl

/-- The text of a key tells where it ends. -/
theorem eq_of_utf8_append {k l : PublicKey} {r s : List UInt8}
    (h : Text.utf8 k.text ++ r = Text.utf8 l.text ++ s) : k = l ∧ r = s := by
  have kinds : k.kind = .ethereum ↔ l.kind = .ethereum := by
    obtain ⟨mark, rest, hk, hmark⟩ := utf8_text_start k
    obtain ⟨mark', rest', hl, hmark'⟩ := utf8_text_start l
    rw [hk, hl] at h
    obtain ⟨rfl, -⟩ := List.cons_eq_cons.1 (List.cons_eq_cons.1 h).2
    exact hmark.symm.trans hmark'
  have lengths : (Text.utf8 k.text).length = (Text.utf8 l.text).length := by
    simp only [length_utf8_text, kinds]
  obtain ⟨texts, rests⟩ := List.append_inj h lengths
  exact ⟨text_injective (Text.utf8_injective texts), rests⟩

end PublicKey

namespace WeightedKey

theorem rank_injective : Function.Injective rank := by
  rintro ⟨key, weight⟩ ⟨key', weight'⟩ h
  obtain ⟨hkey, hweight⟩ := eq_of_mul_add_eq weight.toNat_lt weight'.toNat_lt h
  obtain rfl : key = key' := PublicKey.rank_injective hkey
  obtain rfl : weight = weight' := UInt32.toNat_inj.1 hweight
  rfl

/-- What is hashed of a weighted key. -/
def bytes (k : WeightedKey) : List UInt8 :=
  Text.utf8 k.key.text ++ BigEndian.bytes 4 k.weight.toNat

theorem bytes_start (k : WeightedKey) : ∃ rest, k.bytes = 48 :: rest := by
  obtain ⟨mark, rest, h, -⟩ := k.key.utf8_text_start
  exact ⟨_, by rw [bytes, h, List.cons_append]⟩

theorem wide_injective {n m : UInt32}
    (h : BigEndian.bytes 4 n.toNat = BigEndian.bytes 4 m.toNat) : n = m := by
  have hnumber := congrArg BigEndian.number h
  rw [BigEndian.number_bytes n.toNat_lt, BigEndian.number_bytes m.toNat_lt] at hnumber
  exact UInt32.toNat_inj.1 hnumber

theorem eq_of_bytes_append {k l : WeightedKey} {r s : List UInt8}
    (h : k.bytes ++ r = l.bytes ++ s) : k = l ∧ r = s := by
  obtain ⟨key, weight⟩ := k
  obtain ⟨key', weight'⟩ := l
  rw [bytes, bytes, List.append_assoc, List.append_assoc] at h
  obtain ⟨rfl, h⟩ : key = key' ∧ _ := PublicKey.eq_of_utf8_append h
  obtain ⟨hweight, rests⟩ := List.append_inj h (by simp only [BigEndian.length_bytes])
  obtain rfl : weight = weight' := wide_injective hweight
  exact ⟨rfl, rests⟩

/-- A number in the range starts with a zero byte. -/
theorem wide_start {n : UInt32} (h : IsWeight n) :
    ∃ rest, BigEndian.bytes 4 n.toNat = 0 :: rest := by
  have hle : n.toNat ≤ 100 := UInt32.le_iff_toNat_le.1 h.2
  have hzero : n.toNat / 256 / 256 / 256 = 0 := by omega
  simp [BigEndian.bytes, hzero]

end WeightedKey

namespace KeySet

/-- Keys in any order are sorted into one. -/
theorem order_eq_of_perm {keys keys' : List WeightedKey} (h : keys.Perm keys') :
    order keys = order keys' := by
  refine List.Perm.eq_of_pairwise (fun a b _ _ hab hba => ?_) (sorted_order keys)
    (sorted_order keys') ?_
  · exact WeightedKey.rank_injective (Nat.le_antisymm hab hba)
  · exact (List.mergeSort_perm keys _).trans (h.trans (List.mergeSort_perm keys' _).symm)

/-- What a key set or the fault is made of is sorted first. -/
theorem make_eq_of_order {keys keys' : List WeightedKey} (h : order keys = order keys')
    (threshold : UInt32) : make keys threshold = make keys' threshold := by
  unfold make
  dsimp only
  congr!

theorem make_eq_of_perm {keys keys' : List WeightedKey} (h : keys.Perm keys')
    (threshold : UInt32) : make keys threshold = make keys' threshold :=
  make_eq_of_order (order_eq_of_perm h) threshold

theorem hashedBytes_eq (s : KeySet) :
    s.hashedBytes = s.keys.flatMap WeightedKey.bytes ++ BigEndian.bytes 4 s.threshold.toNat :=
  rfl

/-- The bytes of keys in front of a threshold can be taken apart. -/
theorem eq_of_flatMap_append {keys keys' : List WeightedKey} {n m : UInt32}
    (hn : WeightedKey.IsWeight n) (hm : WeightedKey.IsWeight m)
    (h : keys.flatMap WeightedKey.bytes ++ BigEndian.bytes 4 n.toNat =
      keys'.flatMap WeightedKey.bytes ++ BigEndian.bytes 4 m.toNat) : keys = keys' ∧ n = m := by
  have apart {k : WeightedKey} {l : UInt32} {r : List UInt8} (hl : WeightedKey.IsWeight l)
      (h : BigEndian.bytes 4 l.toNat = k.bytes ++ r) : False := by
    obtain ⟨rest, hzero⟩ := WeightedKey.wide_start hl
    obtain ⟨rest', hdigit⟩ := k.bytes_start
    rw [hzero, hdigit] at h
    exact absurd (List.cons_eq_cons.1 h).1 (by decide)
  induction keys generalizing keys' with
  | nil =>
    cases keys' with
    | nil => exact ⟨rfl, WeightedKey.wide_injective h⟩
    | cons k keys' =>
      rw [List.flatMap_cons, List.append_assoc] at h
      exact (apart hn h).elim
  | cons k keys ih =>
    rw [List.flatMap_cons, List.append_assoc] at h
    cases keys' with
    | nil => exact (apart hm h.symm).elim
    | cons k' keys' =>
      rw [List.flatMap_cons, List.append_assoc] at h
      obtain ⟨rfl, rests⟩ := WeightedKey.eq_of_bytes_append h
      obtain ⟨rfl, rfl⟩ := ih rests
      exact ⟨rfl, rfl⟩

theorem hashedBytes_injective : Function.Injective hashedBytes := by
  rintro ⟨keys, threshold, sorted, count, range, weights, distinct, reachable⟩
    ⟨keys', threshold', sorted', count', range', weights', distinct', reachable'⟩ h
  rw [hashedBytes_eq, hashedBytes_eq] at h
  obtain ⟨rfl, rfl⟩ := eq_of_flatMap_append range range' h
  rfl

end KeySet

end CurrencyLedger
