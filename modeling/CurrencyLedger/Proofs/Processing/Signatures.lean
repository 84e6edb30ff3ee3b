import CurrencyLedger.Processing.Signatures
import CurrencyLedger.Proofs.Collection.Traversal

/-!
When signers reach the threshold of a key set.
-/

namespace CurrencyLedger

open Traversal

namespace KeySet

/-- The weight of a signer, which is zero without a key in the set. -/
def weightOf (keys : KeySet) (signer : PublicKey) : Nat :=
  ((keys.find? signer).map fun k => k.weight.toNat).getD 0

def weightOfAll (keys : KeySet) : List PublicKey → Nat
  | [] => 0
  | signer :: rest => keys.weightOf signer + keys.weightOfAll rest

theorem signedWeight_eq_ok {keys : KeySet} {seen signers : List PublicKey} {weight : Nat} :
    keys.signedWeight seen signers = .ok weight ↔
      signers.Nodup ∧ (∀ s ∈ signers, s ∉ seen) ∧ weight = keys.weightOfAll signers := by
  induction signers generalizing seen weight with
  | nil => simp [signedWeight, weightOfAll, eq_comm]
  | cons signer rest ih =>
    rw [signedWeight]
    by_cases hs : signer ∈ seen
    · simp [hs]
    · rw [if_neg hs, bind_eq_ok]
      simp only [ih, pure_eq_ok]
      have hsum : keys.weightOfAll (signer :: rest) =
          keys.weightOf signer + keys.weightOfAll rest := rfl
      rw [hsum, List.nodup_cons, List.forall_mem_cons]
      constructor
      · rintro ⟨_, ⟨hd, hn, rfl⟩, rfl⟩
        refine ⟨⟨fun hm => hn _ hm List.mem_cons_self, hd⟩, ⟨hs, fun s hm hmem => ?_⟩, rfl⟩
        exact hn s hm (List.mem_cons_of_mem _ hmem)
      · rintro ⟨⟨hm, hd⟩, ⟨-, hn⟩, rfl⟩
        refine ⟨_, ⟨hd, fun s hs' hmem => ?_, rfl⟩, rfl⟩
        rcases List.mem_cons.1 hmem with rfl | hmem
        · exact hm hs'
        · exact hn s hs' hmem

/-- Signers suffice if none signs twice and their weights reach the threshold. -/
theorem checkSigners_eq_ok {keys : KeySet} {signers : List PublicKey} :
    keys.checkSigners signers = .ok () ↔
      signers.Nodup ∧ keys.threshold.toNat ≤ keys.weightOfAll signers := by
  rw [checkSigners, bind_eq_ok]
  simp only [signedWeight_eq_ok]
  constructor
  · rintro ⟨_, ⟨hd, -, rfl⟩, h⟩
    split at h
    · cases h
    · next hle => exact ⟨hd, Nat.not_lt.1 hle⟩
  · rintro ⟨hd, hle⟩
    exact ⟨_, ⟨hd, by simp, rfl⟩, if_neg (Nat.not_lt.2 hle)⟩

/-- The weight of those of some keys that are among the signers. -/
def weightIn (signers : List PublicKey) : List WeightedKey → Nat
  | [] => 0
  | k :: rest => (if k.key ∈ signers then k.weight.toNat else 0) + weightIn signers rest

/-- The weight of the keys that are among the signers. -/
def weightAmong (keys : KeySet) (signers : List PublicKey) : Nat :=
  weightIn signers keys.keys

theorem weightIn_nil (ks : List WeightedKey) : weightIn [] ks = 0 := by
  induction ks with
  | nil => rfl
  | cons k ks ih => rw [weightIn, ih, if_neg List.not_mem_nil]

/-- One more signer adds the weight of its key, since no other key is the same. -/
theorem weightIn_cons {ks : List WeightedKey} (distinct : (ks.map WeightedKey.key).Nodup)
    {signer : PublicKey} {rest : List PublicKey} (fresh : signer ∉ rest) :
    weightIn (signer :: rest) ks =
      ((ks.find? fun k => k.key = signer).map fun k => k.weight.toNat).getD 0 +
        weightIn rest ks := by
  induction ks with
  | nil => rfl
  | cons k ks ih =>
    obtain ⟨hk, hks⟩ := List.nodup_cons.1 distinct
    rw [weightIn, weightIn, ih hks]
    by_cases hkey : k.key = signer
    · subst hkey
      have hnone : (ks.find? fun other => other.key = k.key) = none := by
        rw [List.find?_eq_none]
        intro other ho he
        exact hk (List.mem_map.2 ⟨other, ho, of_decide_eq_true he⟩)
      simp [hnone, fresh]
    · simp only [List.find?_cons, hkey, List.mem_cons, false_or, decide_false]
      omega

/-- Where nobody signs twice, the weights of the signers are those of the keys among them. -/
theorem weightOfAll_eq {keys : KeySet} {signers : List PublicKey} (distinct : signers.Nodup) :
    keys.weightOfAll signers = keys.weightAmong signers := by
  induction signers with
  | nil => rw [weightAmong, weightIn_nil, weightOfAll]
  | cons signer rest ih =>
    obtain ⟨fresh, hrest⟩ := List.nodup_cons.1 distinct
    rw [weightOfAll, ih hrest, weightAmong, weightAmong, weightIn_cons keys.distinct fresh]
    rfl

end KeySet

end CurrencyLedger
