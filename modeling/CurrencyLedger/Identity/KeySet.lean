import CurrencyLedger.Collection.Distinct
import CurrencyLedger.Hash.Digest
import CurrencyLedger.Identity.PublicKey
import CurrencyLedger.Wire.Record

/-!
Weighted keys with a threshold, which own an account. The keys are kept in their order, so the hash
of a key set does not depend on the order in which the keys were given.
-/

namespace CurrencyLedger

structure WeightedKey where
  key : PublicKey
  weight : UInt32
deriving DecidableEq

/-- Why keys and a threshold make no key set, or a key set no address. -/
inductive KeyFault where
  | count (count : Nat)
  | threshold (threshold : UInt32)
  | weight (weight : UInt32)
  | duplicated (key : PublicKey)
  | underThreshold (sum : Nat) (threshold : UInt32)
  | severalForEthereum
  | nativeForEthereum
deriving DecidableEq

def KeyFault.message : KeyFault → String
  | .count n => "number of keys must be 1..=10, got " ++ Decimal.ofNat n
  | .threshold n => "threshold must be 1..=100, got " ++ Decimal.ofNat n.toNat
  | .weight n => "key weight must be 1..=100, got " ++ Decimal.ofNat n.toNat
  | .duplicated key => "duplicated key " ++ key.text
  | .underThreshold sum n =>
    "sum of weights " ++ Decimal.ofNat sum ++ " under threshold " ++ Decimal.ofNat n.toNat
  | .severalForEthereum => "ethereum address requires exactly one key"
  | .nativeForEthereum => "ethereum address requires an ethereum public key"

namespace WeightedKey

def IsWeight (n : UInt32) : Prop :=
  1 ≤ n ∧ n ≤ 100

instance (n : UInt32) : Decidable (IsWeight n) :=
  inferInstanceAs (Decidable (_ ∧ _))

def make (key : PublicKey) (weight : UInt32) : Except KeyFault WeightedKey :=
  if IsWeight weight then .ok ⟨key, weight⟩ else .error (.weight weight)

/-- Keys come first in the order, then weights. -/
def rank (k : WeightedKey) : Nat :=
  k.key.rank * UInt32.size + k.weight.toNat

/-- The key of a weighted key with a weight in the range. -/
def checked (k : WeightedKey) : Except KeyFault PublicKey :=
  if IsWeight k.weight then .ok k.key else .error (.weight k.weight)

end WeightedKey

def totalWeight : List WeightedKey → Nat
  | [] => 0
  | k :: rest => k.weight.toNat + totalWeight rest

structure KeySet where
  keys : List WeightedKey
  threshold : UInt32
  sorted : keys.Pairwise fun a b => a.rank ≤ b.rank
  count : 1 ≤ keys.length ∧ keys.length ≤ 10
  thresholdRange : WeightedKey.IsWeight threshold
  weights : ∀ k ∈ keys, WeightedKey.IsWeight k.weight
  distinct : (keys.map (·.key)).Nodup
  reachable : threshold.toNat ≤ totalWeight keys
deriving DecidableEq

namespace KeySet

theorem weights_and_distinct {keys : List WeightedKey}
    (h : Check.distinct WeightedKey.checked KeyFault.duplicated keys = .ok ()) :
    (∀ k ∈ keys, WeightedKey.IsWeight k.weight) ∧ (keys.map (·.key)).Nodup := by
  obtain ⟨ks, hm, hd⟩ := Check.distinct_eq_ok_iff.1 h
  suffices h : ∀ ks, keys.mapM WeightedKey.checked = .ok ks →
      (∀ k ∈ keys, WeightedKey.IsWeight k.weight) ∧ ks = keys.map (·.key) by
    obtain ⟨hw, rfl⟩ := h ks hm
    exact ⟨hw, hd⟩
  clear hd hm h ks
  induction keys with
  | nil => simp [pure, Except.pure]
  | cons k rest ih =>
    intro ks hm
    rw [List.mapM_cons] at hm
    by_cases hk : WeightedKey.IsWeight k.weight
    · cases hr : rest.mapM WeightedKey.checked with
      | error e => simp [WeightedKey.checked, hk, hr, bind, Except.bind] at hm
      | ok ks' =>
        simp [WeightedKey.checked, hk, hr, bind, Except.bind, pure, Except.pure] at hm
        obtain ⟨hw, rfl⟩ := ih ks' hr
        subst hm
        refine ⟨fun k' hk' => ?_, rfl⟩
        rcases List.mem_cons.1 hk' with rfl | hk'
        · exact hk
        · exact hw k' hk'
    · simp [WeightedKey.checked, hk, bind, Except.bind] at hm

def order (keys : List WeightedKey) : List WeightedKey :=
  keys.mergeSort fun a b => a.rank ≤ b.rank

theorem sorted_order (keys : List WeightedKey) :
    (order keys).Pairwise fun a b => a.rank ≤ b.rank := by
  have h : (order keys).Pairwise fun a b => decide (a.rank ≤ b.rank) = true :=
    List.pairwise_mergeSort (fun a b c h1 h2 => by simp at h1 h2 ⊢; omega)
      (fun a b => by simp; omega) keys
  exact h.imp (by simp)

/-- The key set of the given keys, in any order. -/
def make (keys : List WeightedKey) (threshold : UInt32) : Except KeyFault KeySet :=
  let sorted := order keys
  if count : 1 ≤ sorted.length ∧ sorted.length ≤ 10 then
    if range : WeightedKey.IsWeight threshold then
      match checked : Check.distinct WeightedKey.checked KeyFault.duplicated sorted with
      | .error fault => .error fault
      | .ok () =>
        if reachable : threshold.toNat ≤ totalWeight sorted then
          .ok ⟨sorted, threshold, sorted_order keys, count, range,
            (weights_and_distinct checked).1, (weights_and_distinct checked).2, reachable⟩
        else .error (.underThreshold (totalWeight sorted) threshold)
    else .error (.threshold threshold)
  else .error (.count sorted.length)

/-- The weighted key of a public key. -/
def find? (s : KeySet) (key : PublicKey) : Option WeightedKey :=
  s.keys.find? fun k => k.key = key

def total (s : KeySet) : Nat :=
  totalWeight s.keys

/-- The bytes that are hashed: of each key its text and its weight, then the threshold. -/
def hashedBytes (s : KeySet) : List UInt8 :=
  (s.keys.flatMap fun k => Text.utf8 k.key.text ++ BigEndian.bytes 4 k.weight.toNat) ++
    BigEndian.bytes 4 s.threshold.toNat

def hash (s : KeySet) : Digest :=
  .ofBytes s.hashedBytes

/-- Key sets count as the same if their hashes are. -/
def same (s t : KeySet) : Bool :=
  s.hash = t.hash

end KeySet

namespace Wire

def weightedKey : Wire WeightedKey :=
  record "struct AccountKey" (.cons (.of "key" publicKey) <| .cons (.of "weight" uint32) .nil)
    (fun k => (k.key, k.weight, ())) (fun (key, weight, ()) => ⟨key, weight⟩)

/-- Keys may be read in any order. -/
def keySet : Wire KeySet :=
  refine
    (record "struct Raw"
      (.cons (.of "keys" weightedKey.list) <| .cons (.of "threshold" uint32) .nil) id id)
    (fun s => (s.keys, s.threshold, ())) (fun (keys, threshold, ()) => KeySet.make keys threshold)
    fun fault => "Invalid keys: " ++ fault.message

end Wire

end CurrencyLedger
