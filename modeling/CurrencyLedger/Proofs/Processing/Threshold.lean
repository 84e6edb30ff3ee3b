import CurrencyLedger.Proofs.Collection.Repetition
import CurrencyLedger.Proofs.Processing.Accounting
import CurrencyLedger.Proofs.Processing.Signatures

/-!
How the check of signers ends for any signers of any key set. It stops at the first signer that
comes again, whether it has a key or not; otherwise it looks at the weight of the keys that are
among the signers, in which their order and strangers do not matter.
-/

namespace CurrencyLedger

open Traversal Repetition

namespace KeySet

variable {keys : KeySet} {seen signers signers' : List PublicKey}

theorem signedWeight_eq_error_iff {reason : Reason} :
    keys.signedWeight seen signers = .error reason ↔
      ∃ signer, IsFirst seen signers signer ∧ reason = .duplicatedSigner signer.text := by
  induction signers generalizing seen with
  | nil => simp [signedWeight, not_isFirst_nil]
  | cons signer rest ih =>
    rw [signedWeight]
    by_cases h : signer ∈ seen
    · simp only [h, if_true, isFirst_cons_of_mem h, exists_eq_left, Except.error.injEq]
      exact eq_comm
    · simp only [h, if_false, bind_pure_eq_error, ih, isFirst_cons_of_not_mem h]

theorem checkSigners_eq_duplicated_iff {name : String} :
    keys.checkSigners signers = .error (.duplicatedSigner name) ↔
      ∃ signer, IsFirst [] signers signer ∧ name = signer.text := by
  rw [checkSigners, bind_eq_error_of_ne, signedWeight_eq_error_iff]
  · simp only [Reason.duplicatedSigner.injEq]
  · intro weight
    split <;> simp

theorem checkSigners_of_nodup (distinct : signers.Nodup) :
    keys.checkSigners signers =
      if keys.threshold.toNat ≤ keys.weightAmong signers then .ok ()
      else .error (.insufficientSignature keys.threshold.toNat (keys.weightAmong signers)) := by
  have hweight : keys.signedWeight [] signers = .ok (keys.weightAmong signers) :=
    signedWeight_eq_ok.2 ⟨distinct, by simp, (weightOfAll_eq distinct).symm⟩
  rw [checkSigners, hweight]
  simp only [bind, Except.bind, ← Nat.not_le, ite_not]

section weight

variable {ks : List WeightedKey}

theorem weightIn_le_totalWeight (signers : List PublicKey) (ks : List WeightedKey) :
    weightIn signers ks ≤ totalWeight ks := by
  induction ks with
  | nil => exact le_refl 0
  | cons k ks ih =>
    rw [weightIn, totalWeight]
    split <;> omega

theorem totalWeight_le (weights : ∀ k ∈ ks, WeightedKey.IsWeight k.weight) :
    totalWeight ks ≤ 100 * ks.length := by
  induction ks with
  | nil => exact le_refl 0
  | cons k ks ih =>
    obtain ⟨hk, hks⟩ := List.forall_mem_cons.1 weights
    have hle : k.weight.toNat ≤ 100 := UInt32.le_iff_toNat_le.1 hk.2
    have hrest := ih hks
    rw [totalWeight, List.length_cons]
    omega

theorem weightIn_mono (h : signers ⊆ signers') (ks : List WeightedKey) :
    weightIn signers ks ≤ weightIn signers' ks := by
  induction ks with
  | nil => exact le_refl 0
  | cons k ks ih =>
    rw [weightIn, weightIn]
    by_cases hk : k.key ∈ signers
    · rw [if_pos hk, if_pos (h hk)]
      omega
    · rw [if_neg hk]
      omega

/-- Ten keys of a hundred each weigh the most. -/
theorem weightAmong_le (keys : KeySet) (signers : List PublicKey) :
    keys.weightAmong signers ≤ 1000 := by
  have hin := weightIn_le_totalWeight signers keys.keys
  have htotal := totalWeight_le keys.weights
  have hcount := keys.count.2
  rw [weightAmong]
  omega

theorem weightAmong_mono (h : signers ⊆ signers') :
    keys.weightAmong signers ≤ keys.weightAmong signers' :=
  weightIn_mono h keys.keys

theorem weightAmong_eq_of_perm (h : signers.Perm signers') :
    keys.weightAmong signers = keys.weightAmong signers' :=
  Nat.le_antisymm (weightAmong_mono h.subset) (weightAmong_mono h.symm.subset)

end weight

/-- The check of signers is exact. A reason names a signer twice if and only if it is the first one
that signed before, and there is such a one if and only if the signers are not all different. If
they are, the weight of the keys among them decides, so it is one answer for all orders of the
signers and more signers never spoil it. The weight that is counted on the way never goes over a
thousand. -/
theorem checkSigners_exact (keys : KeySet) (signers : List PublicKey) :
    (∀ name, keys.checkSigners signers = .error (.duplicatedSigner name) ↔
      ∃ signer, IsFirst [] signers signer ∧ name = signer.text) ∧
    ((∃ signer, IsFirst [] signers signer) ↔ ¬signers.Nodup) ∧
    (signers.Nodup →
      (keys.checkSigners signers =
        if keys.threshold.toNat ≤ keys.weightAmong signers then .ok ()
        else .error (.insufficientSignature keys.threshold.toNat (keys.weightAmong signers))) ∧
      (∀ signers' : List PublicKey, signers.Perm signers' →
        keys.checkSigners signers' = keys.checkSigners signers) ∧
      ∀ signers' : List PublicKey, signers ⊆ signers' → signers'.Nodup →
        keys.checkSigners signers = .ok () → keys.checkSigners signers' = .ok ()) ∧
    ∀ before weight, before <+: signers → keys.signedWeight [] before = .ok weight →
      weight ≤ 1000 := by
  refine ⟨fun name => checkSigners_eq_duplicated_iff, exists_isFirst_nil_iff, fun distinct => ?_,
    fun before weight _ hweight => ?_⟩
  · refine ⟨checkSigners_of_nodup distinct, fun signers' perm => ?_,
      fun signers' hsub distinct' hok => ?_⟩
    · rw [checkSigners_of_nodup distinct, checkSigners_of_nodup (perm.nodup_iff.1 distinct),
        weightAmong_eq_of_perm perm]
    · obtain ⟨-, henough⟩ := checkSigners_eq_ok.1 hok
      rw [weightOfAll_eq distinct] at henough
      rw [checkSigners_of_nodup distinct', if_pos (henough.trans (weightAmong_mono hsub))]
  · obtain ⟨distinct, -, rfl⟩ := signedWeight_eq_ok.1 hweight
    rw [weightOfAll_eq distinct]
    exact weightAmong_le keys before

end KeySet

namespace Sample

def ethereumKey : PublicKey := ⟨.ethereum, point⟩

/-- A key that the set below has not. -/
def strangeKey : PublicKey := ⟨.native, ⟨true, Curve.generatorX, by decide +kernel⟩⟩

/-- One point as two keys. -/
def twofold : KeySet :=
  ⟨[⟨key, 30⟩, ⟨ethereumKey, 40⟩], 60, by decide +kernel, by decide, by decide, by decide,
    by decide, by decide⟩

end Sample

/-- Both keys of a point are needed, a stranger is no help, and it may not sign twice either. -/
theorem KeySet.checkSigners_exact_twofold :
    Sample.twofold.checkSigners [Sample.ethereumKey, Sample.key] = .ok () ∧
    Sample.twofold.checkSigners [Sample.strangeKey, Sample.key] =
      .error (.insufficientSignature 60 30) ∧
    Sample.twofold.checkSigners [Sample.strangeKey, Sample.key, Sample.strangeKey] =
      .error (.duplicatedSigner Sample.strangeKey.text) := by
  obtain ⟨-, -, hboth, -⟩ := checkSigners_exact Sample.twofold [Sample.ethereumKey, Sample.key]
  obtain ⟨-, -, hone, -⟩ := checkSigners_exact Sample.twofold [Sample.strangeKey, Sample.key]
  obtain ⟨hthree, -⟩ :=
    checkSigners_exact Sample.twofold [Sample.strangeKey, Sample.key, Sample.strangeKey]
  refine ⟨?_, ?_, (hthree _).2 ⟨Sample.strangeKey, ?_, rfl⟩⟩
  · exact (hboth (by decide)).1
  · exact (hone (by decide)).1
  · exact ⟨[Sample.strangeKey, Sample.key], [], rfl, by decide, by simp, .inl List.mem_cons_self⟩

end CurrencyLedger
