import CurrencyLedger.Money.Design
import CurrencyLedger.Proofs.Collection.Traversal
import CurrencyLedger.Proofs.Money.Fee

/-!
What makes a design valid, and what keeps it so.
-/

namespace CurrencyLedger

open Traversal

theorem Amount.checkPositive_eq_ok {a : Amount} : a.checkPositive = .ok () ↔ 0 < a.magnitude := by
  simp [checkPositive]

namespace CurrencyPolicy

theorem check_eq_ok {p : CurrencyPolicy} :
    p.check = .ok () ↔ 0 ≤ p.newAccountMinimum ∧ p.fee.check = .ok () := by
  unfold check
  split <;> simp <;> omega

end CurrencyPolicy

namespace CurrencyDesign

variable {d : CurrencyDesign}

theorem check_eq_ok : d.check = .ok () ↔
    0 < d.amount.magnitude ∧ 0 ≤ d.aggregate ∧ d.genesisAccount.isZero = false ∧
      d.policy.check = .ok () := by
  rw [check, check_bind_eq_ok, Amount.checkPositive_eq_ok]
  apply and_congr_right
  intro _
  split
  · simp; omega
  · split <;> simp_all

theorem check_issue (h : d.check = .ok ()) {n : Int} (hn : 0 ≤ n) :
    (d.issue n).check = .ok () := by
  rw [check_eq_ok] at h ⊢
  exact ⟨h.1, Int.add_nonneg h.2.1 hn, h.2.2⟩

theorem check_withPolicy (h : d.check = .ok ()) {p : CurrencyPolicy} (hp : p.check = .ok ()) :
    (d.withPolicy p).check = .ok () := by
  rw [check_eq_ok] at h ⊢
  exact ⟨h.1, h.2.1, h.2.2.1, hp⟩

theorem fee_check (h : d.check = .ok ()) : d.policy.fee.check = .ok () :=
  (CurrencyPolicy.check_eq_ok.1 (check_eq_ok.1 h).2.2.2).2

end CurrencyDesign

end CurrencyLedger
