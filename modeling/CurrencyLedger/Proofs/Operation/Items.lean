import CurrencyLedger.Proofs.Operation.Validity
import CurrencyLedger.Proofs.Processing.Accounting
import Mathlib.Data.List.Perm.Basic

/-!
Facts with several items in another order. A check that goes through items and remembers their keys
does not depend on the order of the items, nor on anything in an item that its key does not depend
on (`Check.distinct_of_permuted`). `Fact.check_items` says this of the facts that have items,
together with what their check comes to.
-/

namespace CurrencyLedger

open Traversal

/-- The same items in another order, each of them perhaps in another form. -/
def Permuted {α : Type} (R : α → α → Prop) (items items' : List α) : Prop :=
  ∃ middle, items.Perm middle ∧ List.Forall₂ R middle items'

namespace Check

variable {α κ ε : Type} [DecidableEq κ] {key : α → Except ε κ} {repeated : κ → ε}
  {items items' : List α}

theorem distinct_of_perm (h : items.Perm items') (ok : distinct key repeated items = .ok ()) :
    distinct key repeated items' = .ok () := by
  obtain ⟨ks, hks, hd⟩ := distinct_eq_ok.1 ok
  -- The keys move as the items do.
  obtain ⟨ks', hks', perm⟩ := List.perm_comp_forall₂ h.symm hks
  exact distinct_eq_ok.2 ⟨ks', hks', perm.nodup_iff.2 hd⟩

theorem distinct_perm (h : items.Perm items') :
    distinct key repeated items = .ok () ↔ distinct key repeated items' = .ok () :=
  ⟨distinct_of_perm h, distinct_of_perm h.symm⟩

/-- The order of the items does not matter, nor what does not matter to their keys. -/
theorem distinct_of_permuted {R : α → α → Prop}
    (same : ∀ a b, R a b → ∀ k, key a = .ok k ↔ key b = .ok k) (h : Permuted R items items') :
    distinct key repeated items = .ok () ↔ distinct key repeated items' = .ok () := by
  obtain ⟨middle, perm, forms⟩ := h
  rw [distinct_perm perm]
  simp only [distinct_eq_ok, forall₂_congr_left same forms]

end Check

theorem Permuted.length_eq {α : Type} {R : α → α → Prop} {items items' : List α}
    (h : Permuted R items items') : items.length = items'.length := by
  obtain ⟨middle, perm, forms⟩ := h
  exact perm.length_eq.trans forms.length_eq

theorem AreItemAmounts.perm {amounts amounts' : List Amount} (h : AreItemAmounts amounts)
    (perm : amounts.Perm amounts') : AreItemAmounts amounts' where
  positive a ha := h.positive a (perm.mem_iff.2 ha)
  distinct := (perm.map Amount.currency).nodup_iff.1 h.distinct
  count := perm.length_eq ▸ h.count

theorem areItemAmounts_perm {amounts amounts' : List Amount} (perm : amounts.Perm amounts') :
    AreItemAmounts amounts ↔ AreItemAmounts amounts' :=
  ⟨fun h => h.perm perm, fun h => h.perm perm.symm⟩

/-- The same account with its amounts in another order. -/
def NewAccount.SameUpToOrder (item item' : NewAccount) : Prop :=
  item.keys = item'.keys ∧ item.scheme = item'.scheme ∧ item.amounts.Perm item'.amounts

theorem NewAccount.target_congr {sender : Address} {item item' : NewAccount}
    (h : item.SameUpToOrder item') (a : Address) :
    item.target sender = .ok a ↔ item'.target sender = .ok a := by
  obtain ⟨hkeys, hscheme, hamounts⟩ := h
  rw [target_eq_ok, target_eq_ok, areItemAmounts_perm hamounts, address, address, hkeys, hscheme]

/-- The same receiver with the amounts in another order. -/
def Transfer.SameUpToOrder (item item' : Transfer) : Prop :=
  item.receiver = item'.receiver ∧ item.amounts.Perm item'.amounts

theorem Transfer.target_congr {sender : Address} {item item' : Transfer}
    (h : item.SameUpToOrder item') (a : Address) :
    item.target sender = .ok a ↔ item'.target sender = .ok a := by
  obtain ⟨hreceiver, hamounts⟩ := h
  rw [target_eq_ok, target_eq_ok, areItemAmounts_perm hamounts, hreceiver]

/-- The items of an intent in another order, and the amounts of each item in another order. -/
inductive Intent.Reordered : Intent → Intent → Prop
  | createAccounts (sender : Address) {items items' : List NewAccount} :
      Permuted NewAccount.SameUpToOrder items items' →
      Reordered (.createAccounts sender items) (.createAccounts sender items')
  | transfers (sender : Address) {items items' : List Transfer} :
      Permuted Transfer.SameUpToOrder items items' →
      Reordered (.transfers sender items) (.transfers sender items')
  | mint {items items' : List Issue} : items.Perm items' → Reordered (.mint items) (.mint items')
  | genesisCurrencies (nodeKey : PublicKey) (keys : KeySet)
      {designs designs' : List CurrencyDesign} : designs.Perm designs' →
      Reordered (.genesisCurrencies nodeKey keys designs) (.genesisCurrencies nodeKey keys designs')

theorem Intent.check_of_reordered {intent intent' : Intent} (h : Reordered intent intent') :
    intent.check = .ok () ↔ intent'.check = .ok () := by
  cases h with
  | createAccounts sender h =>
    rw [check, check, check_bind_eq_ok, check_bind_eq_ok, h.length_eq]
    exact and_congr_right fun _ => Check.distinct_of_permuted (fun _ _ => NewAccount.target_congr) h
  | transfers sender h =>
    rw [check, check, check_bind_eq_ok, check_bind_eq_ok, h.length_eq]
    exact and_congr_right fun _ => Check.distinct_of_permuted (fun _ _ => Transfer.target_congr) h
  | mint h =>
    rw [check, check, check_bind_eq_ok, check_bind_eq_ok, h.length_eq, Check.distinct_perm h]
  | genesisCurrencies nodeKey keys h =>
    rw [check, check, check_bind_eq_ok, check_bind_eq_ok, h.length_eq, Check.distinct_perm h]

/-- Facts with items pass their check exactly where the token, the number of the items and each item
are in order and no two items have one place; the order of the items and of their amounts does not
matter. -/
theorem Fact.check_items :
    (∀ token sender items, (mk token (.createAccounts sender items)).check = .ok () ↔
      (1 ≤ token.length ∧ token.length ≤ 100) ∧ NewAccount.AreValid sender items) ∧
    (∀ token sender items, (mk token (.transfers sender items)).check = .ok () ↔
      (1 ≤ token.length ∧ token.length ≤ 100) ∧ Transfer.AreValid sender items) ∧
    (∀ token items, (mk token (.mint items)).check = .ok () ↔
      (1 ≤ token.length ∧ token.length ≤ 100) ∧ Issue.AreValid items) ∧
    (∀ token nodeKey keys designs,
      (mk token (.genesisCurrencies nodeKey keys designs)).check = .ok () ↔
        (1 ≤ token.length ∧ token.length ≤ 100) ∧ CurrencyDesign.AreValid keys designs) ∧
    ∀ token intent intent', Intent.Reordered intent intent' →
      ((mk token intent).check = .ok () ↔ (mk token intent').check = .ok ()) := by
  simp only [check_eq_ok, checkToken_eq_ok]
  refine ⟨fun _ _ _ => ?_, fun _ _ _ => ?_, fun _ _ => ?_, fun _ _ _ _ => ?_, fun _ _ _ h => ?_⟩
  · rw [Intent.check_createAccounts_iff]
  · rw [Intent.check_transfers_iff]
  · rw [Intent.check_mint_iff]
  · rw [Intent.check_genesisCurrencies_iff]
  · rw [Intent.check_of_reordered h]

namespace Sample

def nickel : CurrencyId := ⟨"NKL", by decide +kernel, by decide +kernel⟩

def forBob : Transfer :=
  ⟨bob, [⟨10, currency⟩, ⟨5, nickel⟩]⟩

def forCarol : Transfer :=
  ⟨carol, [⟨1, currency⟩]⟩

end Sample

/-- Two transfers pass in one order, so they do in the other, and with other orders of amounts. -/
theorem Fact.check_items_swapped :
    (mk [1] (.transfers Sample.alice [Sample.forBob, Sample.forCarol])).check = .ok () ∧
    (mk [1] (.transfers Sample.alice
      [Sample.forCarol, { Sample.forBob with amounts := Sample.forBob.amounts.reverse }])).check =
        .ok () := by
  obtain ⟨-, transfers, -, -, reordered⟩ := check_items
  have forBob : AreItemAmounts Sample.forBob.amounts :=
    ⟨⟨by decide, by decide +kernel⟩, by decide⟩
  have forCarol : AreItemAmounts Sample.forCarol.amounts :=
    ⟨⟨by decide, by decide +kernel⟩, by decide⟩
  have first := (transfers [1] Sample.alice [Sample.forBob, Sample.forCarol]).2
    ⟨by decide, by decide, List.forall_mem_cons.2 ⟨forBob, List.forall_mem_singleton.2 forCarol⟩,
      by decide +kernel, by decide +kernel⟩
  refine ⟨first, (reordered [1] _ _ (.transfers _ ⟨_, .swap _ _ _, ?_⟩)).1 first⟩
  exact .cons ⟨rfl, .refl _⟩ (.cons ⟨rfl, (List.reverse_perm _).symm⟩ .nil)

end CurrencyLedger
