import CurrencyLedger.Processing.Rules
import CurrencyLedger.Proofs.Operation.Validity
import CurrencyLedger.Proofs.Processing.Settlement
import Mathlib.Data.List.Flatten
import Mathlib.Data.Prod.Basic

/-!
The payments that operations of accounts make. What a fact has to satisfy makes its payment orderly:
no balance is credited twice, none of the payer, and the amounts paid are those credited.
-/

namespace CurrencyLedger

open Traversal Settlement

namespace NewAccount

/-- The credits of a new account, if its keys have an address. -/
def credits (item : NewAccount) : List Credit :=
  match item.address with
  | .ok a => item.amounts.map (Credit.mk a)
  | .error _ => []

/-- The account that is created. -/
def account? (item : NewAccount) : Option Account :=
  match item.address with
  | .ok a => some ⟨a, some item.keys⟩
  | .error _ => none

theorem credits_eq {item : NewAccount} {a : Address} (h : item.address = .ok a) :
    item.credits = item.amounts.map (Credit.mk a) := by
  simp [credits, h]

theorem mem_credits {item : NewAccount} {credit : Credit} :
    credit ∈ item.credits ↔
      item.address = .ok credit.receiver ∧ credit.amount ∈ item.amounts := by
  obtain ⟨receiver, amount⟩ := credit
  cases h : item.address with
  | error fault => simp [credits, h]
  | ok a => simp [credits, h, and_comm, eq_comm]

theorem account?_eq_some {item : NewAccount} {acc : Account} :
    item.account? = some acc ↔ item.address = .ok acc.address ∧ acc.keys = some item.keys := by
  obtain ⟨a, keys⟩ := acc
  cases h : item.address with
  | error fault => simp [account?, h]
  | ok b => simp [account?, h, eq_comm]

theorem account?_of_mem_credits {item : NewAccount} {credit : Credit} (h : credit ∈ item.credits) :
    item.account? = some ⟨credit.receiver, some item.keys⟩ :=
  account?_eq_some.2 ⟨(mem_credits.1 h).1, rfl⟩

end NewAccount

namespace Intent

/-- What an intent moves, if it is one of an account. New keys cost the fee on nothing. -/
def payment? : Intent → Option Payment
  | createAccounts sender items =>
    some ⟨sender, CreateAccounts.amounts items, items.flatMap NewAccount.credits⟩
  | transfers sender items => some ⟨sender, Transfers.amounts items, Transfers.credits items⟩
  | keyUpdater target _ currency => some ⟨target, [⟨0, currency⟩], []⟩
  | _ => none

/-- The accounts that an intent of an account creates or gives new keys. -/
def accounts : Intent → List Account
  | createAccounts _ items => items.filterMap NewAccount.account?
  | keyUpdater target keys _ => [⟨target, some keys⟩]
  | _ => []

theorem exists_payment {intent : Intent} (h : intent.kind.isNodeLevel = false) :
    ∃ p, intent.payment? = some p := by
  cases intent <;> first | exact ⟨_, rfl⟩ | cases h

/-- No account is written twice. -/
theorem nodup_accounts {intent : Intent} (h : intent.check = .ok ()) :
    (intent.accounts.map Account.address).Nodup := by
  cases intent
  case createAccounts sender items =>
    obtain ⟨targets, hitems, hd⟩ := check_createAccounts h
    suffices heq : (items.filterMap NewAccount.account?).map Account.address = targets by
      exact heq ▸ hd
    clear h hd
    induction hitems with
    | nil => rfl
    | @cons item a _ _ hitem _ ih =>
      have hacc : item.account? = some ⟨a, some item.keys⟩ :=
        NewAccount.account?_eq_some.2 ⟨hitem.1, rfl⟩
      rw [List.filterMap_cons_some hacc, List.map_cons, ih]
  case keyUpdater => exact List.nodup_singleton _
  all_goals exact List.nodup_nil

end Intent

namespace Settlement

section places

variable {α : Type} {items : List α} {credits : α → List Credit} {receivers : List Address}

theorem mem_receivers
    (h : List.Forall₂ (fun item a => ∃ amounts, AreAmounts amounts ∧
      credits item = amounts.map (Credit.mk a)) items receivers)
    {credit : Credit} (hc : credit ∈ items.flatMap credits) :
    credit.receiver ∈ receivers ∧ 0 < credit.amount.magnitude := by
  induction h with
  | nil => simp at hc
  | cons hitem _ ih =>
    obtain ⟨amounts, hamounts, heq⟩ := hitem
    rw [List.flatMap_cons, heq, List.mem_append, List.mem_map] at hc
    rcases hc with ⟨amount, hm, rfl⟩ | hc
    · exact ⟨List.mem_cons_self, hamounts.positive amount hm⟩
    · exact ⟨List.mem_cons_of_mem _ (ih hc).1, (ih hc).2⟩

/-- Items for different receivers, each with amounts in different currencies, credit no balance
twice. -/
theorem nodup_places
    (h : List.Forall₂ (fun item a => ∃ amounts, AreAmounts amounts ∧
      credits item = amounts.map (Credit.mk a)) items receivers) (hd : receivers.Nodup) :
    ((items.flatMap credits).map Credit.place).Nodup := by
  induction h with
  | nil => exact List.nodup_nil
  | @cons item a items receivers hitem hrest ih =>
    obtain ⟨ha, hd⟩ := List.nodup_cons.1 hd
    obtain ⟨amounts, hamounts, heq⟩ := hitem
    rw [List.flatMap_cons, List.map_append, List.nodup_append']
    refine ⟨?_, ih hd, ?_⟩
    · have hplaces : (credits item).map Credit.place =
          (amounts.map Amount.currency).map (Prod.mk a) := by
        rw [heq, List.map_map, List.map_map]
        rfl
      rw [hplaces]
      exact hamounts.distinct.map (Prod.mk_right_injective a)
    · intro place hmem hmem'
      obtain ⟨credit, hc, rfl⟩ := List.mem_map.1 hmem
      obtain ⟨credit', hc', he⟩ := List.mem_map.1 hmem'
      rw [heq, List.mem_map] at hc
      obtain ⟨amount, -, rfl⟩ := hc
      have hreceiver : credit'.receiver = a := (Prod.mk.inj he).1
      exact ha (hreceiver ▸ (mem_receivers hrest hc').1)

end places

end Settlement

/-- What the check of a fact makes of its payment. -/
structure Payment.IsOrderly (p : Payment) : Prop where
  distinct : (p.credits.map Credit.place).Nodup
  foreign : ∀ credit ∈ p.credits, credit.receiver ≠ p.payer
  positive : ∀ credit ∈ p.credits, 0 < credit.amount.magnitude
  spent : ∀ c, Amount.sumIn p.amounts c = Amount.sumIn (p.credits.map Credit.amount) c

namespace Payment

theorem isOrderly_of_receivers {α : Type} {items : List α} {credits : α → List Credit}
    {receivers : List Address} {payer : Address}
    (h : List.Forall₂ (fun item a => ∃ amounts, AreAmounts amounts ∧
      credits item = amounts.map (Credit.mk a)) items receivers)
    (hd : receivers.Nodup) (hne : ∀ a ∈ receivers, a ≠ payer) :
    IsOrderly ⟨payer, (items.flatMap credits).map Credit.amount, items.flatMap credits⟩ := by
  constructor
  case distinct => exact nodup_places h hd
  case foreign => exact fun credit hc => hne _ (mem_receivers h hc).1
  case positive => exact fun credit hc => (mem_receivers h hc).2
  case spent => exact fun _ => rfl

theorem map_amount_credits {items : List NewAccount} {targets : List Address}
    (h : List.Forall₂ (fun item a => item.address = .ok a) items targets) :
    (items.flatMap NewAccount.credits).map Credit.amount = CreateAccounts.amounts items := by
  induction h with
  | nil => rfl
  | cons hitem _ ih =>
    rw [CreateAccounts.amounts] at ih ⊢
    rw [List.flatMap_cons, List.flatMap_cons, List.map_append, ih, NewAccount.credits_eq hitem,
      List.map_map]
    congr 1
    exact List.map_id _

theorem map_amount_transfers (items : List Transfer) :
    (Transfers.credits items).map Credit.amount = Transfers.amounts items := by
  rw [Transfers.credits, Transfers.amounts, List.map_flatMap]
  apply List.flatMap_congr
  intro item _
  rw [List.map_map]
  exact List.map_id _

/-- A fact in order makes an orderly payment. -/
theorem isOrderly {intent : Intent} {p : Payment} (hp : intent.payment? = some p)
    (h : intent.check = .ok ()) : p.IsOrderly := by
  cases intent <;> cases hp
  case createAccounts sender items =>
    obtain ⟨targets, hitems, hd⟩ := Intent.check_createAccounts h
    rw [← map_amount_credits (hitems.imp fun _ _ hitem => hitem.1)]
    refine isOrderly_of_receivers (hitems.imp fun item a hitem => ?_) hd fun a ha => ?_
    · exact ⟨item.amounts, hitem.2.1, NewAccount.credits_eq hitem.1⟩
    · obtain ⟨item, -, hitem⟩ := exists_left hitems ha
      exact hitem.2.2
  case transfers sender items =>
    obtain ⟨hd, hitems⟩ := Intent.check_transfers h
    have hreceivers : List.Forall₂ (fun (item : Transfer) a => ∃ amounts, AreAmounts amounts ∧
        item.amounts.map (Credit.mk item.receiver) = amounts.map (Credit.mk a))
        items (items.map Transfer.receiver) := by
      rw [List.forall₂_map_right_iff]
      exact List.forall₂_same.2 fun item hitem => ⟨item.amounts, (hitems item hitem).1, rfl⟩
    rw [← map_amount_transfers items]
    apply isOrderly_of_receivers hreceivers hd
    intro a ha
    obtain ⟨item, hitem, rfl⟩ := List.mem_map.1 ha
    exact (hitems item hitem).2
  case keyUpdater target keys currency =>
    refine ⟨List.nodup_nil, by simp, by simp, fun c => ?_⟩
    rw [Amount.sumIn_singleton, ite_self]
    rfl

end Payment

end CurrencyLedger
