import CurrencyLedger.Proofs.Ledger.View
import Mathlib.Algebra.BigOperators.Group.Finset.Basic
import Mathlib.Data.Finset.Dedup

/-!
The sum of all balances in a currency. `total_commit` says that a commit changes it by what it
changes the balances.
-/

namespace CurrencyLedger

namespace Payload

/-- What a payload holds in a currency. -/
def money (p : Payload) (c : CurrencyId) : Int :=
  match p with
  | .balance amount => if amount.currency = c then amount.magnitude else 0
  | _ => 0

theorem money_of_fits {p : Payload} {place : Place} {c : CurrencyId} (h : p.Fits place)
    (hp : ∀ a, place ≠ .balance a c) : p.money c = 0 := by
  cases place with
  | balance a d =>
    obtain ⟨n, rfl⟩ := fits_balance.1 h
    have hd : d ≠ c := fun e => hp a (e ▸ rfl)
    exact if_neg hd
  | account a =>
    obtain ⟨acc, rfl, -⟩ := fits_account.1 h
    rfl
  | design d =>
    obtain ⟨design, rfl, -⟩ := fits_design.1 h
    rfl
  | suffrage =>
    obtain ⟨members, rfl⟩ := fits_suffrage.1 h
    rfl
  | candidates =>
    obtain ⟨candidates, rfl⟩ := fits_candidates.1 h
    rfl
  | networkPolicy =>
    obtain ⟨policy, rfl⟩ := fits_networkPolicy.1 h
    rfl

end Payload

namespace Store

/-- The sum of all balances in a currency. -/
def total (store : Store) (c : CurrencyId) : Int :=
  store.toList.foldr (fun r sum => r.payload.money c + sum) 0

def moneyAt (store : Store) (key : String) (c : CurrencyId) : Int :=
  ((store.payload? key).map fun p => p.money c).getD 0

theorem payload?_of_mem {store : Store} {r : Record} (h : r ∈ store.toList) :
    store.payload? r.key = some r.payload := by
  rw [payload?, KeyedList.get?_of_mem h, Option.map_some]

theorem payload?_eq_none {store : Store} {key : String} (h : ∀ r ∈ store.toList, r.key ≠ key) :
    store.payload? key = none := by
  rw [payload?, Option.map_eq_none_iff]
  exact List.find?_eq_none.2 fun r hr => by simpa using h r hr

/-- The total is summed over any set of keys that has those of the records. -/
theorem total_eq_sum {store : Store} {keys : Finset String}
    (h : ∀ r ∈ store.toList, r.key ∈ keys) (c : CurrencyId) :
    store.total c = ∑ key ∈ keys, store.moneyAt key c := by
  have distinct : (store.toList.map Record.key).Nodup := by
    refine List.pairwise_map.2 (store.sorted.imp fun hlt e => ?_)
    exact String.lt_irrefl _ (e ▸ hlt)
  have hrecords : store.total c =
      ∑ key ∈ (store.toList.map Record.key).toFinset, store.moneyAt key c := by
    have hmoney : ∀ r ∈ store.toList, store.moneyAt r.key c = r.payload.money c :=
      fun r hr => by rw [moneyAt, payload?_of_mem hr, Option.map_some, Option.getD_some]
    rw [List.sum_toFinset _ distinct, List.map_map, Function.comp_def, List.map_congr_left hmoney,
      List.sum_eq_foldr, List.foldr_map, total]
  rw [hrecords]
  refine Finset.sum_subset (fun key hkey => ?_) fun key _ hkey => ?_
  · obtain ⟨r, hr, rfl⟩ := List.mem_map.1 (List.mem_toFinset.1 hkey)
    exact h r hr
  · have hnone : store.payload? key = none := payload?_eq_none fun r hr e =>
      hkey (List.mem_toFinset.2 (List.mem_map.2 ⟨r, hr, e⟩))
    rw [moneyAt, hnone]
    rfl

theorem total_sub {store store' : Store} {keys : Finset String} {c : CurrencyId}
    (same : ∀ key ∉ keys, store'.moneyAt key c = store.moneyAt key c) :
    store'.total c - store.total c =
      ∑ key ∈ keys, (store'.moneyAt key c - store.moneyAt key c) := by
  have hall : ∀ s : Store, ∀ r ∈ s.toList, r.key ∈ (s.toList.map Record.key).toFinset :=
    fun s r hr => List.mem_toFinset.2 (List.mem_map_of_mem hr)
  let all := keys ∪ ((store.toList.map Record.key).toFinset ∪
    (store'.toList.map Record.key).toFinset)
  have hstore : store.total c = ∑ key ∈ all, store.moneyAt key c :=
    total_eq_sum (fun r hr => Finset.mem_union_right _ (Finset.mem_union_left _ (hall _ r hr))) c
  have hstore' : store'.total c = ∑ key ∈ all, store'.moneyAt key c :=
    total_eq_sum (fun r hr => Finset.mem_union_right _ (Finset.mem_union_right _ (hall _ r hr))) c
  rw [hstore, hstore', ← Finset.sum_sub_distrib]
  refine (Finset.sum_subset Finset.subset_union_left fun key _ hkey => ?_).symm
  rw [same key hkey, Int.sub_self]

theorem IsKeyed.moneyAt_balance {store : Store} (keyed : store.IsKeyed) (a : Address)
    (c : CurrencyId) : store.moneyAt (Place.balance a c).key c = store.balance a c := by
  rw [moneyAt, balance, ← at?]
  cases h : store.at? (.balance a c) with
  | none => rw [keyed.balance?_eq_none.2 h]; rfl
  | some p =>
    obtain ⟨n, rfl, hn⟩ := keyed.balance_at? h
    simp [hn, Payload.money]

theorem IsKeyed.moneyAt_eq_zero {store : Store} (keyed : store.IsKeyed) {place : Place}
    {c : CurrencyId} (hp : ∀ a, place ≠ .balance a c) : store.moneyAt place.key c = 0 := by
  rw [moneyAt, ← at?]
  cases h : store.at? place with
  | none => rfl
  | some p => simp [Payload.money_of_fits (keyed place p h) hp]

/-- Between stores that differ in places only, the totals differ as the balances do. -/
theorem IsKeyed.total_sub {store store' : Store} (keyed : store.IsKeyed) (keyed' : store'.IsKeyed)
    (placed : ∀ key, (∀ place : Place, key ≠ place.key) → store'.payload? key = store.payload? key)
    {c : CurrencyId} {addresses : Finset Address}
    (same : ∀ a ∉ addresses, store'.balance a c = store.balance a c) :
    store'.total c - store.total c =
      ∑ a ∈ addresses, (store'.balance a c - store.balance a c) := by
  classical
  have hkeys : store'.total c - store.total c =
      ∑ key ∈ addresses.image fun a => (Place.balance a c).key,
        (store'.moneyAt key c - store.moneyAt key c) := by
    apply Store.total_sub
    intro key hkey
    by_cases hplace : ∃ place : Place, key = place.key
    · obtain ⟨place, rfl⟩ := hplace
      by_cases hbalance : ∃ a, place = .balance a c
      · obtain ⟨a, rfl⟩ := hbalance
        rw [keyed.moneyAt_balance, keyed'.moneyAt_balance]
        exact same a fun ha => hkey (Finset.mem_image_of_mem _ ha)
      · have hne : ∀ a, place ≠ .balance a c := fun a e => hbalance ⟨a, e⟩
        rw [keyed.moneyAt_eq_zero hne, keyed'.moneyAt_eq_zero hne]
    · rw [moneyAt, moneyAt, placed key fun place e => hplace ⟨place, e⟩]
  rw [hkeys, Finset.sum_image fun a _ b _ e => (Place.balance.inj (Place.key_injective e)).1]
  apply Finset.sum_congr rfl
  intro a _
  rw [keyed.moneyAt_balance, keyed'.moneyAt_balance]

/-- Finitely many balances are written. -/
theorem exists_written (writes : List (Digest × Change)) (c : CurrencyId) :
    ∃ addresses : Finset Address,
      ∀ a, (∃ w ∈ writes, w.2.IsFor (.balance a c)) → a ∈ addresses := by
  classical
  induction writes with
  | nil => exact ⟨∅, by simp⟩
  | cons w rest ih =>
    obtain ⟨addresses, h⟩ := ih
    by_cases hw : ∃ b, w.2.IsFor (.balance b c)
    · obtain ⟨b, hb⟩ := hw
      refine ⟨insert b addresses, ?_⟩
      rintro a ⟨w', hw', ha⟩
      rcases List.mem_cons.1 hw' with rfl | hw'
      · have hkey : (Place.balance a c).key = (Place.balance b c).key := ha.symm.trans hb
        rw [(Place.balance.inj (Place.key_injective hkey)).1]
        exact Finset.mem_insert_self _ _
      · exact Finset.mem_insert_of_mem (h a ⟨w', hw', ha⟩)
    · refine ⟨addresses, ?_⟩
      rintro a ⟨w', hw', ha⟩
      rcases List.mem_cons.1 hw' with rfl | hw'
      · exact absurd ⟨a, ha⟩ hw
      · exact h a ⟨w', hw', ha⟩

section commit

variable {store store' : Store} {height : Height} {accepted : Accepted} {records : List Record}
variable (keyed : store.IsKeyed) (regular : ∀ w ∈ writes accepted, w.2.Regular)
  (h : store.commit height accepted = .ok (records, store'))
include keyed regular h

/-- A commit changes the total by what it changes the balances. -/
theorem total_commit {c : CurrencyId} {addresses : Finset Address}
    (written : ∀ a, (∃ w ∈ writes accepted, w.2.IsFor (.balance a c)) → a ∈ addresses) :
    store'.total c - store.total c =
      ∑ a ∈ addresses, (store'.balance a c - store.balance a c) := by
  refine keyed.total_sub (keyed.commit h regular) (fun key hkey => ?_) fun a ha => ?_
  · have hget := get?_commit_of_not_written h fun w hw e => by
      obtain ⟨place, hplace⟩ := (regular w hw).exists_isFor
      exact hkey place (e.symm.trans hplace)
    rw [payload?, payload?, hget]
  · have hget := get?_commit_of_not_written h fun w hw (e : w.2.IsFor (.balance a c)) =>
      ha (written a ⟨w, hw, e⟩)
    rw [balance, balance, balance?, balance?, at?, at?, payload?, payload?, hget]

end commit

end Store

end CurrencyLedger
