import CurrencyLedger.Proofs.Ledger.View

/-!
Sound stores: every record holds what its key stands for, every design is in order, and whoever has
a balance has an account. A ledger that is set up record by record is sound.
-/

namespace CurrencyLedger.Store

/-- Every design of a currency is in order. -/
def HasValidDesigns (store : Store) : Prop :=
  ∀ c d, store.design? c = some d → d.check = .ok ()

/-- Whoever has a balance has an account. -/
def HasOwners (store : Store) : Prop :=
  ∀ a c, store.account? a = none → store.balance? a c = none

theorem HasOwners.balance_eq_zero {store : Store} (owners : store.HasOwners) {a : Address}
    (h : store.account? a = none) (c : CurrencyId) : store.balance a c = 0 := by
  rw [balance, owners a c h, Option.getD_none]

/-- A suffrage and a network policy are recorded. -/
structure IsGoverned (store : Store) : Prop where
  suffrage : (store.at? .suffrage).isSome
  policy : (store.at? .networkPolicy).isSome

structure IsSound (store : Store) : Prop where
  keyed : store.IsKeyed
  designs : store.HasValidDesigns
  owners : store.HasOwners

theorem at?_set (store : Store) (place : Place) (p : Payload) (q : Place) :
    (store.set place.key p).at? q = if place = q then some p else store.at? q := by
  rw [at?, payload?, set, KeyedList.get?_insert]
  by_cases h : place = q
  · subst h
    simp [Record.make]
  · have hkey : ∀ r : Record, r.key = place.key → r.key ≠ q.key :=
      fun r hr hq => h (Place.key_injective (hr.symm.trans hq))
    rw [if_neg (hkey _ rfl), if_neg h]
    rfl

theorem IsKeyed.set {store : Store} (keyed : store.IsKeyed) (place : Place) {p : Payload}
    (fits : p.Fits place) : (store.set place.key p).IsKeyed := by
  intro q p' h
  rw [at?_set] at h
  split at h
  · next he => exact he ▸ Option.some.inj h ▸ fits
  · exact keyed q p' h

/-- A new balance is no new account, and no new currency. -/
theorem at?_setBalance (store : Store) (a : Address) (amount : Amount) {q : Place}
    (h : q ≠ .balance a amount.currency) : (store.setBalance a amount).at? q = store.at? q :=
  (store.at?_set (.balance a amount.currency) (.balance amount) q).trans (if_neg h.symm)

theorem isSound_empty : IsSound .empty := by
  refine ⟨fun place p h => ?_, fun c d h => ?_, fun _ _ _ => rfl⟩
  · cases (show (none : Option Payload) = some p from h)
  · cases (show (none : Option CurrencyDesign) = some d from h)

namespace IsSound

variable {store : Store} (sound : store.IsSound)
include sound

theorem setAccount (acc : Account) : (store.setAccount acc).IsSound := by
  have hset : ∀ q, (store.setAccount acc).at? q =
      if Place.account acc.address = q then some (.account acc) else store.at? q :=
    store.at?_set (.account acc.address) (.account acc)
  refine ⟨sound.keyed.set (.account acc.address) rfl, fun c d h => ?_, fun a c h => ?_⟩
  · rw [design?, hset, if_neg (by simp)] at h
    exact sound.designs c d h
  · rw [account?, hset] at h
    rw [balance?, hset, if_neg (by simp)]
    split at h
    · cases h
    · exact sound.owners a c h

theorem setBalance {a : Address} (amount : Amount) (owner : (store.account? a).isSome) :
    (store.setBalance a amount).IsSound := by
  have hset : ∀ q, (store.setBalance a amount).at? q =
      if Place.balance a amount.currency = q then some (.balance amount) else store.at? q :=
    store.at?_set (.balance a amount.currency) (.balance amount)
  refine ⟨sound.keyed.set (.balance a amount.currency) rfl, fun c d h => ?_,
    fun b c h => ?_⟩
  · rw [design?, hset, if_neg (by simp)] at h
    exact sound.designs c d h
  · rw [account?, hset, if_neg (by simp)] at h
    rw [balance?, hset]
    split
    · next he =>
      obtain ⟨rfl, -⟩ := Place.balance.inj he
      rw [account?, h] at owner
      cases owner
    · exact sound.owners b c h

theorem setDesign {d : CurrencyDesign} (valid : d.check = .ok ()) :
    (store.setDesign d).IsSound := by
  have hset : ∀ q, (store.setDesign d).at? q =
      if Place.design d.currency = q then some (.design d) else store.at? q :=
    store.at?_set (.design d.currency) (.design d)
  refine ⟨sound.keyed.set (.design d.currency) rfl, fun c d' h => ?_, fun a c h => ?_⟩
  · rw [design?, hset] at h
    split at h
    · cases h
      exact valid
    · exact sound.designs c d' h
  · rw [account?, hset, if_neg (by simp)] at h
    rw [balance?, hset, if_neg (by simp)]
    exact sound.owners a c h

/-- The records of the governance concern no account, balance or design. -/
theorem set (place : Place) {p : Payload} (fits : p.Fits place)
    (governing : place = .suffrage ∨ place = .candidates ∨ place = .networkPolicy) :
    (store.set place.key p).IsSound := by
  have hother : ∀ q : Place, q ≠ .suffrage → q ≠ .candidates → q ≠ .networkPolicy →
      (store.set place.key p).at? q = store.at? q := by
    rintro q hs hc hn
    rw [at?_set, if_neg]
    rintro rfl
    rcases governing with h | h | h
    · exact hs h
    · exact hc h
    · exact hn h
  refine ⟨sound.keyed.set place fits, fun c d h => ?_, fun a c h => ?_⟩
  · rw [design?, hother _ (by simp) (by simp) (by simp)] at h
    exact sound.designs c d h
  · rw [account?, hother _ (by simp) (by simp) (by simp)] at h
    rw [balance?, hother _ (by simp) (by simp) (by simp)]
    exact sound.owners a c h

end IsSound

end CurrencyLedger.Store
