import CurrencyLedger.Proofs.Identity.Keys
import CurrencyLedger.Proofs.Ledger.Sound

/-!
Well formed stores: every record is intact, and what its key stands for is in order. Sets of members
and key sets cannot be out of order at all, so `WellFormed.commit` asks for balances and designs
only.
-/

namespace CurrencyLedger

namespace Payload

/-- A payload that is in order under the key of a place. -/
def Suits : Payload → Place → Prop
  | .account acc, .account a =>
    acc.address = a ∧ ∀ s, acc.keys = some s → KeySet.make s.keys s.threshold = .ok s
  | .balance amount, .balance _ c => amount.currency = c ∧ 0 ≤ amount.magnitude
  | .design d, .design c => d.currency = c ∧ d.check = .ok ()
  | .members m, .suffrage => m.toList.Pairwise fun x y => x.address.text < y.address.text
  | .candidates m, .candidates => m.toList.Pairwise fun x y => x.address.text < y.address.text
  | .networkPolicy _, .networkPolicy => True
  | _, _ => False

variable {p : Payload} {place : Place}

theorem Suits.fits (h : p.Suits place) : p.Fits place := by
  cases p <;> cases place <;> first | exact h.1 | trivial

theorem suits_of_fits (h : p.Fits place)
    (funded : ∀ amount, p = .balance amount → 0 ≤ amount.magnitude)
    (valid : ∀ d, p = .design d → d.check = .ok ()) : p.Suits place := by
  cases place with
  | account a =>
    obtain ⟨acc, rfl, ha⟩ := fits_account.1 h
    exact ⟨ha, fun s _ => s.make_self⟩
  | balance a c =>
    obtain ⟨n, rfl⟩ := fits_balance.1 h
    exact ⟨rfl, funded _ rfl⟩
  | design c =>
    obtain ⟨d, rfl, hd⟩ := fits_design.1 h
    exact ⟨hd, valid d rfl⟩
  | suffrage =>
    obtain ⟨m, rfl⟩ := fits_suffrage.1 h
    exact m.sorted
  | candidates =>
    obtain ⟨m, rfl⟩ := fits_candidates.1 h
    exact m.sorted
  | networkPolicy =>
    obtain ⟨policy, rfl⟩ := fits_networkPolicy.1 h
    trivial

end Payload

theorem Merger.mergeSet?_eq_some {add : Bool} {current : Option Payload} {delta next : Payload}
    (h : mergeSet? add current delta = some next) :
    (∃ m, next = .members m) ∨ ∃ m, next = .candidates m := by
  unfold mergeSet? at h
  split at h <;> cases h <;> simp

/-- What a change makes is in order if the balance or the design in it is. -/
theorem Change.Regular.suits_next? {w : Change} (h : w.Regular)
    (funded : ∀ amount, w.payload = .balance amount → 0 ≤ amount.magnitude)
    (valid : ∀ d, w.payload = .design d → d.check = .ok ()) {place : Place} (hp : w.IsFor place)
    {current : Option Payload} {next : Payload} (hn : w.next? current = some next) :
    next.Suits place := by
  have hfits := h.fits_next? hp hn
  unfold next? at hn
  split at hn
  · cases hn
    exact Payload.suits_of_fits hfits funded valid
  · rcases Merger.mergeSet?_eq_some hn with ⟨m, rfl⟩ | ⟨m, rfl⟩
    · exact Payload.suits_of_fits hfits (fun _ e => by cases e) fun _ e => by cases e
    · exact Payload.suits_of_fits hfits (fun _ e => by cases e) fun _ e => by cases e

namespace Store

structure WellFormed (store : Store) : Prop where
  records : ∀ r ∈ store.toList, store.get? r.key = some r ∧ r.IsIntact
  payloads : ∀ place p, store.at? place = some p → p.Suits place

theorem wellFormed_empty : WellFormed .empty := by
  constructor
  · intro r hr
    cases (show r ∈ [] from hr)
  · intro place p h
    cases (show (none : Option Payload) = some p from h)

namespace WellFormed

variable {store : Store} (wf : store.WellFormed)
include wf

theorem keyed : store.IsKeyed :=
  fun place p h => (wf.payloads place p h).fits

theorem designs : store.HasValidDesigns :=
  fun c d h => (wf.payloads (.design c) (.design d) (design?_eq_some.1 h)).2

theorem balance_nonneg (a : Address) (c : CurrencyId) : 0 ≤ store.balance a c := by
  cases h : store.at? (.balance a c) with
  | none => exact Int.le_of_eq (by rw [balance, wf.keyed.balance?_eq_none.2 h, Option.getD_none])
  | some p =>
    obtain ⟨n, rfl, hn⟩ := wf.keyed.balance_at? h
    rw [balance, hn]
    exact (wf.payloads _ _ h).2

theorem set (place : Place) {p : Payload} (suits : p.Suits place) :
    (store.set place.key p).WellFormed := by
  refine ⟨fun r hr => ⟨KeyedList.get?_of_mem hr, ?_⟩, fun q p' h => ?_⟩
  · rcases KeyedList.mem_insertInto hr with rfl | hr
    · exact Record.isIntact_make ..
    · exact (wf.records r hr).2
  · rw [at?_set] at h
    split at h
    · next he =>
      cases h
      exact he ▸ suits
    · exact wf.payloads q p' h

/-- A commit of changes whose balances and designs are in order leaves a well formed store. -/
theorem commit {store' : Store} {height : Height} {accepted : Accepted} {records : List Record}
    (h : store.commit height accepted = .ok (records, store'))
    (regular : ∀ w ∈ writes accepted, w.2.Regular)
    (funded : ∀ w ∈ writes accepted, ∀ amount, w.2.payload = .balance amount →
      0 ≤ amount.magnitude)
    (valid : ∀ w ∈ writes accepted, ∀ d, w.2.payload = .design d → d.check = .ok ()) :
    store'.WellFormed := by
  refine ⟨fun r hr => ⟨KeyedList.get?_of_mem hr, ?_⟩, fun place => ?_⟩
  · exact isIntact_commit h (fun r hr => (wf.records r hr).2) hr
  · refine commit_induction (P := fun current => ∀ p, current = some p → p.Suits place) h
      (wf.payloads place) ?_
    rintro w hw current next - hn p hp
    obtain ⟨hw, hfor⟩ := mem_writesTo_key.1 hw
    cases hp
    exact (regular w hw).suits_next? (funded w hw) (valid w hw) hfor hn

end WellFormed

end Store

end CurrencyLedger
