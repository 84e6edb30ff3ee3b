import CurrencyLedger.Proofs.Ledger.Sound

/-!
Referential stores: what a record refers to is there. Changes keep a store so if each refers to
accounts and currencies that are there or come with the changes; which of several changes of one
record stays does not matter.
-/

namespace CurrencyLedger

/-- Whatever a record refers to is there, and accounts without keys are those at zero addresses. -/
structure Store.IsReferential (store : Store) : Prop where
  owner : ∀ a c, (store.balance? a c).isSome → (store.account? a).isSome
  currency : ∀ a c, (store.balance? a c).isSome → (store.design? c).isSome
  genesis : ∀ c d, store.design? c = some d → (store.account? d.genesisAccount).isSome
  receiver : ∀ c d a, store.design? c = some d → d.policy.fee.receiver? = some a →
    (store.account? a).isSome
  zero : ∀ c, (store.design? c).isSome → (store.account? (.zero c)).isSome
  keyless : ∀ a acc, store.account? a = some acc → (acc.keys = none ↔ a.isZero = true)

namespace Change

/-- An account is there, or comes with the changes. -/
def Finds (store : Store) (changes : List Change) (a : Address) : Prop :=
  (store.account? a).isSome ∨ ∃ acc, .account acc ∈ changes ∧ acc.address = a

/-- A currency is there, or comes with the changes. -/
def Knows (store : Store) (changes : List Change) (c : CurrencyId) : Prop :=
  (store.design? c).isSome ∨ ∃ d, .design d ∈ changes ∧ d.currency = c

/-- What a change refers to is there, or comes with the changes. -/
inductive Refers (store : Store) (changes : List Change) : Change → Prop
  | balance {a : Address} {amount : Amount} (currency : Knows store changes amount.currency) :
      Refers store changes (.balance a amount)
  | design {d : CurrencyDesign} (genesis : Finds store changes d.genesisAccount)
      (receiver : ∀ a, d.policy.fee.receiver? = some a → Finds store changes a)
      (zero : Finds store changes (.zero d.currency)) : Refers store changes (.design d)
  | account {acc : Account} (keyless : acc.keys = none ↔ acc.address.isZero = true) :
      Refers store changes (.account acc)
  | member {m : Member} {s : Strategy} : Refers store changes (.member m s)
  | candidate {c : Candidate} {s : Strategy} : Refers store changes (.candidate c s)

namespace Refers

variable {store : Store} {changes : List Change} {w : Change} (h : w.Refers store changes)
include h

theorem mono {more : List Change} (sub : ∀ w ∈ changes, w ∈ more) : w.Refers store more := by
  have finds : ∀ {a : Address}, Finds store changes a → Finds store more a := by
    rintro a (ha | ⟨acc, hacc, ha⟩)
    · exact .inl ha
    · exact .inr ⟨acc, sub _ hacc, ha⟩
  cases h with
  | balance currency =>
    rcases currency with hc | ⟨d, hd, hc⟩
    · exact .balance (.inl hc)
    · exact .balance (.inr ⟨d, sub _ hd, hc⟩)
  | design genesis receiver zero =>
    exact .design (finds genesis) (fun a ha => finds (receiver a ha)) (finds zero)
  | account keyless => exact .account keyless
  | member => exact .member
  | candidate => exact .candidate

theorem of_balance {a : Address} {c : CurrencyId} (hfor : w.IsFor (.balance a c)) :
    Knows store changes c := by
  cases h with
  | balance currency =>
    obtain ⟨rfl, rfl⟩ := Place.balance.inj (Change.isFor_balance.1 hfor)
    exact currency
  | design => cases Change.isFor_design.1 hfor
  | account => cases Change.isFor_account.1 hfor
  | member => cases Change.isFor_member.1 hfor
  | candidate => cases Change.isFor_candidate.1 hfor

theorem of_design {d : CurrencyDesign} (hpayload : w.payload = .design d) :
    Finds store changes d.genesisAccount ∧
      (∀ a, d.policy.fee.receiver? = some a → Finds store changes a) ∧
      Finds store changes (.zero d.currency) := by
  cases h with
  | design genesis receiver zero =>
    cases hpayload
    exact ⟨genesis, receiver, zero⟩
  | _ => cases hpayload

theorem of_account {acc : Account} (hpayload : w.payload = .account acc) :
    acc.keys = none ↔ acc.address.isZero = true := by
  cases h with
  | account keyless =>
    cases hpayload
    exact keyless
  | _ => cases hpayload

end Refers

end Change

namespace Store

theorem isReferential_empty : IsReferential .empty :=
  ⟨fun _ _ h => (nomatch h), fun _ _ h => (nomatch h), fun _ _ h => (nomatch h),
    fun _ _ _ h => (nomatch h), fun _ h => (nomatch h), fun _ _ h => (nomatch h)⟩

theorem IsReferential.hasOwners {store : Store} (ref : store.IsReferential) : store.HasOwners := by
  intro a c hnone
  by_contra hbalance
  have howner := ref.owner a c (Option.isSome_iff_ne_none.2 hbalance)
  rw [hnone] at howner
  cases howner

section written

variable {store store' : Store} {changes : List Change} (keyed : store'.IsKeyed)
  (hat : ∀ place : Place, place ≠ .suffrage → place ≠ .candidates →
    (∃ w ∈ changes, w.IsFor place ∧ store'.at? place = some w.payload) ∨
      (∀ w ∈ changes, ¬w.IsFor place) ∧ store'.at? place = store.at? place)
include keyed hat

/-- An account that is there or comes along is there afterwards. -/
theorem isSome_account? {a : Address} (h : Change.Finds store changes a) :
    (store'.account? a).isSome := by
  rw [Option.isSome_iff_ne_none, Ne, keyed.account?_eq_none]
  rcases hat (.account a) (by simp) (by simp) with ⟨w, -, -, hpayload⟩ | ⟨hnone, hsame⟩
  · simp [hpayload]
  · rcases h with ha | ⟨acc, hacc, rfl⟩
    · obtain ⟨acc, hacc⟩ := Option.isSome_iff_exists.1 ha
      simp [hsame, account?_eq_some.1 hacc]
    · exact absurd (Change.isFor_account.2 rfl) (hnone _ hacc)

theorem isSome_design? {c : CurrencyId} (h : Change.Knows store changes c) :
    (store'.design? c).isSome := by
  rw [Option.isSome_iff_ne_none, Ne, keyed.design?_eq_none]
  rcases hat (.design c) (by simp) (by simp) with ⟨w, -, -, hpayload⟩ | ⟨hnone, hsame⟩
  · simp [hpayload]
  · rcases h with hc | ⟨d, hd, rfl⟩
    · obtain ⟨d, hd⟩ := Option.isSome_iff_exists.1 hc
      simp [hsame, design?_eq_some.1 hd]
    · exact absurd (Change.isFor_design.2 rfl) (hnone _ hd)

/-- Changes that refer to what is there or comes along leave a referential store. -/
theorem IsReferential.written (ref : store.IsReferential) (owners : store'.HasOwners)
    (refers : ∀ w ∈ changes, w.Refers store changes) : store'.IsReferential := by
  have hdesign : ∀ c d, store'.design? c = some d →
      Change.Finds store changes d.genesisAccount ∧
        (∀ a, d.policy.fee.receiver? = some a → Change.Finds store changes a) ∧
        Change.Finds store changes (.zero c) := by
    intro c d hd
    obtain rfl := keyed.currency_eq hd
    rcases hat (.design d.currency) (by simp) (by simp) with ⟨w, hw, -, hpayload⟩ | ⟨-, hsame⟩
    · exact (refers w hw).of_design
        (Option.some.inj (hpayload.symm.trans (design?_eq_some.1 hd)))
    · have hd : store.design? d.currency = some d :=
        design?_eq_some.2 (hsame ▸ design?_eq_some.1 hd)
      exact ⟨.inl (ref.genesis _ d hd), fun a ha => .inl (ref.receiver _ d a hd ha),
        .inl (ref.zero _ (hd ▸ rfl))⟩
  constructor
  case owner =>
    intro a c hbalance
    rw [Option.isSome_iff_ne_none] at hbalance ⊢
    exact fun hnone => hbalance (owners a c hnone)
  case currency =>
    intro a c hbalance
    apply isSome_design? keyed hat
    rcases hat (.balance a c) (by simp) (by simp) with ⟨w, hw, hfor, -⟩ | ⟨-, hsame⟩
    · exact (refers w hw).of_balance hfor
    · rw [balance?, hsame] at hbalance
      exact .inl (ref.currency a c hbalance)
  case genesis =>
    intro c d hd
    exact isSome_account? keyed hat (hdesign c d hd).1
  case receiver =>
    intro c d a hd ha
    exact isSome_account? keyed hat ((hdesign c d hd).2.1 a ha)
  case zero =>
    intro c hc
    obtain ⟨d, hd⟩ := Option.isSome_iff_exists.1 hc
    exact isSome_account? keyed hat (hdesign c d hd).2.2
  case keyless =>
    intro a acc hacc
    obtain rfl := keyed.address_eq hacc
    rcases hat (.account acc.address) (by simp) (by simp) with ⟨w, hw, -, hpayload⟩ | ⟨-, hsame⟩
    · exact (refers w hw).of_account
        (Option.some.inj (hpayload.symm.trans (account?_eq_some.1 hacc)))
    · exact ref.keyless _ acc (account?_eq_some.2 (hsame ▸ account?_eq_some.1 hacc))

end written

/-- A ledger that is set up record by record is referential if each refers to earlier ones. -/
theorem IsReferential.set {store : Store} (ref : store.IsReferential) {w : Change} {place : Place}
    (hfor : w.IsFor place) (sound : (store.set w.key w.payload).IsSound)
    (refers : w.Refers store [w]) : (store.set w.key w.payload).IsReferential := by
  have hkey : w.key = place.key := hfor
  have hrefers : ∀ w' ∈ [w], w'.Refers store [w] := by simpa using refers
  refine ref.written sound.keyed ?_ sound.owners hrefers
  intro q _ _
  rw [hkey, at?_set]
  by_cases hq : place = q
  · exact .inl ⟨w, List.mem_singleton_self w, hq ▸ hfor, if_pos hq⟩
  · refine .inr ⟨fun w' hw' hfor' => hq ?_, if_neg hq⟩
    obtain rfl := List.mem_singleton.1 hw'
    exact Place.key_injective (hkey.symm.trans hfor')

end Store

end CurrencyLedger
