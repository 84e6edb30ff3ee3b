import CurrencyLedger.Proofs.Ledger.Commit
import CurrencyLedger.Proofs.Ledger.Place

/-!
What a store says about accounts, balances and currencies. A store is keyed if every record holds
what its key stands for; `IsKeyed.commit` says that commits keep it so.
-/

namespace CurrencyLedger

open Traversal

namespace Payload

/-- A payload fits a place if its kind, its address and its currency are those of the place. -/
def Fits : Payload → Place → Prop
  | .account acc, .account a => acc.address = a
  | .balance amount, .balance _ c => amount.currency = c
  | .design d, .design c => d.currency = c
  | .members _, .suffrage => True
  | .candidates _, .candidates => True
  | .networkPolicy _, .networkPolicy => True
  | _, _ => False

instance (p : Payload) (place : Place) : Decidable (p.Fits place) := by
  unfold Fits
  split <;> infer_instance

def account? : Payload → Option Account
  | .account acc => some acc
  | _ => none

def magnitude? : Payload → Option Int
  | .balance amount => some amount.magnitude
  | _ => none

def design? : Payload → Option CurrencyDesign
  | .design d => some d
  | _ => none

def members? : Payload → Option Members
  | .members m => some m
  | _ => none

def candidates? : Payload → Option Candidates
  | .candidates c => some c
  | _ => none

variable {p : Payload}

theorem account?_eq_some {acc : Account} : p.account? = some acc ↔ p = .account acc := by
  cases p <;> simp [account?]

theorem design?_eq_some {d : CurrencyDesign} : p.design? = some d ↔ p = .design d := by
  cases p <;> simp [design?]

theorem fits_account {a : Address} :
    p.Fits (.account a) ↔ ∃ acc, p = .account acc ∧ acc.address = a := by
  cases p <;> simp [Fits]

theorem fits_balance {a : Address} {c : CurrencyId} :
    p.Fits (.balance a c) ↔ ∃ n, p = .balance ⟨n, c⟩ := by
  cases p with
  | balance amount =>
    obtain ⟨n, d⟩ := amount
    simp [Fits]
  | _ => simp [Fits]

theorem fits_design {c : CurrencyId} :
    p.Fits (.design c) ↔ ∃ d, p = .design d ∧ d.currency = c := by
  cases p <;> simp [Fits]

theorem fits_suffrage : p.Fits .suffrage ↔ ∃ m, p = .members m := by
  cases p <;> simp [Fits]

theorem fits_candidates : p.Fits .candidates ↔ ∃ c, p = .candidates c := by
  cases p <;> simp [Fits]

theorem fits_networkPolicy : p.Fits .networkPolicy ↔ ∃ n, p = .networkPolicy n := by
  cases p <;> simp [Fits]

end Payload

/-- The changes that operations make. -/
inductive Change.Regular : Change → Prop
  | balance (a : Address) (amount : Amount) : Regular (.balance a amount)
  | account (acc : Account) : Regular (.account acc)
  | design (d : CurrencyDesign) : Regular (.design d)
  | member (m : Member) {s : Strategy} (set : s ≠ .replace) : Regular (.member m s)
  | candidate (c : Candidate) {s : Strategy} (set : s ≠ .replace) : Regular (.candidate c s)

namespace Change

/-- The place that a change is for. -/
def IsFor (c : Change) (place : Place) : Prop :=
  c.key = place.key

@[simp] theorem isFor_balance {a : Address} {amount : Amount} {place : Place} :
    (balance a amount).IsFor place ↔ Place.balance a amount.currency = place :=
  @Place.key_inj (.balance a amount.currency) place

@[simp] theorem isFor_account {acc : Account} {place : Place} :
    (account acc).IsFor place ↔ Place.account acc.address = place :=
  @Place.key_inj (.account acc.address) place

@[simp] theorem isFor_design {d : CurrencyDesign} {place : Place} :
    (design d).IsFor place ↔ Place.design d.currency = place :=
  @Place.key_inj (.design d.currency) place

@[simp] theorem isFor_member {m : Member} {s : Strategy} {place : Place} :
    (member m s).IsFor place ↔ Place.suffrage = place :=
  @Place.key_inj .suffrage place

@[simp] theorem isFor_candidate {c : Candidate} {s : Strategy} {place : Place} :
    (candidate c s).IsFor place ↔ Place.candidates = place :=
  @Place.key_inj .candidates place

theorem Regular.exists_isFor {c : Change} (h : c.Regular) : ∃ place, c.IsFor place := by
  cases h with
  | balance a amount => exact ⟨_, isFor_balance.2 rfl⟩
  | account acc => exact ⟨_, isFor_account.2 rfl⟩
  | design d => exact ⟨_, isFor_design.2 rfl⟩
  | member m => exact ⟨_, isFor_member.2 rfl⟩
  | candidate c => exact ⟨_, isFor_candidate.2 rfl⟩

/-- Only sets of members and candidates are merged. -/
theorem Regular.strategy {c : Change} (h : c.Regular) {place : Place} (hp : c.IsFor place)
    (hs : place ≠ .suffrage) (hc : place ≠ .candidates) : c.strategy = .replace := by
  cases h with
  | member m => exact absurd (isFor_member.1 hp).symm hs
  | candidate c => exact absurd (isFor_candidate.1 hp).symm hc
  | _ => rfl

theorem Regular.fits {c : Change} (h : c.Regular) {place : Place} (hp : c.IsFor place) :
    c.payload.Fits place := by
  cases h with
  | balance a amount => exact isFor_balance.1 hp ▸ rfl
  | account acc => exact isFor_account.1 hp ▸ rfl
  | design d => exact isFor_design.1 hp ▸ rfl
  | member m => exact isFor_member.1 hp ▸ trivial
  | candidate c => exact isFor_candidate.1 hp ▸ trivial

theorem fits_mergeSet? {add : Bool} {current : Option Payload} {delta next : Payload}
    (h : Merger.mergeSet? add current delta = some next) {place : Place} (hd : delta.Fits place) :
    next.Fits place := by
  unfold Merger.mergeSet? at h
  split at h <;> cases h <;> cases place <;> first | exact hd.elim | trivial

/-- What a change makes fits its place, whatever stood there. -/
theorem Regular.fits_next? {c : Change} (h : c.Regular) {place : Place} (hp : c.IsFor place)
    {current : Option Payload} {next : Payload} (hn : c.next? current = some next) :
    next.Fits place := by
  unfold next? at hn
  split at hn
  · exact Option.some.inj hn ▸ h.fits hp
  · exact fits_mergeSet? hn (h.fits hp)

/-- A change can be made of whatever fits its place. -/
theorem Regular.exists_next? {c : Change} (h : c.Regular) {place : Place} (hp : c.IsFor place)
    {current : Option Payload} (fits : ∀ p, current = some p → p.Fits place) :
    ∃ next, c.next? current = some next := by
  cases h with
  | balance | account | design => exact ⟨_, next?_replace rfl current⟩
  | @member m s set =>
    obtain rfl := isFor_member.1 hp
    cases current with
    | none => cases s <;> first | exact absurd rfl set | exact ⟨_, rfl⟩
    | some p =>
      obtain ⟨base, rfl⟩ := Payload.fits_suffrage.1 (fits p rfl)
      cases s <;> first | exact absurd rfl set | exact ⟨_, rfl⟩
  | @candidate c s set =>
    obtain rfl := isFor_candidate.1 hp
    cases current with
    | none => cases s <;> first | exact absurd rfl set | exact ⟨_, rfl⟩
    | some p =>
      obtain ⟨base, rfl⟩ := Payload.fits_candidates.1 (fits p rfl)
      cases s <;> first | exact absurd rfl set | exact ⟨_, rfl⟩

end Change

namespace Store

/-- The payload at a place. -/
def at? (store : Store) (place : Place) : Option Payload :=
  store.payload? place.key

/-- Every record holds what its key stands for. -/
def IsKeyed (store : Store) : Prop :=
  ∀ place p, store.at? place = some p → p.Fits place

def account? (store : Store) (a : Address) : Option Account :=
  (store.at? (.account a)).bind Payload.account?

def balance? (store : Store) (a : Address) (c : CurrencyId) : Option Int :=
  (store.at? (.balance a c)).bind Payload.magnitude?

/-- A balance that is not recorded is zero. -/
def balance (store : Store) (a : Address) (c : CurrencyId) : Int :=
  (store.balance? a c).getD 0

def design? (store : Store) (c : CurrencyId) : Option CurrencyDesign :=
  (store.at? (.design c)).bind Payload.design?

section views

variable {store : Store}

theorem account?_eq_some {a : Address} {acc : Account} :
    store.account? a = some acc ↔ store.at? (.account a) = some (.account acc) := by
  simp [account?, Option.bind_eq_some_iff, Payload.account?_eq_some]

theorem design?_eq_some {c : CurrencyId} {d : CurrencyDesign} :
    store.design? c = some d ↔ store.at? (.design c) = some (.design d) := by
  simp [design?, Option.bind_eq_some_iff, Payload.design?_eq_some]

theorem balance_of_at? {a : Address} {c : CurrencyId} {n : Int}
    (h : store.at? (.balance a c) = some (.balance ⟨n, c⟩)) : store.balance a c = n := by
  simp [balance, balance?, h, Payload.magnitude?]

namespace IsKeyed

variable (keyed : store.IsKeyed)
include keyed

theorem account_at? {a : Address} {p : Payload} (h : store.at? (.account a) = some p) :
    ∃ acc, p = .account acc ∧ store.account? a = some acc ∧ acc.address = a := by
  obtain ⟨acc, rfl, ha⟩ := Payload.fits_account.1 (keyed _ _ h)
  exact ⟨acc, rfl, account?_eq_some.2 h, ha⟩

theorem balance_at? {a : Address} {c : CurrencyId} {p : Payload}
    (h : store.at? (.balance a c) = some p) :
    ∃ n, p = .balance ⟨n, c⟩ ∧ store.balance? a c = some n := by
  obtain ⟨n, rfl⟩ := Payload.fits_balance.1 (keyed _ _ h)
  exact ⟨n, rfl, by simp [balance?, h, Payload.magnitude?]⟩

theorem design_at? {c : CurrencyId} {p : Payload} (h : store.at? (.design c) = some p) :
    ∃ d, p = .design d ∧ store.design? c = some d ∧ d.currency = c := by
  obtain ⟨d, rfl, hd⟩ := Payload.fits_design.1 (keyed _ _ h)
  exact ⟨d, rfl, design?_eq_some.2 h, hd⟩

theorem account?_eq_none {a : Address} :
    store.account? a = none ↔ store.at? (.account a) = none := by
  cases h : store.at? (.account a) with
  | none => simp [account?, h]
  | some p =>
    obtain ⟨acc, -, hacc, -⟩ := keyed.account_at? h
    simp [hacc]

theorem balance?_eq_none {a : Address} {c : CurrencyId} :
    store.balance? a c = none ↔ store.at? (.balance a c) = none := by
  cases h : store.at? (.balance a c) with
  | none => simp [balance?, h]
  | some p =>
    obtain ⟨n, -, hn⟩ := keyed.balance_at? h
    simp [hn]

theorem design?_eq_none {c : CurrencyId} :
    store.design? c = none ↔ store.at? (.design c) = none := by
  cases h : store.at? (.design c) with
  | none => simp [design?, h]
  | some p =>
    obtain ⟨d, -, hd, -⟩ := keyed.design_at? h
    simp [hd]

theorem address_eq {a : Address} {acc : Account} (h : store.account? a = some acc) :
    acc.address = a :=
  keyed _ _ (account?_eq_some.1 h)

theorem currency_eq {c : CurrencyId} {d : CurrencyDesign} (h : store.design? c = some d) :
    d.currency = c :=
  keyed _ _ (design?_eq_some.1 h)

end IsKeyed

end views

section commit

variable {store store' : Store} {height : Height} {accepted : Accepted} {records : List Record}

theorem mem_writesTo_key {w : Digest × Change} {place : Place} :
    w ∈ writesTo accepted place.key ↔ w ∈ writes accepted ∧ w.2.IsFor place :=
  mem_writesTo

/-- A place is left alone by changes for other places. -/
theorem at?_commit_of_not_written (h : store.commit height accepted = .ok (records, store'))
    {place : Place} (unwritten : ∀ w ∈ writes accepted, ¬w.2.IsFor place) :
    store'.at? place = store.at? place := by
  rw [at?, at?, payload?, payload?, get?_commit_of_not_written h unwritten]

/-- Where changes only replace, a place holds what one of the changes for it writes, or what it held
before. -/
theorem at?_commit_cases (h : store.commit height accepted = .ok (records, store')) {place : Place}
    (replace : ∀ w ∈ writes accepted, w.2.IsFor place → w.2.strategy = .replace) :
    (∃ w ∈ writes accepted, w.2.IsFor place ∧ store'.at? place = some w.2.payload) ∨
      (∀ w ∈ writes accepted, ¬w.2.IsFor place) ∧ store'.at? place = store.at? place :=
  payload?_commit_cases h replace

/-- Where all changes for a place write the same payload, it stands there afterwards. -/
theorem at?_commit_of_written (h : store.commit height accepted = .ok (records, store'))
    {place : Place} {p : Payload}
    (same : ∀ w ∈ writes accepted, w.2.IsFor place → w.2.strategy = .replace ∧ w.2.payload = p)
    (written : ∃ w ∈ writes accepted, w.2.IsFor place) : store'.at? place = some p := by
  rcases at?_commit_cases h fun w hw hfor => (same w hw hfor).1 with
    ⟨w, hw, hfor, hat⟩ | ⟨hnone, -⟩
  · rw [hat, (same w hw hfor).2]
  · obtain ⟨w, hw, hfor⟩ := written
    exact absurd hfor (hnone w hw)

/-- A balance grows by what every change for it adds. -/
theorem balance_commit_of_gain (h : store.commit height accepted = .ok (records, store'))
    {a : Address} {c : CurrencyId} {gain : Int}
    (adds : ∀ w ∈ writes accepted, w.2.IsFor (.balance a c) →
      w.2 = .balance a ⟨store.balance a c + gain, c⟩)
    (added : gain ≠ 0 → ∃ w ∈ writes accepted, w.2.IsFor (.balance a c)) :
    store'.balance a c = store.balance a c + gain := by
  by_cases hw : ∃ w ∈ writes accepted, w.2.IsFor (.balance a c)
  · apply balance_of_at?
    apply at?_commit_of_written h _ hw
    intro w hmem hfor
    rw [adds w hmem hfor]
    exact ⟨rfl, rfl⟩
  · have hgain : gain = 0 := by
      by_contra hg
      exact hw (added hg)
    have hat := at?_commit_of_not_written h fun w hmem hfor => hw ⟨w, hmem, hfor⟩
    rw [balance, balance?, hat, hgain, Int.add_zero]
    rfl

/-- So does the total that a design records. -/
theorem design?_commit_of_issue (h : store.commit height accepted = .ok (records, store'))
    {c : CurrencyId} {n : Int}
    (issues : ∀ w ∈ writes accepted, w.2.IsFor (.design c) →
      ∃ d, store.design? c = some d ∧ w.2 = .design (d.issue n))
    (issued : n ≠ 0 → (store.design? c).isSome → ∃ w ∈ writes accepted, w.2.IsFor (.design c)) :
    store'.design? c = (store.design? c).map fun d => d.issue n := by
  by_cases hw : ∃ w ∈ writes accepted, w.2.IsFor (.design c)
  · obtain ⟨w, hmem, hfor⟩ := hw
    obtain ⟨d, hd, -⟩ := issues w hmem hfor
    rw [hd, Option.map_some, design?_eq_some]
    apply at?_commit_of_written h _ ⟨w, hmem, hfor⟩
    intro w' hmem' hfor'
    obtain ⟨d', hd', hw'⟩ := issues w' hmem' hfor'
    obtain rfl : d = d' := Option.some.inj (hd.symm.trans hd')
    rw [hw']
    exact ⟨rfl, rfl⟩
  · have hat := at?_commit_of_not_written h fun w hmem hfor => hw ⟨w, hmem, hfor⟩
    rw [design?, hat, ← design?]
    cases hd : store.design? c with
    | none => rfl
    | some d =>
      have hn : n = 0 := by
        by_contra hn
        exact hw (issued hn (by rw [hd]; rfl))
      rw [Option.map_some, hn, CurrencyDesign.issue, Int.add_zero]

/-- Regular changes keep a store keyed. -/
theorem IsKeyed.commit (keyed : store.IsKeyed)
    (h : store.commit height accepted = .ok (records, store'))
    (regular : ∀ w ∈ writes accepted, w.2.Regular) : store'.IsKeyed := by
  intro place
  refine commit_induction (P := fun current => ∀ p, current = some p → p.Fits place) h
    (keyed place) ?_
  intro w hw current next _ hn p hp
  obtain ⟨hw, hfor⟩ := mem_writesTo_key.1 hw
  exact Option.some.inj hp ▸ (regular w hw).fits_next? hfor hn

/-- Regular changes can be committed to a keyed store. -/
theorem IsKeyed.exists_commit (keyed : store.IsKeyed)
    (regular : ∀ w ∈ writes accepted, w.2.Regular) :
    ∃ records store', store.commit height accepted = .ok (records, store') := by
  apply exists_commit_of_step
    (P := fun key current =>
      ∀ place : Place, place.key = key → ∀ p, current = some p → p.Fits place)
  · rintro _ place rfl p hp
    exact keyed place p hp
  · intro w hw current fits
    obtain ⟨place, hfor⟩ := (regular w hw).exists_isFor
    obtain ⟨next, hnext⟩ := (regular w hw).exists_next? hfor (fits place hfor.symm)
    refine ⟨next, hnext, fun q hq p hp => ?_⟩
    exact Option.some.inj hp ▸ (regular w hw).fits_next? hq.symm hnext

/-- A commit takes no record away. -/
theorem isSome_at?_commit (h : store.commit height accepted = .ok (records, store'))
    {place : Place} (there : (store.at? place).isSome) : (store'.at? place).isSome :=
  commit_induction (P := fun current => current.isSome = true) h there fun _ _ _ _ _ _ => rfl

theorem isSome_at?_commit_of_written (h : store.commit height accepted = .ok (records, store'))
    {place : Place} {w : Digest × Change} (hw : w ∈ writes accepted) (hfor : w.2.IsFor place) :
    (store'.at? place).isSome :=
  commit_of_brought (P := fun current => current.isSome = true) h (mem_writesTo_key.2 ⟨hw, hfor⟩)
    (fun _ _ _ => rfl) fun _ _ _ _ _ _ => rfl

end commit

end Store

end CurrencyLedger
