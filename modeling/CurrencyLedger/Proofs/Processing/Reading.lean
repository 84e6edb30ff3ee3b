import CurrencyLedger.Processing.Signatures
import CurrencyLedger.Proofs.Ledger.Roster

/-!
What a processor reads from a store. On a keyed store no read of an account, a balance or a currency
fails, so each is given by the view of the store alone; on any store a read that succeeds is.
-/

namespace CurrencyLedger

open Traversal

/-- The context of a processor that reads a store. -/
abbrev Store.context (store : Store) (height : Height) (threshold : Threshold) : Context :=
  ⟨height, store.reader, threshold⟩

namespace Record

variable {r : Record}

theorem account_eq_ok {a : Account} : r.account = .ok a ↔ r.payload = .account a := by
  unfold account
  cases r.payload <;> simp [wrong]

theorem balance_eq_ok {a : Amount} : r.balance = .ok a ↔ r.payload = .balance a := by
  unfold balance
  cases r.payload <;> simp [wrong]

theorem design_eq_ok {d : CurrencyDesign} : r.design = .ok d ↔ r.payload = .design d := by
  unfold design
  cases r.payload <;> simp [wrong]

theorem members_eq_ok {m : Members} : r.members = .ok m ↔ r.payload = .members m := by
  unfold members
  cases r.payload <;> simp [wrong]

theorem candidates_eq_ok {c : Candidates} : r.candidates = .ok c ↔ r.payload = .candidates c := by
  unfold candidates
  cases r.payload <;> simp [wrong]

end Record

namespace Context

variable {α : Type} {store : Store} {height : Height} {threshold : Threshold}

theorem ofState_ok (a : α) : Result.ofState (.ok a) = .ok a := rfl

theorem find_eq (key : String) (content : Record → Except StateError α) :
    (store.context height threshold).find key content =
      match store.get? key with
      | none => .ok none
      | some r => (Result.ofState (content r)).map some := by
  unfold find
  cases h : store.get? key with
  | none => simp [Store.reader, h, Except.mapError, bind, Except.bind, pure, Except.pure]
  | some r =>
    cases hc : Result.ofState (content r) <;>
      simp [Store.reader, h, hc, Except.mapError, bind, Except.bind, pure, Except.pure, Except.map]

/-- A read that succeeds has found nothing, or a record that can be opened. -/
theorem find_cases {key : String} {content : Record → Except StateError α} {found : Option α}
    (h : (store.context height threshold).find key content = .ok found) :
    store.get? key = none ∧ found = none ∨
      ∃ r a, store.get? key = some r ∧ content r = .ok a ∧ found = some a := by
  rw [find_eq] at h
  cases hr : store.get? key with
  | none =>
    rw [hr] at h
    cases h
    exact .inl ⟨rfl, rfl⟩
  | some r =>
    rw [hr] at h
    obtain ⟨a, ha, rfl⟩ := map_eq_ok.1 h
    exact .inr ⟨r, a, rfl, mapError_eq_ok.1 ha, rfl⟩

/-- Where every record at a place can be opened, a read gives what its payload holds. -/
theorem find_eq_ok {p : Place} {content : Record → Except StateError α} {f : Payload → Option α}
    (h : ∀ r, store.get? p.key = some r → ∃ a, content r = .ok a ∧ f r.payload = some a) :
    (store.context height threshold).find p.key content = .ok ((store.at? p).bind f) := by
  rw [find_eq, Store.at?, Store.payload?]
  cases hr : store.get? p.key with
  | none => rfl
  | some r =>
    obtain ⟨a, ha, hf⟩ := h r hr
    simp [ha, hf, ofState_ok, Except.map]

theorem at?_of_get? {place : Place} {r : Record} (h : store.get? place.key = some r) :
    store.at? place = some r.payload := by
  rw [Store.at?, Store.payload?, h, Option.map_some]

theorem account?_eq (keyed : store.IsKeyed) (a : Address) :
    (store.context height threshold).account? a = .ok (store.account? a) := by
  apply find_eq_ok (p := .account a) (f := Payload.account?)
  intro r hr
  obtain ⟨acc, hp, -, -⟩ := keyed.account_at? (at?_of_get? hr)
  exact ⟨acc, by simp [Record.account, hp], by simp [hp, Payload.account?]⟩

theorem balance?_eq (keyed : store.IsKeyed) (a : Address) (c : CurrencyId) :
    (store.context height threshold).balance? a c = .ok (store.balance? a c) := by
  have h : (store.context height threshold).find (Place.balance a c).key Record.balance =
      .ok ((store.at? (.balance a c)).bind fun p => p.magnitude?.map fun n => ⟨n, c⟩) := by
    apply find_eq_ok
    intro r hr
    obtain ⟨n, hp, -⟩ := keyed.balance_at? (at?_of_get? hr)
    exact ⟨⟨n, c⟩, by simp [Record.balance, hp], by simp [hp, Payload.magnitude?]⟩
  unfold balance?
  simp only [Place.key] at h
  rw [h, Store.balance?]
  cases hp : store.at? (.balance a c) with
  | none => rfl
  | some p =>
    obtain ⟨n, rfl, -⟩ := keyed.balance_at? hp
    rfl

theorem balance_eq (keyed : store.IsKeyed) (a : Address) (c : CurrencyId) :
    (store.context height threshold).balance a c = .ok (store.balance a c) := by
  rw [balance, balance?_eq keyed]
  rfl

theorem find_design_eq (keyed : store.IsKeyed) (c : CurrencyId) :
    (store.context height threshold).find (RecordKey.design c) Record.design =
      .ok (store.design? c) := by
  apply find_eq_ok (p := .design c) (f := Payload.design?)
  intro r hr
  obtain ⟨d, hp, -, -⟩ := keyed.design_at? (at?_of_get? hr)
  exact ⟨d, by simp [Record.design, hp], by simp [hp, Payload.design?]⟩

theorem design_eq_ok (keyed : store.IsKeyed) {c : CurrencyId} {d : CurrencyDesign} :
    (store.context height threshold).design c = .ok d ↔ store.design? c = some d := by
  rw [design, find_design_eq keyed, bind_eq_ok]
  cases store.design? c <;> simp [reject, pure_eq_ok]

/-- A design is looked for whatever the record under its key holds. -/
theorem isNone_of_find_design (keyed : store.IsKeyed) {c : CurrencyId} {found : Option Record}
    (h : (store.context height threshold).find (RecordKey.design c) .ok = .ok found)
    (hn : found.isSome = false) : store.design? c = none := by
  rw [find_eq] at h
  rw [keyed.design?_eq_none]
  show (store.get? (RecordKey.design c)).map Record.payload = none
  cases hr : store.get? (RecordKey.design c) with
  | none => rfl
  | some r =>
    rw [hr] at h
    cases h
    cases hn

theorem requireAccount_eq_ok (keyed : store.IsKeyed) {a : Address} {reason : Address → Reason} :
    (store.context height threshold).requireAccount a reason = .ok () ↔
      (store.account? a).isSome := by
  simp only [requireAccount, accountExists, account?_eq keyed, bind_eq_ok, pure_eq_ok]
  cases store.account? a <;> simp [reject, pure_eq_ok]

theorem requireNoAccount_eq_ok (keyed : store.IsKeyed) {a : Address} :
    (store.context height threshold).requireNoAccount a = .ok () ↔ store.account? a = none := by
  simp only [requireNoAccount, accountExists, account?_eq keyed, bind_eq_ok, pure_eq_ok]
  cases store.account? a <;> simp [reject, pure_eq_ok]

/-- An account with keys that signed up to their threshold. -/
theorem signedAccount_eq_ok (keyed : store.IsKeyed) {a : Address} {op : Operation} {acc : Account} :
    (store.context height threshold).signedAccount a op = .ok acc ↔
      store.account? a = some acc ∧
        ∃ keys, acc.keys = some keys ∧ keys.checkSigners op.signers = .ok () := by
  rw [signedAccount, account?_eq keyed, bind_eq_ok]
  simp only [Except.ok.injEq, exists_eq_left']
  cases store.account? a with
  | none => simp [reject]
  | some acc' =>
    cases hk : acc'.keys with
    | none =>
      simp only [hk, reject, reduceCtorEq, Option.some.injEq, false_iff, not_and]
      rintro rfl ⟨keys, h, -⟩
      simp [hk] at h
    | some keys =>
      simp only [hk, bind_eq_ok, mapError_eq_ok, pure_eq_ok, Option.some.injEq]
      constructor
      · rintro ⟨_, hs, rfl⟩
        exact ⟨rfl, keys, hk, hs⟩
      · rintro ⟨rfl, keys', hk', hs⟩
        rw [Option.some.inj (hk.symm.trans hk')]
        exact ⟨(), hs, rfl⟩

/-- A record that must be there gives what its payload holds. -/
theorem require_eq_ok (place : Place) {content : Record → Except StateError α} {p : Payload} {a : α}
    (h : store.at? place = some p) (opens : ∀ r : Record, r.payload = p → content r = .ok a) :
    (store.context height threshold).require place.key content = .ok a := by
  obtain ⟨r, hr, hp⟩ := Option.map_eq_some_iff.1 h
  rw [require, find_eq, hr]
  simp [opens r hp, ofState_ok, Except.map, bind, Except.bind, pure, Except.pure]

theorem members_eq_ok {m : Members} (h : store.at? .suffrage = some (.members m)) :
    (store.context height threshold).members = .ok m := by
  apply require_eq_ok .suffrage h
  intro r hr
  simp [Record.members, hr]

theorem networkPolicy_eq_ok {p : NetworkPolicy}
    (h : store.at? .networkPolicy = some (.networkPolicy p)) :
    (store.context height threshold).networkPolicy = .ok p := by
  apply require_eq_ok .networkPolicy h
  intro r hr
  simp [Record.networkPolicy, hr]

section reads

variable {place : Place} {content : Record → Except StateError α}

theorem at?_of_find_none (h : (store.context height threshold).find place.key content = .ok none) :
    store.at? place = none := by
  rcases find_cases h with ⟨hr, -⟩ | ⟨r, a, -, -, hfound⟩
  · rw [Store.at?, Store.payload?, hr, Option.map_none]
  · cases hfound

theorem at?_of_find_some {a : α} {p : Payload}
    (h : (store.context height threshold).find place.key content = .ok (some a))
    (opens : ∀ r : Record, content r = .ok a → r.payload = p) : store.at? place = some p := by
  rcases find_cases h with ⟨-, hfound⟩ | ⟨r, b, hr, hb, hfound⟩
  · cases hfound
  · cases hfound
    rw [at?_of_get? hr, opens r hb]

end reads

theorem design?_of_design {c : CurrencyId} {d : CurrencyDesign}
    (h : (store.context height threshold).design c = .ok d) : store.design? c = some d := by
  obtain ⟨found, hfound, h⟩ := bind_eq_ok.1 h
  cases found with
  | none => cases h
  | some d' =>
    cases h
    apply Store.design?_eq_some.2
    exact at?_of_find_some hfound fun _ => Record.design_eq_ok.1

theorem balance_of_balance {a : Address} {c : CurrencyId} {n : Int}
    (h : (store.context height threshold).balance a c = .ok n) : n = store.balance a c := by
  obtain ⟨magnitude, hmagnitude, h⟩ := bind_eq_ok.1 h
  cases h
  obtain ⟨found, hfound, h⟩ := bind_eq_ok.1 hmagnitude
  cases h
  rw [Store.balance, Store.balance?]
  cases found with
  | none =>
    have hat : store.at? (.balance a c) = none := at?_of_find_none hfound
    rw [hat]
    rfl
  | some amount =>
    have hat : store.at? (.balance a c) = some (.balance amount) :=
      at?_of_find_some hfound fun _ => Record.balance_eq_ok.1
    rw [hat]
    rfl

theorem at?_of_members {m : Members} (h : (store.context height threshold).members = .ok m) :
    store.at? .suffrage = some (.members m) := by
  obtain ⟨found, hfound, h⟩ := bind_eq_ok.1 h
  cases found with
  | none => cases h
  | some m' =>
    cases h
    exact at?_of_find_some hfound fun _ => Record.members_eq_ok.1

theorem items_of_members {m : Members} (h : (store.context height threshold).members = .ok m) :
    Roster.members.items store = m := by
  rw [Roster.items, show Roster.members.place = .suffrage from rfl, at?_of_members h]
  rfl

theorem items_of_candidates {cs : Candidates}
    (h : (store.context height threshold).candidates = .ok cs) :
    Roster.candidates.items store = cs := by
  obtain ⟨found, hfound, h⟩ := bind_eq_ok.1 h
  cases h
  rw [Roster.items, show Roster.candidates.place = .candidates from rfl]
  cases found with
  | none =>
    have hat : store.at? .candidates = none := at?_of_find_none hfound
    rw [hat]
    rfl
  | some cs' =>
    have hat : store.at? .candidates = some (.candidates cs') :=
      at?_of_find_some hfound fun _ => Record.candidates_eq_ok.1
    rw [hat]
    rfl

theorem at?_of_requireNoAccount {a : Address}
    (h : (store.context height threshold).requireNoAccount a = .ok ()) :
    store.at? (.account a) = none := by
  simp only [requireNoAccount, accountExists, bind_eq_ok, pure_eq_ok] at h
  obtain ⟨_, ⟨found, hfound, rfl⟩, h⟩ := h
  cases found with
  | some acc => cases h
  | none => exact at?_of_find_none hfound

theorem exists_candidates (keyed : store.IsKeyed) :
    ∃ cs, (store.context height threshold).candidates = .ok cs := by
  have h : (store.context height threshold).find Place.candidates.key Record.candidates =
      .ok ((store.at? .candidates).bind Payload.candidates?) := by
    apply find_eq_ok
    intro r hr
    obtain ⟨cs, hp⟩ := Payload.fits_candidates.1 (keyed _ _ (at?_of_get? hr))
    exact ⟨cs, by simp [Record.candidates, hp], by simp [hp, Payload.candidates?]⟩
  exact ⟨_, bind_eq_ok.2 ⟨_, h, rfl⟩⟩

end Context

end CurrencyLedger
