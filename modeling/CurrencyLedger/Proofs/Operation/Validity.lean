import CurrencyLedger.Operation.Operation
import CurrencyLedger.Proofs.Money.Design

/-!
When facts and operations pass their checks. `AreValid` says of the items of each kind of facts that
has some what their check comes to.
-/

namespace CurrencyLedger

open Traversal

/-- Positive amounts, no two of them in one currency. -/
structure AreAmounts (amounts : List Amount) : Prop where
  positive : ∀ a ∈ amounts, 0 < a.magnitude
  distinct : (amounts.map Amount.currency).Nodup

/-- One to ten positive amounts in different currencies. -/
structure AreItemAmounts (amounts : List Amount) : Prop extends AreAmounts amounts where
  count : 1 ≤ amounts.length ∧ amounts.length ≤ 10

theorem checkAmounts_eq_ok {amounts : List Amount} :
    checkAmounts amounts = .ok () ↔ AreItemAmounts amounts := by
  have hkey (a : Amount) (c : CurrencyId) :
      (do a.checkPositive; return a.currency : Except ValidationError CurrencyId) = .ok c ↔
        0 < a.magnitude ∧ a.currency = c := by
    rw [check_bind_eq_ok, Amount.checkPositive_eq_ok, pure_eq_ok]
  unfold checkAmounts
  split
  · next hcount =>
    rw [Check.distinct_eq_ok_map hkey]
    constructor
    · rintro ⟨hpositive, hd⟩
      exact ⟨⟨hpositive, hd⟩, hcount⟩
    · exact fun h => ⟨h.positive, h.distinct⟩
  · next hcount => exact ⟨fun h => (by cases h), fun h => absurd h.count hcount⟩

theorem checkItemCount_eq_ok {count : Nat} :
    checkItemCount count = .ok () ↔ 1 ≤ count ∧ count ≤ 10 := by
  simp [checkItemCount]

theorem checkToken_eq_ok {token : List UInt8} :
    checkToken token = .ok () ↔ 1 ≤ token.length ∧ token.length ≤ 100 := by
  simp [checkToken]

namespace NewAccount

variable {sender : Address} {items : List NewAccount}

theorem target_eq_ok {item : NewAccount} {a : Address} : item.target sender = .ok a ↔
    AreItemAmounts item.amounts ∧ item.address = .ok a ∧ a ≠ sender := by
  simp only [target, bind_eq_ok, mapError_eq_ok, ← checkAmounts_eq_ok]
  constructor
  · rintro ⟨b, hb, _, hamounts, h⟩
    split at h
    · cases h
    · next hne =>
      cases h
      exact ⟨hamounts, hb, hne⟩
  · rintro ⟨hamounts, ha, hne⟩
    exact ⟨a, ha, (), hamounts, if_neg hne⟩

/-- New accounts at different addresses, none of which is the one of the sender. -/
structure AreValid (sender : Address) (items : List NewAccount) : Prop where
  count : 1 ≤ items.length ∧ items.length ≤ 10
  amounts : ∀ item ∈ items, AreItemAmounts item.amounts
  targets : ∃ targets, Intent.targets items = .ok targets ∧ targets.Nodup ∧ sender ∉ targets

theorem forall₂_address_ne {targets : List Address} :
    List.Forall₂ (fun item a => address item = .ok a ∧ a ≠ sender) items targets ↔
      Intent.targets items = .ok targets ∧ sender ∉ targets := by
  have hne : sender ∉ targets ↔ ∀ a ∈ targets, a ≠ sender :=
    ⟨fun h a ha heq => h (heq ▸ ha), fun h hmem => h sender hmem rfl⟩
  rw [forall₂_and_right, Intent.targets, mapM_eq_ok_iff, hne]

end NewAccount

namespace Transfer

theorem target_eq_ok {sender a : Address} {item : Transfer} : item.target sender = .ok a ↔
    (AreItemAmounts item.amounts ∧ item.receiver ≠ sender) ∧ item.receiver = a := by
  rw [target, check_bind_eq_ok, checkAmounts_eq_ok, and_assoc]
  apply and_congr_right
  intro _
  by_cases h : item.receiver = sender <;> simp [h]

/-- Transfers to different receivers, none of which is the sender. -/
structure AreValid (sender : Address) (items : List Transfer) : Prop where
  count : 1 ≤ items.length ∧ items.length ≤ 10
  amounts : ∀ item ∈ items, AreItemAmounts item.amounts
  distinct : (items.map Transfer.receiver).Nodup
  sender : sender ∉ items.map Transfer.receiver

end Transfer

namespace Issue

theorem target_eq_ok {item : Issue} {place : Address × CurrencyId} : item.target = .ok place ↔
    0 < item.amount.magnitude ∧ (item.receiver, item.amount.currency) = place := by
  rw [target, check_bind_eq_ok, Amount.checkPositive_eq_ok, pure_eq_ok]

/-- Issues that raise different balances. -/
structure AreValid (items : List Issue) : Prop where
  count : 1 ≤ items.length ∧ items.length ≤ 10
  positive : ∀ item ∈ items, 0 < item.amount.magnitude
  distinct : (items.map fun item => (item.receiver, item.amount.currency)).Nodup

end Issue

namespace CurrencyDesign

theorem genesisCurrency_eq_ok {a : Address} {c : CurrencyId} {d : CurrencyDesign} :
    d.genesisCurrency a = .ok c ↔
      (d.check = .ok () ∧ d.genesisAccount = a) ∧ d.currency = c := by
  rw [genesisCurrency, check_bind_eq_ok, and_assoc]
  apply and_congr_right
  intro _
  by_cases h : d.genesisAccount = a <;> simp [h]

/-- Designs of different currencies for the genesis account that the keys own. -/
structure AreValid (keys : KeySet) (designs : List CurrencyDesign) : Prop where
  count : 1 ≤ designs.length ∧ designs.length ≤ 10
  valid : ∀ d ∈ designs, d.check = .ok ()
  account : ∀ d ∈ designs, d.genesisAccount = .ofKeySet keys
  distinct : (designs.map CurrencyDesign.currency).Nodup

end CurrencyDesign

namespace Intent

theorem check_createAccounts_iff {sender : Address} {items : List NewAccount} :
    (createAccounts sender items).check = .ok () ↔ NewAccount.AreValid sender items := by
  rw [check, check_bind_eq_ok, checkItemCount_eq_ok,
    Check.distinct_eq_ok_and fun _ _ => NewAccount.target_eq_ok]
  simp only [NewAccount.forall₂_address_ne, and_assoc]
  constructor
  · rintro ⟨hmin, hmax, hamounts, targets, htargets, hne, hd⟩
    exact ⟨⟨hmin, hmax⟩, hamounts, targets, htargets, hd, hne⟩
  · rintro ⟨⟨hmin, hmax⟩, hamounts, targets, htargets, hd, hne⟩
    exact ⟨hmin, hmax, hamounts, targets, htargets, hne, hd⟩

theorem check_transfers_iff {sender : Address} {items : List Transfer} :
    (transfers sender items).check = .ok () ↔ Transfer.AreValid sender items := by
  rw [check, check_bind_eq_ok, checkItemCount_eq_ok,
    Check.distinct_eq_ok_map fun _ _ => Transfer.target_eq_ok]
  constructor
  · rintro ⟨hcount, hitems, hd⟩
    refine ⟨hcount, fun item hitem => (hitems item hitem).1, hd, fun hmem => ?_⟩
    obtain ⟨item, hitem, hreceiver⟩ := List.mem_map.1 hmem
    exact (hitems item hitem).2 hreceiver
  · intro h
    refine ⟨h.count, fun item hitem => ⟨h.amounts item hitem, fun hreceiver => ?_⟩, h.distinct⟩
    exact h.sender (List.mem_map.2 ⟨item, hitem, hreceiver⟩)

theorem check_mint_iff {items : List Issue} :
    (mint items).check = .ok () ↔ Issue.AreValid items := by
  rw [check, check_bind_eq_ok, checkItemCount_eq_ok,
    Check.distinct_eq_ok_map fun _ _ => Issue.target_eq_ok]
  constructor
  · rintro ⟨hcount, hpositive, hd⟩
    exact ⟨hcount, hpositive, hd⟩
  · exact fun h => ⟨h.count, h.positive, h.distinct⟩

theorem check_genesisCurrencies_iff {key : PublicKey} {keys : KeySet}
    {designs : List CurrencyDesign} :
    (genesisCurrencies key keys designs).check = .ok () ↔ CurrencyDesign.AreValid keys designs := by
  rw [check, check_bind_eq_ok, checkItemCount_eq_ok,
    Check.distinct_eq_ok_map fun _ _ => CurrencyDesign.genesisCurrency_eq_ok]
  constructor
  · rintro ⟨hcount, hdesigns, hd⟩
    exact ⟨hcount, fun d hd => (hdesigns d hd).1, fun d hd => (hdesigns d hd).2, hd⟩
  · intro h
    exact ⟨h.count, fun d hd => ⟨h.valid d hd, h.account d hd⟩, h.distinct⟩

theorem check_createAccounts {sender : Address} {items : List NewAccount}
    (h : (createAccounts sender items).check = .ok ()) :
    ∃ targets, List.Forall₂ (fun item a => item.address = .ok a ∧ AreAmounts item.amounts ∧
      a ≠ sender) items targets ∧ targets.Nodup := by
  obtain ⟨-, hamounts, targets, htargets, hd, hne⟩ := check_createAccounts_iff.1 h
  have hall := (List.forall₂_and_left items targets).2
    ⟨hamounts, NewAccount.forall₂_address_ne.2 ⟨htargets, hne⟩⟩
  exact ⟨targets, hall.imp fun _ _ h => ⟨h.2.1, h.1.toAreAmounts, h.2.2⟩, hd⟩

theorem check_transfers {sender : Address} {items : List Transfer}
    (h : (transfers sender items).check = .ok ()) :
    (items.map Transfer.receiver).Nodup ∧
      ∀ item ∈ items, AreAmounts item.amounts ∧ item.receiver ≠ sender := by
  obtain ⟨-, hamounts, hd, hsender⟩ := check_transfers_iff.1 h
  refine ⟨hd, fun item hitem => ⟨(hamounts item hitem).toAreAmounts, fun hreceiver => ?_⟩⟩
  exact hsender (List.mem_map.2 ⟨item, hitem, hreceiver⟩)

theorem check_mint {items : List Issue} (h : (mint items).check = .ok ()) :
    (items.map fun item => (item.receiver, item.amount.currency)).Nodup ∧
      ∀ item ∈ items, 0 < item.amount.magnitude := by
  obtain ⟨-, hpositive, hd⟩ := check_mint_iff.1 h
  exact ⟨hd, hpositive⟩

theorem check_genesisCurrencies {key : PublicKey} {keys : KeySet} {designs : List CurrencyDesign}
    (h : (genesisCurrencies key keys designs).check = .ok ()) :
    (designs.map CurrencyDesign.currency).Nodup ∧
      ∀ d ∈ designs, d.check = .ok () ∧ d.genesisAccount = .ofKeySet keys := by
  obtain ⟨-, hvalid, haccount, hdistinct⟩ := check_genesisCurrencies_iff.1 h
  exact ⟨hdistinct, fun d hd => ⟨hvalid d hd, haccount d hd⟩⟩

end Intent

theorem Fact.check_eq_ok {f : Fact} :
    f.check = .ok () ↔ checkToken f.token = .ok () ∧ f.intent.check = .ok () := by
  rw [check, check_bind_eq_ok]

namespace Operation

theorem checkSign_eq_ok {nodeLevel : Bool} {network : List UInt8} {factHash : Digest} {s : Sign} :
    checkSign nodeLevel network factHash s = .ok () ↔
      (nodeLevel = true → s.node.isSome) ∧ s.verify network factHash = .ok true := by
  unfold checkSign
  split
  · next h =>
    simp only [Bool.and_eq_true, Option.isNone_iff_eq_none] at h
    simp [h.1, h.2]
  · next h =>
    have hnode : nodeLevel = true → s.node.isSome := by
      simp only [Bool.and_eq_true, not_and, Bool.not_eq_true, Option.isNone_eq_false_iff] at h
      exact h
    rw [bind_eq_ok]
    simp only [mapError_eq_ok]
    constructor
    · rintro ⟨b, hb, h⟩
      cases b with
      | false => cases h
      | true => exact ⟨hnode, hb⟩
    · rintro ⟨-, hb⟩
      exact ⟨true, hb, rfl⟩

/-- An operation is in order if its fact is, its hash is the one of its content, and it has signs,
by different keys, each of which verifies. -/
theorem check_eq_ok {op : Operation} {network : List UInt8} :
    op.check network = .ok () ↔
      op.fact.check = .ok () ∧ hashOf op.fact.hash op.signs = op.hash ∧ op.signs ≠ [] ∧
        op.signers.Nodup ∧ ∀ s ∈ op.signs, (op.kind.isNodeLevel = true → s.node.isSome) ∧
          s.verify network op.fact.hash = .ok true := by
  rw [check, bind_eq_ok]
  simp only [mapError_eq_ok]
  constructor
  · rintro ⟨_, hfact, h⟩
    split at h
    · cases h
    · next hhash =>
      split at h
      · cases h
      · next hsigns =>
        obtain ⟨ks, hm, hd, -, hall⟩ := Check.distinctFrom_eq_ok_iff.1 h
        have hks : ks = op.signers := eq_map_of_mapM hm fun s _ k hk => by cases hk; rfl
        exact ⟨hfact, not_not.1 hhash, by simpa using hsigns, hks ▸ hd,
          fun s hs => checkSign_eq_ok.1 (hall s hs)⟩
  · rintro ⟨hfact, hhash, hsigns, hd, hall⟩
    refine ⟨(), hfact, ?_⟩
    rw [if_neg (not_not.2 hhash), if_neg (by simpa using hsigns)]
    refine Check.distinctFrom_eq_ok_iff.2 ⟨op.signers, mapM_eq_map fun _ _ => rfl, hd, by simp, ?_⟩
    exact fun s hs => checkSign_eq_ok.2 (hall s hs)

/-- An error of the content of an operation or of its signatures. -/
def IsFault (e : LedgerError) : Prop :=
  e.category = .validation ∨ e.category = .signature

theorem checkSign_failsBy (nodeLevel : Bool) (network : List UInt8) (factHash : Digest) (s : Sign) :
    FailsBy IsFault (checkSign nodeLevel network factHash s) := by
  unfold checkSign
  split
  · exact .error (.inl rfl)
  · have hverify : FailsBy IsFault ((s.verify network factHash).mapError LedgerError.signature) :=
      .mapError fun _ _ => .inr rfl
    refine hverify.bind fun b _ => ?_
    cases b with
    | false => exact .error (.inl rfl)
    | true => exact .ok ()

/-- The check of an operation has no other errors. -/
theorem check_failsBy (op : Operation) (network : List UInt8) :
    FailsBy IsFault (op.check network) := by
  have hfact : FailsBy IsFault (op.fact.check.mapError LedgerError.validation) :=
    .mapError fun _ _ => .inl rfl
  refine hfact.bind fun _ _ => ?_
  dsimp only
  split
  · exact .error (.inl rfl)
  · split
    · exact .error (.inl rfl)
    · refine .distinctFrom (fun s _ => .ok s.signer) (fun _ => .inl rfl) (fun s _ => ?_) []
      exact checkSign_failsBy _ _ _ s

end Operation

end CurrencyLedger
