import CurrencyLedger.Proofs.Ledger.Referential
import CurrencyLedger.Proofs.Processing.Rejection
import CurrencyLedger.Proofs.Processing.Sequence

/-!
Every run keeps a referential store. What an operation writes refers to accounts and currencies that
its rules looked for, or that it makes itself (`refers_of_admits`), so no fee receiver is ever
missing when an account pays.
-/

namespace CurrencyLedger

open Traversal

section refers

variable {store : Store} {height : Height} {threshold : Threshold} {op : Operation}
  {changes : List Change}
variable (keyed : store.IsKeyed) (ref : store.IsReferential)
include keyed ref

/-- A design that keeps its account and its currency refers to what the old one does, if its fee
receiver is there. -/
theorem Change.Refers.redesign {c : CurrencyId} {d d' : CurrencyDesign}
    (hd : store.design? c = some d) (genesis : d'.genesisAccount = d.genesisAccount)
    (currency : d'.currency = d.currency)
    (receiver : ∀ a, d'.policy.fee.receiver? = some a → (store.account? a).isSome) :
    Change.Refers store changes (.design d') := by
  obtain rfl := keyed.currency_eq hd
  refine .design (.inl ?_) (fun a ha => .inl (receiver a ha)) (.inl ?_)
  · exact genesis ▸ ref.genesis _ d hd
  · exact currency ▸ ref.zero _ (hd ▸ rfl)

theorem Change.Refers.issue {c : CurrencyId} {d : CurrencyDesign} (hd : store.design? c = some d)
    (n : Int) : Change.Refers store changes (.design (d.issue n)) :=
  .redesign keyed ref hd rfl rfl fun a ha => ref.receiver c d a hd ha

theorem refers_of_settles {p : Payment} {settled : List Change} (settles : Settles p store settled)
    {w : Change} (hw : w ∈ settled) : w.Refers store changes := by
  rcases settles.only w hw with ⟨a, c, -, hc, rfl⟩ | ⟨c, d, hd, -, rfl⟩
  · exact .balance (.inl hc)
  · exact .issue keyed ref hd _

section payment

variable (valid : store.HasValidDesigns)
include valid

theorem refers_of_createAccounts {sender : Address} {items : List NewAccount}
    (hcheck : CreateAccounts.check (store.context height threshold) op sender items = .ok ())
    (heffects : CreateAccounts.effects (store.context height threshold) sender items =
      .ok changes) {w : Change} (hw : w ∈ changes) : w.Refers store changes := by
  obtain ⟨-, charges, created, settled, hcharged, hcreated, settles, rfl⟩ :=
    CreateAccounts.settles keyed valid hcheck heffects
  rcases List.mem_append.1 hw with hw | hw
  · rcases (CreateAccounts.mem_created hcreated).1 hw with
      ⟨item, hitem, acc, hacc, rfl⟩ | ⟨credit, hc, rfl⟩
    · obtain ⟨haddress, hkeys⟩ := NewAccount.account?_eq_some.1 hacc
      have hzero := Address.isZero_of_derive haddress
      exact .account (by simp [hkeys, hzero])
    · obtain ⟨item, hitem, hc⟩ := List.mem_flatMap.1 hc
      have hamount := (NewAccount.mem_credits.1 hc).2
      have hnamed : Amount.Names (CreateAccounts.amounts items) credit.amount.currency :=
        ⟨_, List.mem_flatMap.2 ⟨item, hitem, hamount⟩, rfl⟩
      exact .balance (.inl (hcharged.bill.design_of_named hnamed))
  · exact refers_of_settles keyed ref settles hw

theorem refers_of_transfers {sender : Address} {items : List Transfer}
    (hfact : (Intent.transfers sender items).check = .ok ())
    (hcheck : Transfers.check (store.context height threshold) op sender items = .ok ())
    (heffects : Transfers.effects (store.context height threshold) sender items = .ok changes)
    {w : Change} (hw : w ∈ changes) : w.Refers store changes :=
  refers_of_settles keyed ref (Transfers.settles keyed valid rfl hfact hcheck heffects).2 hw

theorem refers_of_keyUpdater {target : Address} {keys : KeySet} {currency : CurrencyId}
    (hfact : (Intent.keyUpdater target keys currency).check = .ok ())
    (heffects : KeyUpdater.effects (store.context height threshold) op target keys currency =
      .ok changes) {w : Change} (hw : w ∈ changes) : w.Refers store changes := by
  obtain ⟨charges, settled, -, settles, rfl⟩ := KeyUpdater.settles keyed valid heffects
  rcases List.mem_cons.1 hw with rfl | hw
  · have hzero : target.isZero = false := by
      cases hz : target.isZero with
      | false => rfl
      | true => simp [Intent.check, hz] at hfact
    exact .account (by simp [hzero])
  · exact refers_of_settles keyed ref settles hw

end payment

omit ref in
theorem refers_of_register {d : CurrencyDesign} {registered : List Change}
    (h : CurrencyRegister.register (store.context height threshold) d = .ok registered)
    (sub : ∀ w ∈ registered, w ∈ changes) (genesis : Change.Finds store changes d.genesisAccount)
    (receiver : ∀ a, d.policy.fee.receiver? = some a → Change.Finds store changes a)
    {w : Change} (hw : w ∈ registered) : w.Refers store changes := by
  rw [CurrencyRegister.register, Context.balance_eq keyed] at h
  cases h
  have hdesign : Change.Knows store changes d.currency := .inr ⟨d, sub _ (by simp), rfl⟩
  have hzero : Change.Finds store changes (.zero d.currency) :=
    .inr ⟨.zero d.currency, sub _ (by simp), rfl⟩
  simp only [List.mem_cons, List.not_mem_nil, or_false] at hw
  rcases hw with rfl | rfl | rfl | rfl
  · exact .design genesis receiver hzero
  · exact .balance hdesign
  · exact .balance hdesign
  · exact .account (by simp [Account.zero, Address.isZero_zero])

omit ref in
/-- A design is only registered if its fee receiver is there or is created along with it. -/
theorem finds_of_checkDesign {created : Option Address} {d : CurrencyDesign}
    (h : CurrencyRegister.checkDesign (store.context height threshold) created d = .ok ())
    {a : Address} (ha : d.policy.fee.receiver? = some a) :
    created = some a ∨ (store.account? a).isSome := by
  rw [CurrencyRegister.checkDesign, bind_eq_ok] at h
  obtain ⟨found, -, h⟩ := h
  split at h
  · cases h
  · simp only [ha] at h
    split at h
    · next he => exact .inl he
    · obtain ⟨_, h, -⟩ := bind_eq_ok.1 h
      exact .inr ((Context.requireAccount_eq_ok keyed).1 h)

omit ref in
theorem refers_of_currencyRegister {d : CurrencyDesign}
    (hcheck : CurrencyRegister.check (store.context height threshold) op d = .ok ())
    (heffects : CurrencyRegister.register (store.context height threshold) d = .ok changes)
    {w : Change} (hw : w ∈ changes) : w.Refers store changes := by
  simp only [CurrencyRegister.check, bind_eq_ok] at hcheck
  obtain ⟨_, hdesign, _, hgenesis, -⟩ := hcheck
  apply refers_of_register keyed heffects (fun _ h => h) ?_ ?_ hw
  · exact .inl ((Context.requireAccount_eq_ok keyed).1 hgenesis)
  · intro a ha
    rcases finds_of_checkDesign keyed hdesign ha with hcreated | ha
    · cases hcreated
    · exact .inl ha

omit ref in
theorem refers_of_genesisCurrencies {nodeKey : PublicKey} {keys : KeySet}
    {designs : List CurrencyDesign} (hfact : ∀ d ∈ designs, d.genesisAccount = .ofKeySet keys)
    (hcheck : GenesisCurrencies.check (store.context height threshold) op nodeKey keys designs =
      .ok ())
    (heffects : GenesisCurrencies.effects (store.context height threshold) keys designs =
      .ok changes)
    {w : Change} (hw : w ∈ changes) : w.Refers store changes := by
  rw [GenesisCurrencies.check] at hcheck
  split at hcheck
  · cases hcheck
  split at hcheck
  · cases hcheck
  obtain ⟨_, -, hdesigns⟩ := bind_eq_ok.1 hcheck
  have hdesigns := Check.forEach_eq_ok_iff.1 hdesigns
  rw [GenesisCurrencies.effects, bind_eq_ok] at heffects
  obtain ⟨registered, hregistered, h⟩ := heffects
  cases h
  rcases List.mem_cons.1 hw with rfl | hw
  · exact .account (by simp [Address.isZero_ofKeySet])
  · obtain ⟨cs, hcs, hw⟩ := List.mem_flatten.1 hw
    obtain ⟨d, hd, hregister⟩ := exists_left (mapM_eq_ok_iff.1 hregistered) hcs
    have hmade : Change.Finds store
        (.account ⟨.ofKeySet keys, some keys⟩ :: registered.flatten) (.ofKeySet keys) :=
      .inr ⟨⟨.ofKeySet keys, some keys⟩, List.mem_cons_self, rfl⟩
    apply refers_of_register keyed hregister ?_ ?_ ?_ hw
    · intro w hw
      exact List.mem_cons_of_mem _ (List.mem_flatten.2 ⟨cs, hcs, hw⟩)
    · rw [hfact d hd]
      exact hmade
    · intro a ha
      rcases finds_of_checkDesign keyed (hdesigns d hd) ha with hcreated | ha
      · cases hcreated
        exact hmade
      · exact .inl ha

theorem refers_of_currencyPolicyUpdater {c : CurrencyId} {policy : CurrencyPolicy}
    (hcheck : CurrencyPolicyUpdater.check (store.context height threshold) op c policy = .ok ())
    (heffects : CurrencyPolicyUpdater.effects (store.context height threshold) c policy =
      .ok changes)
    {w : Change} (hw : w ∈ changes) : w.Refers store changes := by
  have hreceiver : ∀ a, policy.fee.receiver? = some a → (store.account? a).isSome := by
    intro a ha
    rw [CurrencyPolicyUpdater.check, bind_eq_ok] at hcheck
    obtain ⟨_, -, hcheck⟩ := hcheck
    simp only [ha] at hcheck
    obtain ⟨_, hcheck, -⟩ := bind_eq_ok.1 hcheck
    exact (Context.requireAccount_eq_ok keyed).1 hcheck
  rw [CurrencyPolicyUpdater.effects, bind_eq_ok] at heffects
  obtain ⟨d, hd, h⟩ := heffects
  cases h
  rw [List.mem_singleton.1 hw]
  exact .redesign keyed ref ((Context.design_eq_ok keyed).1 hd) rfl rfl hreceiver

theorem refers_of_mint {items : List Issue}
    (hcheck : Mint.check (store.context height threshold) op items = .ok ())
    (heffects : Mint.effects (store.context height threshold) items = .ok changes)
    {w : Change} (hw : w ∈ changes) : w.Refers store changes := by
  rw [Mint.check, check_bind_eq_ok] at hcheck
  have hitems := Check.forEach_eq_ok_iff.1 hcheck.2
  simp only [Mint.effects, bind_eq_ok, pure_eq_ok] at heffects
  obtain ⟨credits, hcredits, designs, hdesigns, rfl⟩ := heffects
  rcases List.mem_append.1 hw with hw | hw
  · obtain ⟨item, hitem, hok⟩ := exists_left (mapM_eq_ok_iff.1 hcredits) hw
    have hcurrency := hitems item hitem
    simp only [Mint.checkItem, bind_eq_ok] at hcurrency
    obtain ⟨_, -, d, hd, -⟩ := hcurrency
    rw [Mint.creditChange, Context.balance_eq keyed] at hok
    cases hok
    exact .balance (.inl ((Context.design_eq_ok keyed).1 hd ▸ rfl))
  · obtain ⟨s, -, hok⟩ := exists_left (mapM_eq_ok_iff.1 hdesigns) hw
    rw [Mint.designChange, bind_eq_ok] at hok
    obtain ⟨d, hd, h⟩ := hok
    cases h
    exact .issue keyed ref ((Context.design_eq_ok keyed).1 hd) _

/-- What an operation that the rules admit writes refers to what is there or what it makes. -/
theorem refers_of_admits (valid : store.HasValidDesigns)
    (h : (store.context height threshold).Admits op changes) {w : Change} (hw : w ∈ changes) :
    w.Refers store changes := by
  have hfact := (Fact.check_eq_ok.1 h.fact).2
  have hcheck := h.check
  have heffects := h.effects
  rw [Operation.kind, Fact.kind] at hcheck heffects
  unfold Rules.check at hcheck
  unfold Rules.effects at heffects
  cases hintent : op.fact.intent <;> rw [hintent] at hfact hcheck heffects
  case createAccounts => exact refers_of_createAccounts keyed ref valid hcheck heffects hw
  case transfers => exact refers_of_transfers keyed ref valid hfact hcheck heffects hw
  case keyUpdater => exact refers_of_keyUpdater keyed ref valid hfact heffects hw
  case currencyRegister => exact refers_of_currencyRegister keyed hcheck heffects hw
  case currencyPolicyUpdater => exact refers_of_currencyPolicyUpdater keyed ref hcheck heffects hw
  case mint => exact refers_of_mint keyed ref hcheck heffects hw
  case suffrageCandidate =>
    obtain ⟨policy, -, h⟩ := bind_eq_ok.1 heffects
    cases h
    rw [List.mem_singleton.1 hw]
    exact .candidate
  case suffrageJoin =>
    obtain ⟨candidate, -, h⟩ := bind_eq_ok.1 heffects
    cases h
    simp only [List.mem_cons, List.not_mem_nil, or_false] at hw
    rcases hw with rfl | rfl
    · exact .member
    · exact .candidate
  case suffrageDisjoin =>
    obtain ⟨member, -, h⟩ := bind_eq_ok.1 heffects
    cases h
    rw [List.mem_singleton.1 hw]
    exact .member
  case genesisCurrencies =>
    apply refers_of_genesisCurrencies keyed ?_ hcheck heffects hw
    intro d hd
    exact ((Intent.check_genesisCurrencies hfact).2 d hd).2

end refers

namespace Dispatcher

variable {store store' : Store} {config : EngineConfig} {d : Dispatcher} {ops : List Operation}

/-- A batch keeps a referential store, whichever of its operations write over each other. -/
theorem Advances.isReferential (keyed : store.IsKeyed) (valid : store.HasValidDesigns)
    (ref : store.IsReferential) (h : d.Advances config ops store store') :
    store'.IsReferential := by
  obtain ⟨changes, hwrote, hat⟩ := h.at?_cases keyed valid
  have owners := (h.isSound ⟨keyed, valid, ref.hasOwners⟩).owners
  apply ref.written (h.isKeyed keyed valid) hat owners
  intro w hw
  obtain ⟨op, hop⟩ := hwrote w hw
  obtain ⟨own, hown, sub, hadmits⟩ := hop.made
  rw [context_eq h.reads] at hadmits
  exact (refers_of_admits keyed ref valid hadmits hown).mono sub

section receivers

variable (keyed : store.IsKeyed) (ref : store.IsReferential) {op : Operation}
  (owned : op.kind.isNodeLevel = false) (a : Address)
include keyed ref owned

/-- Neither the check of an operation of an account nor the making of its effects rejects it for a
fee receiver that is missing. -/
theorem rules_failsBy {height : Height} {threshold : Threshold} (hfact : op.fact.check = .ok ()) :
    FailsBy (· ≠ .rejected (.feeReceiverNotFound a))
        (Rules.check op.kind (store.context height threshold) op) ∧
      FailsBy (· ≠ .rejected (.feeReceiverNotFound a))
        (Rules.check op.kind (store.context height threshold) op >>= fun _ =>
          Rules.effects op.kind (store.context height threshold) op) := by
  have hintent := (Fact.check_eq_ok.1 hfact).2
  obtain ⟨p, hp⟩ := Intent.exists_payment owned
  have hcheck : FailsBy (· ≠ .rejected (.feeReceiverNotFound a))
      (Rules.check op.kind (store.context height threshold) op) := by
    refine (Rules.check_payment_failsBy keyed hp hintent).mono ?_
    rintro _ founded rfl
    obtain ⟨⟨c, hc⟩, hnone⟩ := founded
    obtain ⟨design, hdesign, hreceiver⟩ := Option.bind_eq_some_iff.1 hc
    have hthere := ref.receiver c design a hdesign hreceiver
    rw [hnone] at hthere
    cases hthere
  refine ⟨hcheck, hcheck.bind fun _ hpassed => ?_⟩
  refine (Rules.effects_failsBy (Context.effectsFailBy_fatal _) hintent hpassed).mono ?_
  rintro _ fatal rfl
  exact fatal

theorem checked_ne_feeReceiverNotFound (reads : d.context.read = store.reader) :
    d.checked op ≠ .ok (.rejected (.feeReceiverNotFound a)) := by
  intro h
  unfold checked at h
  cases hvalid : op.check d.network with
  | error error => simp [validity_of_error hvalid] at h
  | ok passed =>
    have hfact := (Operation.check_eq_ok.1 hvalid).1
    simp only [validity_of_ok hvalid, Processor.preProcess_start hfact] at h
    rw [context_eq reads] at h
    exact (rules_failsBy keyed ref owned a hfact).1.map _ (Outcome.ofResult_eq_rejected.1 h) rfl

theorem settled_ne_feeReceiverNotFound (reads : d.context.read = store.reader) :
    (d.settled op).1 ≠ .ok (.rejected (.feeReceiverNotFound a)) := by
  intro h
  unfold settled at h
  cases hvalid : op.check d.network with
  | error error => simp [validity_of_error hvalid] at h
  | ok passed =>
    have hfact := (Operation.check_eq_ok.1 hvalid).1
    obtain ⟨new, hnew⟩ := Claims.exists_ofIntent d.strict (Fact.check_eq_ok.1 hfact).2
    simp only [validity_of_ok hvalid, hnew, Claims.conflict?_eq,
      Processor.process_start hfact] at h
    cases hfind : new.toList.find? (· ∈ d.claims.held) with
    | some claim =>
      rw [hfind] at h
      cases claim <;> cases h
    | none =>
      rw [hfind, context_eq reads] at h
      exact (rules_failsBy keyed ref owned a hfact).2 _ (Outcome.ofResult_eq_rejected.1 h) rfl

/-- An operation of an account is rejected for no missing fee receiver, in neither phase. -/
theorem ne_feeReceiverNotFound (ready : d.IsReady) (reads : d.context.read = store.reader) :
    (d.preProcess op).1 ≠ .ok (.rejected (.feeReceiverNotFound a)) ∧
      (d.process op).1 ≠ .ok (.rejected (.feeReceiverNotFound a)) := by
  constructor
  · obtain ⟨pool, -, h⟩ := ready.preProcess_eq op
    rw [h]
    exact checked_ne_feeReceiverNotFound keyed ref owned a reads
  · obtain ⟨pool, -, h⟩ := ready.process_eq op
    rw [h]
    exact settled_ne_feeReceiverNotFound keyed ref owned a reads

theorem run_ne_feeReceiverNotFound (ready : d.IsReady) (reads : d.context.read = store.reader) :
    (d.run op).1 ≠ .ok (.rejected (.feeReceiverNotFound a)) := by
  obtain ⟨pool, filed, hpre⟩ := ready.preProcess_eq op
  unfold run
  split
  · next changes d' h =>
    obtain rfl := (Prod.mk.inj (hpre.symm.trans h)).2
    have ready' : IsReady { d with pool := pool } := ⟨ready.registry, filed⟩
    exact (ne_feeReceiverNotFound keyed ref owned a ready' reads).2
  · exact (ne_feeReceiverNotFound keyed ref owned a ready reads).1

end receivers

end Dispatcher

theorem Store.IsReferential.run {store store' : Store} (ref : store.IsReferential)
    (keyed : store.IsKeyed) (valid : store.HasValidDesigns)
    (run : Relation.ReflTransGen Store.Follows store store') : store'.IsReferential := by
  have sound : store.IsSound := ⟨keyed, valid, ref.hasOwners⟩
  induction run with
  | refl => exact ref
  | tail before step ih =>
    obtain ⟨config, d, ops, h⟩ := step
    have sound' := sound.run before
    exact h.isReferential sound'.keyed sound'.designs ih

/-- Referential integrity of runs. Batches that start on the empty store, or on a keyed store with
valid designs that is referential, lead to referential stores only. There no operation of an account
is rejected for a fee receiver that is missing, in neither phase and by no dispatcher. -/
theorem isReferential_of_run {store store' : Store}
    (start : store = .empty ∨ store.IsKeyed ∧ store.HasValidDesigns ∧ store.IsReferential)
    (run : Relation.ReflTransGen Store.Follows store store') :
    store'.IsReferential ∧
    ∀ (config : EngineConfig) (d : Dispatcher), d.Reachable config →
      d.context.read = store'.reader → ∀ op : Operation, op.kind.isNodeLevel = false →
      ∀ a, (d.preProcess op).1 ≠ .ok (.rejected (.feeReceiverNotFound a)) ∧
        (d.process op).1 ≠ .ok (.rejected (.feeReceiverNotFound a)) ∧
        (d.run op).1 ≠ .ok (.rejected (.feeReceiverNotFound a)) := by
  have start' : store.IsKeyed ∧ store.HasValidDesigns ∧ store.IsReferential := by
    rcases start with rfl | start
    · exact ⟨Store.isSound_empty.keyed, Store.isSound_empty.designs, Store.isReferential_empty⟩
    · exact start
  obtain ⟨keyed, valid, ref⟩ := start'
  have ref' := ref.run keyed valid run
  have keyed' := (Store.IsSound.run ⟨keyed, valid, ref.hasOwners⟩ run).keyed
  refine ⟨ref', fun config d reachable reads op owned a => ?_⟩
  obtain ⟨hpre, hprocess⟩ :=
    Dispatcher.ne_feeReceiverNotFound keyed' ref' owned a reachable.isReady reads
  have hrun := Dispatcher.run_ne_feeReceiverNotFound keyed' ref' owned a reachable.isReady reads
  exact ⟨hpre, hprocess, hrun⟩

namespace Sample

/-- The accounts of the currency: its own and those of its design. -/
def parties : Store :=
  ((Store.setAccount .empty (.zero currency)).setAccount ⟨alice, some keys⟩).setAccount
    ⟨bob, some keys⟩

def chartered : Store :=
  (parties.setDesign design).setBalance alice ⟨100, currency⟩

theorem isSound_parties : parties.IsSound :=
  ((Store.isSound_empty.setAccount _).setAccount _).setAccount _

theorem isSound_chartered : chartered.IsSound := by
  have hdesign : (parties.setDesign design).IsSound := isSound_parties.setDesign rfl
  exact hdesign.setBalance _ rfl

theorem isReferential_parties : parties.IsReferential := by
  have keyed : ∀ {a : Address}, a.isZero = false →
      ((⟨a, some keys⟩ : Account).keys = none ↔ a.isZero = true) := by
    intro a ha
    simp [ha]
  have hzero := Store.isReferential_empty.set (w := .account (.zero currency))
    (Change.isFor_account.2 rfl) (Store.isSound_empty.setAccount _)
    (.account (iff_of_true rfl (Address.isZero_zero currency)))
  have halice := hzero.set (w := .account ⟨alice, some keys⟩)
    (Change.isFor_account.2 rfl) ((Store.isSound_empty.setAccount _).setAccount _)
    (.account (keyed rfl))
  exact halice.set (w := .account ⟨bob, some keys⟩)
    (Change.isFor_account.2 rfl) isSound_parties (.account (keyed rfl))

theorem isReferential_chartered : chartered.IsReferential := by
  have hdesign := isReferential_parties.set (w := .design design) (Change.isFor_design.2 rfl)
    (isSound_parties.setDesign rfl) (.design (.inl rfl) (fun a ha => .inl ?_) (.inl rfl))
  · exact hdesign.set (w := .balance alice ⟨100, currency⟩) (Change.isFor_balance.2 rfl)
      isSound_chartered (.balance (.inl rfl))
  · cases ha
    rfl

def teller : Dispatcher :=
  .start .standard (chartered.context .genesis .standard) config.networkBytes 64 false

theorem reachable_teller : teller.Reachable config :=
  .start (show Dispatcher.ofConfig config .genesis chartered.reader = .ok teller from rfl)

def paid : Store :=
  committed chartered (allAccepted teller.context [payment])

theorem follows_paid : chartered.Follows paid :=
  ⟨config, teller, _, advances_single reachable_teller rfl check_payment rfl rfl rfl⟩

end Sample

/-- A payment whose fee goes to the receiver of its currency. -/
theorem isReferential_of_run_payment :
    Sample.chartered.IsReferential ∧ Sample.paid.IsReferential ∧
      Sample.paid.balance Sample.bob Sample.currency = 13 := by
  have start := Sample.isReferential_chartered
  have sound := Sample.isSound_chartered
  obtain ⟨ref, -⟩ := isReferential_of_run (.inr ⟨sound.keyed, sound.designs, start⟩)
    (.single Sample.follows_paid)
  exact ⟨start, ref, rfl⟩

end CurrencyLedger
