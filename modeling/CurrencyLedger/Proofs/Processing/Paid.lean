import CurrencyLedger.Processing.Processor
import CurrencyLedger.Proofs.Processing.Payment

/-!
Operations of accounts that the rules admit. `IsPaid` says what they write: the balances that the
payment is to change, the designs of its fees, and the accounts that it creates or gives new keys.
-/

namespace CurrencyLedger

open Traversal Settlement

/-- The rules admit an operation with its changes. -/
structure Context.Admits (ctx : Context) (op : Operation) (changes : List Change) : Prop where
  fact : op.fact.check = .ok ()
  check : Rules.check op.kind ctx op = .ok ()
  effects : Rules.effects op.kind ctx op = .ok changes

/-- How an operation with an intent is checked, and what is made of it. -/
inductive Context.Does (ctx : Context) (op : Operation) (changes : List Change) : Intent → Prop
  | createAccounts {sender : Address} {items : List NewAccount}
      (check : CreateAccounts.check ctx op sender items = .ok ())
      (effects : CreateAccounts.effects ctx sender items = .ok changes) :
      Does ctx op changes (.createAccounts sender items)
  | transfers {sender : Address} {items : List Transfer}
      (check : Transfers.check ctx op sender items = .ok ())
      (effects : Transfers.effects ctx sender items = .ok changes) :
      Does ctx op changes (.transfers sender items)
  | keyUpdater {target : Address} {keys : KeySet} {currency : CurrencyId}
      (check : KeyUpdater.check ctx op target keys currency = .ok ())
      (effects : KeyUpdater.effects ctx op target keys currency = .ok changes) :
      Does ctx op changes (.keyUpdater target keys currency)
  | currencyRegister {design : CurrencyDesign}
      (check : CurrencyRegister.check ctx op design = .ok ())
      (effects : CurrencyRegister.register ctx design = .ok changes) :
      Does ctx op changes (.currencyRegister design)
  | currencyPolicyUpdater {currency : CurrencyId} {policy : CurrencyPolicy}
      (check : CurrencyPolicyUpdater.check ctx op currency policy = .ok ())
      (effects : CurrencyPolicyUpdater.effects ctx currency policy = .ok changes) :
      Does ctx op changes (.currencyPolicyUpdater currency policy)
  | mint {items : List Issue} (check : Mint.check ctx op items = .ok ())
      (effects : Mint.effects ctx items = .ok changes) : Does ctx op changes (.mint items)
  | suffrageCandidate {address : Address} {key : PublicKey}
      (check : SuffrageCandidate.check ctx op address key = .ok ())
      (effects : SuffrageCandidate.effects ctx address key = .ok changes) :
      Does ctx op changes (.suffrageCandidate address key)
  | suffrageJoin {candidate : Address} {start : Height}
      (check : SuffrageJoin.check ctx op candidate start = .ok ())
      (effects : SuffrageJoin.effects ctx candidate start = .ok changes) :
      Does ctx op changes (.suffrageJoin candidate start)
  | suffrageDisjoin {node : Address} {start : Height}
      (check : SuffrageDisjoin.check ctx op node start = .ok ())
      (effects : SuffrageDisjoin.effects ctx node start = .ok changes) :
      Does ctx op changes (.suffrageDisjoin node start)
  | genesisCurrencies {nodeKey : PublicKey} {keys : KeySet} {designs : List CurrencyDesign}
      (check : GenesisCurrencies.check ctx op nodeKey keys designs = .ok ())
      (effects : GenesisCurrencies.effects ctx keys designs = .ok changes) :
      Does ctx op changes (.genesisCurrencies nodeKey keys designs)

theorem Context.Admits.does {ctx : Context} {op : Operation} {changes : List Change}
    (h : ctx.Admits op changes) : ctx.Does op changes op.fact.intent := by
  have hcheck := h.check
  have heffects := h.effects
  rw [Operation.kind, Fact.kind] at hcheck heffects
  unfold Rules.check at hcheck
  unfold Rules.effects at heffects
  cases hintent : op.fact.intent <;> rw [hintent] at hcheck heffects
  case createAccounts => exact .createAccounts hcheck heffects
  case transfers => exact .transfers hcheck heffects
  case keyUpdater => exact .keyUpdater hcheck heffects
  case currencyRegister => exact .currencyRegister hcheck heffects
  case currencyPolicyUpdater => exact .currencyPolicyUpdater hcheck heffects
  case mint => exact .mint hcheck heffects
  case suffrageCandidate => exact .suffrageCandidate hcheck heffects
  case suffrageJoin => exact .suffrageJoin hcheck heffects
  case suffrageDisjoin => exact .suffrageDisjoin hcheck heffects
  case genesisCurrencies => exact .genesisCurrencies hcheck heffects

theorem Processor.accept_eq_ok {p : Processor} {op : Operation} :
    p.accept op = .ok () ↔ op.kind = p.kind ∧ op.fact.check = .ok () := by
  unfold accept
  split
  · next h => simp [h]
  · next h => simp [not_not.1 h, mapError_eq_ok]

theorem Processor.preProcess_eq_ok {p : Processor} {op : Operation} :
    (p.preProcess op).1 = .ok () ↔ ∃ ctx, p.contextFor .preProcess = .ok ctx ∧ op.kind = p.kind ∧
      op.fact.check = .ok () ∧ Rules.check op.kind ctx op = .ok () := by
  have houtcome : (p.preProcess op).1 = .ok () ↔ ∃ ctx, (do
      let ctx ← p.contextFor .preProcess
      p.accept op
      Rules.check p.kind ctx op
      return ctx : Result Context) = .ok ctx := by
    rw [preProcess]
    split
    · next ctx h => simp only [h, Except.ok.injEq, exists_eq']
    · next halt h => simp only [h, reduceCtorEq, exists_false]
  rw [houtcome]
  simp only [bind_eq_ok, pure_eq_ok]
  constructor
  · rintro ⟨_, ctx, hctx, _, haccept, _, hcheck, rfl⟩
    obtain ⟨hkind, hfact⟩ := accept_eq_ok.1 haccept
    exact ⟨ctx, hctx, hkind, hfact, hkind ▸ hcheck⟩
  · rintro ⟨ctx, hctx, hkind, hfact, hcheck⟩
    exact ⟨ctx, ctx, hctx, _, accept_eq_ok.2 ⟨hkind, hfact⟩, _, hkind ▸ hcheck, rfl⟩

theorem Processor.process_eq_ok {p : Processor} {op : Operation} {changes : List Change} :
    (p.process op).1 = .ok changes ↔
      ∃ ctx, p.contextFor .process = .ok ctx ∧ op.kind = p.kind ∧ ctx.Admits op changes := by
  have houtcome : (p.process op).1 = .ok changes ↔ ∃ ctx, (do
      let ctx ← p.contextFor .process
      p.accept op
      Rules.check p.kind ctx op
      return (ctx, ← Rules.effects p.kind ctx op) : Result (Context × List Change)) =
        .ok (ctx, changes) := by
    rw [process]
    split
    · next ctx cs h => simp only [h, Except.ok.injEq, Prod.mk.injEq, exists_eq_left']
    · next halt h => simp only [h, reduceCtorEq, exists_false]
  rw [houtcome]
  simp only [bind_eq_ok, pure_eq_ok, Prod.mk.injEq]
  constructor
  · rintro ⟨_, ctx, hctx, _, haccept, _, hcheck, _, heffects, rfl, rfl⟩
    obtain ⟨hkind, hfact⟩ := accept_eq_ok.1 haccept
    exact ⟨_, hctx, hkind, hfact, hkind ▸ hcheck, hkind ▸ heffects⟩
  · rintro ⟨ctx, hctx, hkind, hadmits⟩
    exact ⟨ctx, ctx, hctx, _, accept_eq_ok.2 ⟨hkind, hadmits.fact⟩, _, hkind ▸ hadmits.check,
      changes, hkind ▸ hadmits.effects, rfl, rfl⟩

/-- The payer of an operation has an account with keys that signed, and balances that cover what it
pays. -/
structure Payment.IsCharged (p : Payment) (store : Store) (op : Operation) (charges : List Charge) :
    Prop where
  signed : ∃ acc keys, store.account? p.payer = some acc ∧ acc.keys = some keys ∧
    keys.checkSigners op.signers = .ok ()
  bill : IsBill store p.amounts charges
  covered : ∀ charge ∈ charges, charge.required ≤ store.balance p.payer charge.currency

/-- What an operation of an account writes. -/
structure IsPaid (intent : Intent) (p : Payment) (store : Store) (changes : List Change) :
    Prop where
  only : ∀ w ∈ changes,
    (∃ a c, ((store.account? a).isSome ∨ ∃ acc ∈ intent.accounts, acc.address = a) ∧
      w = p.balanceChange store a c) ∨
    (∃ c d, store.design? c = some d ∧ 0 < store.feeOn p.amounts c ∧ w = p.designChange store d) ∨
    ∃ acc ∈ intent.accounts, w = .account acc
  balance : ∀ a c, p.gain store a c ≠ 0 → p.balanceChange store a c ∈ changes
  design : ∀ c d, store.design? c = some d → store.feeOn p.amounts c ≠ 0 →
    p.designChange store d ∈ changes
  account : ∀ acc ∈ intent.accounts, .account acc ∈ changes

theorem Payment.IsCharged.paid {p : Payment} {store : Store} {op : Operation}
    {charges : List Charge} (h : p.IsCharged store op charges) :
    (store.account? p.payer).isSome := by
  obtain ⟨acc, _, hacc, -⟩ := h.signed
  rw [hacc]
  rfl

/-- Changes that settle a payment are all that is written where no account is. -/
theorem Settles.isPaid {intent : Intent} {p : Payment} {store : Store} {changes : List Change}
    (h : Settles p store changes) (hnone : intent.accounts = []) :
    IsPaid intent p store changes := by
  refine ⟨fun w hw => ?_, h.balance, h.design, by simp [hnone]⟩
  rcases h.only w hw with ⟨a, c, ha, -, hw⟩ | hdesign
  · exact .inl ⟨a, c, .inl ha, hw⟩
  · exact .inr (.inl hdesign)

/-- The balance of an account that is not there yet is what it is credited. -/
theorem balanceChange_of_fresh {store : Store} (valid : store.HasValidDesigns)
    (owners : store.HasOwners) {p : Payment} {charges : List Charge}
    (bill : IsBill store p.amounts charges) (distinct : (p.credits.map Credit.place).Nodup)
    (paid : (store.account? p.payer).isSome) {credit : Credit} (hc : credit ∈ p.credits)
    (hfresh : store.account? credit.receiver = none) :
    p.balanceChange store credit.receiver credit.amount.currency =
      .balance credit.receiver credit.amount := by
  have hpayer : credit.receiver ≠ p.payer := by
    rintro he
    rw [← he, hfresh] at paid
    cases paid
  have hfee : (if store.feeReceiver? credit.amount.currency = some credit.receiver then
      store.feeOn p.amounts credit.amount.currency else 0) = 0 := by
    split
    · next hr =>
      by_contra hfee
      obtain ⟨charge, hcharge, hcurrency, -⟩ := bill.exists_due valid hfee
      have hreceiver := bill.receiver_eq hcharge
      rw [hcurrency, hr] at hreceiver
      have hexists := bill.receiver charge hcharge _ hreceiver
      rw [hfresh] at hexists
      cases hexists
    · rfl
  rw [Payment.balanceChange, Payment.gain, creditedTo_eq distinct hc, hfee, if_neg hpayer,
    owners.balance_eq_zero hfresh, Int.add_zero, Int.sub_zero, Int.zero_add]

/-- Where nothing is credited a payment changes what it does without its credits. -/
theorem Payment.gain_of_not_credited {p : Payment} {a : Address} {c : CurrencyId}
    (h : ∀ credit ∈ p.credits, credit.place ≠ (a, c)) (store : Store) :
    p.gain store a c = gain ⟨p.payer, p.amounts, []⟩ store a c := by
  rw [gain, creditedTo_eq_zero h]
  rfl

namespace CreateAccounts

theorem itemChanges_eq_ok {item : NewAccount} {cs : List Change} :
    itemChanges item = .ok cs ↔ ∃ a, item.address = .ok a ∧
      .account ⟨a, some item.keys⟩ :: item.amounts.map (Change.balance a) = cs := by
  simp only [itemChanges, target, bind_eq_ok, mapError_eq_ok, pure_eq_ok]

theorem mem_created {items : List NewAccount} {created : List (List Change)}
    (h : items.mapM itemChanges = .ok created) {w : Change} :
    w ∈ created.flatten ↔
      (∃ item ∈ items, ∃ acc, item.account? = some acc ∧ w = .account acc) ∨
        ∃ credit ∈ items.flatMap NewAccount.credits,
          w = .balance credit.receiver credit.amount := by
  rw [List.mem_flatten]
  constructor
  · rintro ⟨cs, hcs, hw⟩
    obtain ⟨item, hitem, hok⟩ := exists_left (mapM_eq_ok_iff.1 h) hcs
    obtain ⟨a, ha, rfl⟩ := itemChanges_eq_ok.1 hok
    rcases List.mem_cons.1 hw with rfl | hw
    · exact .inl ⟨item, hitem, _, NewAccount.account?_eq_some.2 ⟨ha, rfl⟩, rfl⟩
    · obtain ⟨amount, hamount, rfl⟩ := List.mem_map.1 hw
      exact .inr ⟨⟨a, amount⟩,
        List.mem_flatMap.2 ⟨item, hitem, NewAccount.mem_credits.2 ⟨ha, hamount⟩⟩, rfl⟩
  · rintro (⟨item, hitem, acc, hacc, rfl⟩ | ⟨credit, hc, rfl⟩)
    · obtain ⟨cs, hcs, hok⟩ := exists_right (mapM_eq_ok_iff.1 h) hitem
      obtain ⟨a, ha, rfl⟩ := itemChanges_eq_ok.1 hok
      obtain ⟨ha', hkeys⟩ := NewAccount.account?_eq_some.1 hacc
      obtain rfl : a = acc.address := Except.ok.inj (ha.symm.trans ha')
      refine ⟨_, hcs, ?_⟩
      rw [← hkeys]
      exact List.mem_cons_self
    · obtain ⟨item, hitem, hc⟩ := List.mem_flatMap.1 hc
      obtain ⟨cs, hcs, hok⟩ := exists_right (mapM_eq_ok_iff.1 h) hitem
      obtain ⟨a, ha, rfl⟩ := itemChanges_eq_ok.1 hok
      obtain ⟨ha', hamount⟩ := NewAccount.mem_credits.1 hc
      obtain rfl : a = credit.receiver := Except.ok.inj (ha.symm.trans ha')
      exact ⟨_, hcs, List.mem_cons_of_mem _ (List.mem_map.2 ⟨_, hamount, rfl⟩)⟩

end CreateAccounts

section admitted

variable {store : Store} {height : Height} {threshold : Threshold} {op : Operation}
  {changes : List Change} (keyed : store.IsKeyed)
include keyed

theorem Payment.isCharged {p : Payment} {acc : Account} {charges : List Charge}
    {balances : List (CurrencyId × Int)}
    (hacc : (store.context height threshold).signedAccount p.payer op = .ok acc)
    (hcharges : Charge.ofAmounts (store.context height threshold) p.amounts = .ok charges)
    (hbalances : Charge.coverAll (store.context height threshold) p.payer charges = .ok balances) :
    p.IsCharged store op charges ∧
      balances = charges.filterMap (Charge.covered? store p.payer) := by
  obtain ⟨hfound, keys, hkeys, hsigned⟩ := (Context.signedAccount_eq_ok keyed).1 hacc
  obtain ⟨hcovered, hb⟩ := (Charge.coverAll_eq_ok keyed).1 hbalances
  exact ⟨⟨⟨acc, keys, hfound, hkeys, hsigned⟩, isBill_of_ofAmounts keyed hcharges, hcovered⟩, hb⟩

variable (valid : store.HasValidDesigns)
include valid

theorem Transfers.settles {sender : Address} {items : List Transfer} {p : Payment}
    (hp : (Intent.transfers sender items).payment? = some p)
    (hfact : (Intent.transfers sender items).check = .ok ())
    (hcheck : Transfers.check (store.context height threshold) op sender items = .ok ())
    (heffects : Transfers.effects (store.context height threshold) sender items = .ok changes) :
    (∃ charges, p.IsCharged store op charges) ∧ Settles p store changes := by
  have orderly := Payment.isOrderly hp hfact
  simp only [Transfers.check, bind_eq_ok] at hcheck
  simp only [Transfers.effects, bind_eq_ok] at heffects
  obtain ⟨acc, hacc, _, hreceivers, -⟩ := hcheck
  obtain ⟨charges, hcharges, balances, hbalances, hsettled⟩ := heffects
  cases hp
  obtain ⟨hcharged, rfl⟩ := @Payment.isCharged _ _ _ _ keyed ⟨sender, amounts items, credits items⟩
    _ _ _ hacc hcharges hbalances
  refine ⟨⟨charges, hcharged⟩, settles_of_changes hcharged.bill ?_ valid keyed hsettled⟩
  refine ⟨fun credit hc => ?_, orderly.distinct, orderly.foreign, fun credit hc => ?_,
    hcharged.paid⟩
  · obtain ⟨item, hitem, hc⟩ := List.mem_flatMap.1 hc
    obtain ⟨amount, hamount, rfl⟩ := List.mem_map.1 hc
    exact ⟨amount, List.mem_flatMap.2 ⟨item, hitem, hamount⟩, rfl⟩
  · obtain ⟨item, hitem, hc⟩ := List.mem_flatMap.1 hc
    obtain ⟨amount, -, rfl⟩ := List.mem_map.1 hc
    exact (Context.requireAccount_eq_ok keyed).1 (Check.forEach_eq_ok_iff.1 hreceivers item hitem)

theorem KeyUpdater.settles {target : Address} {keys : KeySet} {currency : CurrencyId}
    (h : KeyUpdater.effects (store.context height threshold) op target keys currency =
      .ok changes) :
    ∃ charges settled, Payment.IsCharged ⟨target, [⟨0, currency⟩], []⟩ store op charges ∧
      Settles ⟨target, [⟨0, currency⟩], []⟩ store settled ∧
      changes = .account ⟨target, some keys⟩ :: settled := by
  simp only [KeyUpdater.effects, KeyUpdater.checked, bind_eq_ok] at h
  obtain ⟨c, ⟨acc, hacc, hchecked⟩, settled, hsettled, h⟩ := h
  cases h
  split at hchecked
  · cases hchecked
  · simp only [bind_eq_ok, pure_eq_ok] at hchecked
    obtain ⟨charges, hcharges, balances, hbalances, rfl⟩ := hchecked
    obtain ⟨hcharged, rfl⟩ := @Payment.isCharged _ _ _ _ keyed ⟨target, [⟨0, currency⟩], []⟩
      _ _ _ hacc hcharges hbalances
    refine ⟨charges, settled, hcharged, settles_of_changes hcharged.bill
      ⟨by simp, List.nodup_nil, by simp, by simp, hcharged.paid⟩ valid keyed hsettled, ?_⟩
    rw [Account.withKeys, keyed.address_eq ((Context.signedAccount_eq_ok keyed).1 hacc).1]

/-- The accounts are made with what they start with; the settlement only debits the sender. -/
theorem CreateAccounts.settles {sender : Address} {items : List NewAccount}
    (hcheck : CreateAccounts.check (store.context height threshold) op sender items = .ok ())
    (heffects : CreateAccounts.effects (store.context height threshold) sender items =
      .ok changes) :
    (∀ item ∈ items, ∀ acc, item.account? = some acc → store.account? acc.address = none) ∧
      ∃ charges created settled,
        Payment.IsCharged ⟨sender, amounts items, []⟩ store op charges ∧
        items.mapM itemChanges = .ok created ∧
        Settles ⟨sender, amounts items, []⟩ store settled ∧
        changes = created.flatten ++ settled := by
  simp only [CreateAccounts.check, bind_eq_ok] at hcheck
  simp only [CreateAccounts.effects, bind_eq_ok, pure_eq_ok] at heffects
  obtain ⟨acc, hacc, _, hitems, -⟩ := hcheck
  obtain ⟨charges, hcharges, balances, hbalances, created, hcreated, settled, hsettled, rfl⟩ :=
    heffects
  obtain ⟨hcharged, rfl⟩ := @Payment.isCharged _ _ _ _ keyed ⟨sender, amounts items, []⟩
    _ _ _ hacc hcharges hbalances
  have settles : Settles ⟨sender, amounts items, []⟩ store settled :=
    settles_of_changes hcharged.bill ⟨by simp, List.nodup_nil, by simp, by simp, hcharged.paid⟩
      valid keyed hsettled
  refine ⟨fun item hitem acc hacc => ?_, charges, created, settled, hcharged, hcreated, settles,
    rfl⟩
  have hitem := Check.forEach_eq_ok_iff.1 hitems item hitem
  simp only [checkItem, target, bind_eq_ok, mapError_eq_ok] at hitem
  obtain ⟨a, ha, _, hnone, -⟩ := hitem
  obtain rfl : a = acc.address :=
    Except.ok.inj (ha.symm.trans (NewAccount.account?_eq_some.1 hacc).1)
  exact (Context.requireNoAccount_eq_ok keyed).1 hnone

theorem isPaid_keyUpdater {target : Address} {keys : KeySet} {currency : CurrencyId} {p : Payment}
    (hp : (Intent.keyUpdater target keys currency).payment? = some p)
    (heffects : KeyUpdater.effects (store.context height threshold) op target keys currency =
      .ok changes) :
    (∃ charges, p.IsCharged store op charges) ∧
      IsPaid (.keyUpdater target keys currency) p store changes := by
  obtain ⟨charges, settled, hcharged, settles, rfl⟩ := KeyUpdater.settles keyed valid heffects
  cases hp
  refine ⟨⟨charges, hcharged⟩, ?_⟩
  constructor
  case only =>
    intro w hw
    rcases List.mem_cons.1 hw with rfl | hw
    · exact .inr (.inr ⟨_, List.mem_cons_self, rfl⟩)
    · rcases settles.only w hw with ⟨a, c, ha, -, hw⟩ | hdesign
      · exact .inl ⟨a, c, .inl ha, hw⟩
      · exact .inr (.inl hdesign)
  case balance =>
    intro a c hg
    exact List.mem_cons_of_mem _ (settles.balance a c hg)
  case design =>
    intro c d hd hfee
    exact List.mem_cons_of_mem _ (settles.design c d hd hfee)
  case account =>
    intro acc hacc
    rw [List.mem_singleton.1 hacc]
    exact List.mem_cons_self

theorem isPaid_createAccounts (owners : store.HasOwners) {sender : Address}
    {items : List NewAccount} {p : Payment}
    (hp : (Intent.createAccounts sender items).payment? = some p)
    (hfact : (Intent.createAccounts sender items).check = .ok ())
    (hcheck : CreateAccounts.check (store.context height threshold) op sender items = .ok ())
    (heffects : CreateAccounts.effects (store.context height threshold) sender items =
      .ok changes) :
    (∃ charges, p.IsCharged store op charges) ∧
      IsPaid (.createAccounts sender items) p store changes := by
  have orderly := Payment.isOrderly hp hfact
  obtain ⟨hitems, charges, created, settled, hcharged, hcreated, settles, rfl⟩ :=
    CreateAccounts.settles keyed valid hcheck heffects
  have hcredits : p.credits = items.flatMap NewAccount.credits := by cases hp; rfl
  have hamounts : p.amounts = CreateAccounts.amounts items := by cases hp; rfl
  obtain rfl : p.payer = sender := by cases hp; rfl
  rw [← hamounts] at hcharged settles
  have hfresh : ∀ credit ∈ p.credits, store.account? credit.receiver = none := by
    intro credit hc
    obtain ⟨item, hitem, hc⟩ := List.mem_flatMap.1 (hcredits ▸ hc)
    have hnone := hitems item hitem _ (NewAccount.account?_of_mem_credits hc)
    exact hnone
  have hcreate : ∀ credit ∈ p.credits,
      p.balanceChange store credit.receiver credit.amount.currency =
        .balance credit.receiver credit.amount := fun credit hc =>
    balanceChange_of_fresh (p := p) valid owners hcharged.bill orderly.distinct hcharged.paid hc
      (hfresh credit hc)
  refine ⟨⟨charges, hcharged.signed, hcharged.bill, hcharged.covered⟩, ?_⟩
  constructor
  case only =>
    intro w hw
    rcases List.mem_append.1 hw with hw | hw
    · rcases (CreateAccounts.mem_created hcreated).1 hw with
        ⟨item, hitem, acc, hacc, rfl⟩ | ⟨credit, hc, rfl⟩
      · exact .inr (.inr ⟨acc, List.mem_filterMap.2 ⟨item, hitem, hacc⟩, rfl⟩)
      · obtain ⟨item, hitem, hc'⟩ := List.mem_flatMap.1 hc
        have hacc := NewAccount.account?_of_mem_credits hc'
        exact .inl ⟨_, _, .inr ⟨_, List.mem_filterMap.2 ⟨item, hitem, hacc⟩, rfl⟩,
          (hcreate credit (hcredits ▸ hc)).symm⟩
    · rcases settles.only w hw with ⟨a, c, ha, -, rfl⟩ | hdesign
      · have hne : ∀ credit ∈ p.credits, credit.place ≠ (a, c) := by
          intro credit hc he
          rw [← (Prod.mk.inj he).1, hfresh credit hc] at ha
          cases ha
        refine .inl ⟨a, c, .inl ha, ?_⟩
        rw [Payment.balanceChange, Payment.balanceChange, Payment.gain_of_not_credited hne]
      · exact .inr (.inl hdesign)
  case balance =>
    intro a c hg
    by_cases hcredit : ∃ credit ∈ p.credits, credit.place = (a, c)
    · obtain ⟨credit, hc, he⟩ := hcredit
      cases he
      rw [hcreate credit hc]
      apply List.mem_append_left
      exact (CreateAccounts.mem_created hcreated).2 (.inr ⟨credit, hcredits ▸ hc, rfl⟩)
    · have hsettle := Payment.gain_of_not_credited
        (fun credit hc he => hcredit ⟨credit, hc, he⟩) store
      rw [Payment.balanceChange, hsettle]
      apply List.mem_append_right
      exact settles.balance a c (hsettle ▸ hg)
  case design =>
    intro c d hd hfee
    exact List.mem_append_right _ (settles.design c d hd hfee)
  case account =>
    intro acc hacc
    obtain ⟨item, hitem, hacc⟩ := List.mem_filterMap.1 hacc
    apply List.mem_append_left
    exact (CreateAccounts.mem_created hcreated).2 (.inl ⟨item, hitem, acc, hacc, rfl⟩)

/-- What an operation of an account writes, whichever of the three kinds it is. -/
theorem isPaid_of_admits (owners : store.HasOwners) {p : Payment}
    (hp : op.fact.intent.payment? = some p)
    (h : (store.context height threshold).Admits op changes) :
    (∃ charges, p.IsCharged store op charges) ∧ IsPaid op.fact.intent p store changes := by
  have hfact := (Fact.check_eq_ok.1 h.fact).2
  have hcheck := h.check
  have heffects := h.effects
  rw [Operation.kind, Fact.kind] at hcheck heffects
  unfold Rules.check at hcheck
  unfold Rules.effects at heffects
  generalize op.fact.intent = intent at *
  cases intent
  case createAccounts => exact isPaid_createAccounts keyed valid owners hp hfact hcheck heffects
  case transfers =>
    obtain ⟨hcharged, settles⟩ := Transfers.settles keyed valid hp hfact hcheck heffects
    exact ⟨hcharged, settles.isPaid rfl⟩
  case keyUpdater => exact isPaid_keyUpdater keyed valid hp heffects
  all_goals cases hp

end admitted

end CurrencyLedger
