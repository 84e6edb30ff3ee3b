import CurrencyLedger.Proofs.Processing.Sequence

/-!
When the first phase lets an operation of an account through. `Operation.IsPrepared` is everything
that is asked of it but money, `Payment.cost` what it takes of a currency; `preProcess_of_payment`
says that nothing else is looked at, and which currency is named where there is too little.
-/

namespace CurrencyLedger

open Traversal

namespace Charge

variable {store : Store} {height : Height} {threshold : Threshold}

/-- A sum is charged if there is its currency, and an account of who collects its fees. -/
theorem exists_ofSum_iff (keyed : store.IsKeyed) {sum : Amount} (nonneg : 0 ≤ sum.magnitude) :
    (∃ charge, ofSum (store.context height threshold) sum = .ok charge) ↔
      (store.design? sum.currency).isSome ∧
        ∀ a, store.feeReceiver? sum.currency = some a → (store.account? a).isSome := by
  constructor
  · rintro ⟨charge, h⟩
    obtain ⟨d, hd, -, -, -, hreceiver, hcollects⟩ := ofSum_eq_ok keyed h
    have hfee : store.feeReceiver? sum.currency = charge.receiver := by
      rw [Store.feeReceiver?, hd, hreceiver, Option.bind_some]
    rw [hd, hfee]
    exact ⟨rfl, hcollects⟩
  · rintro ⟨hdesign, hcollects⟩
    obtain ⟨d, hd⟩ := Option.isSome_iff_exists.1 hdesign
    obtain ⟨fee, hfee⟩ := d.policy.fee.exists_fee nonneg
    rw [Store.feeReceiver?, hd, Option.bind_some] at hcollects
    refine ⟨⟨sum.currency, sum.magnitude, fee, d.policy.fee.receiver?⟩, ?_⟩
    simp only [ofSum, bind_eq_ok, mapError_eq_ok, Context.design_eq_ok keyed]
    refine ⟨d, hd, fee, hfee, ?_⟩
    cases hreceiver : d.policy.fee.receiver? with
    | none => rfl
    | some receiver =>
      apply bind_eq_ok.2
      exact ⟨(), (Context.requireAccount_eq_ok keyed).2 (hcollects receiver hreceiver), rfl⟩

theorem exists_ofAmounts_iff (keyed : store.IsKeyed) {amounts : List Amount}
    (nonneg : ∀ a ∈ amounts, 0 ≤ a.magnitude) :
    (∃ charges, ofAmounts (store.context height threshold) amounts = .ok charges) ↔
      ∀ c, Amount.Names amounts c → (store.design? c).isSome ∧
        ∀ a, store.feeReceiver? c = some a → (store.account? a).isSome := by
  have hsum : ∀ s ∈ (sums amounts).toList, 0 ≤ s.magnitude := by
    intro s hs
    rw [(mem_sums.1 hs).2]
    exact Amount.sumIn_nonneg nonneg _
  rw [ofAmounts, exists_mapM_iff]
  constructor
  · intro h c named
    have hc : (⟨Amount.sumIn amounts c, c⟩ : Amount) ∈ (sums amounts).toList :=
      mem_sums.2 ⟨named, rfl⟩
    exact (exists_ofSum_iff keyed (hsum _ hc)).1 (h _ hc)
  · intro h s hs
    exact (exists_ofSum_iff keyed (hsum s hs)).2 (h _ (mem_sums.1 hs).1)

/-- Charges come in the order of their currencies. -/
theorem sorted_ofAmounts (keyed : store.IsKeyed) {amounts : List Amount} {charges : List Charge}
    (h : ofAmounts (store.context height threshold) amounts = .ok charges) :
    charges.Pairwise fun a b => a.currency.text < b.currency.text := by
  apply pairwise_of_mapM h (sums amounts).sorted
  intro s charge hcharge s' charge' hcharge' hlt
  obtain ⟨_, -, -, hcurrency, -⟩ := ofSum_eq_ok keyed hcharge
  obtain ⟨_, -, -, hcurrency', -⟩ := ofSum_eq_ok keyed hcharge'
  rwa [hcurrency, hcurrency']

theorem cover_eq_error (keyed : store.IsKeyed) {sender : Address} {c : Charge} {halt : Halt} :
    cover (store.context height threshold) sender c = .error halt ↔
      store.balance sender c.currency < c.required ∧
        halt = .rejected (.insufficientBalance sender c.currency c.required
          (store.balance sender c.currency)
          (c.required - store.balance sender c.currency)) := by
  rw [cover, Context.balance?_eq keyed]
  show (if _ then _ else _) = _ ↔ _
  by_cases hnone : (store.balance? sender c.currency).isNone ∧ c.required = 0
  · have hbalance : store.balance sender c.currency = 0 := by
      rw [Store.balance, Option.isNone_iff_eq_none.1 hnone.1, Option.getD_none]
    rw [if_pos hnone, hbalance, hnone.2]
    simp [pure, Except.pure]
  · rw [if_neg hnone]
    show (if store.balance sender c.currency < c.required then _ else _) = _ ↔ _
    split
    · next hlt =>
      rw [and_iff_right hlt]
      simp [reject, eq_comm, Store.balance]
    · next hle => simp [hle, pure, Except.pure]

/-- Where money is missing, it is for the first of the charges that is not covered. -/
theorem coverAll_eq_error (keyed : store.IsKeyed) {sender : Address} {charges : List Charge}
    {halt : Halt} :
    coverAll (store.context height threshold) sender charges = .error halt ↔
      ∃ before charge after, charges = before ++ charge :: after ∧
        (∀ c ∈ before, c.required ≤ store.balance sender c.currency) ∧
        store.balance sender charge.currency < charge.required ∧
        halt = .rejected (.insufficientBalance sender charge.currency charge.required
          (store.balance sender charge.currency)
          (charge.required - store.balance sender charge.currency)) := by
  rw [coverAll, bind_pure_eq_error, mapM_eq_error_iff]
  simp only [cover_eq_ok keyed, cover_eq_error keyed, exists_and_left, exists_eq, and_true]

/-- The amounts are charged, and the sender has what that takes. -/
def covering (ctx : Context) (sender : Address) (amounts : List Amount) : Result Unit := do
  let charges ← ofAmounts ctx amounts
  let _ ← coverAll ctx sender charges

end Charge

namespace Payment

/-- What a payment takes of a currency from its payer: the sum of its amounts in it, and the fee on
that sum. -/
def cost (p : Payment) (store : Store) (c : CurrencyId) : Int :=
  Amount.sumIn p.amounts c + store.feeOn p.amounts c

/-- The first of the currencies in which the payer has too little. -/
structure IsShort (p : Payment) (store : Store) (c : CurrencyId) : Prop where
  named : Amount.Names p.amounts c
  short : store.balance p.payer c < p.cost store c
  least : ∀ c', Amount.Names p.amounts c' → store.balance p.payer c' < p.cost store c' →
    c.text ≤ c'.text

variable {p : Payment} {store : Store} {height : Height} {threshold : Threshold}

theorem required_eq {charges : List Charge} (bill : IsBill store p.amounts charges)
    {charge : Charge} (h : charge ∈ charges) : charge.required = p.cost store charge.currency := by
  rw [Charge.required, bill.amount charge h, bill.fee_eq h, cost]

/-- Money covers a payment that can be charged if it does in each currency. -/
theorem covering_eq_ok (keyed : store.IsKeyed) :
    Charge.covering (store.context height threshold) p.payer p.amounts = .ok () ↔
      (∃ charges, Charge.ofAmounts (store.context height threshold) p.amounts = .ok charges) ∧
        ∀ c, Amount.Names p.amounts c → p.cost store c ≤ store.balance p.payer c := by
  simp only [Charge.covering, bind_eq_ok, pure_eq_ok, Charge.coverAll_eq_ok keyed]
  constructor
  · rintro ⟨charges, hcharges, _, ⟨hcovered, -⟩, -⟩
    have bill := isBill_of_ofAmounts keyed hcharges
    refine ⟨⟨charges, hcharges⟩, fun c named => ?_⟩
    obtain ⟨charge, hcharge, rfl⟩ := (bill.named c).2 named
    exact required_eq bill hcharge ▸ hcovered charge hcharge
  · rintro ⟨⟨charges, hcharges⟩, hcovered⟩
    have bill := isBill_of_ofAmounts keyed hcharges
    refine ⟨charges, hcharges, _, ⟨fun charge hcharge => ?_, rfl⟩, trivial⟩
    rw [required_eq bill hcharge]
    exact hcovered _ ((bill.named _).1 ⟨charge, hcharge, rfl⟩)

/-- Where there is too little, the first currency is named with its cost, the balance in it and what
is missing. -/
theorem covering_eq_reject (keyed : store.IsKeyed) {charges : List Charge}
    (hcharges : Charge.ofAmounts (store.context height threshold) p.amounts = .ok charges)
    (short : ∃ c, Amount.Names p.amounts c ∧ store.balance p.payer c < p.cost store c) :
    ∃ c, p.IsShort store c ∧
      Charge.covering (store.context height threshold) p.payer p.amounts =
        reject (.insufficientBalance p.payer c (p.cost store c) (store.balance p.payer c)
          (p.cost store c - store.balance p.payer c)) := by
  have bill := isBill_of_ofAmounts keyed hcharges
  have sorted := Charge.sorted_ofAmounts keyed hcharges
  cases hcover : Charge.coverAll (store.context height threshold) p.payer charges with
  | ok balances =>
    obtain ⟨c, named, hshort⟩ := short
    obtain ⟨charge, hcharge, rfl⟩ := (bill.named c).2 named
    have hcovered := ((Charge.coverAll_eq_ok keyed).1 hcover).1 charge hcharge
    rw [required_eq bill hcharge] at hcovered
    exact absurd hshort (Int.not_lt.2 hcovered)
  | error halt =>
    obtain ⟨before, charge, after, hsplit, hcovered, hshort, rfl⟩ :=
      (Charge.coverAll_eq_error keyed).1 hcover
    have hmem : charge ∈ charges := by
      rw [hsplit]
      exact List.mem_append_right _ List.mem_cons_self
    rw [required_eq bill hmem] at hshort hcover
    refine ⟨charge.currency, ⟨(bill.named _).1 ⟨charge, hmem, rfl⟩, hshort, ?_⟩, ?_⟩
    · intro c named hother
      obtain ⟨other, hmem', rfl⟩ := (bill.named c).2 named
      rw [← required_eq bill hmem'] at hother
      rw [hsplit] at hmem' sorted
      -- it is not one of the charges before, and those after it are of later currencies
      rcases List.mem_append.1 hmem' with hin | hin
      · exact absurd hother (Int.not_lt.2 (hcovered other hin))
      · rcases List.mem_cons.1 hin with rfl | hin
        · exact String.le_refl _
        · have hlater := (List.pairwise_cons.1 (List.pairwise_append.1 sorted).2.1).1 other hin
          exact String.lt_asymm hlater
    · rw [Charge.covering, hcharges]
      show (Charge.coverAll _ _ charges >>= fun _ => pure ()) = _
      rw [hcover]
      rfl

end Payment

namespace Intent

/-- What the rules of a kind ask besides signs and money, of the payer's account and of those who
are paid. -/
def checkParties (ctx : Context) (acc : Account) : Intent → Result Unit
  | createAccounts _ items => Check.forEach (CreateAccounts.checkItem ctx) items
  | transfers _ items => Check.forEach
      (fun item : Transfer => ctx.requireAccount item.receiver .receiverNotFound) items
  | keyUpdater target keys _ =>
    if acc.keys.any fun old => old.same keys then reject (.sameKeys target) else .ok ()
  | _ => .ok ()

/-- What the records have to say of the parties. Receivers of transfers have accounts; new accounts
are none yet, and each of their amounts is what its currency asks of one; new keys are not those
that the account has. -/
def Suits (store : Store) : Intent → Prop
  | createAccounts _ items => ∀ item ∈ items,
      (∃ a, item.address = .ok a ∧ store.account? a = none) ∧
      ∀ amount ∈ item.amounts, ∃ d, store.design? amount.currency = some d ∧
        d.policy.newAccountMinimum ≤ amount.magnitude
  | transfers _ items => ∀ item ∈ items, (store.account? item.receiver).isSome
  | keyUpdater target keys _ => ∀ acc old, store.account? target = some acc →
      acc.keys = some old → old.same keys = false
  | _ => True

variable {store : Store} {height : Height} {threshold : Threshold}

theorem checkAmount_eq_ok (keyed : store.IsKeyed) {amount : Amount} :
    CreateAccounts.checkAmount (store.context height threshold) amount = .ok () ↔
      ∃ d, store.design? amount.currency = some d ∧
        d.policy.newAccountMinimum ≤ amount.magnitude := by
  simp only [CreateAccounts.checkAmount, bind_eq_ok, Context.design_eq_ok keyed]
  constructor
  · rintro ⟨d, hd, h⟩
    split at h
    · cases h
    · next hle => exact ⟨d, hd, Int.not_lt.1 hle⟩
  · rintro ⟨d, hd, hle⟩
    exact ⟨d, hd, if_neg (Int.not_lt.2 hle)⟩

theorem checkItem_eq_ok (keyed : store.IsKeyed) {item : NewAccount} :
    CreateAccounts.checkItem (store.context height threshold) item = .ok () ↔
      (∃ a, item.address = .ok a ∧ store.account? a = none) ∧
      ∀ amount ∈ item.amounts, ∃ d, store.design? amount.currency = some d ∧
        d.policy.newAccountMinimum ≤ amount.magnitude := by
  simp only [CreateAccounts.checkItem, CreateAccounts.target, bind_eq_ok, mapError_eq_ok,
    Context.requireNoAccount_eq_ok keyed, Check.forEach_eq_ok_iff, checkAmount_eq_ok keyed]
  constructor
  · rintro ⟨a, ha, _, hnone, hamounts⟩
    exact ⟨⟨a, ha, hnone⟩, hamounts⟩
  · rintro ⟨⟨a, ha, hnone⟩, hamounts⟩
    exact ⟨a, ha, (), hnone, hamounts⟩

theorem checkParties_eq_ok (keyed : store.IsKeyed) {intent : Intent} {p : Payment}
    (hp : intent.payment? = some p) {acc : Account} (hacc : store.account? p.payer = some acc) :
    intent.checkParties (store.context height threshold) acc = .ok () ↔ intent.Suits store := by
  cases intent <;> cases hp
  case createAccounts =>
    rw [checkParties, Check.forEach_eq_ok_iff]
    simp only [checkItem_eq_ok keyed, Suits]
  case transfers =>
    rw [checkParties, Check.forEach_eq_ok_iff]
    simp only [Context.requireAccount_eq_ok keyed, Suits]
  case keyUpdater target new currency =>
    obtain ⟨a, keys⟩ := acc
    simp only [checkParties, Suits]
    constructor
    · intro h acc old hother hold
      obtain rfl := Option.some.inj (hacc.symm.trans hother)
      obtain rfl : keys = some old := hold
      cases hsame : old.same new with
      | false => rfl
      | true =>
        rw [if_pos (by exact hsame)] at h
        cases h
    · intro h
      refine if_neg fun hsame => ?_
      obtain ⟨old, rfl, hold⟩ := (Option.any_eq_true _ _).1 hsame
      rw [h _ old hacc rfl] at hold
      cases hold

end Intent

/-- The check of new keys, put together from its parts. -/
theorem KeyUpdater.check_eq (ctx : Context) (op : Operation) (target : Address) (keys : KeySet)
    (currency : CurrencyId) :
    check ctx op target keys currency = (do
      let acc ← ctx.signedAccount target op
      (Intent.keyUpdater target keys currency).checkParties ctx acc
      Charge.covering ctx target [⟨0, currency⟩]) := by
  unfold check checked Intent.checkParties Charge.covering
  cases ctx.signedAccount target op with
  | error halt => rfl
  | ok acc =>
    simp only [bind, Except.bind]
    cases acc.keys.any fun old => old.same keys with
    | true => rfl
    | false =>
      cases Charge.ofAmounts ctx [⟨0, currency⟩] with
      | error halt => rfl
      | ok charges =>
        dsimp only
        cases Charge.coverAll ctx target charges <;> rfl

/-- The rules of operations of accounts look at signs, parties and money, in this order. -/
theorem Rules.check_of_payment {ctx : Context} {op : Operation} {p : Payment}
    (hp : op.fact.intent.payment? = some p) :
    check op.kind ctx op = (do
      let acc ← ctx.signedAccount p.payer op
      op.fact.intent.checkParties ctx acc
      Charge.covering ctx p.payer p.amounts) := by
  rw [Operation.kind, Fact.kind]
  unfold check
  cases hintent : op.fact.intent <;> rw [hintent] at hp <;> cases hp
  case createAccounts => rfl
  case transfers => rfl
  case keyUpdater => exact KeyUpdater.check_eq ..

/-- Everything that is asked of an operation but money: an account that pays, whose keys among the
signers reach its threshold, parties that suit, and currencies that are registered and whose fees
somebody collects. -/
structure Operation.IsPrepared (op : Operation) (store : Store) (p : Payment) : Prop where
  signed : ∃ acc keys, store.account? p.payer = some acc ∧ acc.keys = some keys ∧
    keys.threshold.toNat ≤ keys.weightAmong op.signers
  parties : op.fact.intent.Suits store
  registered : ∀ c, Amount.Names p.amounts c → (store.design? c).isSome
  collected : ∀ c, Amount.Names p.amounts c →
    ∀ a, store.feeReceiver? c = some a → (store.account? a).isSome

section check

variable {store : Store} {height : Height} {threshold : Threshold} {op : Operation} {p : Payment}

theorem Context.signedAccount_eq_ok_iff (keyed : store.IsKeyed) (distinct : op.signers.Nodup)
    {a : Address} {acc : Account} :
    (store.context height threshold).signedAccount a op = .ok acc ↔
      store.account? a = some acc ∧
        ∃ keys, acc.keys = some keys ∧ keys.threshold.toNat ≤ keys.weightAmong op.signers := by
  rw [signedAccount_eq_ok keyed]
  simp only [KeySet.checkSigners_eq_ok, KeySet.weightOfAll_eq distinct, distinct, true_and]

variable (keyed : store.IsKeyed) (hp : op.fact.intent.payment? = some p)
include keyed hp

theorem Operation.IsPrepared.exists_charges (prepared : op.IsPrepared store p)
    (hfact : op.fact.intent.check = .ok ()) :
    ∃ charges, Charge.ofAmounts (store.context height threshold) p.amounts = .ok charges := by
  apply (Charge.exists_ofAmounts_iff keyed (Payment.amounts_nonneg hp hfact)).2
  exact fun c named => ⟨prepared.registered c named, prepared.collected c named⟩

variable (distinct : op.signers.Nodup)
include distinct

/-- Of an operation that is prepared only the money is left to look at. -/
theorem Operation.IsPrepared.check_eq (prepared : op.IsPrepared store p) :
    Rules.check op.kind (store.context height threshold) op =
      Charge.covering (store.context height threshold) p.payer p.amounts := by
  obtain ⟨acc, keys, hacc, hkeys, hweight⟩ := prepared.signed
  have hparties : op.fact.intent.checkParties (store.context height threshold) acc = .ok () :=
    (Intent.checkParties_eq_ok keyed hp hacc).2 prepared.parties
  rw [Rules.check_of_payment hp,
    (Context.signedAccount_eq_ok_iff keyed distinct).2 ⟨hacc, keys, hkeys, hweight⟩]
  show (op.fact.intent.checkParties _ acc >>= fun _ => _) = _
  rw [hparties]
  rfl

variable (hfact : op.fact.intent.check = .ok ())
include hfact

/-- An operation that passes is prepared. -/
theorem Operation.isPrepared_of_check
    (h : Rules.check op.kind (store.context height threshold) op = .ok ()) :
    op.IsPrepared store p := by
  rw [Rules.check_of_payment hp] at h
  obtain ⟨acc, hsigned, h⟩ := bind_eq_ok.1 h
  obtain ⟨hparties, hcovering⟩ := check_bind_eq_ok.1 h
  obtain ⟨hacc, keys, hkeys, hweight⟩ :=
    (Context.signedAccount_eq_ok_iff keyed distinct).1 hsigned
  have hcharges := (Charge.exists_ofAmounts_iff keyed (Payment.amounts_nonneg hp hfact)).1
    ((Payment.covering_eq_ok keyed).1 hcovering).1
  constructor
  case signed => exact ⟨acc, keys, hacc, hkeys, hweight⟩
  case parties => exact (Intent.checkParties_eq_ok keyed hp hacc).1 hparties
  case registered => exact fun c named => (hcharges c named).1
  case collected => exact fun c named => (hcharges c named).2

theorem Rules.check_eq_ok_iff :
    check op.kind (store.context height threshold) op = .ok () ↔ op.IsPrepared store p ∧
      ∀ c, Amount.Names p.amounts c → p.cost store c ≤ store.balance p.payer c := by
  constructor
  · intro h
    have prepared := Operation.isPrepared_of_check keyed hp distinct hfact h
    rw [prepared.check_eq keyed hp distinct] at h
    exact ⟨prepared, ((Payment.covering_eq_ok keyed).1 h).2⟩
  · rintro ⟨prepared, hcovered⟩
    rw [prepared.check_eq keyed hp distinct]
    exact (Payment.covering_eq_ok keyed).2
      ⟨prepared.exists_charges keyed hp hfact, hcovered⟩

end check

namespace Dispatcher

/-- The first phase accepts what is valid and passes the rules of its kind. -/
theorem checked_eq_accepted {d : Dispatcher} {op : Operation} :
    d.checked op = .ok (.accepted []) ↔
      op.check d.network = .ok () ∧ Rules.check op.kind d.context op = .ok () := by
  cases hvalid : op.check d.network with
  | error error => simp [checked, validity_of_error hvalid]
  | ok passed =>
    rw [checked_eq hvalid]
    cases hcheck : Rules.check op.kind d.context op with
    | ok passed => simp [Except.map, Outcome.ofResult]
    | error halt => cases halt <;> simp [Except.map, Outcome.ofResult]

/-- A dispatcher's first phase, on an operation of an account and the records of a store. It is
accepted if and only if it is valid on the network, prepared, and its payer has in every currency
that is named the sum of the amounts in it and the fee on that sum. If nothing but money is missing,
the reason names the first currency in which there is too little, and by how much. -/
theorem preProcess_of_payment {d : Dispatcher} (ready : d.IsReady) {store : Store}
    (reads : d.context.read = store.reader) (keyed : store.IsKeyed) {op : Operation} {p : Payment}
    (hp : op.fact.intent.payment? = some p) :
    ((d.preProcess op).1 = .ok (.accepted []) ↔
      op.check d.network = .ok () ∧ op.IsPrepared store p ∧
        ∀ c, Amount.Names p.amounts c → p.cost store c ≤ store.balance p.payer c) ∧
    (op.check d.network = .ok () → op.IsPrepared store p →
      (∃ c, Amount.Names p.amounts c ∧ store.balance p.payer c < p.cost store c) →
      ∃ c, p.IsShort store c ∧ (d.preProcess op).1 =
        .ok (.rejected (.insufficientBalance p.payer c (p.cost store c)
          (store.balance p.payer c) (p.cost store c - store.balance p.payer c)))) := by
  obtain ⟨pool, -, hpre⟩ := ready.preProcess_eq op
  have holds (valid : op.check d.network = .ok ()) :
      op.signers.Nodup ∧ op.fact.intent.check = .ok () := by
    obtain ⟨hfact, -, -, distinct, -⟩ := Operation.check_eq_ok.1 valid
    exact ⟨distinct, (Fact.check_eq_ok.1 hfact).2⟩
  rw [hpre]
  constructor
  · rw [checked_eq_accepted, and_congr_right_iff, context_eq reads]
    intro valid
    exact Rules.check_eq_ok_iff keyed hp (holds valid).1 (holds valid).2
  · intro valid prepared short
    obtain ⟨distinct, hfact⟩ := holds valid
    obtain ⟨charges, hcharges⟩ := prepared.exists_charges keyed hp hfact
    obtain ⟨c, hshort, hreject⟩ := Payment.covering_eq_reject keyed hcharges short
    refine ⟨c, hshort, ?_⟩
    rw [checked_eq valid, context_eq reads, prepared.check_eq keyed hp distinct, hreject]
    rfl

end Dispatcher

namespace Sample

/-- The ledger with another balance. -/
def holding (n : Int) : Store :=
  accounts.setBalance alice ⟨n, currency⟩

def dispatcherOn (store : Store) : Dispatcher :=
  .start .standard (store.context .genesis .standard) config.networkBytes 64 false

theorem isReady_dispatcherOn (store : Store) : (dispatcherOn store).IsReady :=
  ⟨rfl, Pool.isFiled_ofCapacity 64⟩

section holding

variable (n : Int)

theorem isKeyed_holding : (holding n).IsKeyed :=
  isSound_accounts.keyed.set (.balance alice currency) rfl

theorem at?_holding {q : Place} (h : q ≠ .balance alice currency) :
    (holding n).at? q = accounts.at? q :=
  accounts.at?_setBalance alice ⟨n, currency⟩ h

theorem account?_holding (a : Address) : (holding n).account? a = accounts.account? a := by
  rw [Store.account?, at?_holding n (by simp), Store.account?]

theorem design?_holding (c : CurrencyId) : (holding n).design? c = accounts.design? c := by
  rw [Store.design?, at?_holding n (by simp), Store.design?]

theorem isPrepared_payment : payment.IsPrepared (holding n)
    ⟨alice, [⟨10, currency⟩], [⟨bob, ⟨10, currency⟩⟩]⟩ := by
  constructor
  case signed =>
    exact ⟨⟨alice, some keys⟩, keys, account?_holding n alice, rfl, by decide +kernel⟩
  case parties =>
    intro item hitem
    obtain rfl := List.mem_singleton.1 hitem
    rw [account?_holding]
    rfl
  case registered =>
    intro c named
    obtain rfl := Amount.names_singleton.1 named
    rw [design?_holding]
    rfl
  case collected =>
    intro c named a ha
    obtain rfl := Amount.names_singleton.1 named
    rw [Store.feeReceiver?, design?_holding] at ha
    cases ha
    rw [account?_holding]
    rfl

end holding

end Sample

/-- Ten cost thirteen. -/
theorem Dispatcher.preProcess_of_payment_holding :
    ((Sample.dispatcherOn (Sample.holding 13)).preProcess Sample.payment).1 =
      .ok (.accepted []) ∧
    ((Sample.dispatcherOn (Sample.holding 12)).preProcess Sample.payment).1 =
      .ok (.rejected (.insufficientBalance Sample.alice Sample.currency 13 12 1)) := by
  constructor
  · refine (preProcess_of_payment (Sample.isReady_dispatcherOn _) rfl (Sample.isKeyed_holding 13)
      rfl).1.2 ⟨Sample.check_payment, Sample.isPrepared_payment 13, fun c named => ?_⟩
    obtain rfl := Amount.names_singleton.1 named
    decide +kernel
  · obtain ⟨c, hshort, h⟩ := (preProcess_of_payment (Sample.isReady_dispatcherOn _) rfl
      (Sample.isKeyed_holding 12) rfl).2 Sample.check_payment (Sample.isPrepared_payment 12)
      ⟨Sample.currency, Amount.names_singleton.2 rfl, by decide +kernel⟩
    obtain rfl := Amount.names_singleton.1 hshort.named
    exact h

end CurrencyLedger
