import CurrencyLedger.Proofs.Processing.Paid
import CurrencyLedger.Proofs.Processing.Signatures

/-!
What operations of any kind may write. `effect_of_admits` goes through the ten kinds once: a balance
grows, or is debited to a payer that signed; an account is new, or has its keys changed by its own
operation; a design stays in order; a member joins or leaves by an operation that names it.
-/

namespace CurrencyLedger

open Traversal Settlement

/-- The keys of an account have signed an operation up to their threshold. -/
def Store.Authorizes (store : Store) (a : Address) (op : Operation) : Prop :=
  ∃ acc keys, store.account? a = some acc ∧ acc.keys = some keys ∧ op.signers.Nodup ∧
    keys.threshold.toNat ≤ keys.weightOfAll op.signers

/-- A change that an operation may make together with others. -/
inductive Effect (store : Store) (op : Operation) (changes : List Change) : Change → Prop
  | credit {a : Address} {c : CurrencyId} {n : Int} (grown : store.balance a c ≤ n)
      (owner : (store.account? a).isSome ∨ ∃ acc, .account acc ∈ changes ∧ acc.address = a) :
      Effect store op changes (.balance a ⟨n, c⟩)
  /-- What a new account starts with, whatever is recorded for its address. -/
  | endow {a : Address} {c : CurrencyId} {n : Int} (given : 0 ≤ n)
      (fresh : store.account? a = none)
      (created : ∃ acc, .account acc ∈ changes ∧ acc.address = a) :
      Effect store op changes (.balance a ⟨n, c⟩)
  | debit {p : Payment} {c : CurrencyId} {n : Int} (payment : op.fact.intent.payment? = some p)
      (signed : store.Authorizes p.payer op) (covered : 0 ≤ n) :
      Effect store op changes (.balance p.payer ⟨n, c⟩)
  | create {acc : Account} (fresh : store.account? acc.address = none) :
      Effect store op changes (.account acc)
  | rekey {acc : Account} {keys : KeySet} {c : CurrencyId}
      (intent : op.fact.intent = .keyUpdater acc.address keys c)
      (signed : store.Authorizes acc.address op) : Effect store op changes (.account acc)
  | design {d : CurrencyDesign} (valid : d.check = .ok ()) : Effect store op changes (.design d)
  | join {m : Member} {start : Height} (intent : op.fact.intent = .suffrageJoin m.address start) :
      Effect store op changes (.member m .insert)
  | leave {m : Member} {start : Height}
      (intent : op.fact.intent = .suffrageDisjoin m.address start) :
      Effect store op changes (.member m .remove)
  | candidate {c : Candidate} {s : Strategy} (set : s ≠ .replace) :
      Effect store op changes (.candidate c s)

namespace Effect

variable {store : Store} {op : Operation} {changes : List Change} {w : Change}

theorem regular (h : Effect store op changes w) : w.Regular := by
  cases h with
  | credit => exact .balance ..
  | endow => exact .balance ..
  | debit => exact .balance ..
  | create => exact .account _
  | rekey => exact .account _
  | design => exact .design _
  | join => exact .member _ (by decide)
  | leave => exact .member _ (by decide)
  | candidate set => exact .candidate _ set

theorem mono {changes' : List Change} (h : Effect store op changes w)
    (sub : ∀ w ∈ changes, w ∈ changes') : Effect store op changes' w := by
  cases h with
  | credit grown owner =>
    exact .credit grown (owner.imp_right fun ⟨acc, hacc, ha⟩ => ⟨acc, sub _ hacc, ha⟩)
  | endow given fresh created =>
    obtain ⟨acc, hacc, ha⟩ := created
    exact .endow given fresh ⟨acc, sub _ hacc, ha⟩
  | debit payment signed covered => exact .debit payment signed covered
  | create fresh => exact .create fresh
  | rekey intent signed => exact .rekey intent signed
  | design valid => exact .design valid
  | join intent => exact .join intent
  | leave intent => exact .leave intent
  | candidate set => exact .candidate set

theorem of_account (h : Effect store op changes w) {a : Address} (hfor : w.IsFor (.account a)) :
    ∃ acc, acc.address = a ∧ w.payload = .account acc ∧ (store.account? a = none ∨
      ∃ keys c, op.fact.intent = .keyUpdater a keys c ∧ store.Authorizes a op) := by
  cases h with
  | credit => cases Change.isFor_balance.1 hfor
  | endow => cases Change.isFor_balance.1 hfor
  | debit => cases Change.isFor_balance.1 hfor
  | @create acc fresh =>
    obtain rfl := Place.account.inj (Change.isFor_account.1 hfor)
    exact ⟨acc, rfl, rfl, .inl fresh⟩
  | @rekey acc keys c intent signed =>
    obtain rfl := Place.account.inj (Change.isFor_account.1 hfor)
    exact ⟨acc, rfl, rfl, .inr ⟨keys, c, intent, signed⟩⟩
  | design => cases Change.isFor_design.1 hfor
  | join => cases Change.isFor_member.1 hfor
  | leave => cases Change.isFor_member.1 hfor
  | candidate => cases Change.isFor_candidate.1 hfor

theorem of_balance (owners : store.HasOwners) (h : Effect store op changes w) {a : Address}
    {c : CurrencyId} (hfor : w.IsFor (.balance a c)) :
    ∃ n, w.payload = .balance ⟨n, c⟩ ∧
      ((store.account? a).isSome ∨ ∃ acc, .account acc ∈ changes ∧ acc.address = a) ∧
      (store.balance a c ≤ n ∨ store.Authorizes a op ∧
        ∃ p, op.fact.intent.payment? = some p ∧ p.payer = a) := by
  cases h with
  | @credit b d n grown owner =>
    obtain ⟨rfl, rfl⟩ := Place.balance.inj (Change.isFor_balance.1 hfor)
    exact ⟨n, rfl, owner, .inl grown⟩
  | @endow b d n given fresh created =>
    obtain ⟨rfl, rfl⟩ := Place.balance.inj (Change.isFor_balance.1 hfor)
    exact ⟨n, rfl, .inr created, .inl (owners.balance_eq_zero fresh _ ▸ given)⟩
  | @debit p d n payment signed covered =>
    obtain ⟨rfl, rfl⟩ := Place.balance.inj (Change.isFor_balance.1 hfor)
    obtain ⟨acc, keys, hacc, -⟩ := id signed
    exact ⟨n, rfl, .inl (hacc ▸ rfl), .inr ⟨signed, p, payment, rfl⟩⟩
  | create => cases Change.isFor_account.1 hfor
  | rekey => cases Change.isFor_account.1 hfor
  | design => cases Change.isFor_design.1 hfor
  | join => cases Change.isFor_member.1 hfor
  | leave => cases Change.isFor_member.1 hfor
  | candidate => cases Change.isFor_candidate.1 hfor

/-- Where no balance is negative none is written. -/
theorem balance_nonneg (solvent : ∀ a c, 0 ≤ store.balance a c) (h : Effect store op changes w)
    {amount : Amount} (hpayload : w.payload = .balance amount) : 0 ≤ amount.magnitude := by
  cases h with
  | @credit a c n grown =>
    cases hpayload
    exact Int.le_trans (solvent a c) grown
  | endow given =>
    cases hpayload
    exact given
  | debit _ _ covered =>
    cases hpayload
    exact covered
  | _ => cases hpayload

theorem design_valid (h : Effect store op changes w) {d : CurrencyDesign}
    (hpayload : w.payload = .design d) : d.check = .ok () := by
  cases h with
  | design valid =>
    cases hpayload
    exact valid
  | _ => cases hpayload

end Effect

theorem Payment.IsCharged.authorizes {p : Payment} {store : Store} {op : Operation}
    {charges : List Charge} (h : p.IsCharged store op charges) : store.Authorizes p.payer op := by
  obtain ⟨acc, keys, hacc, hkeys, hsigned⟩ := h.signed
  exact ⟨acc, keys, hacc, hkeys, KeySet.checkSigners_eq_ok.1 hsigned⟩

section effects

variable {store : Store} {height : Height} {threshold : Threshold} {op : Operation}
  {changes : List Change}

theorem IsBill.feeOn_nonneg {amounts : List Amount} {charges : List Charge}
    (bill : IsBill store amounts charges) (valid : store.HasValidDesigns) (c : CurrencyId) :
    0 ≤ store.feeOn amounts c := by
  by_cases hn : Amount.Names amounts c
  · obtain ⟨charge, hc, rfl⟩ := (bill.named c).2 hn
    exact bill.fee_eq hc ▸ bill.fee_nonneg valid hc
  · exact Int.le_of_eq (Store.feeOn_of_not_named hn).symm

/-- Only the payer loses by a payment, and no more than it has. -/
theorem Payment.IsCharged.gain_nonneg_or {p : Payment} {charges : List Charge}
    (h : p.IsCharged store op charges)
    (positive : ∀ credit ∈ p.credits, 0 < credit.amount.magnitude) (valid : store.HasValidDesigns)
    (a : Address) (c : CurrencyId) :
    0 ≤ p.gain store a c ∨ a = p.payer ∧ 0 ≤ store.balance a c + p.gain store a c := by
  have hcredited := creditedTo_nonneg (fun credit hc => Int.le_of_lt (positive credit hc)) a c
  have hfee := h.bill.feeOn_nonneg valid c
  have hcollected : 0 ≤ if store.feeReceiver? c = some a then store.feeOn p.amounts c else 0 := by
    split <;> omega
  rw [gain]
  by_cases ha : a = p.payer
  · rw [if_pos ha]
    by_cases hn : Amount.Names p.amounts c
    · obtain ⟨charge, hc, rfl⟩ := (h.bill.named c).2 hn
      have hcovered := h.covered charge hc
      rw [Charge.required, h.bill.amount charge hc, h.bill.fee_eq hc, ← ha] at hcovered
      right
      exact ⟨ha, by omega⟩
    · left
      rw [Amount.sumIn_eq_zero hn, Store.feeOn_of_not_named hn]
      simpa using hcredited
  · left
    rw [if_neg ha]
    omega

variable (keyed : store.IsKeyed) (valid : store.HasValidDesigns)
include keyed valid

theorem effect_of_settles {p q : Payment} (hq : op.fact.intent.payment? = some q)
    (hpayer : q.payer = p.payer) {charges : List Charge} (hcharged : p.IsCharged store op charges)
    (positive : ∀ credit ∈ p.credits, 0 < credit.amount.magnitude) {settled : List Change}
    (settles : Settles p store settled) {w : Change} (hw : w ∈ settled) :
    Effect store op changes w := by
  rcases settles.only w hw with ⟨a, c, ha, -, rfl⟩ | ⟨c, d, hd, hfee, rfl⟩
  · rcases hcharged.gain_nonneg_or positive valid a c with hgain | ⟨rfl, hcovered⟩
    · exact .credit (by omega) (.inl ha)
    · rw [Payment.balanceChange, ← hpayer]
      exact .debit hq (hpayer ▸ hcharged.authorizes) (hpayer ▸ hcovered)
  · rw [Payment.designChange, keyed.currency_eq hd]
    exact .design (CurrencyDesign.check_issue (valid c d hd) (Int.le_of_lt hfee))

theorem effect_of_createAccounts {sender : Address} {items : List NewAccount}
    (hintent : op.fact.intent = .createAccounts sender items)
    (hfact : (Intent.createAccounts sender items).check = .ok ())
    (hcheck : CreateAccounts.check (store.context height threshold) op sender items = .ok ())
    (heffects : CreateAccounts.effects (store.context height threshold) sender items =
      .ok changes) {w : Change} (hw : w ∈ changes) : Effect store op changes w := by
  obtain ⟨hfresh, charges, created, settled, hcharged, hcreated, settles, rfl⟩ :=
    CreateAccounts.settles keyed valid hcheck heffects
  have hp : op.fact.intent.payment? = some _ := congrArg Intent.payment? hintent
  rcases List.mem_append.1 hw with hw | hw
  · rcases (CreateAccounts.mem_created hcreated).1 hw with
      ⟨item, hitem, acc, hacc, rfl⟩ | ⟨⟨a, n, c⟩, hc, rfl⟩
    · exact .create (hfresh item hitem acc hacc)
    · obtain ⟨item, hitem, hc'⟩ := List.mem_flatMap.1 hc
      have hacc := NewAccount.account?_of_mem_credits hc'
      have hpositive : 0 < n := (Payment.isOrderly (hintent ▸ hp) hfact).positive ⟨a, n, c⟩ hc
      have hcreate : .account ⟨a, some item.keys⟩ ∈ created.flatten :=
        (CreateAccounts.mem_created hcreated).2 (.inl ⟨item, hitem, _, hacc, rfl⟩)
      exact .endow (Int.le_of_lt hpositive) (hfresh item hitem ⟨a, some item.keys⟩ hacc)
        ⟨_, List.mem_append_left _ hcreate, rfl⟩
  · exact effect_of_settles (p := ⟨sender, CreateAccounts.amounts items, []⟩) keyed valid hp rfl
      hcharged (by simp) settles hw

theorem effect_of_transfers {sender : Address} {items : List Transfer}
    (hintent : op.fact.intent = .transfers sender items)
    (hfact : (Intent.transfers sender items).check = .ok ())
    (hcheck : Transfers.check (store.context height threshold) op sender items = .ok ())
    (heffects : Transfers.effects (store.context height threshold) sender items = .ok changes)
    {w : Change} (hw : w ∈ changes) : Effect store op changes w := by
  obtain ⟨⟨charges, hcharged⟩, settles⟩ :=
    Transfers.settles keyed valid rfl hfact hcheck heffects
  exact effect_of_settles keyed valid (congrArg Intent.payment? hintent) rfl hcharged
    (Payment.isOrderly rfl hfact).positive settles hw

theorem effect_of_keyUpdater {target : Address} {keys : KeySet} {currency : CurrencyId}
    (hintent : op.fact.intent = .keyUpdater target keys currency)
    (heffects : KeyUpdater.effects (store.context height threshold) op target keys currency =
      .ok changes) {w : Change} (hw : w ∈ changes) : Effect store op changes w := by
  obtain ⟨charges, settled, hcharged, settles, rfl⟩ := KeyUpdater.settles keyed valid heffects
  rcases List.mem_cons.1 hw with rfl | hw
  · exact .rekey hintent hcharged.authorizes
  · exact effect_of_settles keyed valid (congrArg Intent.payment? hintent) rfl hcharged (by simp)
      settles hw

omit valid

theorem effect_of_register {d : CurrencyDesign} (hd : d.check = .ok ())
    (owner : (store.account? d.genesisAccount).isSome ∨
      ∃ acc, .account acc ∈ changes ∧ acc.address = d.genesisAccount)
    (fresh : store.account? (.zero d.currency) = none) {registered : List Change}
    (h : CurrencyRegister.register (store.context height threshold) d = .ok registered)
    (sub : ∀ w ∈ registered, w ∈ changes) {w : Change} (hw : w ∈ registered) :
    Effect store op changes w := by
  rw [CurrencyRegister.register, Context.balance_eq keyed] at h
  cases h
  have hpositive := (CurrencyDesign.check_eq_ok.1 hd).1
  simp only [List.mem_cons, List.not_mem_nil, or_false] at hw
  rcases hw with rfl | rfl | rfl | rfl
  · exact .design hd
  · exact .credit (by omega) owner
  · exact .endow (Int.le_refl _) fresh ⟨_, sub (.account (.zero d.currency)) (by simp), rfl⟩
  · exact .create fresh

theorem checkDesign_eq_ok {created : Option Address} {d : CurrencyDesign}
    (h : CurrencyRegister.checkDesign (store.context height threshold) created d = .ok ()) :
    store.design? d.currency = none ∧ store.account? (.zero d.currency) = none := by
  rw [CurrencyRegister.checkDesign, bind_eq_ok] at h
  obtain ⟨found, hfound, h⟩ := h
  split at h
  · cases h
  · next hnone =>
    refine ⟨Context.isNone_of_find_design keyed hfound (by simpa using hnone), ?_⟩
    split at h
    · split at h
      · exact (Context.requireNoAccount_eq_ok keyed).1 h
      · obtain ⟨_, -, h⟩ := bind_eq_ok.1 h
        exact (Context.requireNoAccount_eq_ok keyed).1 h
    · exact (Context.requireNoAccount_eq_ok keyed).1 h

theorem effect_of_currencyRegister {d : CurrencyDesign} (hd : d.check = .ok ())
    (hcheck : CurrencyRegister.check (store.context height threshold) op d = .ok ())
    (heffects : CurrencyRegister.register (store.context height threshold) d = .ok changes)
    {w : Change} (hw : w ∈ changes) : Effect store op changes w := by
  simp only [CurrencyRegister.check, bind_eq_ok] at hcheck
  obtain ⟨_, hdesign, _, hgenesis, -⟩ := hcheck
  exact effect_of_register keyed hd (.inl ((Context.requireAccount_eq_ok keyed).1 hgenesis))
    (checkDesign_eq_ok keyed hdesign).2 heffects (fun _ h => h) hw

theorem effect_of_genesisCurrencies {nodeKey : PublicKey} {keys : KeySet}
    {designs : List CurrencyDesign}
    (hfact : ∀ d ∈ designs, d.check = .ok () ∧ d.genesisAccount = .ofKeySet keys)
    (hcheck : GenesisCurrencies.check (store.context height threshold) op nodeKey keys designs =
      .ok ())
    (heffects : GenesisCurrencies.effects (store.context height threshold) keys designs =
      .ok changes)
    {w : Change} (hw : w ∈ changes) : Effect store op changes w := by
  rw [GenesisCurrencies.check] at hcheck
  split at hcheck
  · cases hcheck
  split at hcheck
  · cases hcheck
  obtain ⟨_, hfresh, hdesigns⟩ := bind_eq_ok.1 hcheck
  have hdesigns := Check.forEach_eq_ok_iff.1 hdesigns
  rw [GenesisCurrencies.effects, bind_eq_ok] at heffects
  obtain ⟨registered, hregistered, h⟩ := heffects
  cases h
  rcases List.mem_cons.1 hw with rfl | hw
  · exact .create ((Context.requireNoAccount_eq_ok keyed).1 hfresh)
  · obtain ⟨cs, hcs, hw⟩ := List.mem_flatten.1 hw
    obtain ⟨d, hd, hregister⟩ := exists_left (mapM_eq_ok_iff.1 hregistered) hcs
    obtain ⟨hvalid, hgenesis⟩ := hfact d hd
    refine effect_of_register keyed hvalid
      (.inr ⟨⟨.ofKeySet keys, some keys⟩, List.mem_cons_self, hgenesis.symm⟩)
      (checkDesign_eq_ok keyed (hdesigns d hd)).2 hregister (fun w hw => ?_) hw
    exact List.mem_cons_of_mem _ (List.mem_flatten.2 ⟨cs, hcs, hw⟩)

include valid

theorem effect_of_currencyPolicyUpdater {c : CurrencyId} {policy : CurrencyPolicy}
    (hpolicy : policy.check = .ok ())
    (heffects : CurrencyPolicyUpdater.effects (store.context height threshold) c policy =
      .ok changes)
    {w : Change} (hw : w ∈ changes) : Effect store op changes w := by
  rw [CurrencyPolicyUpdater.effects, bind_eq_ok] at heffects
  obtain ⟨d, hd, h⟩ := heffects
  cases h
  rw [List.mem_singleton.1 hw]
  have hd := valid c d ((Context.design_eq_ok keyed).1 hd)
  exact .design (CurrencyDesign.check_withPolicy hd hpolicy)

theorem effect_of_mint {items : List Issue} (hfact : ∀ item ∈ items, 0 < item.amount.magnitude)
    (hcheck : Mint.check (store.context height threshold) op items = .ok ())
    (heffects : Mint.effects (store.context height threshold) items = .ok changes)
    {w : Change} (hw : w ∈ changes) : Effect store op changes w := by
  rw [Mint.check, bind_eq_ok] at hcheck
  obtain ⟨_, -, hitems⟩ := hcheck
  have hitems := Check.forEach_eq_ok_iff.1 hitems
  simp only [Mint.effects, bind_eq_ok, pure_eq_ok] at heffects
  obtain ⟨credits, hcredits, designs, hdesigns, rfl⟩ := heffects
  rcases List.mem_append.1 hw with hw | hw
  · obtain ⟨item, hitem, hok⟩ := exists_left (mapM_eq_ok_iff.1 hcredits) hw
    have hreceiver := hitems item hitem
    rw [Mint.checkItem, bind_eq_ok] at hreceiver
    obtain ⟨_, hreceiver, -⟩ := hreceiver
    rw [Mint.creditChange, Context.balance_eq keyed] at hok
    cases hok
    have hpositive := hfact item hitem
    exact .credit (by omega) (.inl ((Context.requireAccount_eq_ok keyed).1 hreceiver))
  · obtain ⟨s, hs, hok⟩ := exists_left (mapM_eq_ok_iff.1 hdesigns) hw
    rw [Mint.designChange, bind_eq_ok] at hok
    obtain ⟨d, hd, h⟩ := hok
    cases h
    have hd := valid _ d ((Context.design_eq_ok keyed).1 hd)
    refine .design (CurrencyDesign.check_issue hd ?_)
    rw [(Charge.mem_sums.1 hs).2]
    refine Amount.sumIn_nonneg (fun amount hamount => ?_) _
    obtain ⟨item, hitem, rfl⟩ := List.mem_map.1 hamount
    exact Int.le_of_lt (hfact item hitem)

omit keyed valid

theorem SuffrageJoin.candidate_address {ctx : Context} {a : Address} {start : Height}
    {c : Candidate} (h : SuffrageJoin.candidate ctx a start = .ok c) : c.address = a := by
  rw [SuffrageJoin.candidate, bind_eq_ok] at h
  obtain ⟨candidates, -, h⟩ := h
  split at h
  · cases h
  · next found hfound =>
    have htext := KeyedList.key_of_get? hfound
    split at h
    · cases h
    · split at h
      · cases h
      · cases h
        exact Address.text_injective htext

theorem SuffrageDisjoin.member_eq_ok {ctx : Context} {node : Address} {start : Height}
    {m : Member} (h : SuffrageDisjoin.member ctx node start = .ok m) :
    m.address = node ∧
      ∃ members, ctx.members = .ok members ∧ members.get? node.text = some m ∧
        1 < members.size := by
  rw [SuffrageDisjoin.member, bind_eq_ok] at h
  obtain ⟨members, hmembers, h⟩ := h
  split at h
  · cases h
  · next found hfound =>
    have htext := KeyedList.key_of_get? hfound
    split at h
    · cases h
    · split at h
      · cases h
      · next hsize =>
        cases h
        exact ⟨Address.text_injective htext, members, hmembers, hfound, Nat.not_le.1 hsize⟩

include keyed valid

/-- Every change of an operation that the rules admit is one of those that operations may make. -/
theorem effect_of_admits (h : (store.context height threshold).Admits op changes) {w : Change}
    (hw : w ∈ changes) : Effect store op changes w := by
  have hfact := (Fact.check_eq_ok.1 h.fact).2
  have hcheck := h.check
  have heffects := h.effects
  rw [Operation.kind, Fact.kind] at hcheck heffects
  unfold Rules.check at hcheck
  unfold Rules.effects at heffects
  cases hintent : op.fact.intent <;> rw [hintent] at hfact hcheck heffects
  case createAccounts =>
    exact effect_of_createAccounts keyed valid hintent hfact hcheck heffects hw
  case transfers => exact effect_of_transfers keyed valid hintent hfact hcheck heffects hw
  case keyUpdater => exact effect_of_keyUpdater keyed valid hintent heffects hw
  case currencyRegister d => exact effect_of_currencyRegister keyed hfact hcheck heffects hw
  case currencyPolicyUpdater =>
    exact effect_of_currencyPolicyUpdater keyed valid hfact heffects hw
  case mint => exact effect_of_mint keyed valid (Intent.check_mint hfact).2 hcheck heffects hw
  case suffrageCandidate =>
    obtain ⟨policy, -, h⟩ := bind_eq_ok.1 heffects
    cases h
    rw [List.mem_singleton.1 hw]
    exact .candidate (by decide)
  case suffrageJoin =>
    obtain ⟨candidate, hcandidate, h⟩ := bind_eq_ok.1 heffects
    cases h
    obtain rfl := SuffrageJoin.candidate_address hcandidate
    simp only [List.mem_cons, List.not_mem_nil, or_false] at hw
    rcases hw with rfl | rfl
    · exact .join hintent
    · exact .candidate (by decide)
  case suffrageDisjoin =>
    obtain ⟨member, hmember, h⟩ := bind_eq_ok.1 heffects
    cases h
    obtain ⟨rfl, -⟩ := SuffrageDisjoin.member_eq_ok hmember
    rw [List.mem_singleton.1 hw]
    exact .leave hintent
  case genesisCurrencies =>
    exact effect_of_genesisCurrencies keyed (Intent.check_genesisCurrencies hfact).2 hcheck
      heffects hw

end effects

end CurrencyLedger
