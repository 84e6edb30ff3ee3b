import CurrencyLedger.Proofs.Ledger.Ordering
import CurrencyLedger.Proofs.Processing.Accounting
import CurrencyLedger.Proofs.Processing.Amendment

/-!
No operation writes a key twice. Between the parts of a settlement it is the branches of the fee
changes that see to it, within a part that no currency is charged twice; new accounts are apart from
fee receivers since these have to be there. `nodup_keys_of_process` goes through the ten kinds.
-/

namespace CurrencyLedger

open Traversal Settlement

/-- Accounts and designs are recorded under the keys of their addresses and currencies. -/
structure Store.IsMatched (store : Store) : Prop where
  accounts : ∀ a acc, store.account? a = some acc → acc.address = a
  designs : ∀ c d, store.design? c = some d → d.currency = c

theorem Store.IsKeyed.isMatched {store : Store} (keyed : store.IsKeyed) : store.IsMatched :=
  ⟨fun _ _ => keyed.address_eq, fun _ _ => keyed.currency_eq⟩

/-- Two changes write different keys. -/
def Change.Apart (w w' : Change) : Prop :=
  w.key ≠ w'.key

namespace Change

variable {w w' : Change}

theorem Apart.of_places {p p' : Place} (hfor : w.IsFor p) (hfor' : w'.IsFor p') (hne : p ≠ p') :
    w.Apart w' := by
  intro hkey
  exact hne (Place.key_injective (hfor.symm.trans (hkey.trans hfor')))

theorem pairwise_apart {changes : List Change} :
    changes.Pairwise Apart ↔ (changes.map Change.key).Nodup := by
  rw [List.Nodup, List.pairwise_map]
  rfl

end Change

namespace Context

variable {ctx : Context} {a : Address}

theorem exists_of_requireAccount {reason : Address → Reason}
    (h : ctx.requireAccount a reason = .ok ()) : ctx.accountExists a = .ok true := by
  obtain ⟨there, hthere, h⟩ := bind_eq_ok.1 h
  cases there with
  | true => exact hthere
  | false => cases h

theorem absent_of_requireNoAccount (h : ctx.requireNoAccount a = .ok ()) :
    ctx.accountExists a = .ok false := by
  obtain ⟨there, hthere, h⟩ := bind_eq_ok.1 h
  cases there with
  | true => cases h
  | false => exact hthere

end Context

namespace Charge

variable {ctx : Context}

theorem of_ofSum {sum : Amount} {charge : Charge} (h : ofSum ctx sum = .ok charge) :
    charge.currency = sum.currency ∧
      ∀ a, charge.receiver = some a → ctx.accountExists a = .ok true := by
  simp only [ofSum, bind_eq_ok] at h
  obtain ⟨d, -, fee, -, h⟩ := h
  cases hr : d.policy.fee.receiver? with
  | none =>
    rw [hr] at h
    cases h
    exact ⟨rfl, fun a ha => by cases ha⟩
  | some receiver =>
    simp only [hr, bind_eq_ok] at h
    obtain ⟨_, hreceiver, h⟩ := h
    cases h
    refine ⟨rfl, fun a ha => ?_⟩
    exact Option.some.inj ha ▸ Context.exists_of_requireAccount hreceiver

variable {amounts : List Amount} {charges : List Charge}

/-- No currency is charged twice. -/
theorem nodup_currencies (h : ofAmounts ctx amounts = .ok charges) :
    (charges.map Charge.currency).Nodup := by
  apply List.pairwise_map.2
  apply pairwise_of_mapM h (List.pairwise_map.1 (nodup_sums amounts))
  intro sum charge hcharge sum' charge' hcharge' hne
  rwa [(of_ofSum hcharge).1, (of_ofSum hcharge').1]

theorem exists_receiver (h : ofAmounts ctx amounts = .ok charges) {charge : Charge}
    (hcharge : charge ∈ charges) {a : Address} (ha : charge.receiver = some a) :
    ctx.accountExists a = .ok true := by
  obtain ⟨sum, -, hsum⟩ := exists_left (mapM_eq_ok_iff.1 h) hcharge
  exact (of_ofSum hsum).2 a ha

end Charge

/-- The currency whose balance or design is recorded at a place. -/
def Place.currency? : Place → Option CurrencyId
  | .balance _ c => some c
  | .design c => some c
  | _ => none

namespace Settlement

variable {ctx : Context} {sender : Address} {balances : List (CurrencyId × Int)}
  {charges : List Charge} {charge : Charge} {credits : List Credit} {credit : Credit} {w : Change}

theorem isFor_of_creditChange (h : creditChange ctx sender charges credit = .ok w) :
    w.IsFor (.balance credit.receiver credit.amount.currency) := by
  obtain ⟨current, -, h⟩ := bind_eq_ok.1 h
  cases h
  exact Change.isFor_balance.2 rfl

/-- A fee is credited on its own to an account other than the sender, where nothing else is
credited. -/
theorem isFor_of_feeChange (h : feeChange ctx sender credits charge = .ok (some w)) :
    ∃ receiver, charge.receiver = some receiver ∧ receiver ≠ sender ∧
      (∀ credit ∈ credits, credit.place ≠ (receiver, charge.currency)) ∧
      w.IsFor (.balance receiver charge.currency) := by
  unfold feeChange at h
  split at h
  · cases h
  · next receiver fee hdue =>
    split at h
    · cases h
    · next hfree =>
      obtain ⟨hsender, hcredits⟩ := not_or.1 hfree
      obtain ⟨current, -, h⟩ := bind_eq_ok.1 h
      cases h
      refine ⟨receiver, (Charge.due?_eq_some.1 hdue).2.1, hsender, fun credit hc hplace => ?_,
        Change.isFor_balance.2 rfl⟩
      obtain ⟨hreceiver, hcurrency⟩ := Prod.mk.inj hplace
      exact hcredits (List.any_eq_true.2 ⟨credit, hc, by simp [hreceiver, hcurrency]⟩)

theorem isFor_of_debitChange (h : debitChange sender balances charge = .ok (some w)) :
    w.IsFor (.balance sender charge.currency) := by
  unfold debitChange at h
  split at h
  · cases h
    exact Change.isFor_balance.2 rfl
  · split at h <;> cases h

theorem exists_of_designChange (h : designChange ctx charge = .ok (some w)) :
    ∃ d, ctx.design charge.currency = .ok d ∧ w.IsFor (.design d.currency) := by
  unfold designChange at h
  split at h
  · cases h
  · obtain ⟨d, hd, h⟩ := bind_eq_ok.1 h
    cases h
    exact ⟨d, hd, Change.isFor_design.2 rfl⟩

/-- The places where a settlement may write. -/
inductive Reaches (sender : Address) (charges : List Charge) (credits : List Credit) : Place → Prop
  | credit {credit : Credit} (h : credit ∈ credits) :
      Reaches sender charges credits (.balance credit.receiver credit.amount.currency)
  | fee {charge : Charge} (h : charge ∈ charges) {receiver : Address}
      (collects : charge.receiver = some receiver) :
      Reaches sender charges credits (.balance receiver charge.currency)
  | debit (c : CurrencyId) : Reaches sender charges credits (.balance sender c)
  | design (c : CurrencyId) : Reaches sender charges credits (.design c)

theorem exists_reaches {settled : List Change}
    (h : Settlement.changes ctx sender balances charges credits = .ok settled) (hw : w ∈ settled) :
    ∃ place, w.IsFor place ∧ Reaches sender charges credits place := by
  simp only [Settlement.changes, bind_eq_ok, pure_eq_ok] at h
  obtain ⟨credited, hcredited, fees, hfees, debits, hdebits, designs, hdesigns, rfl⟩ := h
  simp only [List.mem_append, List.mem_filterMap, id_eq, exists_eq_right] at hw
  rcases hw with ((hw | hw) | hw) | hw
  · obtain ⟨credit, hc, hok⟩ := (mem_mapM hcredited).1 hw
    exact ⟨_, isFor_of_creditChange hok, .credit hc⟩
  · obtain ⟨charge, hc, hok⟩ := (mem_mapM hfees).1 hw
    obtain ⟨receiver, hr, -, -, hfor⟩ := isFor_of_feeChange hok
    exact ⟨_, hfor, .fee hc hr⟩
  · obtain ⟨charge, -, hok⟩ := (mem_mapM hdebits).1 hw
    exact ⟨_, isFor_of_debitChange hok, .debit _⟩
  · obtain ⟨charge, -, hok⟩ := (mem_mapM hdesigns).1 hw
    obtain ⟨d, -, hfor⟩ := exists_of_designChange hok
    exact ⟨_, hfor, .design _⟩

/-- Changes made of charges are apart if each is for the currency of its charge. -/
theorem pairwise_filterMap_of_charges (distinct : (charges.map Charge.currency).Nodup)
    {f : Charge → Result (Option Change)} {made : List (Option Change)}
    (h : charges.mapM f = .ok made)
    (named : ∀ charge w, f charge = .ok (some w) →
      ∃ place : Place, w.IsFor place ∧ place.currency? = some charge.currency) :
    (made.filterMap id).Pairwise Change.Apart := by
  apply List.pairwise_filterMap.2
  apply pairwise_of_mapM h (List.pairwise_map.1 distinct)
  rintro charge _ hok charge' _ hok' hne w rfl w' rfl
  obtain ⟨place, hfor, hplace⟩ := named charge w hok
  obtain ⟨place', hfor', hplace'⟩ := named charge' w' hok'
  apply Change.Apart.of_places hfor hfor'
  rintro rfl
  exact hne (Option.some.inj (hplace.symm.trans hplace'))

/-- A settlement writes no key twice, whoever collects the fees. -/
theorem pairwise_changes (matching : ∀ c d, ctx.design c = .ok d → d.currency = c)
    (distinct : (charges.map Charge.currency).Nodup)
    (places : (credits.map Credit.place).Nodup)
    (foreign : ∀ credit ∈ credits, credit.receiver ≠ sender) {settled : List Change}
    (h : Settlement.changes ctx sender balances charges credits = .ok settled) :
    settled.Pairwise Change.Apart := by
  simp only [Settlement.changes, bind_eq_ok, pure_eq_ok] at h
  obtain ⟨credited, hcredited, fees, hfees, debits, hdebits, designs, hdesigns, rfl⟩ := h
  have of_design : ∀ {charge w}, designChange ctx charge = .ok (some w) →
      w.IsFor (.design charge.currency) := by
    intro charge w hok
    obtain ⟨d, hd, hfor⟩ := exists_of_designChange hok
    rwa [matching _ _ hd] at hfor
  have credited_apart : credited.Pairwise Change.Apart := by
    apply pairwise_of_mapM hcredited (List.pairwise_map.1 places)
    intro credit w hok credit' w' hok' hne
    apply Change.Apart.of_places (isFor_of_creditChange hok) (isFor_of_creditChange hok')
    intro hplace
    obtain ⟨hreceiver, hcurrency⟩ := Place.balance.inj hplace
    exact hne (Prod.ext hreceiver hcurrency)
  have fees_apart : (fees.filterMap id).Pairwise Change.Apart := by
    apply pairwise_filterMap_of_charges distinct hfees
    intro charge w hok
    obtain ⟨receiver, -, -, -, hfor⟩ := isFor_of_feeChange hok
    exact ⟨_, hfor, rfl⟩
  have debits_apart : (debits.filterMap id).Pairwise Change.Apart :=
    pairwise_filterMap_of_charges distinct hdebits fun charge w hok =>
      ⟨_, isFor_of_debitChange hok, rfl⟩
  have designs_apart : (designs.filterMap id).Pairwise Change.Apart :=
    pairwise_filterMap_of_charges distinct hdesigns fun charge w hok => ⟨_, of_design hok, rfl⟩
  rw [List.pairwise_append, List.pairwise_append, List.pairwise_append]
  simp only [List.mem_append, List.mem_filterMap, id_eq, exists_eq_right]
  refine ⟨⟨⟨credited_apart, fees_apart, ?_⟩, debits_apart, ?_⟩, designs_apart, ?_⟩
  · intro w hw w' hw'
    obtain ⟨credit, hc, hok⟩ := (mem_mapM hcredited).1 hw
    obtain ⟨charge, -, hok'⟩ := (mem_mapM hfees).1 hw'
    obtain ⟨receiver, -, -, hfree, hfor'⟩ := isFor_of_feeChange hok'
    apply Change.Apart.of_places (isFor_of_creditChange hok) hfor'
    intro hplace
    obtain ⟨hreceiver, hcurrency⟩ := Place.balance.inj hplace
    exact hfree credit hc (Prod.ext hreceiver hcurrency)
  · intro w hw w' hw'
    obtain ⟨charge', -, hok'⟩ := (mem_mapM hdebits).1 hw'
    rcases hw with hw | hw
    · obtain ⟨credit, hc, hok⟩ := (mem_mapM hcredited).1 hw
      apply Change.Apart.of_places (isFor_of_creditChange hok) (isFor_of_debitChange hok')
      intro hplace
      exact foreign credit hc (Place.balance.inj hplace).1
    · obtain ⟨charge, -, hok⟩ := (mem_mapM hfees).1 hw
      obtain ⟨receiver, -, hne, -, hfor⟩ := isFor_of_feeChange hok
      apply Change.Apart.of_places hfor (isFor_of_debitChange hok')
      intro hplace
      exact hne (Place.balance.inj hplace).1
  · intro w hw w' hw'
    obtain ⟨charge', -, hok'⟩ := (mem_mapM hdesigns).1 hw'
    obtain ⟨a, c, hfor⟩ : ∃ a c, w.IsFor (.balance a c) := by
      rcases hw with (hw | hw) | hw
      · obtain ⟨credit, -, hok⟩ := (mem_mapM hcredited).1 hw
        exact ⟨_, _, isFor_of_creditChange hok⟩
      · obtain ⟨charge, -, hok⟩ := (mem_mapM hfees).1 hw
        obtain ⟨receiver, -, -, -, hfor⟩ := isFor_of_feeChange hok
        exact ⟨_, _, hfor⟩
      · obtain ⟨charge, -, hok⟩ := (mem_mapM hdebits).1 hw
        exact ⟨_, _, isFor_of_debitChange hok⟩
    exact Change.Apart.of_places hfor (of_design hok') (by simp)

end Settlement

section rules

variable {ctx : Context} {op : Operation} {changes : List Change}

namespace CreateAccounts

/-- What is written of a new account is its record, or one of its balances. -/
theorem exists_isFor_of_itemChanges {item : NewAccount} {cs : List Change}
    (h : itemChanges item = .ok cs) {w : Change} (hw : w ∈ cs) :
    ∃ a, item.address = .ok a ∧ (w.IsFor (.account a) ∨ ∃ c, w.IsFor (.balance a c)) := by
  obtain ⟨a, ha, rfl⟩ := itemChanges_eq_ok.1 h
  refine ⟨a, ha, ?_⟩
  rcases List.mem_cons.1 hw with rfl | hw
  · exact .inl (Change.isFor_account.2 rfl)
  · obtain ⟨amount, -, rfl⟩ := List.mem_map.1 hw
    exact .inr ⟨_, Change.isFor_balance.2 rfl⟩

end CreateAccounts

/-- Each new account is apart from the others, in what is written of it. -/
theorem CreateAccounts.pairwise_created {sender : Address} {items : List NewAccount}
    (hfact : (Intent.createAccounts sender items).check = .ok ()) {created : List (List Change)}
    (h : items.mapM itemChanges = .ok created) : created.flatten.Pairwise Change.Apart := by
  obtain ⟨targets, hitems, hdistinct⟩ := Intent.check_createAccounts hfact
  apply List.pairwise_flatten.2
  constructor
  · intro cs hcs
    obtain ⟨item, hitem, hok⟩ := exists_left (mapM_eq_ok_iff.1 h) hcs
    obtain ⟨a, ha, rfl⟩ := itemChanges_eq_ok.1 hok
    obtain ⟨target, -, htarget, hamounts, -⟩ := exists_right hitems hitem
    apply List.pairwise_cons.2
    constructor
    · intro w hw
      obtain ⟨amount, -, rfl⟩ := List.mem_map.1 hw
      exact Change.Apart.of_places (Change.isFor_account.2 rfl) (Change.isFor_balance.2 rfl)
        (by simp)
    · apply List.pairwise_map.2
      apply (List.pairwise_map.1 hamounts.distinct).imp
      intro amount amount' hne
      apply Change.Apart.of_places (Change.isFor_balance.2 rfl) (Change.isFor_balance.2 rfl)
      intro hplace
      exact hne (Place.balance.inj hplace).2
  · have hdistinct : items.Pairwise fun item item' =>
        ∀ a a', item.address = .ok a → item'.address = .ok a' → a ≠ a' := by
      apply pairwise_of_forall₂ hitems.flip hdistinct
      rintro target item ⟨htarget, -⟩ target' item' ⟨htarget', -⟩ hne a a' ha ha'
      rw [htarget] at ha
      rw [htarget'] at ha'
      cases ha
      cases ha'
      exact hne
    apply pairwise_of_mapM h hdistinct
    intro item cs hok item' cs' hok' hne w hw w' hw'
    obtain ⟨a, ha, hfor⟩ := exists_isFor_of_itemChanges hok hw
    obtain ⟨a', ha', hfor'⟩ := exists_isFor_of_itemChanges hok' hw'
    have hne := hne a a' ha ha'
    rcases hfor with hfor | ⟨c, hfor⟩ <;> rcases hfor' with hfor' | ⟨c', hfor'⟩
    · exact Change.Apart.of_places hfor hfor' (by simpa using hne)
    · exact Change.Apart.of_places hfor hfor' (by simp)
    · exact Change.Apart.of_places hfor hfor' (by simp)
    · exact Change.Apart.of_places hfor hfor' (by simp [hne])

/-- A new account is apart from a payment by an account that is there: the payer, and whoever
collects its fees. -/
theorem CreateAccounts.pairwise_effects {sender : Address} {items : List NewAccount}
    (matching : ∀ c d, ctx.design c = .ok d → d.currency = c)
    (hfact : (Intent.createAccounts sender items).check = .ok ())
    (hcheck : check ctx op sender items = .ok ())
    (h : effects ctx sender items = .ok changes) : changes.Pairwise Change.Apart := by
  simp only [effects, bind_eq_ok, pure_eq_ok] at h
  obtain ⟨charges, hcharges, balances, -, created, hcreated, settled, hsettled, rfl⟩ := h
  have distinct := Charge.nodup_currencies hcharges
  have settled_apart := pairwise_changes matching distinct (by simp) (by simp) hsettled
  refine List.pairwise_append.2 ⟨pairwise_created hfact hcreated, settled_apart, ?_⟩
  intro w hw w' hw'
  obtain ⟨cs, hcs, hw⟩ := List.mem_flatten.1 hw
  obtain ⟨item, hitem, hok⟩ := (mem_mapM hcreated).1 hcs
  obtain ⟨a, ha, hfor⟩ := exists_isFor_of_itemChanges hok hw
  obtain ⟨place, hfor', reaches⟩ := exists_reaches hsettled hw'
  have habsent : ctx.accountExists a = .ok false :=
    Context.absent_of_requireNoAccount (requireNoAccount_of_check hcheck hitem ha)
  have hsender : a ≠ sender := by
    obtain ⟨targets, hitems, -⟩ := Intent.check_createAccounts hfact
    obtain ⟨target, -, htarget, -, hne⟩ := exists_right hitems hitem
    obtain rfl : a = target := Except.ok.inj (ha.symm.trans htarget)
    exact hne
  have hbalance : ∀ c, place ≠ .balance a c := by
    rintro c rfl
    cases reaches with
    | credit h => cases h
    | fee hc collects =>
      have hthere := Charge.exists_receiver hcharges hc collects
      rw [habsent] at hthere
      cases hthere
    | debit => exact hsender rfl
  rcases hfor with hfor | ⟨c, hfor⟩
  · apply Change.Apart.of_places hfor hfor'
    rintro rfl
    cases reaches
  · exact Change.Apart.of_places hfor hfor' (hbalance c).symm

theorem Transfers.pairwise_effects {sender : Address} {items : List Transfer}
    (matching : ∀ c d, ctx.design c = .ok d → d.currency = c)
    (hfact : (Intent.transfers sender items).check = .ok ())
    (h : effects ctx sender items = .ok changes) : changes.Pairwise Change.Apart := by
  simp only [effects, bind_eq_ok] at h
  obtain ⟨charges, hcharges, balances, -, hsettled⟩ := h
  have orderly := Payment.isOrderly rfl hfact
  exact pairwise_changes matching (Charge.nodup_currencies hcharges) orderly.distinct
    orderly.foreign hsettled

theorem KeyUpdater.pairwise_effects {target : Address} {keys : KeySet} {currency : CurrencyId}
    (matching : ∀ c d, ctx.design c = .ok d → d.currency = c)
    (h : effects ctx op target keys currency = .ok changes) :
    changes.Pairwise Change.Apart := by
  simp only [effects, bind_eq_ok, pure_eq_ok] at h
  obtain ⟨checked, hchecked, settled, hsettled, rfl⟩ := h
  have distinct : (checked.charges.map Charge.currency).Nodup := by
    obtain ⟨acc, -, hchecked⟩ := bind_eq_ok.1 hchecked
    split at hchecked
    · cases hchecked
    · simp only [bind_eq_ok, pure_eq_ok] at hchecked
      obtain ⟨charges, hcharges, balances, -, rfl⟩ := hchecked
      exact Charge.nodup_currencies hcharges
  apply List.pairwise_cons.2
  constructor
  · intro w hw
    obtain ⟨place, hfor, reaches⟩ := exists_reaches hsettled hw
    apply Change.Apart.of_places (Change.isFor_account.2 rfl) hfor
    rintro rfl
    cases reaches
  · exact pairwise_changes matching distinct (by simp) (by simp) hsettled

namespace CurrencyRegister

/-- The places that are written when a design is registered. -/
def places (d : CurrencyDesign) : List Place :=
  [.design d.currency, .balance d.genesisAccount d.currency,
    .balance (.zero d.currency) d.currency, .account (.zero d.currency)]

theorem forall₂_isFor {d : CurrencyDesign} {registered : List Change}
    (h : register ctx d = .ok registered) :
    List.Forall₂ (fun w place => w.IsFor place) registered (places d) := by
  obtain ⟨current, -, h⟩ := bind_eq_ok.1 h
  cases h
  exact .cons (Change.isFor_design.2 rfl) <| .cons (Change.isFor_balance.2 rfl) <|
    .cons (Change.isFor_balance.2 rfl) <| .cons (Change.isFor_account.2 rfl) .nil

theorem nodup_places {d : CurrencyDesign} (hd : d.genesisAccount.isZero = false) :
    (places d).Nodup := by
  have hne : d.genesisAccount ≠ .zero d.currency := by
    intro he
    rw [he, Address.isZero_zero] at hd
    cases hd
  simp [places, hne]

/-- Designs of different currencies have no place in common. -/
theorem disjoint_places {d d' : CurrencyDesign} (hne : d.currency ≠ d'.currency) :
    (places d).Disjoint (places d') := by
  have hzero : Address.zero d'.currency ≠ .zero d.currency := fun h =>
    hne (Address.zero_injective h).symm
  simp [places, hne.symm, hzero]

theorem pairwise_register {d : CurrencyDesign} (hd : d.genesisAccount.isZero = false)
    (h : register ctx d = .ok changes) : changes.Pairwise Change.Apart := by
  apply pairwise_of_forall₂ (forall₂_isFor h).flip (nodup_places hd)
  intro place w hfor place' w' hfor' hne
  exact Change.Apart.of_places hfor hfor' hne

end CurrencyRegister

theorem GenesisCurrencies.pairwise_effects {nodeKey : PublicKey} {keys : KeySet}
    {designs : List CurrencyDesign}
    (hfact : (Intent.genesisCurrencies nodeKey keys designs).check = .ok ())
    (h : effects ctx keys designs = .ok changes) : changes.Pairwise Change.Apart := by
  obtain ⟨distinct, hdesigns⟩ := Intent.check_genesisCurrencies hfact
  obtain ⟨registered, hregistered, h⟩ := bind_eq_ok.1 h
  cases h
  apply List.pairwise_cons.2
  constructor
  · intro w hw
    obtain ⟨cs, hcs, hw⟩ := List.mem_flatten.1 hw
    obtain ⟨d, hd, hok⟩ := (mem_mapM hregistered).1 hcs
    obtain ⟨place, hplace, hfor⟩ := exists_right (CurrencyRegister.forall₂_isFor hok) hw
    apply Change.Apart.of_places (Change.isFor_account.2 rfl) hfor
    rintro rfl
    have hzero : Address.ofKeySet keys = .zero d.currency := by
      simpa [CurrencyRegister.places] using hplace
    have hnot := Address.isZero_ofKeySet keys
    rw [hzero, Address.isZero_zero] at hnot
    cases hnot
  · apply List.pairwise_flatten.2
    constructor
    · intro cs hcs
      obtain ⟨d, hd, hok⟩ := (mem_mapM hregistered).1 hcs
      have hcheck := CurrencyDesign.check_eq_ok.1 (hdesigns d hd).1
      exact CurrencyRegister.pairwise_register hcheck.2.2.1 hok
    · apply pairwise_of_mapM hregistered (List.pairwise_map.1 distinct)
      intro d cs hok d' cs' hok' hne w hw w' hw'
      obtain ⟨place, hplace, hfor⟩ := exists_right (CurrencyRegister.forall₂_isFor hok) hw
      obtain ⟨place', hplace', hfor'⟩ := exists_right (CurrencyRegister.forall₂_isFor hok') hw'
      apply Change.Apart.of_places hfor hfor'
      rintro rfl
      exact CurrencyRegister.disjoint_places hne hplace hplace'

theorem Mint.pairwise_effects {items : List Issue}
    (matching : ∀ c d, ctx.design c = .ok d → d.currency = c)
    (hfact : (Intent.mint items).check = .ok ()) (h : effects ctx items = .ok changes) :
    changes.Pairwise Change.Apart := by
  simp only [effects, bind_eq_ok, pure_eq_ok] at h
  obtain ⟨credits, hcredits, designs, hdesigns, rfl⟩ := h
  have of_credit : ∀ {item w}, creditChange ctx item = .ok w →
      w.IsFor (.balance item.receiver item.amount.currency) := by
    intro item w hok
    obtain ⟨current, -, hok⟩ := bind_eq_ok.1 hok
    cases hok
    exact Change.isFor_balance.2 rfl
  have of_design : ∀ {sum w}, designChange ctx sum = .ok w → w.IsFor (.design sum.currency) := by
    intro sum w hok
    obtain ⟨d, hd, hok⟩ := bind_eq_ok.1 hok
    cases hok
    rw [Change.isFor_design, ← matching _ _ hd]
    rfl
  refine List.pairwise_append.2 ⟨?_, ?_, ?_⟩
  · apply pairwise_of_mapM hcredits (List.pairwise_map.1 (Intent.check_mint hfact).1)
    intro item w hok item' w' hok' hne
    apply Change.Apart.of_places (of_credit hok) (of_credit hok')
    intro hplace
    obtain ⟨hreceiver, hcurrency⟩ := Place.balance.inj hplace
    exact hne (Prod.ext hreceiver hcurrency)
  · apply pairwise_of_mapM hdesigns (List.pairwise_map.1 (Charge.nodup_sums _))
    intro sum w hok sum' w' hok' hne
    apply Change.Apart.of_places (of_design hok) (of_design hok')
    intro hplace
    exact hne (Place.design.inj hplace)
  · intro w hw w' hw'
    obtain ⟨item, -, hok⟩ := (mem_mapM hcredits).1 hw
    obtain ⟨sum, -, hok'⟩ := (mem_mapM hdesigns).1 hw'
    exact Change.Apart.of_places (of_credit hok) (of_design hok') (by simp)

/-- No admitted operation writes a key twice. -/
theorem Context.Admits.pairwise_apart (h : ctx.Admits op changes)
    (matching : ∀ c d, ctx.design c = .ok d → d.currency = c) :
    changes.Pairwise Change.Apart := by
  have hfact := (Fact.check_eq_ok.1 h.fact).2
  have does := h.does
  generalize op.fact.intent = intent at hfact does
  cases does with
  | createAccounts check effects =>
    exact CreateAccounts.pairwise_effects matching hfact check effects
  | transfers _ effects => exact Transfers.pairwise_effects matching hfact effects
  | keyUpdater _ effects => exact KeyUpdater.pairwise_effects matching effects
  | currencyRegister _ effects =>
    exact CurrencyRegister.pairwise_register (CurrencyDesign.check_eq_ok.1 hfact).2.2.1 effects
  | currencyPolicyUpdater _ effects =>
    obtain ⟨d, -, h⟩ := bind_eq_ok.1 effects
    cases h
    exact List.pairwise_singleton _ _
  | mint _ effects => exact Mint.pairwise_effects matching hfact effects
  | suffrageCandidate _ effects =>
    obtain ⟨policy, -, h⟩ := bind_eq_ok.1 effects
    cases h
    exact List.pairwise_singleton _ _
  | suffrageJoin _ effects =>
    obtain ⟨c, -, h⟩ := bind_eq_ok.1 effects
    cases h
    apply List.pairwise_pair.2
    exact Change.Apart.of_places (Change.isFor_member.2 rfl) (Change.isFor_candidate.2 rfl)
      (by simp)
  | suffrageDisjoin _ effects =>
    obtain ⟨m, -, h⟩ := bind_eq_ok.1 effects
    cases h
    exact List.pairwise_singleton _ _
  | genesisCurrencies _ effects => exact GenesisCurrencies.pairwise_effects hfact effects

end rules

theorem Store.IsMatched.design {store : Store} (matched : store.IsMatched) {height : Height}
    {threshold : Threshold} (c : CurrencyId) (d : CurrencyDesign)
    (h : (store.context height threshold).design c = .ok d) : d.currency = c :=
  matched.designs c d (Context.design?_of_design h)

/-- An operation that a processor accepts writes no key twice, whichever of its accounts are the
same and whoever collects the fees. So its changes may be committed in any order, to any ledger and
among whatever other operations. -/
theorem nodup_keys_of_process {store : Store} (matched : store.IsMatched) {height : Height}
    {threshold : Threshold} {processor : Processor}
    (bound : processor.contextFor .process = .ok (store.context height threshold)) {op : Operation}
    {changes : List Change} (accepted : (processor.process op).1 = .ok changes) :
    (changes.map Change.key).Nodup ∧
      ∀ changes', changes.Perm changes' →
        ∀ (other : Store) (height' : Height) (digest : Digest) (before after : Store.Accepted)
          (result : List Record × Store),
          other.commit height' (before ++ (digest, changes) :: after) = .ok result ↔
            other.commit height' (before ++ (digest, changes') :: after) = .ok result := by
  obtain ⟨ctx, hctx, -, admits⟩ := Processor.process_eq_ok.1 accepted
  obtain rfl : store.context height threshold = ctx := Except.ok.inj (bound.symm.trans hctx)
  have distinct := Change.pairwise_apart.1 (admits.pairwise_apart matched.design)
  refine ⟨distinct, fun changes' perm other height' digest before after result => ?_⟩
  exact Store.commit_perm_changes perm distinct before after digest

/-- The receiver of a transfer collects its fee too, and gets one change. -/
theorem nodup_keys_of_process_transfer : ∃ changes,
    ((Processor.start .transfers (Sample.ledger.context .genesis .standard)).process
      ⟨.ofBytes [], Sample.transfer Sample.bob 10, [⟨Sample.key, [], none⟩]⟩).1 = .ok changes ∧
    (changes.map Change.key).Nodup ∧
    ∀ result, Sample.ledger.commit .genesis [(.ofBytes [], changes)] = .ok result ↔
      Sample.ledger.commit .genesis [(.ofBytes [], changes.reverse)] = .ok result := by
  have haccepted : ((Processor.start .transfers (Sample.ledger.context .genesis .standard)).process
      ⟨.ofBytes [], Sample.transfer Sample.bob 10, [⟨Sample.key, [], none⟩]⟩).1.isOk = true := by
    decide +kernel
  obtain ⟨changes, hchanges⟩ := exists_of_isOk haccepted
  obtain ⟨distinct, hcommit⟩ :=
    nodup_keys_of_process Sample.isSound_ledger.keyed.isMatched rfl hchanges
  refine ⟨changes, hchanges, distinct, fun result => ?_⟩
  exact hcommit _ changes.reverse_perm.symm Sample.ledger .genesis (.ofBytes []) [] [] result

end CurrencyLedger
