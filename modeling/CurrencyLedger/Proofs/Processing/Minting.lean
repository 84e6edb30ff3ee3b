import CurrencyLedger.Proofs.Processing.Accounting
import CurrencyLedger.Proofs.Processing.Amendment

/-!
What a mint issues. Each item is settled on the ledger as it was, so the items of one balance would
write over each other: `Intent.check_mint` is why there is one item for each balance, and
`commit_of_mint` that balances, designs and totals then grow by what the items say.
-/

namespace CurrencyLedger

open Traversal Settlement

namespace Mint

/-- The items as credits of their receivers. -/
def credits (items : List Issue) : List Credit :=
  items.map fun item => ⟨item.receiver, item.amount⟩

def amounts (items : List Issue) : List Amount :=
  items.map (·.amount)

/-- What the items issue to an address in a currency. -/
def issuedTo (items : List Issue) (a : Address) (c : CurrencyId) : Int :=
  creditedTo (credits items) a c

/-- What the items issue in a currency, to whomever. -/
def issued (items : List Issue) (c : CurrencyId) : Int :=
  Amount.sumIn (amounts items) c

variable {items : List Issue}

theorem mem_credits {item : Issue} (h : item ∈ items) :
    (⟨item.receiver, item.amount⟩ : Credit) ∈ credits items :=
  List.mem_map.2 ⟨item, h, rfl⟩

theorem sum_issuedTo {addresses : Finset Address}
    (receivers : ∀ item ∈ items, item.receiver ∈ addresses) (c : CurrencyId) :
    ∑ a ∈ addresses, issuedTo items a c = issued items c := by
  have hamounts : (credits items).map Credit.amount = amounts items := by
    rw [credits, List.map_map]
    rfl
  rw [issued, ← hamounts]
  apply sum_creditedTo
  intro credit hcredit
  obtain ⟨item, hitem, rfl⟩ := List.mem_map.1 hcredit
  exact receivers item hitem

theorem exists_item_of_issuedTo {a : Address} {c : CurrencyId} (h : issuedTo items a c ≠ 0) :
    ∃ item ∈ items, item.receiver = a ∧ item.amount.currency = c := by
  by_contra hnone
  apply h
  apply creditedTo_eq_zero
  intro credit hcredit hplace
  obtain ⟨item, hitem, rfl⟩ := List.mem_map.1 hcredit
  obtain ⟨hreceiver, hcurrency⟩ := Prod.mk.inj hplace
  exact hnone ⟨item, hitem, hreceiver, hcurrency⟩

/-- An item is all that is issued to its balance, since no other item names it. -/
theorem issuedTo_eq (valid : (Intent.mint items).check = .ok ()) {item : Issue}
    (h : item ∈ items) :
    issuedTo items item.receiver item.amount.currency = item.amount.magnitude := by
  have distinct : ((credits items).map Credit.place).Nodup := by
    rw [credits, List.map_map]
    exact (Intent.check_mint valid).1
  exact creditedTo_eq distinct (mem_credits h)

/-- The changes of a mint: each raises a balance or a design by all that is issued there. -/
structure Issues (store : Store) (items : List Issue) (changes : List Change) : Prop where
  only : ∀ w ∈ changes,
    (∃ item ∈ items, w = .balance item.receiver
      ⟨store.balance item.receiver item.amount.currency +
        issuedTo items item.receiver item.amount.currency, item.amount.currency⟩) ∨
    ∃ d, Amount.Names (amounts items) d.currency ∧ store.design? d.currency = some d ∧
      w = .design (d.issue (issued items d.currency))
  balance : ∀ item ∈ items,
    ∃ w ∈ changes, w.IsFor (.balance item.receiver item.amount.currency)
  design : ∀ c, Amount.Names (amounts items) c →
    (store.design? c).isSome ∧ ∃ w ∈ changes, w.IsFor (.design c)

theorem issues_of_effects {store : Store} {height : Height} {threshold : Threshold}
    {changes : List Change} (keyed : store.IsKeyed) (valid : (Intent.mint items).check = .ok ())
    (h : effects (store.context height threshold) items = .ok changes) :
    Issues store items changes where
  only w hw := by
    rcases (mem_effects h).1 hw with ⟨item, hitem, hcredit⟩ | ⟨sum, hsum, hdesign⟩
    · left
      rw [creditChange, Context.balance_eq keyed] at hcredit
      cases hcredit
      exact ⟨item, hitem, by rw [issuedTo_eq valid hitem]⟩
    · right
      obtain ⟨d, hd, rfl⟩ := designChange_eq_ok hdesign
      obtain ⟨named, hmagnitude⟩ := Charge.mem_sums.1 hsum
      have hcurrency := keyed.currency_eq hd
      rw [← hcurrency] at hd named hmagnitude
      exact ⟨d, named, hd, by rw [hmagnitude]; rfl⟩
  balance item hitem := by
    simp only [effects, bind_eq_ok, pure_eq_ok] at h
    obtain ⟨credits, hcredits, designs, -, rfl⟩ := h
    obtain ⟨w, hw, hcredit⟩ := exists_right (mapM_eq_ok_iff.1 hcredits) hitem
    rw [creditChange, Context.balance_eq keyed] at hcredit
    cases hcredit
    exact ⟨_, List.mem_append_left _ hw, Change.isFor_balance.2 rfl⟩
  design c named := by
    have hsum : (⟨issued items c, c⟩ : Amount) ∈ (Charge.sums (amounts items)).toList :=
      Charge.mem_sums.2 ⟨named, rfl⟩
    simp only [effects, bind_eq_ok, pure_eq_ok] at h
    obtain ⟨credits, -, designs, hdesigns, rfl⟩ := h
    obtain ⟨w, hw, hdesign⟩ := exists_right (mapM_eq_ok_iff.1 hdesigns) hsum
    obtain ⟨d, hd, rfl⟩ := designChange_eq_ok hdesign
    have hcurrency : d.currency = c := keyed.currency_eq hd
    refine ⟨Option.isSome_iff_exists.2 ⟨d, hd⟩, _, List.mem_append_right _ hw, ?_⟩
    exact Change.isFor_design.2 (congrArg Place.design hcurrency)

namespace Issues

variable {store store' : Store} {height : Height} {digest : Digest} {changes : List Change}
  {records : List Record}
variable (issues : Issues store items changes) {w : Change} (hw : w ∈ changes)
include issues hw

theorem replaces : w.strategy = .replace := by
  rcases issues.only w hw with ⟨item, -, rfl⟩ | ⟨d, -, -, rfl⟩ <;> rfl

theorem regular : w.Regular := by
  rcases issues.only w hw with ⟨item, -, rfl⟩ | ⟨d, -, -, rfl⟩
  · exact .balance ..
  · exact .design _

theorem eq_balance {a : Address} {c : CurrencyId} (hfor : w.IsFor (.balance a c)) :
    w = .balance a ⟨store.balance a c + issuedTo items a c, c⟩ := by
  rcases issues.only w hw with ⟨item, -, rfl⟩ | ⟨d, -, -, rfl⟩
  · obtain ⟨rfl, rfl⟩ := Place.balance.inj (Change.isFor_balance.1 hfor)
    rfl
  · cases Change.isFor_design.1 hfor

theorem eq_design {c : CurrencyId} (hfor : w.IsFor (.design c)) :
    ∃ d, store.design? c = some d ∧ w = .design (d.issue (issued items c)) := by
  rcases issues.only w hw with ⟨item, -, rfl⟩ | ⟨d, -, hd, rfl⟩
  · cases Change.isFor_balance.1 hfor
  · obtain rfl : d.currency = c := Place.design.inj (Change.isFor_design.1 hfor)
    exact ⟨d, hd, rfl⟩

end Issues

section commit

variable {store store' : Store} {height : Height} {digest : Digest} {changes : List Change}
  {records : List Record}
variable (issues : Issues store items changes)
  (h : store.commit height [(digest, changes)] = .ok (records, store'))
include issues h

theorem Issues.balance_commit (a : Address) (c : CurrencyId) :
    store'.balance a c = store.balance a c + issuedTo items a c := by
  apply Store.balance_commit_of_gain h
  · intro w hw
    exact issues.eq_balance (Store.mem_writes_singleton.1 hw).2
  · intro hissued
    obtain ⟨item, hitem, rfl, rfl⟩ := exists_item_of_issuedTo hissued
    obtain ⟨w, hw, hfor⟩ := issues.balance item hitem
    exact ⟨(digest, w), Store.mem_writes_singleton.2 ⟨rfl, hw⟩, hfor⟩

theorem Issues.design_commit (c : CurrencyId) :
    store'.design? c = (store.design? c).map fun d => d.issue (issued items c) := by
  apply Store.design?_commit_of_issue h
  · intro w hw
    exact issues.eq_design (Store.mem_writes_singleton.1 hw).2
  · intro hissued _
    have named : Amount.Names (amounts items) c := by
      by_contra hnone
      exact hissued (Amount.sumIn_eq_zero hnone)
    obtain ⟨-, w, hw, hfor⟩ := issues.design c named
    exact ⟨(digest, w), Store.mem_writes_singleton.2 ⟨rfl, hw⟩, hfor⟩

theorem Issues.total_commit (keyed : store.IsKeyed) (c : CurrencyId) :
    store'.total c = store.total c + issued items c := by
  classical
  obtain ⟨addresses, haddresses⟩ := Store.exists_written (Store.writes [(digest, changes)]) c
  let all := addresses ∪ (items.map Issue.receiver).toFinset
  have hsub : store'.total c - store.total c =
      ∑ a ∈ all, (store'.balance a c - store.balance a c) := by
    apply Store.total_commit keyed _ h
    · intro a hw
      exact Finset.mem_union_left _ (haddresses a hw)
    · intro w hw
      exact issues.regular (Store.mem_writes_singleton.1 hw).2
  have hissued : ∑ a ∈ all, (store'.balance a c - store.balance a c) = issued items c := by
    have receivers : ∀ item ∈ items, item.receiver ∈ all := fun item hitem =>
      Finset.mem_union_right _ (List.mem_toFinset.2 (List.mem_map_of_mem hitem))
    rw [← sum_issuedTo receivers]
    apply Finset.sum_congr rfl
    intro a _
    rw [issues.balance_commit h]
    omega
  rw [hissued] at hsub
  omega

/-- Nothing is written but the balances that items name, and the designs of their currencies. -/
theorem Issues.get?_commit {key : String}
    (hbalance : ∀ item ∈ items, key ≠ RecordKey.balance item.receiver item.amount.currency)
    (hdesign : ∀ item ∈ items, key ≠ RecordKey.design item.amount.currency) :
    store'.get? key = store.get? key := by
  apply Store.get?_commit_of_not_written h
  intro w hw hkey
  rcases issues.only w.2 (Store.mem_writes_singleton.1 hw).2 with
    ⟨item, hitem, he⟩ | ⟨d, named, -, he⟩
  · rw [he] at hkey
    exact hbalance item hitem hkey.symm
  · rw [he] at hkey
    obtain ⟨amount, hamount, hcurrency⟩ := named
    obtain ⟨item, hitem, rfl⟩ := List.mem_map.1 hamount
    apply hdesign item hitem
    rw [hcurrency]
    exact hkey.symm

end commit

end Mint

/-- One mint that a processor accepts, on any ledger whose records are what their keys say. Each
balance grows by the sum of the items that name it, each design and each total by the sum of the
items in its currency, and no other record is touched. -/
theorem commit_of_mint {store : Store} (keyed : store.IsKeyed) {height : Height}
    {threshold : Threshold} {processor : Processor}
    (bound : processor.contextFor .process = .ok (store.context height threshold)) {op : Operation}
    {items : List Issue} (intent : op.fact.intent = .mint items) {changes : List Change}
    (accepted : (processor.process op).1 = .ok changes) (height' : Height) (digest : Digest) :
    ∃ records store', store.commit height' [(digest, changes)] = .ok (records, store') ∧
      (∀ a c, store'.balance a c = store.balance a c + Mint.issuedTo items a c) ∧
      (∀ c, Amount.Names (Mint.amounts items) c → (store.design? c).isSome) ∧
      (∀ c, store'.design? c = (store.design? c).map fun d => d.issue (Mint.issued items c)) ∧
      (∀ c, store'.total c = store.total c + Mint.issued items c) ∧
      (∀ c d d', store.design? c = some d → store'.design? c = some d' →
        d'.aggregate - d.aggregate = store'.total c - store.total c) ∧
      ∀ key, (∀ item ∈ items, key ≠ RecordKey.balance item.receiver item.amount.currency) →
        (∀ item ∈ items, key ≠ RecordKey.design item.amount.currency) →
        store'.get? key = store.get? key := by
  obtain ⟨ctx, hctx, -, hadmits⟩ := Processor.process_eq_ok.1 accepted
  obtain rfl : store.context height threshold = ctx := Except.ok.inj (bound.symm.trans hctx)
  have hfact := (Fact.check_eq_ok.1 hadmits.fact).2
  have heffects := hadmits.effects
  unfold Rules.effects at heffects
  rw [Operation.kind, Fact.kind, intent] at heffects
  rw [intent] at hfact
  have issues := Mint.issues_of_effects keyed hfact heffects
  obtain ⟨records, store', h⟩ := @Store.exists_commit_of_replace store height' [(digest, changes)]
    fun w hw => issues.replaces (Store.mem_writes_singleton.1 hw).2
  refine ⟨records, store', h, issues.balance_commit h, fun c named => (issues.design c named).1,
    issues.design_commit h, issues.total_commit h keyed, fun c d d' hd hd' => ?_,
    fun key => issues.get?_commit h⟩
  rw [issues.design_commit h, hd, Option.map_some] at hd'
  cases hd'
  change d.aggregate + Mint.issued items c - d.aggregate = _
  rw [issues.total_commit h keyed]
  omega

namespace Sample

def silver : CurrencyId := ⟨"SLV", by decide +kernel, by decide +kernel⟩

/-- The ledger with a second currency, and one member who may mint. -/
def treasury : Store :=
  (ledger.setDesign (.initial ⟨500, silver⟩ alice ⟨1, .nil⟩)).setMembers
    (.ofList [⟨alice, key, .genesis⟩])

theorem isSound_treasury : treasury.IsSound :=
  Store.IsSound.set (isSound_ledger.setDesign rfl) .suffrage trivial (.inl rfl)

/-- Two currencies for one receiver, and two receivers of one currency. -/
def coinage : List Issue :=
  [⟨bob, ⟨5, currency⟩⟩, ⟨bob, ⟨7, silver⟩⟩, ⟨carol, ⟨2, currency⟩⟩]

def strike : Operation :=
  ⟨.ofBytes [], ⟨[1], .mint coinage⟩, [⟨key, [], some alice⟩]⟩

end Sample

theorem commit_of_mint_coinage : ∃ changes records store',
    Sample.treasury.commit .genesis [(.ofBytes [], changes)] = .ok (records, store') ∧
    store'.balance Sample.bob Sample.currency = 5 ∧
    store'.balance Sample.bob Sample.silver = 7 ∧
    store'.balance Sample.alice Sample.currency = 100 ∧
    store'.total Sample.currency = 107 := by
  have haccepted : ((Processor.start .mint (Sample.treasury.context .genesis .standard)).process
      Sample.strike).1.isOk = true := by
    decide +kernel
  obtain ⟨changes, hchanges⟩ := exists_of_isOk haccepted
  obtain ⟨records, store', hcommit, hbalance, -, -, htotal, -⟩ :=
    commit_of_mint Sample.isSound_treasury.keyed rfl rfl hchanges .genesis (.ofBytes [])
  refine ⟨changes, records, store', hcommit, ?_, ?_, ?_, ?_⟩
  · rw [hbalance]
    decide +kernel
  · rw [hbalance]
    decide +kernel
  · rw [hbalance]
    decide +kernel
  · rw [htotal]
    decide +kernel

end CurrencyLedger
