import CurrencyLedger.Proofs.Ledger.Total
import CurrencyLedger.Proofs.Processing.Paid
import Mathlib.Algebra.BigOperators.Group.Finset.Piecewise
import Mathlib.Data.Finset.Option

/-!
The accounts after one operation of an account. `commit_of_process` says what every record of the
ledger is then; `Payment.sum_gain` is why no money comes or goes.
-/

namespace CurrencyLedger

open Traversal Settlement

theorem Settlement.sum_creditedTo {credits : List Credit} {addresses : Finset Address}
    (h : ∀ credit ∈ credits, credit.receiver ∈ addresses) (c : CurrencyId) :
    ∑ a ∈ addresses, creditedTo credits a c = Amount.sumIn (credits.map Credit.amount) c := by
  induction credits with
  | nil => simp [creditedTo, Amount.sumIn]
  | cons credit rest ih =>
    have hrest := ih fun other ho => h other (List.mem_cons_of_mem _ ho)
    have hcredit : ∑ a ∈ addresses,
        (if credit.place = (a, c) then credit.amount.magnitude else 0) =
          if credit.amount.currency = c then credit.amount.magnitude else 0 := by
      by_cases hc : credit.amount.currency = c
      · simp [Credit.place, hc, h credit List.mem_cons_self]
      · simp [Credit.place, hc]
    simp only [creditedTo, Finset.sum_add_distrib, hcredit, hrest, List.map_cons, Amount.sumIn]

/-- What a payment takes from its payer it gives to others. -/
theorem Payment.sum_gain {p : Payment} (orderly : p.IsOrderly) (store : Store) (c : CurrencyId)
    {addresses : Finset Address} (payer : p.payer ∈ addresses)
    (receivers : ∀ credit ∈ p.credits, credit.receiver ∈ addresses)
    (collector : ∀ a, store.feeReceiver? c = some a → a ∈ addresses) :
    ∑ a ∈ addresses, p.gain store a c = 0 := by
  have hfee : ∑ a ∈ addresses,
      (if store.feeReceiver? c = some a then store.feeOn p.amounts c else 0) =
        store.feeOn p.amounts c := by
    cases hr : store.feeReceiver? c with
    | none => simp [Store.feeOn_eq_zero hr]
    | some receiver => simp [collector receiver hr]
  have hpaid : ∑ a ∈ addresses,
      (if a = p.payer then Amount.sumIn p.amounts c + store.feeOn p.amounts c else 0) =
        Amount.sumIn p.amounts c + store.feeOn p.amounts c := by
    simp [payer]
  simp only [gain, Finset.sum_sub_distrib, Finset.sum_add_distrib, sum_creditedTo receivers, hfee,
    hpaid]
  rw [orderly.spent]
  omega

/-- So do the addresses at which the payment changes something. -/
theorem Payment.sum_gain_of_gaining {p : Payment} (orderly : p.IsOrderly) (store : Store)
    (c : CurrencyId) {addresses : Finset Address}
    (gaining : ∀ a ∉ addresses, p.gain store a c = 0) :
    ∑ a ∈ addresses, p.gain store a c = 0 := by
  classical
  let all := insert p.payer (addresses ∪ ((p.credits.map Credit.receiver).toFinset ∪
    (store.feeReceiver? c).toFinset))
  have hall : ∑ a ∈ all, p.gain store a c = 0 := by
    refine sum_gain orderly store c (Finset.mem_insert_self _ _) (fun credit hc => ?_)
      fun a ha => ?_
    · exact Finset.mem_insert_of_mem (Finset.mem_union_right _ (Finset.mem_union_left _
        (List.mem_toFinset.2 (List.mem_map_of_mem hc))))
    · exact Finset.mem_insert_of_mem (Finset.mem_union_right _ (Finset.mem_union_right _
        (Option.mem_toFinset.2 ha)))
  rw [← hall]
  refine Finset.sum_subset (fun a ha => ?_) fun a _ ha => gaining a ha
  exact Finset.mem_insert_of_mem (Finset.mem_union_left _ ha)

namespace IsPaid

variable {intent : Intent} {p : Payment} {store : Store} {changes : List Change}
variable (paid : IsPaid intent p store changes) {w : Change} (hw : w ∈ changes)
include paid hw

theorem regular : w.Regular := by
  rcases paid.only w hw with ⟨a, c, -, rfl⟩ | ⟨c, d, -, -, rfl⟩ | ⟨acc, -, rfl⟩
  · exact .balance ..
  · exact .design _
  · exact .account acc

theorem replaces : w.strategy = .replace := by
  rcases paid.only w hw with ⟨a, c, -, rfl⟩ | ⟨c, d, -, -, rfl⟩ | ⟨acc, -, rfl⟩ <;> rfl

theorem eq_balanceChange {a : Address} {c : CurrencyId} (hfor : w.IsFor (.balance a c)) :
    w = p.balanceChange store a c := by
  rcases paid.only w hw with ⟨b, d, -, rfl⟩ | ⟨_, d, -, -, rfl⟩ | ⟨acc, -, rfl⟩
  · obtain ⟨rfl, rfl⟩ := Place.balance.inj (Change.isFor_balance.1 hfor)
    rfl
  · cases Change.isFor_design.1 hfor
  · cases Change.isFor_account.1 hfor

theorem eq_designChange (keyed : store.IsKeyed) {c : CurrencyId} (hfor : w.IsFor (.design c)) :
    ∃ d, store.design? c = some d ∧ w = p.designChange store d := by
  rcases paid.only w hw with ⟨b, d, -, rfl⟩ | ⟨c', d, hd, -, rfl⟩ | ⟨acc, -, rfl⟩
  · cases Change.isFor_balance.1 hfor
  · obtain rfl : d.currency = c := Place.design.inj (Change.isFor_design.1 hfor)
    rw [← keyed.currency_eq hd] at hd
    exact ⟨d, hd, rfl⟩
  · cases Change.isFor_account.1 hfor

theorem eq_account {a : Address} (hfor : w.IsFor (.account a)) :
    ∃ acc ∈ intent.accounts, acc.address = a ∧ w = .account acc := by
  rcases paid.only w hw with ⟨b, d, -, rfl⟩ | ⟨_, d, -, -, rfl⟩ | ⟨acc, hacc, rfl⟩
  · cases Change.isFor_balance.1 hfor
  · cases Change.isFor_design.1 hfor
  · exact ⟨acc, hacc, Place.account.inj (Change.isFor_account.1 hfor), rfl⟩

end IsPaid

section commit

variable {intent : Intent} {p : Payment} {store store' : Store} {changes : List Change}
  {height : Height} {digest : Digest} {records : List Record}
variable (keyed : store.IsKeyed) (paid : IsPaid intent p store changes)
  (h : store.commit height [(digest, changes)] = .ok (records, store'))
include paid h

theorem IsPaid.balance_commit (a : Address) (c : CurrencyId) :
    store'.balance a c = store.balance a c + p.gain store a c := by
  apply Store.balance_commit_of_gain h
  · intro w hw hfor
    exact paid.eq_balanceChange (Store.mem_writes_singleton.1 hw).2 hfor
  · intro hg
    refine ⟨(digest, p.balanceChange store a c), ?_, Change.isFor_balance.2 rfl⟩
    exact Store.mem_writes_singleton.2 ⟨rfl, paid.balance a c hg⟩

theorem IsPaid.account_commit (distinct : (intent.accounts.map Account.address).Nodup)
    {acc : Account} (hacc : acc ∈ intent.accounts) : store'.account? acc.address = some acc := by
  rw [Store.account?_eq_some]
  refine Store.at?_commit_of_written h (fun w hw hfor => ?_)
    ⟨(digest, .account acc), Store.mem_writes_singleton.2 ⟨rfl, paid.account acc hacc⟩,
      Change.isFor_account.2 rfl⟩
  obtain ⟨acc', hacc', ha, hw⟩ := paid.eq_account (Store.mem_writes_singleton.1 hw).2 hfor
  obtain rfl : acc' = acc := List.inj_on_of_nodup_map distinct hacc' hacc ha
  rw [hw]
  exact ⟨rfl, rfl⟩

include keyed

theorem IsPaid.design_commit (c : CurrencyId) :
    store'.design? c = (store.design? c).map fun d => d.issue (store.feeOn p.amounts c) := by
  apply Store.design?_commit_of_issue h
  · intro w hw hfor
    obtain ⟨d, hd, he⟩ := paid.eq_designChange (Store.mem_writes_singleton.1 hw).2 keyed hfor
    rw [he, Payment.designChange, keyed.currency_eq hd]
    exact ⟨d, hd, rfl⟩
  · intro hfee hthere
    obtain ⟨d, hd⟩ := Option.isSome_iff_exists.1 hthere
    have hcurrency : d.currency = c := keyed.currency_eq hd
    refine ⟨(digest, p.designChange store d), ?_, ?_⟩
    · exact Store.mem_writes_singleton.2 ⟨rfl, paid.design c d hd hfee⟩
    · exact Change.isFor_design.2 (congrArg Place.design hcurrency)

/-- Nothing is written but balances, the accounts of the intent, and designs of currencies in which
it pays a fee. -/
theorem IsPaid.get?_commit {key : String} (hbalance : ∀ a c, key ≠ RecordKey.balance a c)
    (haccount : ∀ acc ∈ intent.accounts, key ≠ RecordKey.account acc.address)
    (hdesign : ∀ c, 0 < store.feeOn p.amounts c → key ≠ RecordKey.design c) :
    store'.get? key = store.get? key := by
  refine Store.get?_commit_of_not_written h fun w hw hkey => ?_
  rcases paid.only w.2 (Store.mem_writes_singleton.1 hw).2 with
    ⟨a, c, -, he⟩ | ⟨c, d, hd, hfee, he⟩ | ⟨acc, hacc, he⟩ <;> rw [he] at hkey
  · exact hbalance a c hkey.symm
  · obtain rfl := keyed.currency_eq hd
    exact hdesign d.currency hfee hkey.symm
  · exact haccount acc hacc hkey.symm

theorem IsPaid.total_commit (orderly : p.IsOrderly) (c : CurrencyId) :
    store'.total c = store.total c := by
  obtain ⟨addresses, haddresses⟩ := Store.exists_written (Store.writes [(digest, changes)]) c
  have hsub : store'.total c - store.total c =
      ∑ a ∈ addresses, (store'.balance a c - store.balance a c) :=
    Store.total_commit keyed (fun w hw => paid.regular (Store.mem_writes_singleton.1 hw).2) h
      haddresses
  have hgain : ∑ a ∈ addresses, (store'.balance a c - store.balance a c) =
      ∑ a ∈ addresses, p.gain store a c := by
    apply Finset.sum_congr rfl
    intro a _
    rw [paid.balance_commit h]
    omega
  have hzero : ∑ a ∈ addresses, p.gain store a c = 0 := by
    apply Payment.sum_gain_of_gaining orderly store c
    intro a ha
    by_contra hg
    refine ha (haddresses a ⟨(digest, p.balanceChange store a c), ?_, Change.isFor_balance.2 rfl⟩)
    exact Store.mem_writes_singleton.2 ⟨rfl, paid.balance a c hg⟩
  rw [hgain, hzero] at hsub
  omega

end commit

/-- One operation of an account that a processor accepts, on any sound ledger. Every balance changes
by what the operation credits to it, the fee if it is collected there, and what the payer pays, in
whatever way these accounts coincide; no total changes, and nothing is written besides balances, the
accounts that are created or get new keys, and the designs of the fees. -/
theorem commit_of_process {store : Store} (sound : store.IsSound) {height : Height}
    {threshold : Threshold} {processor : Processor}
    (bound : processor.contextFor .process = .ok (store.context height threshold)) {op : Operation}
    (owned : op.kind.isNodeLevel = false) {changes : List Change}
    (accepted : (processor.process op).1 = .ok changes) (height' : Height) (digest : Digest) :
    ∃ p records store', op.fact.intent.payment? = some p ∧
      store.commit height' [(digest, changes)] = .ok (records, store') ∧
      (∀ a c, store'.balance a c = store.balance a c + creditedTo p.credits a c +
        (if store.feeReceiver? c = some a then store.feeOn p.amounts c else 0) -
        if a = p.payer then Amount.sumIn p.amounts c + store.feeOn p.amounts c else 0) ∧
      (∀ c, store'.total c = store.total c) ∧
      (∀ acc ∈ op.fact.intent.accounts, store'.account? acc.address = some acc) ∧
      (∀ c, store'.design? c =
        (store.design? c).map fun d => d.issue (store.feeOn p.amounts c)) ∧
      ∀ key, (∀ a c, key ≠ RecordKey.balance a c) →
        (∀ acc ∈ op.fact.intent.accounts, key ≠ RecordKey.account acc.address) →
        (∀ c, 0 < store.feeOn p.amounts c → key ≠ RecordKey.design c) →
        store'.get? key = store.get? key := by
  obtain ⟨p, hp⟩ := Intent.exists_payment owned
  obtain ⟨ctx, hctx, -, hadmits⟩ := Processor.process_eq_ok.1 accepted
  obtain rfl : store.context height threshold = ctx := Except.ok.inj (bound.symm.trans hctx)
  have hfact := (Fact.check_eq_ok.1 hadmits.fact).2
  have paid := (isPaid_of_admits sound.keyed sound.designs sound.owners hp hadmits).2
  obtain ⟨records, store', h⟩ := @Store.exists_commit_of_replace store height' [(digest, changes)]
    fun w hw => paid.replaces (Store.mem_writes_singleton.1 hw).2
  refine ⟨p, records, store', hp, h, fun a c => ?_,
    paid.total_commit sound.keyed h (Payment.isOrderly hp hfact),
    fun acc => paid.account_commit h (Intent.nodup_accounts hfact),
    paid.design_commit sound.keyed h, fun key => paid.get?_commit sound.keyed h⟩
  rw [paid.balance_commit h, Payment.gain]
  omega

namespace Sample

def point : Curve.Point := ⟨false, Curve.generatorX, by decide +kernel⟩

def key : PublicKey := ⟨.native, point⟩

def keys : KeySet :=
  ⟨[⟨key, 100⟩], 100, by simp, by decide, by decide, by decide, by simp, by decide⟩

def alice : Address := ⟨"alice", .native, by decide +kernel, by decide +kernel⟩

def bob : Address := ⟨"bob", .native, by decide +kernel, by decide +kernel⟩

def carol : Address := ⟨"carol", .native, by decide +kernel, by decide +kernel⟩

def currency : CurrencyId := ⟨"MCC", by decide +kernel, by decide +kernel⟩

/-- Each operation costs three, which go to one of the accounts. -/
def design : CurrencyDesign := .initial ⟨1000, currency⟩ alice ⟨1, .fixed bob 3⟩

def accounts : Store :=
  (((Store.setDesign .empty design).setAccount ⟨alice, some keys⟩).setAccount
    ⟨bob, some keys⟩).setAccount ⟨carol, some keys⟩

theorem isSound_accounts : accounts.IsSound := by
  have hdesign : (Store.setDesign .empty design).IsSound := Store.isSound_empty.setDesign rfl
  exact ((hdesign.setAccount _).setAccount _).setAccount _

def ledger : Store :=
  accounts.setBalance alice ⟨100, currency⟩

theorem isSound_ledger : ledger.IsSound :=
  isSound_accounts.setBalance _ rfl

def transfer (receiver : Address) (amount : Int) : Fact :=
  ⟨[1], .transfers alice [⟨receiver, [⟨amount, currency⟩]⟩]⟩

end Sample

/-- The fee receiver is credited anyway here, and both end in one change. -/
theorem commit_of_process_transfer : ∃ changes records store',
    Sample.ledger.commit .genesis [(.ofBytes [], changes)] = .ok (records, store') ∧
    store'.balance Sample.bob Sample.currency = 13 ∧
    store'.balance Sample.alice Sample.currency = 87 := by
  have haccepted : ((Processor.start .transfers (Sample.ledger.context .genesis .standard)).process
      ⟨.ofBytes [], Sample.transfer Sample.bob 10, [⟨Sample.key, [], none⟩]⟩).1.isOk = true := by
    decide +kernel
  obtain ⟨changes, hchanges⟩ := exists_of_isOk haccepted
  obtain ⟨p, records, store', hp, hcommit, hbalance, -⟩ :=
    commit_of_process Sample.isSound_ledger rfl rfl hchanges .genesis (.ofBytes [])
  cases hp
  refine ⟨changes, records, store', hcommit, ?_, ?_⟩
  · rw [hbalance]
    decide +kernel
  · rw [hbalance]
    decide +kernel

end CurrencyLedger
