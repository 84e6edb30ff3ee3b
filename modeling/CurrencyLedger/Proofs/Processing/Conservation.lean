import CurrencyLedger.Proofs.Ledger.Overwrite
import CurrencyLedger.Proofs.Processing.Ownership

/-!
Money over a batch. An operation that does not issue any moves what there is; but operations settle
on the ledger before the batch, so where two write the same balance one of them is lost. A total
changes by just that, and keeps where no balance is written twice.
-/

namespace CurrencyLedger

open Traversal

/-- The kinds of operations that make money. -/
def OperationKind.issues : OperationKind → Bool
  | .mint | .currencyRegister | .genesisCurrencies => true
  | _ => false

theorem IsPaid.gain_eq {intent : Intent} {p : Payment} {store : Store} {changes : List Change}
    (paid : IsPaid intent p store changes) (a : Address) (c : CurrencyId) :
    store.gain changes a c = p.gain store a c := by
  cases hwritten : Change.written? changes a c with
  | none =>
    rw [Store.gain_of_not_written hwritten]
    by_contra hg
    exact Change.written?_eq_none.1 hwritten _ (paid.balance a c (Ne.symm hg))
      (Change.isFor_balance.2 rfl)
  | some n =>
    obtain ⟨w, hw, hfor, hn⟩ := Change.exists_of_written? hwritten
    rw [paid.eq_balanceChange hw hfor] at hn
    obtain rfl : store.balance a c + p.gain store a c = n := hn
    rw [Store.gain, hwritten, Option.map_some, Option.getD_some]
    omega

/-- Policies and the suffrage are no money. -/
theorem Context.Admits.not_isFor_balance {ctx : Context} {op : Operation} {changes : List Change}
    (h : ctx.Admits op changes) (node : op.kind.isNodeLevel = true) (hk : op.kind.issues = false)
    {w : Change} (hw : w ∈ changes) (a : Address) (c : CurrencyId) : ¬w.IsFor (.balance a c) := by
  have heffects := h.effects
  rw [Operation.kind, Fact.kind] at heffects node hk
  unfold Rules.effects at heffects
  cases hintent : op.fact.intent <;> rw [hintent] at heffects node hk
  case currencyPolicyUpdater =>
    obtain ⟨d, -, h⟩ := bind_eq_ok.1 heffects
    cases h
    simp [List.mem_singleton.1 hw]
  case suffrageCandidate =>
    obtain ⟨policy, -, h⟩ := bind_eq_ok.1 heffects
    cases h
    simp [List.mem_singleton.1 hw]
  case suffrageJoin =>
    obtain ⟨candidate, -, h⟩ := bind_eq_ok.1 heffects
    cases h
    simp only [List.mem_cons, List.not_mem_nil, or_false] at hw
    rcases hw with rfl | rfl <;> simp
  case suffrageDisjoin =>
    obtain ⟨member, -, h⟩ := bind_eq_ok.1 heffects
    cases h
    simp [List.mem_singleton.1 hw]
  case createAccounts | transfers | keyUpdater => cases node
  case currencyRegister | mint | genesisCurrencies => cases hk

/-- One operation that issues nothing gives as much as it takes. -/
theorem Context.Admits.sum_gain {store : Store} (sound : store.IsSound) {height : Height}
    {threshold : Threshold} {op : Operation} {changes : List Change}
    (h : (store.context height threshold).Admits op changes) (hk : op.kind.issues = false)
    {c : CurrencyId} {addresses : Finset Address}
    (written : ∀ a, (∃ w ∈ changes, w.IsFor (.balance a c)) → a ∈ addresses) :
    ∑ a ∈ addresses, store.gain changes a c = 0 := by
  cases hi : op.kind.isNodeLevel with
  | false =>
    obtain ⟨p, hp⟩ := Intent.exists_payment hi
    have paid := (isPaid_of_admits sound.keyed sound.designs sound.owners hp h).2
    have orderly := Payment.isOrderly hp (Fact.check_eq_ok.1 h.fact).2
    rw [Finset.sum_congr rfl fun a _ => paid.gain_eq a c]
    apply Payment.sum_gain_of_gaining orderly store c
    intro a ha
    by_contra hg
    exact ha (written a ⟨_, paid.balance a c hg, Change.isFor_balance.2 rfl⟩)
  | true =>
    refine Finset.sum_eq_zero fun a _ => Store.gain_of_not_written ?_
    exact Change.written?_eq_none.2 fun w hw => h.not_isFor_balance hi hk hw a c

namespace Dispatcher

/-- The totals after a batch of operations that issue nothing. -/
theorem total_add_lost {store store' : Store} (sound : store.IsSound) {config : EngineConfig}
    {d : Dispatcher} (reads : d.context.read = store.reader) {ops : List Operation}
    {accepted : Store.Accepted}
    (hall : List.Forall₂ (Makes config.networkBytes d.context) (d.acceptedOperations ops) accepted)
    (moving : ∀ op ∈ d.acceptedOperations ops, op.kind.issues = false)
    {height : Height} {records : List Record}
    (hcommit : store.commit height accepted = .ok (records, store')) {c : CurrencyId}
    {addresses : Finset Address}
    (written : ∀ a, (∃ w ∈ Store.writes accepted, w.2.IsFor (.balance a c)) → a ∈ addresses) :
    store'.total c + ∑ a ∈ addresses, store.lost a c accepted = store.total c := by
  have regular : ∀ w ∈ Store.writes accepted, w.2.Regular := fun w hw => by
    obtain ⟨op, hop⟩ := exists_wrote sound.keyed sound.designs hall reads
      (List.mem_map_of_mem hw)
    exact hop.effect.regular
  have hgain : ∀ entry ∈ accepted, ∑ a ∈ addresses, store.gain entry.2 a c = 0 := by
    intro entry hentry
    obtain ⟨op, hop, hmakes⟩ := exists_left hall hentry
    have hadmits := hmakes.admits
    rw [context_eq reads] at hadmits
    apply hadmits.sum_gain sound (moving op hop)
    rintro a ⟨w, hw, hfor⟩
    exact written a ⟨(entry.1, w), Store.mem_writes.2 ⟨entry, hentry, rfl, hw⟩, hfor⟩
  rw [Store.total_commit_add_lost hcommit sound.keyed regular written, Store.sum_gains hgain,
    Int.add_zero]

end Dispatcher

/-- Over a batch of operations that issue nothing, each total falls by what is lost where operations
write the same balance, and stays if no two of them do. -/
theorem total_of_batch {store store' : Store} (sound : store.IsSound) {config : EngineConfig}
    {d d' : Dispatcher} (reachable : d.Reachable config) (reads : d.context.read = store.reader)
    {ops : List Operation} {result : BatchResult} (hbatch : d.batch ops = (.ok result, d'))
    (moving : ∀ op ∈ d.acceptedOperations ops, op.kind.issues = false) {height : Height}
    {records : List Record}
    (hcommit : store.commit height result.accepted = .ok (records, store')) (c : CurrencyId) :
    (∃ addresses : Finset Address, (∀ a ∉ addresses, store.lost a c result.accepted = 0) ∧
      store'.total c = store.total c - ∑ a ∈ addresses, store.lost a c result.accepted) ∧
    ((∀ a, result.accepted.Pairwise fun entry later =>
        Change.written? entry.2 a c = none ∨ Change.written? later.2 a c = none) →
      store'.total c = store.total c) := by
  have hall := Dispatcher.forall₂_of_batch reachable hbatch
  obtain ⟨addresses, written⟩ := Store.exists_written (Store.writes result.accepted) c
  have htotal := Dispatcher.total_add_lost sound reads hall moving hcommit written
  refine ⟨⟨addresses, fun a ha => ?_, by omega⟩, fun apart => ?_⟩
  · by_contra hlost
    exact ha (written a (Store.exists_written_of_lost hlost))
  · rw [Finset.sum_eq_zero fun a _ => Store.lost_eq_zero (apart a), Int.add_zero] at htotal
    exact htotal

namespace Sample

/-- Another transfer of the same sender. -/
def other : Operation :=
  signed (transfer carol 10) 0x3fb2a49f1787ad059484c1681249d5e712fbe9ae45a29591f0b187179638915b
    0x8db9a153ef31abea25c596e5196bc8d5cb3385a819146cb19e5db9fb0469508a
    0x0952a815641bdc58b30d40c028c9fdab0b16aa7556bbd741c1a63b48c89926a7

theorem check_other : other.check config.networkBytes = .ok () := by
  refine check_signed
    0x1fe0d34cb1a129491d4ddf36e54e2d539389e51ec62c91751c19fa17c5d30183 rfl rfl ?_ ?_ ?_
  · decide +kernel
  · decide +kernel
  · decide +kernel

theorem exists_batch_twice : (∃ d', dispatcher.batch [other, payment] =
    (.ok ⟨allAccepted dispatcher.context [other, payment], []⟩, d')) ∧
      dispatcher.acceptedOperations [other, payment] = [other, payment] :=
  exists_batch_made
    (List.forall_mem_cons.2 ⟨check_other, List.forall_mem_singleton.2 check_payment⟩)
    (List.forall_mem_cons.2 ⟨rfl, List.forall_mem_singleton.2 rfl⟩)
    (List.forall_mem_cons.2 ⟨rfl, List.forall_mem_singleton.2 rfl⟩) reachable_dispatcher.isReady

theorem exists_commit_twice : ∃ records,
    ledger.commit .genesis (allAccepted dispatcher.context [other, payment]) =
      .ok (records, ledgerAfter [other, payment]) :=
  commit_committed (by decide +kernel)

theorem total_ledgerAfter : (ledgerAfter [other, payment]).total currency = 110 := rfl

theorem total_ledger : ledger.total currency = 100 := rfl

end Sample

/-- A sender that pays twice is debited once. -/
theorem total_of_batch_twice : ∃ addresses : Finset Address,
    (∀ a ∉ addresses,
      Sample.ledger.lost a Sample.currency
        (Sample.allAccepted Sample.dispatcher.context [Sample.other, Sample.payment]) = 0) ∧
    ∑ a ∈ addresses, Sample.ledger.lost a Sample.currency
      (Sample.allAccepted Sample.dispatcher.context [Sample.other, Sample.payment]) = -10 := by
  obtain ⟨⟨d', hbatch⟩, haccepted⟩ := Sample.exists_batch_twice
  obtain ⟨records, hcommit⟩ := Sample.exists_commit_twice
  obtain ⟨⟨addresses, hoff, htotal⟩, -⟩ := total_of_batch Sample.isSound_ledger
    Sample.reachable_dispatcher rfl hbatch (by rw [haccepted]; decide +kernel) hcommit
    Sample.currency
  rw [Sample.total_ledgerAfter, Sample.total_ledger] at htotal
  dsimp only at htotal
  exact ⟨addresses, hoff, by omega⟩

/-- Totals do change by transfers alone. -/
theorem total_changes_by_transfers : Sample.ledger.IsSound ∧
    Sample.dispatcher.Advances Sample.config [Sample.other, Sample.payment] Sample.ledger
      (Sample.ledgerAfter [Sample.other, Sample.payment]) ∧
    (∀ op ∈ Sample.dispatcher.acceptedOperations [Sample.other, Sample.payment],
      op.kind = .transfers) ∧
    (Sample.ledgerAfter [Sample.other, Sample.payment]).total Sample.currency ≠
      Sample.ledger.total Sample.currency := by
  obtain ⟨⟨d', hbatch⟩, haccepted⟩ := Sample.exists_batch_twice
  obtain ⟨records, hcommit⟩ := Sample.exists_commit_twice
  refine ⟨Sample.isSound_ledger, ⟨Sample.reachable_dispatcher, rfl, _, d', .genesis, records,
    hbatch, hcommit⟩, by rw [haccepted]; decide +kernel, ?_⟩
  rw [Sample.total_ledgerAfter, Sample.total_ledger]
  decide

end CurrencyLedger
