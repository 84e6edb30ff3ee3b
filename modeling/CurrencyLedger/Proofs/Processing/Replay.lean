import CurrencyLedger.Proofs.Processing.Enrolment
import CurrencyLedger.Proofs.Processing.Progress

/-!
Operations that are done once. Accounts and designs are never removed, so what creates one cannot
be done again; who joins or leaves is named with a start, and whoever is enrolled later has a later
one. `Store.Bars` is what a ledger holds against an intent after it was done, and it is kept by
every batch at a greater height.
-/

namespace CurrencyLedger

open Traversal

namespace Height

theorem toNat_next_le {h h' : Height} (lt : h < h') : h.next.toNat ≤ h'.toNat := by
  have hlt : h.toNat < h'.toNat := lt
  rw [next, toNat_plus]
  omega

theorem lt_next {h h' : Height} (lt : h < h') : h < h'.next := by
  have hlt : h.toNat < h'.toNat := lt
  have hbound : h'.toNat < UInt64.size := h'.value.toNat_lt_size
  change h.toNat < h'.next.toNat
  rw [next, toNat_plus]
  omega

end Height

/-- The kinds of operations that create something, or let somebody join or leave. -/
def OperationKind.isOnce : OperationKind → Bool
  | .createAccounts | .currencyRegister | .genesisCurrencies | .suffrageJoin
  | .suffrageDisjoin => true
  | _ => false

/-- What keeps an intent from being done: what it creates is there, or whoever is enrolled at its
address has a later start. -/
def Store.Bars (store : Store) : Intent → Prop
  | .createAccounts _ items =>
    ∃ item ∈ items, ∃ a, item.address = .ok a ∧ (store.at? (.account a)).isSome
  | .currencyRegister design => (store.at? (.design design.currency)).isSome
  | .genesisCurrencies _ keys _ => (store.at? (.account (.ofKeySet keys))).isSome
  | .suffrageJoin a start => ∀ c, store.candidate? a = some c → start < c.start
  | .suffrageDisjoin a start => ∀ m, store.member? a = some m → start < m.start
  | _ => False

/-- Nobody is enrolled with a start above a height. -/
structure Store.IsRecent (store : Store) (height : Height) : Prop where
  members : ∀ a m, store.member? a = some m → m.start.toNat ≤ height.toNat
  candidates : ∀ a c, store.candidate? a = some c → c.start.toNat ≤ height.toNat

/-- The intent names no start from a height on. -/
def Intent.IsBefore (height : Height) : Intent → Prop
  | .suffrageJoin _ start => start < height
  | .suffrageDisjoin _ start => start < height
  | _ => True

section admits

variable {store : Store} {height : Height} {threshold : Threshold} {op : Operation}
  {changes : List Change}

/-- New accounts are recorded. -/
theorem CreateAccounts.exists_target {sender : Address} {items : List NewAccount}
    (hfact : (Intent.createAccounts sender items).check = .ok ())
    (heffects : effects (store.context height threshold) sender items = .ok changes) :
    ∃ item ∈ items, ∃ a, item.address = .ok a ∧ .account ⟨a, some item.keys⟩ ∈ changes := by
  simp only [effects, bind_eq_ok, pure_eq_ok] at heffects
  obtain ⟨charges, -, balances, -, created, hcreated, settled, -, rfl⟩ := heffects
  obtain ⟨hcount, -⟩ := check_bind_eq_ok.1 hfact
  cases items with
  | nil => cases hcount
  | cons item rest =>
    have hitem : item ∈ item :: rest := List.mem_cons_self
    obtain ⟨cs, -, hok⟩ := exists_right (mapM_eq_ok_iff.1 hcreated) hitem
    obtain ⟨a, ha, -⟩ := itemChanges_eq_ok.1 hok
    refine ⟨item, hitem, a, ha, List.mem_append_left _ ?_⟩
    apply (mem_created hcreated).2
    exact .inl ⟨item, hitem, _, NewAccount.account?_eq_some.2 ⟨ha, rfl⟩, rfl⟩

theorem CreateAccounts.fresh_of_check {sender : Address} {items : List NewAccount}
    (h : check (store.context height threshold) op sender items = .ok ()) {item : NewAccount}
    (hitem : item ∈ items) {a : Address} (ha : item.address = .ok a) :
    store.at? (.account a) = none :=
  Context.at?_of_requireNoAccount (requireNoAccount_of_check h hitem ha)

/-- A barred intent is not admitted. -/
theorem Store.Bars.not_admits (bars : store.Bars op.fact.intent) :
    ¬(store.context height threshold).Admits op changes := by
  intro h
  have does := h.does
  generalize hintent : op.fact.intent = intent at bars does
  cases does with
  | createAccounts check _ =>
    obtain ⟨item, hitem, a, ha, there⟩ := bars
    rw [CreateAccounts.fresh_of_check check hitem ha] at there
    cases there
  | @currencyRegister d check _ =>
    obtain ⟨_, hdesign, -⟩ := bind_eq_ok.1 check
    have there : (store.at? (.design d.currency)).isSome := bars
    rw [CurrencyRegister.at?_of_checkDesign hdesign] at there
    cases there
  | @genesisCurrencies _ keys _ check _ =>
    have there : (store.at? (.account (.ofKeySet keys))).isSome := bars
    rw [(GenesisCurrencies.first_of_check check).2.1] at there
    cases there
  | suffrageJoin check effects =>
    obtain ⟨c, rfl, rfl, joins, -⟩ := joins_of_rules hintent check effects
    exact Nat.lt_irrefl _ (bars c joins.found)
  | suffrageDisjoin _ effects =>
    obtain ⟨m, rfl, rfl, leaves, -⟩ := leaves_of_rules hintent effects
    exact Nat.lt_irrefl _ (bars m leaves.found)
  | _ => exact bars

/-- Who joins or leaves is named with a start that is recorded. -/
theorem Context.Admits.isBefore (h : (store.context height threshold).Admits op changes)
    (recent : store.IsRecent height) {later : Height} (lt : height < later) :
    op.fact.intent.IsBefore later := by
  have does := h.does
  generalize hintent : op.fact.intent = intent at does
  cases does with
  | suffrageJoin check effects =>
    obtain ⟨c, -, rfl, joins, -⟩ := joins_of_rules hintent check effects
    exact Nat.lt_of_le_of_lt (recent.candidates _ c joins.found) lt
  | suffrageDisjoin _ effects =>
    obtain ⟨m, -, rfl, leaves, -⟩ := leaves_of_rules hintent effects
    exact Nat.lt_of_le_of_lt (recent.members _ m leaves.found) lt
  | _ => trivial

end admits

namespace Dispatcher

variable {store store' : Store} {config : EngineConfig} {d : Dispatcher} {ops : List Operation}

/-- What was done is barred. -/
theorem Advances.bars (h : d.Advances config ops store store') {op : Operation}
    (hop : op ∈ d.acceptedOperations ops) (once : op.kind.isOnce = true) :
    store'.Bars op.fact.intent := by
  obtain ⟨accepted, accounts⟩ := h.exists_accounts
  obtain ⟨height, records, hcommit⟩ := accounts.commits
  obtain ⟨-, changes, hadmits, hwritten⟩ := accounts.admits op hop
  have written : ∀ w ∈ changes, ∀ place, w.IsFor place → (store'.at? place).isSome :=
    fun w hw place hfor => Store.isSome_at?_commit_of_written hcommit (hwritten w hw) hfor
  have hfact := (Fact.check_eq_ok.1 hadmits.fact).2
  have does := hadmits.does
  rw [Operation.kind, Fact.kind] at once
  generalize hintent : op.fact.intent = intent at once hfact does
  cases does with
  | createAccounts _ effects =>
    obtain ⟨item, hitem, a, ha, hw⟩ := CreateAccounts.exists_target hfact effects
    exact ⟨item, hitem, a, ha, written _ hw _ (Change.isFor_account.2 rfl)⟩
  | currencyRegister _ effects =>
    obtain ⟨current, -, h⟩ := bind_eq_ok.1 effects
    cases h
    exact written _ List.mem_cons_self _ (Change.isFor_design.2 rfl)
  | genesisCurrencies _ effects =>
    obtain ⟨registered, -, h⟩ := bind_eq_ok.1 effects
    cases h
    exact written _ List.mem_cons_self _ (Change.isFor_account.2 rfl)
  | suffrageJoin check effects =>
    obtain ⟨c, rfl, -, joins, -⟩ := joins_of_rules hintent check effects
    intro c' hc'
    rw [accounts.candidate?_of_joins hop joins] at hc'
    cases hc'
  | suffrageDisjoin _ effects =>
    obtain ⟨m, rfl, -, leaves, -⟩ := leaves_of_rules hintent effects
    intro m' hm'
    rw [accounts.member?_of_leaves hop leaves] at hm'
    cases hm'
  | _ => cases once

/-- What is barred stays so: records are never removed, and whoever is enrolled gets a start above
the height. -/
theorem Advances.keeps_bars (h : d.Advances config ops store store') {intent : Intent}
    (before : intent.IsBefore d.context.height) (bars : store.Bars intent) :
    store'.Bars intent := by
  obtain ⟨accepted, accounts⟩ := h.exists_accounts
  obtain ⟨height, records, hcommit⟩ := accounts.commits
  cases intent
  case createAccounts sender items =>
    obtain ⟨item, hitem, a, ha, there⟩ := bars
    exact ⟨item, hitem, a, ha, Store.isSome_at?_commit hcommit there⟩
  case currencyRegister design => exact Store.isSome_at?_commit hcommit bars
  case genesisCurrencies nodeKey keys designs => exact Store.isSome_at?_commit hcommit bars
  case suffrageJoin a start =>
    intro c hc
    rcases accounts.candidate?_cases hc with hold | ⟨op, -, -, hstart⟩
    · exact bars c hold
    · rw [hstart]
      exact Height.lt_next before
  case suffrageDisjoin a start =>
    intro m hm
    rcases accounts.member?_cases hm with hold | ⟨op, -, -, c, -, -, rfl⟩
    · exact bars m hold
    · exact Height.lt_next before
  all_goals exact bars

/-- Whoever is enrolled by a batch counts from the next height on. -/
theorem Advances.isRecent (h : d.Advances config ops store store')
    (recent : store.IsRecent d.context.height) {later : Height} (lt : d.context.height < later) :
    store'.IsRecent later := by
  obtain ⟨accepted, accounts⟩ := h.exists_accounts
  have hnext := Height.toNat_next_le lt
  constructor
  case members =>
    intro a m hm
    rcases accounts.member?_cases hm with hold | ⟨op, -, -, c, -, -, rfl⟩
    · exact Nat.le_trans (recent.members a m hold) (Nat.le_of_lt lt)
    · exact hnext
  case candidates =>
    intro a c hc
    rcases accounts.candidate?_cases hc with hold | ⟨op, -, -, hstart⟩
    · exact Nat.le_trans (recent.candidates a c hold) (Nat.le_of_lt lt)
    · rw [hstart]
      exact hnext

end Dispatcher

/-- A batch: the operations that a dispatcher is given at its height. -/
structure Batch where
  dispatcher : Dispatcher
  operations : List Operation

namespace Batch

def height (b : Batch) : Height :=
  b.dispatcher.context.height

def accepted (b : Batch) : List Operation :=
  b.dispatcher.acceptedOperations b.operations

end Batch

/-- A run of batches, each on the ledger that the one before it left. -/
inductive Store.Runs : Store → List Batch → Store → Prop
  | nil {store : Store} : Runs store [] store
  | cons {store middle store' : Store} {config : EngineConfig} {b : Batch} {rest : List Batch}
      (step : b.dispatcher.Advances config b.operations store middle)
      (run : Runs middle rest store') : Runs store (b :: rest) store'

namespace Store

variable {store store' : Store} {batches : List Batch}

/-- A barred intent is done by no later batch, with whatever token. -/
theorem Bars.run {intent : Intent} (bars : store.Bars intent) (run : store.Runs batches store')
    (before : ∀ b ∈ batches, intent.IsBefore b.height) :
    ∀ b ∈ batches, ∀ op ∈ b.accepted, op.fact.intent ≠ intent := by
  induction run with
  | nil =>
    intro b hb
    cases hb
  | cons step run ih =>
    obtain ⟨now, later⟩ := List.forall_mem_cons.1 before
    refine List.forall_mem_cons.2 ⟨?_, ?_⟩
    · intro op hop heq
      obtain ⟨accepted, accounts⟩ := step.exists_accounts
      obtain ⟨-, changes, hadmits, -⟩ := accounts.admits op hop
      rw [← heq] at bars
      exact bars.not_admits hadmits
    · exact ih (step.keeps_bars now bars) later

end Store

/-- What creates something, or lets somebody join or leave, is done once. In a run of batches at
rising heights, from a ledger where nobody is enrolled with a start above the first, the fact of
such an operation that was accepted is accepted in no later batch, whatever is done in between. -/
theorem pairwise_ne_of_runs {store store' : Store} {batches : List Batch}
    (run : store.Runs batches store')
    (rising : batches.Pairwise fun b later => b.height < later.height)
    (recent : ∀ b ∈ batches.head?, store.IsRecent b.height) :
    batches.Pairwise fun b later => ∀ op ∈ b.accepted, op.kind.isOnce = true →
      ∀ again ∈ later.accepted, again.fact ≠ op.fact := by
  -- each batch of the run bars what it did for those after it, and leaves a ledger that is recent
  -- at the height of the next
  induction run with
  | nil => exact .nil
  | @cons store middle store' config b rest step run ih =>
    obtain ⟨above, rising⟩ := List.pairwise_cons.1 rising
    have hrecent : store.IsRecent b.height := recent b rfl
    apply List.pairwise_cons.2
    constructor
    · intro later hlater op hop once again hagain heq
      obtain ⟨accepted, accounts⟩ := step.exists_accounts
      obtain ⟨-, changes, hadmits, -⟩ := accounts.admits op hop
      have before : ∀ b' ∈ rest, op.fact.intent.IsBefore b'.height := by
        intro b' hb'
        exact hadmits.isBefore hrecent (above b' hb')
      exact (step.bars hop once).run run before later hlater again hagain (congrArg Fact.intent heq)
    · apply ih rising
      intro next hnext
      exact step.isRecent hrecent (above next (List.mem_of_mem_head? hnext))

namespace Sample

theorem isRunnable_awaiting : awaiting.IsRunnable :=
  ⟨isSound_awaiting.keyed, isSound_awaiting.designs, rfl, rfl⟩

theorem isRecent_awaiting : awaiting.IsRecent .genesis := by
  constructor
  case members =>
    intro a m hm
    rcases member?_awaiting hm with rfl | rfl
    · exact Nat.le_refl _
    · exact Nat.le_refl _
  case candidates =>
    intro a c hc
    have hmem : c ∈ (KeyedList.ofList [applicant] : Candidates).toList :=
      KeyedList.mem_iff_get?.2 (Store.address_of_candidate? hc ▸ hc)
    obtain rfl := List.mem_singleton.1 hmem
    exact Nat.le_refl _

/-- The dispatcher of the members at the next height. -/
def nextUsher : Dispatcher :=
  usher.nextHeight Height.genesis.next joined.reader

theorem exists_runs_again : ∃ store',
    awaiting.Runs [⟨usher, [carolJoins]⟩, ⟨nextUsher, [carolJoins]⟩] store' := by
  have h := advances_joining.1
  have runnable := h.isRunnable isRunnable_awaiting
  have reachable : nextUsher.Reachable lenient := .nextHeight _ _ reachable_usher
  obtain ⟨result, d', hbatch⟩ :=
    Dispatcher.exists_batch_of_isRunnable runnable reachable rfl [carolJoins]
  obtain ⟨records, store', hcommit⟩ := Dispatcher.exists_commit_of_batch runnable.keyed
    runnable.designs reachable rfl hbatch Height.genesis.next
  exact ⟨store', .cons h (.cons ⟨reachable, rfl, result, d', _, records, hbatch, hcommit⟩ .nil)⟩

end Sample

/-- Who has joined does not join again by the same operation. -/
theorem pairwise_ne_of_runs_again : Sample.awaiting.IsRecent .genesis ∧
    (∃ store', Sample.awaiting.Runs [⟨Sample.usher, [Sample.carolJoins]⟩,
      ⟨Sample.nextUsher, [Sample.carolJoins]⟩] store') ∧
    Sample.carolJoins ∈ Sample.usher.acceptedOperations [Sample.carolJoins] ∧
    Sample.carolJoins ∉ Sample.nextUsher.acceptedOperations [Sample.carolJoins] := by
  have haccepted : Sample.carolJoins ∈ Sample.usher.acceptedOperations [Sample.carolJoins] := by
    rw [Sample.advances_joining.2]
    exact List.mem_cons_self
  obtain ⟨store', run⟩ := Sample.exists_runs_again
  have hpairwise := pairwise_ne_of_runs run (List.pairwise_pair.2 (by decide)) (by
    intro b hb
    cases hb
    exact Sample.isRecent_awaiting)
  refine ⟨Sample.isRecent_awaiting, ⟨store', run⟩, haccepted, ?_⟩
  intro again
  exact List.pairwise_pair.1 hpairwise _ haccepted rfl _ again rfl

end CurrencyLedger
