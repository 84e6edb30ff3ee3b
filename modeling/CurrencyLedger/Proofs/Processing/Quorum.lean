import CurrencyLedger.Proofs.Processing.Amendment
import CurrencyLedger.Proofs.Processing.Tally
import Mathlib.Algebra.Order.Floor.Div
import Mathlib.GroupTheory.GroupAction.Ring

/-!
The members behind an operation. A sign counts for the member that it names and whose key made it,
so the members that are counted have different addresses; that no key signs twice makes their keys
different too (`exists_endorsement`). Records of the governance are changed by operations that have
such a quorum, or by the first ones of a ledger (`Advances.governs`).
-/

namespace CurrencyLedger

open Traversal

/-- Members stand behind an operation: different ones with different keys, each with a sign of its
own that verifies. -/
structure Endorses (network : List UInt8) (op : Operation) (members : Members)
    (quorum : List Member) : Prop where
  members : ∀ m ∈ quorum, m ∈ members.toList
  addresses : (quorum.map Member.address).Nodup
  keys : (quorum.map Member.key).Nodup
  signed : ∀ m ∈ quorum, ∃ s ∈ op.signs, s.node = some m.address ∧ s.signer = m.key ∧
    s.verify network op.fact.hash = .ok true

/-- So many of the members stand behind an operation. -/
def Operation.IsEndorsed (op : Operation) (network : List UInt8) (members : Members)
    (needed : Nat) : Prop :=
  ∃ quorum, Endorses network op members quorum ∧ needed ≤ quorum.length

/-- Signs that count for members, in an operation that is in order, are those of a quorum. -/
theorem exists_endorsement {network : List UInt8} {op : Operation} {members : Members}
    {threshold : Threshold} (valid : op.check network = .ok ())
    (hquorum : Members.checkQuorum members threshold op.signs = .ok ()) :
    op.IsEndorsed network members (threshold.required members.size) := by
  obtain ⟨-, henough⟩ := Members.checkQuorum_eq_ok.1 hquorum
  obtain ⟨-, -, -, hsigners, hverify⟩ := Operation.check_eq_ok.1 valid
  have distinct : ((members.matched op.signs).map Member.address).Nodup := Members.nodup_matched
  refine ⟨members.matched op.signs, ⟨?_, distinct, ?_, ?_⟩, henough⟩
  · exact fun m hm => (Members.mem_matched.1 hm).1
  · -- one key has one sign, and that names one member
    apply List.Nodup.map_on _ distinct.of_map
    intro m hm m' hm' hkey
    obtain ⟨-, s, hs, hnode, hsigner⟩ := Members.mem_matched.1 hm
    obtain ⟨-, s', hs', hnode', hsigner'⟩ := Members.mem_matched.1 hm'
    obtain rfl : s = s' := by
      apply List.inj_on_of_nodup_map hsigners hs hs'
      rw [hsigner, hsigner', hkey]
    have haddress : m.address = m'.address := Option.some.inj (hnode.symm.trans hnode')
    exact List.inj_on_of_nodup_map distinct hm hm' haddress
  · intro m hm
    obtain ⟨-, s, hs, hnode, hsigner⟩ := Members.mem_matched.1 hm
    exact ⟨s, hs, hnode, hsigner, (hverify s hs).2⟩

theorem EngineConfig.percent_of_check {config : EngineConfig} {threshold : Threshold}
    (h : config.check = .ok threshold) : threshold.percent = config.suffrageThreshold.toNat := by
  unfold check at h
  split at h
  · cases h
  · obtain ⟨t, ht, h⟩ := bind_eq_ok.1 h
    have ht := mapError_eq_ok.1 ht
    unfold Threshold.make at ht
    split at ht
    · cases ht
      split at h
      · cases h
      · split at h
        · cases h
          rfl
        · cases h
    · cases ht

theorem Threshold.required_eq (t : Threshold) (n : Nat) :
    t.required n = max 1 ((n * t.percent) ⌈/⌉ 100) := by
  rw [required, Nat.ceilDiv_eq_add_pred_div, Nat.max_comm, Nat.add_sub_assoc (by decide)]

/-- A dispatcher asks for the share of its configuration at every height. -/
theorem Dispatcher.Reachable.percent_eq {config : EngineConfig} {d : Dispatcher}
    (h : d.Reachable config) : d.context.threshold.percent = config.suffrageThreshold.toNat :=
  EngineConfig.percent_of_check h.isSetUp.check_eq

/-- The kinds of operations that the members have to sign. -/
def OperationKind.needsQuorum : OperationKind → Bool
  | .currencyRegister | .currencyPolicyUpdater | .mint | .suffrageCandidate | .suffrageJoin
  | .suffrageDisjoin => true
  | _ => false

section admits

variable {store : Store} {height : Height} {threshold : Threshold} {op : Operation}
  {changes : List Change}

theorem Context.Admits.requireQuorum {ctx : Context} (h : ctx.Admits op changes)
    (needs : op.kind.needsQuorum = true) : ctx.requireQuorum op = .ok () := by
  have does := h.does
  rw [Operation.kind, Fact.kind] at needs
  generalize op.fact.intent = intent at needs does
  cases does with
  | currencyRegister check _ =>
    simp only [CurrencyRegister.check, bind_eq_ok] at check
    obtain ⟨_, -, _, -, check⟩ := check
    exact check
  | currencyPolicyUpdater check _ =>
    obtain ⟨d, -, check⟩ := bind_eq_ok.1 check
    dsimp only at check
    split at check
    · exact (check_bind_eq_ok.1 check).2
    · exact check
  | mint check _ => exact (check_bind_eq_ok.1 check).1
  | suffrageCandidate check _ =>
    obtain ⟨-, check⟩ := check_bind_eq_ok.1 check
    obtain ⟨members, -, check⟩ := bind_eq_ok.1 check
    split at check
    · cases check
    · obtain ⟨candidates, -, check⟩ := bind_eq_ok.1 check
      split at check
      · cases check
      · exact check
  | suffrageJoin check _ =>
    obtain ⟨c, -, check⟩ := bind_eq_ok.1 check
    obtain ⟨members, -, check⟩ := bind_eq_ok.1 check
    dsimp only at check
    split at check
    · cases check
    · obtain ⟨policy, -, check⟩ := bind_eq_ok.1 check
      split at check
      · cases check
      · exact (check_bind_eq_ok.1 check).2
  | suffrageDisjoin check _ =>
    obtain ⟨m, -, check⟩ := bind_eq_ok.1 check
    exact check
  | _ => cases needs

theorem isEndorsed_of_admits {network : List UInt8} (valid : op.check network = .ok ())
    (h : (store.context height threshold).Admits op changes)
    (needs : op.kind.needsQuorum = true) :
    ∃ members, store.at? .suffrage = some (.members members) ∧
      op.IsEndorsed network members (threshold.required members.size) := by
  obtain ⟨members, hmembers, hquorum⟩ := bind_eq_ok.1 (h.requireQuorum needs)
  refine ⟨members, Context.at?_of_members hmembers, ?_⟩
  exact exists_endorsement valid (mapError_eq_ok.1 hquorum)

end admits

namespace Amends

variable {store : Store} {height : Height} {op : Operation} {w : Change}

/-- A design that is there keeps its amount and its first account, and has its policy changed by its
own kind of operation; a new one is registered, or comes with the ledger. -/
theorem of_design (keyed : store.IsKeyed) (h : Amends store height op w) {c : CurrencyId}
    (hfor : w.IsFor (.design c)) :
    ∃ new, w.payload = .design new ∧
      ((∃ old, store.design? c = some old ∧ new.amount = old.amount ∧
        new.genesisAccount = old.genesisAccount ∧
        (new.policy = old.policy ∨ op.fact.intent = .currencyPolicyUpdater c new.policy)) ∨
      store.at? (.design c) = none ∧ (op.fact.intent = .currencyRegister new ∨
        ∃ nodeKey keys designs, op.fact.intent = .genesisCurrencies nodeKey keys designs ∧
          new ∈ designs ∧ height = .genesis)) := by
  cases h with
  | @issue b d found n =>
    obtain rfl := Place.design.inj (Change.isFor_design.1 hfor)
    have hb : d.currency = b := keyed.currency_eq found
    refine ⟨d.issue n, rfl, .inl ⟨d, ?_, rfl, rfl, .inl rfl⟩⟩
    exact hb ▸ found
  | @policy b d policy intent found =>
    obtain rfl := Place.design.inj (Change.isFor_design.1 hfor)
    have hb : d.currency = b := keyed.currency_eq found
    refine ⟨d.withPolicy policy, rfl, .inl ⟨d, ?_, rfl, rfl, .inr ?_⟩⟩
    · exact hb ▸ found
    · exact hb ▸ intent
  | @register d intent fresh =>
    obtain rfl := Place.design.inj (Change.isFor_design.1 hfor)
    exact ⟨d, rfl, .inr ⟨fresh, .inl intent⟩⟩
  | @genesis nodeKey keys designs d intent first listed fresh =>
    obtain rfl := Place.design.inj (Change.isFor_design.1 hfor)
    exact ⟨d, rfl, .inr ⟨fresh, .inr ⟨nodeKey, keys, designs, intent, listed, first⟩⟩⟩
  | _ => simp at hfor

end Amends

namespace Dispatcher

/-- What a batch may do to the records that the network governs. -/
structure Governs (d : Dispatcher) (ops : List Operation) (store store' : Store) : Prop where
  added : ∀ c design, store.design? c = none → store'.design? c = some design →
    ∃ op ∈ d.acceptedOperations ops, op.fact.intent = .currencyRegister design ∨
      ∃ nodeKey keys designs, op.fact.intent = .genesisCurrencies nodeKey keys designs ∧
        design ∈ designs ∧ d.context.height = .genesis
  kept : ∀ c old, store.design? c = some old → ∃ new, store'.design? c = some new ∧
    new.amount = old.amount ∧ new.genesisAccount = old.genesisAccount ∧
    (new.policy = old.policy ∨ ∃ op ∈ d.acceptedOperations ops,
      op.fact.intent = .currencyPolicyUpdater c new.policy)
  suffrage : store'.get? RecordKey.suffrage = store.get? RecordKey.suffrage ∨
    ∃ op ∈ d.acceptedOperations ops, op.kind = .suffrageJoin ∨ op.kind = .suffrageDisjoin
  candidates : store'.get? RecordKey.candidates = store.get? RecordKey.candidates ∨
    ∃ op ∈ d.acceptedOperations ops, op.kind = .suffrageCandidate ∨ op.kind = .suffrageJoin
  policy : store'.get? RecordKey.networkPolicy = store.get? RecordKey.networkPolicy

variable {store store' : Store} {config : EngineConfig} {d : Dispatcher} {ops : List Operation}
  {accepted : Store.Accepted}

/-- What stands as a design after a batch stood there before, or one operation wrote it. -/
theorem Accounts.design?_cases (accounts : d.Accounts config ops store store' accepted)
    (c : CurrencyId) :
    (∃ w op, op ∈ d.acceptedOperations ops ∧ Amends store d.context.height op w ∧
      w.IsFor (.design c) ∧ store'.at? (.design c) = some w.payload) ∨
      store'.design? c = store.design? c := by
  obtain ⟨height, records, hcommit⟩ := accounts.commits
  have hreplace : ∀ w ∈ Store.writes accepted, w.2.IsFor (.design c) →
      w.2.strategy = .replace := by
    intro w hw hfor
    exact (accounts.regular w hw).strategy hfor (by simp) (by simp)
  rcases Store.at?_commit_cases hcommit hreplace with ⟨w, hw, hfor, hat⟩ | ⟨-, hsame⟩
  · obtain ⟨op, hop, -, amends⟩ := accounts.amends w hw
    exact .inl ⟨w.2, op, hop, amends, hfor, hat⟩
  · right
    rw [Store.design?, Store.design?, hsame]

/-- A record that no operation of a batch concerns is left alone. -/
theorem Accounts.get?_eq_or (accounts : d.Accounts config ops store store' accepted)
    (place : Place) :
    store'.get? place.key = store.get? place.key ∨
      ∃ op ∈ d.acceptedOperations ops, ∃ w, Amends store d.context.height op w ∧
        w.IsFor place := by
  obtain ⟨height, records, hcommit⟩ := accounts.commits
  by_cases written : ∃ w ∈ Store.writes accepted, w.2.IsFor place
  · obtain ⟨w, hw, hfor⟩ := written
    obtain ⟨op, hop, -, amends⟩ := accounts.amends w hw
    exact .inr ⟨op, hop, w.2, amends, hfor⟩
  · left
    apply Store.get?_commit_of_not_written hcommit
    intro w hw hfor
    exact written ⟨w, hw, hfor⟩

theorem Advances.governs (keyed : store.IsKeyed) (h : d.Advances config ops store store') :
    d.Governs ops store store' := by
  obtain ⟨accepted, accounts⟩ := h.exists_accounts
  constructor
  case added =>
    intro c design hbefore hafter
    rcases accounts.design?_cases c with ⟨w, op, hop, amends, hfor, hat⟩ | hsame
    · obtain ⟨new, hnew, hcases⟩ := amends.of_design keyed hfor
      rw [hnew, Store.design?_eq_some.1 hafter] at hat
      cases hat
      rcases hcases with ⟨old, hold, -⟩ | ⟨-, hregistered⟩
      · rw [hbefore] at hold
        cases hold
      · exact ⟨op, hop, hregistered⟩
    · rw [hsame, hbefore] at hafter
      cases hafter
  case kept =>
    intro c old hbefore
    rcases accounts.design?_cases c with ⟨w, op, hop, amends, hfor, hat⟩ | hsame
    · obtain ⟨new, hnew, hcases⟩ := amends.of_design keyed hfor
      rw [hnew] at hat
      rcases hcases with ⟨old', hold, hamount, hgenesis, hpolicy⟩ | ⟨hnone, -⟩
      · rw [hbefore] at hold
        cases hold
        refine ⟨new, Store.design?_eq_some.2 hat, hamount, hgenesis, hpolicy.imp_right ?_⟩
        intro intent
        exact ⟨op, hop, intent⟩
      · rw [Store.design?_eq_some.1 hbefore] at hnone
        cases hnone
    · exact ⟨old, hsame.trans hbefore, rfl, rfl, .inl rfl⟩
  case suffrage =>
    refine (accounts.get?_eq_or .suffrage).imp_right ?_
    rintro ⟨op, hop, w, amends, hfor⟩
    refine ⟨op, hop, ?_⟩
    rw [Operation.kind, Fact.kind]
    rcases amends.of_suffrage hfor with ⟨c, joins, -⟩ | ⟨m, leaves, -⟩
    · exact .inl (by rw [joins.intent]; rfl)
    · exact .inr (by rw [leaves.intent]; rfl)
  case candidates =>
    refine (accounts.get?_eq_or .candidates).imp_right ?_
    rintro ⟨op, hop, w, amends, hfor⟩
    refine ⟨op, hop, ?_⟩
    rw [Operation.kind, Fact.kind]
    rcases amends.of_candidates hfor with ⟨a, key, deadline, applies, -⟩ | ⟨c, joins, -⟩
    · exact .inl (by rw [applies.intent]; rfl)
    · exact .inr (by rw [joins.intent]; rfl)
  case policy =>
    rcases accounts.get?_eq_or .networkPolicy with hsame | ⟨op, -, w, amends, hfor⟩
    · exact hsame
    · exact absurd hfor amends.regular.not_isFor_networkPolicy

end Dispatcher

/-- Governance needs a quorum. Every operation of a kind that the members sign has, if it is
accepted, the share of the members behind it that is configured; and the records that the network
governs change by an operation of their own kind only. -/
theorem governed_of_batch {store store' : Store} (keyed : store.IsKeyed) {config : EngineConfig}
    {d : Dispatcher} {ops : List Operation} (h : d.Advances config ops store store') :
    (∀ op ∈ d.acceptedOperations ops, op.kind.needsQuorum = true →
      ∃ members, store.at? .suffrage = some (.members members) ∧
        op.IsEndorsed config.networkBytes members
          (max 1 ((members.size * config.suffrageThreshold.toNat) ⌈/⌉ 100))) ∧
    d.Governs ops store store' := by
  constructor
  · intro op hop needs
    obtain ⟨accepted, accounts⟩ := h.exists_accounts
    obtain ⟨valid, changes, hadmits, -⟩ := accounts.admits op hop
    obtain ⟨members, hmembers, endorsed⟩ := isEndorsed_of_admits valid hadmits needs
    rw [Threshold.required_eq, h.reachable.percent_eq] at endorsed
    exact ⟨members, hmembers, endorsed⟩
  · exact h.governs keyed

/-- Half of two members stand behind one that leaves, and then the suffrage may change. -/
theorem governed_of_batch_leaving : Sample.manned.IsKeyed ∧
    Sample.chair.Advances Sample.lenient [Sample.aliceLeaves] Sample.manned
      (Sample.mannedAfter [Sample.aliceLeaves]) ∧
    Sample.aliceLeaves.IsEndorsed Sample.lenient.networkBytes Sample.council 1 ∧
    Sample.chair.Governs [Sample.aliceLeaves] Sample.manned
      (Sample.mannedAfter [Sample.aliceLeaves]) := by
  obtain ⟨h, haccepted⟩ := @Sample.advances_leaving [Sample.aliceLeaves] (by simp) rfl
  have keyed := Sample.isSound_manned.keyed
  obtain ⟨quorum, governs⟩ := governed_of_batch keyed h
  rw [haccepted] at quorum
  obtain ⟨members, hmembers, endorsed⟩ := quorum Sample.aliceLeaves List.mem_cons_self rfl
  rw [Sample.seats_manned.members] at hmembers
  cases hmembers
  exact ⟨keyed, h, endorsed, governs⟩

end CurrencyLedger
