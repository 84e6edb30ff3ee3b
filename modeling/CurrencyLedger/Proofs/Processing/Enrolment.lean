import CurrencyLedger.Proofs.Processing.Amendment
import CurrencyLedger.Proofs.Processing.Suffrage

/-!
How members come and go. Candidacy, joining and leaving are decided on the ledger before the batch,
and ask for contrary things of one address: so in one batch at most one of them can be done for it,
and the order of the operations does not matter (`Accounts.candidate?_of_joins`,
`Accounts.member?_of_leaves`). Over any run nobody is a member and a candidate.
-/

namespace CurrencyLedger

open Traversal

/-- Nobody is a member and a candidate. -/
def Store.IsApart (store : Store) : Prop :=
  ∀ a m, store.member? a = some m → store.candidate? a = none

namespace Dispatcher

variable {store store' : Store} {config : EngineConfig} {d : Dispatcher} {ops : List Operation}

namespace Accounts

variable {accepted : Store.Accepted} (accounts : d.Accounts config ops store store' accepted)
include accounts

/-- Who is a member after a batch was one before, with the same record, or joined. -/
theorem member?_cases {a : Address} {m : Member} (h : store'.member? a = some m) :
    store.member? a = some m ∨ ∃ op ∈ d.acceptedOperations ops,
      op.check config.networkBytes = .ok () ∧ ∃ c, c.address = a ∧
        Joins store d.context.height op c ∧ m = ⟨a, c.key, d.context.height.next⟩ := by
  obtain ⟨height, records, hcommit⟩ := accounts.commits
  rcases Roster.get?_commit_eq_some hcommit accounts.moves_members h with hbefore | ⟨w, hw, hput⟩
  · exact .inl hbefore
  · right
    obtain ⟨op, hop, hvalid, amends⟩ := accounts.amends w hw
    rw [hput] at amends
    obtain ⟨c, joins, rfl⟩ := amends.joins_of_insert
    have ha : c.address = a := Store.address_of_member? h
    exact ⟨op, hop, hvalid, c, ha, joins, by rw [ha]⟩

/-- Who is no member after a batch was none before, or left. -/
theorem member?_eq_none_cases {a : Address} (h : store'.member? a = none) :
    store.member? a = none ∨ ∃ op ∈ d.acceptedOperations ops, ∃ m, m.address = a ∧
      Leaves store op m := by
  obtain ⟨height, records, hcommit⟩ := accounts.commits
  rcases Roster.get?_commit_eq_none hcommit accounts.moves_members h with
    hbefore | ⟨w, hw, m, hm, htaken⟩
  · exact .inl hbefore
  · right
    obtain ⟨op, hop, -, amends⟩ := accounts.amends w hw
    rw [htaken] at amends
    exact ⟨op, hop, m, Address.text_injective hm, amends.leaves_of_remove⟩

/-- Who is a candidate after a batch was one before, with the same record, or applied. -/
theorem candidate?_cases {a : Address} {c : Candidate} (h : store'.candidate? a = some c) :
    store.candidate? a = some c ∨ ∃ op ∈ d.acceptedOperations ops,
      Applies store d.context.height op a c.key ∧ c.start = d.context.height.next := by
  obtain ⟨height, records, hcommit⟩ := accounts.commits
  rcases Roster.get?_commit_eq_some hcommit accounts.moves_candidates h with
    hbefore | ⟨w, hw, hput⟩
  · exact .inl hbefore
  · right
    obtain ⟨op, hop, -, amends⟩ := accounts.amends w hw
    rw [hput] at amends
    obtain ⟨applies, hstart⟩ := amends.applies_of_insert
    have ha : c.address = a := Store.address_of_candidate? h
    exact ⟨op, hop, ha ▸ applies, hstart⟩

/-- A candidate that joins is none any more: nobody may apply for an address that may join. -/
theorem candidate?_of_joins {op : Operation} (hop : op ∈ d.acceptedOperations ops) {c : Candidate}
    (joins : Joins store d.context.height op c) : store'.candidate? c.address = none := by
  obtain ⟨height, records, hcommit⟩ := accounts.commits
  obtain ⟨-, changes, hadmits, hwritten⟩ := accounts.admits op hop
  obtain ⟨c', ha, -, joins', rfl⟩ := hadmits.joins joins.intent
  obtain rfl := joins.eq_of_address joins' ha
  have htaken : (op.hash, Change.candidate c .remove) ∈ Store.writes accepted :=
    hwritten _ (List.mem_cons_of_mem _ List.mem_cons_self)
  apply Roster.get?_commit_of_removed hcommit accounts.moves_candidates htaken
  intro w hw c' hc' hput
  obtain ⟨op', -, -, amends⟩ := accounts.amends w hw
  rw [hput] at amends
  -- a candidacy is renewed when it has expired, and joining asks for one that has not
  obtain ⟨applies, -⟩ := amends.applies_of_insert
  rw [Address.text_injective hc'] at applies
  exact joins.timely (applies.free c joins.found)

/-- A member that leaves is none any more: no member may join. -/
theorem member?_of_leaves {op : Operation} (hop : op ∈ d.acceptedOperations ops) {m : Member}
    (leaves : Leaves store op m) : store'.member? m.address = none := by
  obtain ⟨height, records, hcommit⟩ := accounts.commits
  obtain ⟨-, changes, hadmits, hwritten⟩ := accounts.admits op hop
  obtain ⟨m', ha, -, leaves', rfl⟩ := hadmits.leaves leaves.intent
  obtain rfl := leaves.eq_of_address leaves' ha
  have htaken : (op.hash, Change.member m .remove) ∈ Store.writes accepted :=
    hwritten _ List.mem_cons_self
  apply Roster.get?_commit_of_removed hcommit accounts.moves_members htaken
  intro w hw m' hm' hput
  obtain ⟨op', -, -, amends⟩ := accounts.amends w hw
  rw [hput] at amends
  obtain ⟨c, joins, rfl⟩ := amends.joins_of_insert
  have ha : c.address = m.address := Address.text_injective hm'
  have houtside := joins.outside
  rw [ha, leaves.found] at houtside
  cases houtside

theorem isApart (apart : store.IsApart) : store'.IsApart := by
  intro a m hm
  by_contra hc
  obtain ⟨c, hc⟩ := Option.ne_none_iff_exists'.1 hc
  rcases accounts.member?_cases hm with hbefore | ⟨op, hop, -, c', rfl, joins, -⟩
  · rcases accounts.candidate?_cases hc with hold | ⟨op, -, applies, -⟩
    · rw [apart a m hbefore] at hold
      cases hold
    · rw [applies.outside] at hbefore
      cases hbefore
  · rw [accounts.candidate?_of_joins hop joins] at hc
    cases hc

end Accounts

/-- What a batch does to the members. Who becomes one was a candidate in time, and joined by an
operation that names the candidate's start and has the candidate's sign; who is one no longer was
named with its start by an operation; every other record stays. -/
structure Turnover (network : List UInt8) (d : Dispatcher) (ops : List Operation)
    (store store' : Store) : Prop where
  joined : ∀ a m, store'.member? a = some m → store.member? a = none →
    ∃ c, store.candidate? a = some c ∧ d.context.height.toNat ≤ c.deadline.toNat ∧
      m = ⟨a, c.key, d.context.height.next⟩ ∧
      ∃ op ∈ d.acceptedOperations ops, op.fact.intent = .suffrageJoin a c.start ∧
        ∃ s ∈ op.signs, s.signer = c.key ∧ s.node = some a ∧
          s.verify network op.fact.hash = .ok true
  left : ∀ a m, store.member? a = some m → store'.member? a = none →
    ∃ op ∈ d.acceptedOperations ops, op.fact.intent = .suffrageDisjoin a m.start
  stayed : ∀ a m m', store.member? a = some m → store'.member? a = some m' → m' = m

theorem Advances.turnover (h : d.Advances config ops store store') :
    d.Turnover config.networkBytes ops store store' := by
  obtain ⟨accepted, accounts⟩ := h.exists_accounts
  constructor
  case joined =>
    intro a m hafter hbefore
    rcases accounts.member?_cases hafter with hold | ⟨op, hop, hvalid, c, rfl, joins, rfl⟩
    · rw [hbefore] at hold
      cases hold
    · obtain ⟨s, hs, hsigner, hnode⟩ := joins.signed
      obtain ⟨-, -, -, -, hverify⟩ := Operation.check_eq_ok.1 hvalid
      refine ⟨c, joins.found, Nat.not_lt.1 joins.timely, rfl, op, hop, joins.intent, ?_⟩
      exact ⟨s, hs, hsigner, hnode, (hverify s hs).2⟩
  case left =>
    intro a m hbefore hafter
    rcases accounts.member?_eq_none_cases hafter with hnone | ⟨op, hop, m', rfl, leaves⟩
    · rw [hbefore] at hnone
      cases hnone
    · obtain rfl : m = m' := Option.some.inj (hbefore.symm.trans leaves.found)
      exact ⟨op, hop, leaves.intent⟩
  case stayed =>
    intro a m m' hbefore hafter
    rcases accounts.member?_cases hafter with hold | ⟨op, -, -, c, rfl, joins, -⟩
    · exact Option.some.inj (hold.symm.trans hbefore)
    · rw [joins.outside] at hbefore
      cases hbefore

theorem Advances.isApart (apart : store.IsApart) (h : d.Advances config ops store store') :
    store'.IsApart := by
  obtain ⟨accepted, accounts⟩ := h.exists_accounts
  exact accounts.isApart apart

end Dispatcher

theorem Store.IsApart.run {store store' : Store} (apart : store.IsApart)
    (run : Relation.ReflTransGen Store.Follows store store') : store'.IsApart := by
  induction run with
  | refl => exact apart
  | tail _ step ih =>
    obtain ⟨config, d, ops, h⟩ := step
    exact h.isApart ih

/-- Members come by candidacy and go by name, and over any run of batches nobody is a member and a
candidate. -/
theorem turnover_of_batches {store : Store} (apart : store.IsApart) :
    (∀ config d ops store', Dispatcher.Advances config d ops store store' →
      d.Turnover config.networkBytes ops store store') ∧
    ∀ store', Relation.ReflTransGen Store.Follows store store' → store'.IsApart := by
  constructor
  · intro config d ops store' h
    exact h.turnover
  · intro store' run
    exact apart.run run

namespace Sample

/-- The key whose secret is two. -/
def carolKey : PublicKey :=
  ⟨.native, false, 0xc6047f9441ed7d6d3045406e95c07cd85c778e4b8cef3ca7abac09b95c709ee5,
    by decide +kernel⟩

def applicant : Candidate := ⟨carol, carolKey, .genesis, ⟨10⟩⟩

/-- The members, and a candidate. -/
def awaiting : Store :=
  manned.setCandidates (.ofList [applicant])

theorem isSound_awaiting : awaiting.IsSound :=
  isSound_manned.set .candidates trivial (.inr (.inl rfl))

theorem member?_awaiting {a : Address} {m : Member} (h : awaiting.member? a = some m) :
    m = ⟨alice, key, .genesis⟩ ∨ m = ⟨bob, key, .genesis⟩ := by
  have hmem : m ∈ council.toList := KeyedList.mem_iff_get?.2 (Store.address_of_member? h ▸ h)
  have hlist : council.toList = [⟨alice, key, .genesis⟩, ⟨bob, key, .genesis⟩] := rfl
  rw [hlist] at hmem
  simpa using hmem

theorem isApart_awaiting : awaiting.IsApart := by
  intro a m hm
  obtain rfl := Store.address_of_member? hm
  rcases member?_awaiting hm with rfl | rfl
  · rfl
  · rfl

def usher : Dispatcher :=
  .start .standard (awaiting.context .genesis chair.context.threshold) lenient.networkBytes 64 false

theorem reachable_usher : usher.Reachable lenient :=
  .start (show Dispatcher.ofConfig lenient .genesis awaiting.reader = .ok usher from rfl)

/-- The candidate joins, signed by a member and by itself. -/
def carolJoins : Operation :=
  ⟨digest 0x5b75795083e67727c05ac81875590cb9b0fcbe425c3b6859c94fe4f6941d8bf6,
    ⟨[1], .suffrageJoin carol .genesis⟩,
    [⟨key,
      BigEndian.bytes 32 0x1c588005c82e432dd01324ff03fa5738803a68accdfab9192f0d80948c5c4557 ++
      BigEndian.bytes 32 0x1698b45ef8996b1b612364a669006c91fb49decf110e74ea4fed468019b3c7fc,
      some alice⟩,
    ⟨carolKey,
      BigEndian.bytes 32 0x99dbefaf71c4cf041cc6dd0c98a4d82f6aece356a465c16787d855b0b6e93f67 ++
      BigEndian.bytes 32 0x2d008453758200b970349c15a7038ca865b0e8de0c13ee774c5b752c880a0142,
      some carol⟩]⟩

theorem hash_carolJoins : carolJoins.fact.hash =
    digest 0x7f15c9de8373c144947f496acda793ca5dd72ce5780ed150ed772e67ad79872d := by
  decide +kernel

theorem check_carolJoins : carolJoins.check config.networkBytes = .ok () := by
  refine Operation.check_eq_ok.2 ⟨rfl, ?_, by simp [carolJoins], ?_, ?_⟩
  · rw [hash_carolJoins]
    decide +kernel
  · decide +kernel
  · intro s hs
    rw [Sign.verify, hash_carolJoins]
    simp only [carolJoins, List.mem_cons, List.not_mem_nil, or_false] at hs
    rcases hs with rfl | rfl
    · refine ⟨fun _ => rfl, eq_ok_of_toOption ?_⟩
      decide +kernel
    · refine ⟨fun _ => rfl, eq_ok_of_toOption ?_⟩
      decide +kernel

def joined : Store :=
  committed awaiting (allAccepted usher.context [carolJoins])

theorem advances_joining : usher.Advances lenient [carolJoins] awaiting joined ∧
    usher.acceptedOperations [carolJoins] = [carolJoins] := by
  apply advances_committed ?_ ?_ ?_ reachable_usher rfl rfl
  · exact List.forall_mem_singleton.2 check_carolJoins
  · exact List.forall_mem_singleton.2 rfl
  · exact List.forall_mem_singleton.2 rfl

end Sample

/-- A candidate joins with its own sign, and is one no more. -/
theorem turnover_of_batches_joining : Sample.awaiting.IsApart ∧ Sample.joined.IsApart ∧
    ∃ op ∈ Sample.usher.acceptedOperations [Sample.carolJoins],
      op.fact.intent = .suffrageJoin Sample.carol .genesis ∧
      ∃ s ∈ op.signs, s.signer = Sample.carolKey ∧ s.node = some Sample.carol ∧
        s.verify Sample.lenient.networkBytes op.fact.hash = .ok true := by
  obtain ⟨batch, run⟩ := turnover_of_batches Sample.isApart_awaiting
  have h := Sample.advances_joining.1
  refine ⟨Sample.isApart_awaiting, ?_, ?_⟩
  · exact run _ (.single ⟨_, _, _, h⟩)
  · have hbefore : Sample.awaiting.candidate? Sample.carol = some Sample.applicant := rfl
    have hafter : Sample.joined.member? Sample.carol =
        some ⟨Sample.carol, Sample.carolKey, Height.genesis.next⟩ := rfl
    obtain ⟨c, hc, -, -, op, hop, hintent, signed⟩ :=
      (batch _ _ _ _ h).joined Sample.carol _ hafter rfl
    rw [hbefore] at hc
    cases hc
    exact ⟨op, hop, hintent, signed⟩

end CurrencyLedger
