import CurrencyLedger.Proofs.Ledger.Membership
import CurrencyLedger.Proofs.Processing.Ownership

/-!
How many members batches leave. An operation that lets somebody join or leave is checked by the
members before the batch, so by itself alone. The members stay within their bounds where no batch
lets two join or two leave (`size_of_batches`); where one does they need not
(`size_zero_of_leaving`).
-/

namespace CurrencyLedger

open Traversal

/-- Whom an intent moves by a strategy: who joins is inserted, who leaves is removed. -/
def Intent.moves? (s : Strategy) : Intent → Option Address
  | .suffrageJoin candidate _ => if s = .insert then some candidate else none
  | .suffrageDisjoin node _ => if s = .remove then some node else none
  | _ => none

theorem Intent.moves?_insert {intent : Intent} {a : Address} :
    intent.moves? .insert = some a ↔ ∃ start, intent = .suffrageJoin a start := by
  cases intent <;> simp [moves?]

theorem Intent.moves?_remove {intent : Intent} {a : Address} :
    intent.moves? .remove = some a ↔ ∃ start, intent = .suffrageDisjoin a start := by
  cases intent <;> simp [moves?]

theorem Intent.moves?_replace (intent : Intent) : intent.moves? .replace = none := by
  cases intent <;> rfl

theorem Effect.moves? {store : Store} {op : Operation} {changes : List Change} {w : Change}
    (h : Effect store op changes w) {s : Strategy} {a : Address} (moves : a ∈ w.moves s) :
    op.fact.intent.moves? s = some a := by
  have hfor := h.regular.isFor_suffrage moves
  cases h with
  | join intent =>
    obtain ⟨rfl, rfl⟩ := Change.mem_moves_member.1 moves
    exact Intent.moves?_insert.2 ⟨_, intent⟩
  | leave intent =>
    obtain ⟨rfl, rfl⟩ := Change.mem_moves_member.1 moves
    exact Intent.moves?_remove.2 ⟨_, intent⟩
  | _ => simp at hfor

/-- A store with its members, and with the policy of how many there may be. -/
structure Store.Seats (store : Store) (members : Members) (policy : NetworkPolicy) : Prop where
  members : store.at? .suffrage = some (.members members)
  policy : store.at? .networkPolicy = some (.networkPolicy policy)

/-- There is a member, and there are no more than there may be. -/
def Members.IsWithin (members : Members) (policy : NetworkPolicy) : Prop :=
  1 ≤ members.size ∧ members.size ≤ policy.maxMembers.toNat

section admits

variable {ctx : Context} {store : Store} {height : Height} {threshold : Threshold}
  {members : Members} {policy : NetworkPolicy} {op : Operation} {changes : List Change}
  {a : Address}

theorem rules_of_join (h : ctx.Admits op changes)
    (joins : op.fact.intent.moves? .insert = some a) :
    ∃ start, SuffrageJoin.check ctx op a start = .ok () ∧
      SuffrageJoin.effects ctx a start = .ok changes := by
  obtain ⟨hash, ⟨token, intent⟩, signs⟩ := op
  obtain ⟨start, rfl⟩ := Intent.moves?_insert.1 joins
  exact ⟨start, h.check, h.effects⟩

theorem rules_of_leave (h : ctx.Admits op changes)
    (leaves : op.fact.intent.moves? .remove = some a) :
    ∃ start, SuffrageDisjoin.check ctx op a start = .ok () ∧
      SuffrageDisjoin.effects ctx a start = .ok changes := by
  obtain ⟨hash, ⟨token, intent⟩, signs⟩ := op
  obtain ⟨start, rfl⟩ := Intent.moves?_remove.1 leaves
  exact ⟨start, h.check, h.effects⟩

theorem exists_moves_of_admits (h : ctx.Admits op changes) {s : Strategy}
    (moves : op.fact.intent.moves? s = some a) : ∃ w ∈ changes, a ∈ w.moves s := by
  cases s with
  | replace =>
    rw [Intent.moves?_replace] at moves
    cases moves
  | insert =>
    obtain ⟨start, -, heffects⟩ := rules_of_join h moves
    obtain ⟨c, hc, h⟩ := bind_eq_ok.1 heffects
    cases h
    obtain rfl := SuffrageJoin.candidate_address hc
    exact ⟨_, List.mem_cons_self, Change.mem_moves_member.2 ⟨rfl, rfl⟩⟩
  | remove =>
    obtain ⟨start, -, heffects⟩ := rules_of_leave h moves
    obtain ⟨m, hm, h⟩ := bind_eq_ok.1 heffects
    cases h
    obtain ⟨rfl, -⟩ := SuffrageDisjoin.member_eq_ok hm
    exact ⟨_, List.mem_cons_self, Change.mem_moves_member.2 ⟨rfl, rfl⟩⟩

variable (seats : store.Seats members policy)
  (h : (store.context height threshold).Admits op changes)
include seats h

/-- Who joins is not a member, and there is a place. -/
theorem joins_of_admits (joins : op.fact.intent.moves? .insert = some a) :
    a ∉ members.addresses ∧ members.size < policy.maxMembers.toNat := by
  obtain ⟨start, hcheck, -⟩ := rules_of_join h joins
  obtain ⟨c, -, hcheck⟩ := bind_eq_ok.1 hcheck
  rw [Context.members_eq_ok seats.members, Context.networkPolicy_eq_ok seats.policy] at hcheck
  obtain ⟨_, hmembers, hcheck⟩ := bind_eq_ok.1 hcheck
  cases hmembers
  split at hcheck
  · cases hcheck
  · next hcontains =>
    obtain ⟨_, hpolicy, hcheck⟩ := bind_eq_ok.1 hcheck
    cases hpolicy
    dsimp only at hcheck
    split at hcheck
    · cases hcheck
    · next hfull =>
      exact ⟨fun ha => hcontains (Members.mem_addresses.1 ha), Nat.not_le.1 hfull⟩

/-- Who leaves is a member, but not the only one. -/
theorem leaves_of_admits (leaves : op.fact.intent.moves? .remove = some a) :
    a ∈ members.addresses ∧ 1 < members.size := by
  obtain ⟨start, hcheck, -⟩ := rules_of_leave h leaves
  obtain ⟨m, hm, -⟩ := bind_eq_ok.1 hcheck
  obtain ⟨-, members', hmembers, hfound, hsize⟩ := SuffrageDisjoin.member_eq_ok hm
  rw [Context.members_eq_ok seats.members] at hmembers
  cases hmembers
  exact ⟨Members.mem_addresses.2 (hfound ▸ rfl), hsize⟩

end admits

namespace Dispatcher

/-- Whom the accepted operations of a batch move by a strategy. -/
def moved (d : Dispatcher) (ops : List Operation) (s : Strategy) : Finset Address :=
  ((d.acceptedOperations ops).filterMap fun op => op.fact.intent.moves? s).toFinset

variable {store store' : Store} {config : EngineConfig} {d : Dispatcher} {ops : List Operation}
  {members : Members} {policy : NetworkPolicy} {a : Address}

theorem mem_moved {s : Strategy} : a ∈ d.moved ops s ↔
    ∃ op ∈ d.acceptedOperations ops, op.fact.intent.moves? s = some a := by
  simp [moved]

section moves

variable (h : d.Advances config ops store store')
include h

theorem exists_admits_of_mem_moved {s : Strategy} (moves : a ∈ d.moved ops s) :
    ∃ op height threshold changes, (store.context height threshold).Admits op changes ∧
      op.fact.intent.moves? s = some a := by
  obtain ⟨op, hop, hmoves⟩ := mem_moved.1 moves
  obtain ⟨accepted, -, -, hall, -⟩ := h.exists_accepted
  obtain ⟨entry, -, makes⟩ := exists_right hall hop
  exact ⟨op, _, _, entry.2, context_eq h.reads ▸ makes.admits, hmoves⟩

variable (seats : store.Seats members policy)
include seats

theorem Advances.joins (ha : a ∈ d.moved ops .insert) :
    a ∉ members.addresses ∧ members.size < policy.maxMembers.toNat := by
  obtain ⟨op, height, threshold, changes, hadmits, hmoves⟩ := exists_admits_of_mem_moved h ha
  exact joins_of_admits seats hadmits hmoves

theorem Advances.leaves (ha : a ∈ d.moved ops .remove) :
    a ∈ members.addresses ∧ 1 < members.size := by
  obtain ⟨op, height, threshold, changes, hadmits, hmoves⟩ := exists_admits_of_mem_moved h ha
  exact leaves_of_admits seats hadmits hmoves

end moves

variable (keyed : store.IsKeyed) (valid : store.HasValidDesigns)
include keyed valid

theorem mem_moved_iff {accepted : Store.Accepted}
    (hall : List.Forall₂ (Makes config.networkBytes d.context) (d.acceptedOperations ops) accepted)
    (reads : d.context.read = store.reader) (s : Strategy) (a : Address) :
    a ∈ d.moved ops s ↔ ∃ w ∈ Store.writes accepted, a ∈ w.2.moves s := by
  rw [mem_moved]
  constructor
  · rintro ⟨op, hop, hmoves⟩
    obtain ⟨entry, hentry, makes⟩ := exists_right hall hop
    obtain ⟨w, hw, ha⟩ := exists_moves_of_admits makes.admits hmoves
    exact ⟨(entry.1, w), Store.mem_writes.2 ⟨entry, hentry, rfl, hw⟩, ha⟩
  · rintro ⟨w, hw, ha⟩
    obtain ⟨op, hop⟩ := exists_wrote keyed valid hall reads (List.mem_map_of_mem hw)
    exact ⟨op, hop.accepted, hop.effect.moves? ha⟩

/-- The law of one batch: who moves, how many there are then, and that one who joins and one who
leaves do so within the bounds. -/
structure Reseats (d : Dispatcher) (ops : List Operation) (members members' : Members)
    (policy : NetworkPolicy) : Prop where
  addresses : members'.addresses = (members.addresses \ d.moved ops .remove) ∪ d.moved ops .insert
  size : members'.size + (d.moved ops .remove).card = members.size + (d.moved ops .insert).card
  room : (d.moved ops .insert).Nonempty → members.size < policy.maxMembers.toNat
  others : (d.moved ops .remove).Nonempty → 1 < members.size

theorem Advances.exists_reseats (seats : store.Seats members policy)
    (h : d.Advances config ops store store') :
    ∃ members', store'.Seats members' policy ∧ d.Reseats ops members members' policy := by
  have fresh : Disjoint members.addresses (d.moved ops .insert) :=
    Finset.disjoint_right.2 fun a ha => (h.joins seats ha).1
  have there : d.moved ops .remove ⊆ members.addresses := fun a ha => (h.leaves seats ha).1
  obtain ⟨accepted, height, records, hall, hcommit⟩ := h.exists_accepted
  have regular : ∀ w ∈ Store.writes accepted, w.2.Regular := by
    intro w hw
    obtain ⟨op, hop⟩ := exists_wrote keyed valid hall h.reads (List.mem_map_of_mem hw)
    exact hop.effect.regular
  obtain ⟨members', hmembers', haddresses⟩ := Store.addresses_commit hcommit regular seats.members
    (mem_moved_iff keyed valid hall h.reads) (fresh.symm.mono_right there)
  have hpolicy : store'.at? .networkPolicy = some (.networkPolicy policy) := by
    rw [Store.at?_commit_of_not_written hcommit fun w hw => (regular w hw).not_isFor_networkPolicy]
    exact seats.policy
  refine ⟨members', ⟨hmembers', hpolicy⟩, haddresses,
    Members.size_add_card fresh there haddresses, ?_, ?_⟩
  · rintro ⟨a, ha⟩
    exact (h.joins seats ha).2
  · rintro ⟨a, ha⟩
    exact (h.leaves seats ha).2

omit keyed valid in
/-- Where no two join and no two leave, what is checked of each alone is enough. -/
theorem Reseats.isWithin {members' : Members} (h : d.Reseats ops members members' policy)
    (joins : (d.moved ops .insert).card ≤ 1) (leaves : (d.moved ops .remove).card ≤ 1)
    (within : members.IsWithin policy) : members'.IsWithin policy := by
  obtain ⟨some_member, no_more⟩ := within
  have hsize := h.size
  have hroom : (d.moved ops .insert).card = 0 ∨ members.size < policy.maxMembers.toNat := by
    rcases Finset.eq_empty_or_nonempty (d.moved ops .insert) with hnone | hsome
    · exact .inl (Finset.card_eq_zero.2 hnone)
    · exact .inr (h.room hsome)
  have hothers : (d.moved ops .remove).card = 0 ∨ 1 < members.size := by
    rcases Finset.eq_empty_or_nonempty (d.moved ops .remove) with hnone | hsome
    · exact .inl (Finset.card_eq_zero.2 hnone)
    · exact .inr (h.others hsome)
  constructor <;> omega

end Dispatcher

namespace Store

/-- A store on which batches can seat members: the records are what they should be, and the members
are within their bounds. -/
structure IsManned (store : Store) (policy : NetworkPolicy) : Prop where
  keyed : store.IsKeyed
  designs : store.HasValidDesigns
  seats : ∃ members, store.Seats members policy ∧ members.IsWithin policy

/-- A store comes after another by a batch that lets no two join and no two leave. -/
def FollowsSingly (store store' : Store) : Prop :=
  ∃ config d ops, Dispatcher.Advances config d ops store store' ∧
    (d.moved ops .insert).card ≤ 1 ∧ (d.moved ops .remove).card ≤ 1

variable {store store' : Store} {policy : NetworkPolicy}

theorem IsManned.step (manned : store.IsManned policy) (h : store.FollowsSingly store') :
    store'.IsManned policy := by
  obtain ⟨config, d, ops, h, joins, leaves⟩ := h
  obtain ⟨members, seats, within⟩ := manned.seats
  obtain ⟨members', seats', reseats⟩ := h.exists_reseats manned.keyed manned.designs seats
  refine ⟨h.isKeyed manned.keyed manned.designs, h.hasValidDesigns manned.keyed manned.designs, ?_⟩
  exact ⟨members', seats', reseats.isWithin joins leaves within⟩

theorem IsManned.run (manned : store.IsManned policy)
    (run : Relation.ReflTransGen FollowsSingly store store') : store'.IsManned policy := by
  induction run with
  | refl => exact manned
  | tail _ step ih => exact ih.step step

end Store

/-- How many members batches leave. After any batch the members are those before it without those
who left and with those who joined, all told apart; it is checked of each that joins alone that
there is a place, and of each that leaves alone that there is another member. So the members stay
within their bounds in any run whose batches let no two join and no two leave. -/
theorem size_of_batches {store : Store} (keyed : store.IsKeyed) (valid : store.HasValidDesigns)
    {members : Members} {policy : NetworkPolicy} (seats : store.Seats members policy) :
    (∀ config d ops store', Dispatcher.Advances config d ops store store' →
      ∃ members', store'.Seats members' policy ∧ d.Reseats ops members members' policy) ∧
    (members.IsWithin policy → ∀ store', Relation.ReflTransGen Store.FollowsSingly store store' →
      ∃ members', store'.Seats members' policy ∧ members'.IsWithin policy) := by
  constructor
  · intro config d ops store' h
    exact h.exists_reseats keyed valid seats
  · intro within store' run
    exact (Store.IsManned.run ⟨keyed, valid, members, seats, within⟩ run).seats

namespace Sample

/-- Two members; one sign is half of them. -/
def council : Members := .ofList [⟨alice, key, .genesis⟩, ⟨bob, key, .genesis⟩]

def places : NetworkPolicy := ⟨4, 10⟩

def manned : Store :=
  (Store.setMembers .empty council).setNetworkPolicy places

theorem seats_manned : manned.Seats council places := by
  constructor
  · rfl
  · rfl

theorem isSound_manned : manned.IsSound := by
  have hmembers : (Store.setMembers .empty council).IsSound :=
    Store.isSound_empty.set .suffrage trivial (.inl rfl)
  exact hmembers.set .networkPolicy trivial (.inr (.inr rfl))

def lenient : EngineConfig :=
  { config with suffrageThreshold := 50 }

def chair : Dispatcher :=
  .start .standard (manned.context .genesis ⟨50, by decide⟩) lenient.networkBytes 64 false

theorem reachable_chair : chair.Reachable lenient :=
  .start (show Dispatcher.ofConfig lenient .genesis manned.reader = .ok chair from rfl)

/-- A member leaves, signed by itself. -/
def leave (node : Address) (hash r s : Nat) : Operation :=
  ⟨digest hash, ⟨[1], .suffrageDisjoin node .genesis⟩,
    [⟨key, BigEndian.bytes 32 r ++ BigEndian.bytes 32 s, some node⟩]⟩

def aliceLeaves : Operation :=
  leave alice 0xb0895312b05ee3c139849e0c46868b418a884ae0ca6267f5842d525465ba7038
    0x7fba54d8dab10a06520563a1acbd8468825b9bf74a6faaf22db0c478621ad74e
    0x1e9a03817cec183386eb6cde05e2840bb879f5eb264f721e2869d09186602ec8

def bobLeaves : Operation :=
  leave bob 0x1d3857ffe43c11e682b2561822967ba30e180a0412f8d1cfbf85facd6bdb2b94
    0x0100bb9b62db5cc2bab937187f48a748b714e06be66869425c2b7620da2aa7d3
    0x593a93a0ffae8ed7d7feab4b09ab380bbe2b5e66039f36ac2ef551e47fe9f9dd

theorem check_aliceLeaves : aliceLeaves.check config.networkBytes = .ok () := by
  refine check_single
    0xeddc1b690e06a4727c80e13b23ac5515bd406596ad1d217d2144c5489a118f95 rfl (fun _ => rfl) ?_ ?_ ?_
  · decide +kernel
  · decide +kernel
  · decide +kernel

theorem check_bobLeaves : bobLeaves.check config.networkBytes = .ok () := by
  refine check_single
    0xf8b3d44d7f8b9d9f59c9bba1a2e39fb21ba20eceb668eec16f5c2c2317acdf11 rfl (fun _ => rfl) ?_ ?_ ?_
  · decide +kernel
  · decide +kernel
  · decide +kernel

def mannedAfter (ops : List Operation) : Store :=
  committed manned (allAccepted chair.context ops)

theorem advances_leaving {ops : List Operation}
    (leaving : ∀ op ∈ ops, op = aliceLeaves ∨ op = bobLeaves)
    (commits : (manned.commit .genesis (allAccepted chair.context ops)).isOk = true) :
    chair.Advances lenient ops manned (mannedAfter ops) ∧ chair.acceptedOperations ops = ops := by
  apply advances_committed ?_ ?_ ?_ reachable_chair rfl commits
  · intro op hop
    rcases leaving op hop with rfl | rfl
    · exact check_aliceLeaves
    · exact check_bobLeaves
  · intro op hop
    rcases leaving op hop with rfl | rfl <;> rfl
  · intro op hop
    rcases leaving op hop with rfl | rfl <;> rfl

end Sample

/-- Two members may leave in one batch, and then there is none; if one leaves there is another. -/
theorem size_of_batches_leaving :
    (∃ members, (Sample.mannedAfter [Sample.aliceLeaves, Sample.bobLeaves]).Seats members
      Sample.places ∧ members.size = 0) ∧
    ∃ members, (Sample.mannedAfter [Sample.aliceLeaves]).Seats members Sample.places ∧
      members.IsWithin Sample.places := by
  obtain ⟨batch, run⟩ := size_of_batches Sample.isSound_manned.keyed Sample.isSound_manned.designs
    Sample.seats_manned
  constructor
  · obtain ⟨h, haccepted⟩ := @Sample.advances_leaving [Sample.aliceLeaves, Sample.bobLeaves]
      (by simp) rfl
    obtain ⟨members, seats, reseats⟩ := batch _ _ _ _ h
    refine ⟨members, seats, ?_⟩
    have hsize := reseats.size
    rw [Dispatcher.moved, Dispatcher.moved, haccepted] at hsize
    exact Nat.add_right_cancel (hsize : members.size + 2 = 0 + 2)
  · obtain ⟨h, haccepted⟩ := @Sample.advances_leaving [Sample.aliceLeaves] (by simp) rfl
    refine run ⟨by decide, by decide⟩ _ (.single ⟨_, _, _, h, ?_, ?_⟩)
    · rw [Dispatcher.moved, haccepted]
      decide
    · rw [Dispatcher.moved, haccepted]
      decide

/-- A batch in which both members leave empties the suffrage. -/
theorem size_zero_of_leaving :
    Sample.manned.IsSound ∧ Sample.manned.Seats Sample.council Sample.places ∧
    Sample.council.IsWithin Sample.places ∧
    Sample.chair.Advances Sample.lenient [Sample.aliceLeaves, Sample.bobLeaves] Sample.manned
      (Sample.mannedAfter [Sample.aliceLeaves, Sample.bobLeaves]) ∧
    (Sample.mannedAfter [Sample.aliceLeaves, Sample.bobLeaves]).Seats .empty Sample.places ∧
    ¬Members.IsWithin .empty Sample.places := by
  refine ⟨Sample.isSound_manned, Sample.seats_manned, ⟨by decide, by decide⟩, ?_, ?_, ?_⟩
  · exact (@Sample.advances_leaving [Sample.aliceLeaves, Sample.bobLeaves] (by simp) rfl).1
  · constructor
    · rfl
    · rfl
  · exact fun within => absurd within.1 (by decide)

end CurrencyLedger
