import CurrencyLedger.Proofs.Ledger.Ordering
import CurrencyLedger.Proofs.Processing.Redesign
import CurrencyLedger.Proofs.Processing.Replay
import CurrencyLedger.Proofs.Processing.Sequence

/-!
Operations in no conflict commute. A walk hands only claims from one operation to the next, so where
no two operations claim the same each ends as it does on its own (`Terms.walk_of_disjoint`), and a
permutation of the operations permutes what is reported of them.
-/

namespace CurrencyLedger

open Traversal

namespace Terms

variable {t : Terms} {taken : Finset Claim} {op : Operation} {ops : List Operation}

/-- How an operation ends on its own. -/
def outcome (t : Terms) (op : Operation) : Except LedgerError Outcome :=
  Outcome.ofResult (t.judge ∅ op)

/-- Claims that are taken matter only to an operation that makes them too. -/
theorem judge_of_free (free : ∀ claim ∈ t.claims op, claim ∉ taken) :
    t.judge taken op = t.judge ∅ op := by
  have hfind : ∀ held : Finset Claim, (∀ claim ∈ t.claims op, claim ∉ held) →
      (t.claims op).find? (· ∈ held) = none := by
    intro held h
    simpa using h
  rw [judge, judge, hfind taken free, hfind ∅ (by simp)]

/-- Where no two operations claim the same, each ends as on its own. -/
theorem walk_of_disjoint (disjoint : ops.Pairwise fun a b => (t.claims a).Disjoint (t.claims b))
    (free : ∀ op ∈ ops, ∀ claim ∈ t.claims op, claim ∉ taken) :
    (t.walk taken ops).map Prod.fst = ops.mapM t.outcome := by
  induction ops generalizing taken with
  | nil => rfl
  | cons op rest ih =>
    obtain ⟨hop, hrest⟩ := List.pairwise_cons.1 disjoint
    obtain ⟨now, later⟩ := List.forall_mem_cons.1 free
    have htaken : ∀ op' ∈ rest, ∀ claim ∈ t.claims op',
        claim ∉ taken ∪ (t.claims op).toFinset := by
      intro op' hop' claim hclaim
      rw [Finset.mem_union, List.mem_toFinset]
      rintro (h | h)
      · exact later op' hop' claim hclaim h
      · exact hop op' hop' h hclaim
    rw [walk, judge_of_free now, List.mapM_cons, outcome]
    cases t.judge ∅ op with
    | ok changes =>
      simp only [Outcome.ofResult, ← ih hrest htaken]
      cases t.walk (taken ∪ (t.claims op).toFinset) rest <;> rfl
    | error halt =>
      cases halt with
      | rejected reason =>
        simp only [Outcome.ofResult, ← ih hrest later]
        cases t.walk taken rest <;> rfl
      | fatal error => rfl

end Terms

namespace BatchResult

/-- What is reported of operations that end each in its own way. -/
theorem ofOutcomes_map (ops : List Operation) (ending : Operation → Outcome) :
    ofOutcomes ops (ops.map ending) =
      ⟨ops.filterMap fun op => (ending op).changes?.map (op.hash, ·),
        ops.filterMap fun op => (ending op).reason?.map (op.hash, ·)⟩ := by
  have hzip : ops.zip (ops.map ending) = ops.map fun op => (op, ending op) := by
    induction ops with
    | nil => rfl
    | cons op rest ih => rw [List.map_cons, List.zip_cons_cons, ih, List.map_cons]
  simp only [ofOutcomes, hzip, List.filterMap_map]
  rfl

end BatchResult

/-- A new dispatcher that judges by the terms. -/
def Terms.dispatcher (t : Terms) (capacity : Nat) : Dispatcher :=
  .start t.registry t.context t.network capacity t.strict

section batch

variable {t : Terms} (own : ∀ kind made, t.registry kind = some made → made = kind)
  (capacity : Nat) {ops ops' : List Operation}
include own

theorem Terms.batch_of_disjoint
    (disjoint : ops.Pairwise fun a b => (t.claims a).Disjoint (t.claims b)) :
    ((t.dispatcher capacity).batch ops).1 =
      (ops.mapM t.outcome).map (BatchResult.ofOutcomes ops) := by
  have orderly : (t.dispatcher capacity).IsOrderly := ⟨own, Pool.isFiled_ofCapacity capacity⟩
  have hwalk : (t.walk ∅ ops).map Prod.fst = ops.mapM t.outcome :=
    walk_of_disjoint disjoint (by simp)
  rw [← hwalk]
  refine (orderly.batchFrom_eq .empty ops).result.trans ?_
  change (t.walk ∅ ops).map _ = _
  cases t.walk ∅ ops <;> rfl

theorem Terms.batch_of_endings {ending : Operation → Outcome}
    (endings : ∀ op ∈ ops, t.outcome op = .ok (ending op))
    (disjoint : ops.Pairwise fun a b => (t.claims a).Disjoint (t.claims b)) :
    ((t.dispatcher capacity).batch ops).1 = .ok (.ofOutcomes ops (ops.map ending)) := by
  rw [batch_of_disjoint own capacity disjoint, mapM_eq_map endings]
  rfl

end batch

/-- Operations in no conflict commute. If no two operations of a list claim the same, and those that
a new dispatcher accepts write no key in common, then each ends as it does on its own. So in any
order the same are accepted, with the same changes, and the same rejected, for the same reasons, and
a commit of what is accepted leaves the same records. -/
theorem batch_perm {t : Terms} (own : ∀ kind made, t.registry kind = some made → made = kind)
    (capacity : Nat) {ops : List Operation} {result : BatchResult}
    (batch : ((t.dispatcher capacity).batch ops).1 = .ok result)
    (disjoint : ops.Pairwise fun a b => (t.claims a).Disjoint (t.claims b))
    (apart : result.accepted.Pairwise fun a b =>
      (a.2.map Change.key).Disjoint (b.2.map Change.key)) :
    ∃ ending : Operation → Outcome, (∀ op ∈ ops, t.outcome op = .ok (ending op)) ∧
      result = .ofOutcomes ops (ops.map ending) ∧
      ∀ ops', ops.Perm ops' → ∃ result',
        ((t.dispatcher capacity).batch ops').1 = .ok result' ∧
        result' = .ofOutcomes ops' (ops'.map ending) ∧
        result.accepted.Perm result'.accepted ∧ result.rejected.Perm result'.rejected ∧
        ∀ (store : Store) (height : Height) (left : List Record × Store),
          store.commit height result.accepted = .ok left ↔
            store.commit height result'.accepted = .ok left := by
  rw [Terms.batch_of_disjoint own capacity disjoint] at batch
  obtain ⟨outcomes, houtcomes, -⟩ := map_eq_ok.1 batch
  let ending := fun op => (t.outcome op).toOption.getD (.accepted [])
  have endings : ∀ op ∈ ops, t.outcome op = .ok (ending op) := by
    intro op hop
    obtain ⟨outcome, -, houtcome⟩ := exists_right (mapM_eq_ok_iff.1 houtcomes) hop
    simp only [ending, houtcome]
    rfl
  rw [← Terms.batch_of_disjoint own capacity disjoint,
    Terms.batch_of_endings own capacity endings disjoint] at batch
  obtain rfl := Except.ok.inj batch
  refine ⟨ending, endings, rfl, fun ops' perm => ?_⟩
  have disjoint' := (perm.pairwise_iff fun h => h.symm).1 disjoint
  have endings' : ∀ op ∈ ops', t.outcome op = .ok (ending op) :=
    fun op hop => endings op (perm.mem_iff.2 hop)
  have accepted : (BatchResult.ofOutcomes ops (ops.map ending)).accepted.Perm
      (BatchResult.ofOutcomes ops' (ops'.map ending)).accepted := by
    rw [BatchResult.ofOutcomes_map, BatchResult.ofOutcomes_map]
    exact perm.filterMap _
  have rejected : (BatchResult.ofOutcomes ops (ops.map ending)).rejected.Perm
      (BatchResult.ofOutcomes ops' (ops'.map ending)).rejected := by
    rw [BatchResult.ofOutcomes_map, BatchResult.ofOutcomes_map]
    exact perm.filterMap _
  refine ⟨_, Terms.batch_of_endings own capacity endings' disjoint', rfl, accepted, rejected, ?_⟩
  intro store height left
  exact Store.commit_perm accepted apart

namespace Sample

/-- The ledger with members, and a candidate who waits. -/
def bustling : Store :=
  (chaired.setCandidates (.ofList [applicant])).setNetworkPolicy places

/-- One operation of each sender. -/
def bustle : Terms :=
  ⟨.standard, bustling.context .genesis chair.context.threshold, lenient.networkBytes, true⟩

theorem admits_bustle : bustle.context.Admits payment (made bustle.context payment) ∧
    bustle.context.Admits carolJoins (made bustle.context carolJoins) :=
  ⟨admits_made rfl, admits_made rfl⟩

/-- An operation that is in order and admitted is accepted on its own. -/
theorem outcome_of_admits {t : Terms} (known : ∀ kind, t.registry kind ≠ none) {op : Operation}
    (valid : op.check t.network = .ok ()) {changes : List Change}
    (admits : t.context.Admits op changes) : t.outcome op = .ok (.accepted changes) := by
  have hfind : (t.claims op).find? (· ∈ (∅ : Finset Claim)) = none := by simp
  rw [Terms.outcome, Terms.judge_fit (known _) valid admits.check, hfind]
  simp only [admits.effects]
  rfl

/-- What is accepted of the operations in their order. -/
def bustleAccepted (ops : List Operation) : Store.Accepted :=
  allAccepted bustle.context ops

theorem apart_bustle : (bustleAccepted [payment, carolJoins]).Pairwise fun a b =>
    (a.2.map Change.key).Disjoint (b.2.map Change.key) := by
  have hkeys : ∀ k ∈ (made bustle.context payment).map Change.key,
      k ∉ (made bustle.context carolJoins).map Change.key := by
    decide +kernel
  exact List.pairwise_pair.2 hkeys

end Sample

/-- A transfer and a member that joins, with an operation that is not in order. -/
theorem batch_perm_bustle : ∃ reason result',
    ((Sample.bustle.dispatcher 64).batch
      [Sample.unsigned, Sample.payment, Sample.carolJoins]).1 =
        .ok ⟨Sample.bustleAccepted [Sample.payment, Sample.carolJoins],
          [(Sample.unsigned.hash, reason)]⟩ ∧
    ((Sample.bustle.dispatcher 64).batch
      [Sample.carolJoins, Sample.unsigned, Sample.payment]).1 = .ok result' ∧
    (Sample.bustleAccepted [Sample.payment, Sample.carolJoins]).Perm result'.accepted ∧
    ∀ left, Sample.bustling.commit .genesis
        (Sample.bustleAccepted [Sample.payment, Sample.carolJoins]) = .ok left ↔
      Sample.bustling.commit .genesis result'.accepted = .ok left := by
  have own : ∀ kind made, Sample.bustle.registry kind = some made → made = kind := by
    intro kind made h
    exact (Option.some.inj h).symm
  have known : ∀ kind, Sample.bustle.registry kind ≠ none := by
    intro kind h
    cases h
  have disjoint : [Sample.unsigned, Sample.payment, Sample.carolJoins].Pairwise fun a b =>
      (Sample.bustle.claims a).Disjoint (Sample.bustle.claims b) := by
    have hunsigned : Sample.bustle.claims Sample.unsigned = [] := rfl
    have hjoins : Sample.bustle.claims Sample.carolJoins = [] := rfl
    simp [hunsigned, hjoins]
  obtain ⟨reason, hunsigned⟩ : ∃ reason,
      Sample.bustle.outcome Sample.unsigned = .ok (.rejected reason) := ⟨_, rfl⟩
  have hpayment := Sample.outcome_of_admits known Sample.check_payment Sample.admits_bustle.1
  have hjoins := Sample.outcome_of_admits known Sample.check_carolJoins Sample.admits_bustle.2
  have batch : ((Sample.bustle.dispatcher 64).batch
      [Sample.unsigned, Sample.payment, Sample.carolJoins]).1 =
        .ok ⟨Sample.bustleAccepted [Sample.payment, Sample.carolJoins],
          [(Sample.unsigned.hash, reason)]⟩ := by
    rw [Terms.batch_of_disjoint own 64 disjoint, List.mapM_cons, List.mapM_cons, List.mapM_cons,
      hunsigned, hpayment, hjoins]
    rfl
  obtain ⟨ending, -, -, hperm⟩ := batch_perm own 64 batch disjoint Sample.apart_bustle
  obtain ⟨result', batch', -, accepted, -, commits⟩ := hperm
    [Sample.carolJoins, Sample.unsigned, Sample.payment]
    (@List.perm_append_comm _ [Sample.unsigned, Sample.payment] [Sample.carolJoins])
  exact ⟨reason, result', batch, batch', accepted,
    fun left => commits Sample.bustling .genesis left⟩

end CurrencyLedger
