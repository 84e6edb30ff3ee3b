import CurrencyLedger.Proofs.Processing.Rejection
import CurrencyLedger.Proofs.Processing.Sequence

/-!
No operation stops the ledger. On a store with a suffrage and a network policy an operation is
judged to be accepted or rejected, whatever it holds (`Terms.judge_failsBy`), so every batch ends
with a result. The changes of what it accepted can be committed, and the next store is as fit for a
batch.
-/

namespace CurrencyLedger

open Traversal

/-- A store that batches run on: records hold what their keys stand for, designs are in order, and
the records of the governance are there. -/
structure Store.IsRunnable (store : Store) : Prop where
  keyed : store.IsKeyed
  designs : store.HasValidDesigns
  governed : store.IsGoverned

namespace Terms

/-- No operation is judged to stop the height. -/
theorem judge_failsBy {t : Terms} {store : Store} {height : Height} {threshold : Threshold}
    (runnable : store.IsRunnable) (hcontext : t.context = store.context height threshold)
    (taken : Finset Claim) (op : Operation) :
    FailsBy Halt.IsRejection (t.judge taken op) := by
  unfold judge
  rw [hcontext]
  split
  · exact .error trivial
  refine .bind (.mapError fun _ _ => trivial) fun _ hvalid => ?_
  have hfact := (Operation.check_eq_ok.1 (mapError_eq_ok.1 hvalid)).1
  have hintent := (Fact.check_eq_ok.1 hfact).2
  refine .bind (Rules.check_failsBy runnable.keyed runnable.governed hintent) fun _ hcheck => ?_
  split
  · exact .error trivial
  · have can : (store.context height threshold).EffectsFailBy fun _ => False :=
      Context.effectsFailBy_false runnable.keyed runnable.governed runnable.designs
    exact (Rules.effects_failsBy can hintent hcheck).mono fun _ h => h.elim

/-- A walk is not stopped if no operation is judged to stop it. -/
theorem exists_walk {t : Terms} (judges : ∀ taken op, FailsBy Halt.IsRejection (t.judge taken op))
    (taken : Finset Claim) (ops : List Operation) :
    ∃ outcomes held, t.Walks taken ops outcomes held := by
  induction ops generalizing taken with
  | nil => exact ⟨[], taken, .nil⟩
  | cons op rest ih =>
    cases hjudged : t.judge taken op with
    | ok changes =>
      obtain ⟨outcomes, held, walks⟩ := ih (taken ∪ (t.claims op).toFinset)
      exact ⟨_, held, .accepted hjudged walks⟩
    | error halt =>
      cases halt with
      | rejected reason =>
        obtain ⟨outcomes, held, walks⟩ := ih taken
        exact ⟨_, held, .rejected hjudged walks⟩
      | fatal error => exact (judges taken op _ hjudged).elim

end Terms

namespace Dispatcher

variable {store store' : Store} {config : EngineConfig} {d : Dispatcher} {ops : List Operation}

theorem Advances.isRunnable (runnable : store.IsRunnable)
    (h : d.Advances config ops store store') : store'.IsRunnable := by
  obtain ⟨accepted, height, records, -, hcommit⟩ := h.exists_accepted
  refine ⟨h.isKeyed runnable.keyed runnable.designs,
    h.hasValidDesigns runnable.keyed runnable.designs, ?_⟩
  exact ⟨Store.isSome_at?_commit hcommit runnable.governed.suffrage,
    Store.isSome_at?_commit hcommit runnable.governed.policy⟩

theorem exists_batch_of_isRunnable (runnable : store.IsRunnable) (reachable : d.Reachable config)
    (reads : d.context.read = store.reader) (ops : List Operation) :
    ∃ result d', d.batch ops = (.ok result, d') := by
  have judges := Terms.judge_failsBy (t := d.terms) runnable (context_eq reads)
  obtain ⟨outcomes, held, walks⟩ := Terms.exists_walk judges d.claims.held ops
  have reaches := reachable.isReady.isOrderly.batchFrom_eq .empty ops
  rw [Terms.walk_eq_ok.2 walks] at reaches
  exact ⟨_, (d.batch ops).2, Prod.ext reaches.result rfl⟩

/-- What a batch on a keyed store accepts can be committed. -/
theorem exists_commit_of_batch (keyed : store.IsKeyed) (valid : store.HasValidDesigns)
    (reachable : d.Reachable config) (reads : d.context.read = store.reader)
    {result : BatchResult} {d' : Dispatcher} (hbatch : d.batch ops = (.ok result, d'))
    (height : Height) :
    ∃ records store', store.commit height result.accepted = .ok (records, store') := by
  have hall := forall₂_of_batch reachable hbatch
  apply keyed.exists_commit
  intro w hw
  obtain ⟨op, hop⟩ := exists_wrote keyed valid hall reads (List.mem_map_of_mem hw)
  exact hop.effect.regular

end Dispatcher

/-- No operation stops the ledger. A valid configuration makes a dispatcher at every height, and
whatever the operations are, the batch of a dispatcher on a store that is fit for it ends with a
result, the changes of what it accepted can be committed, and the next store is fit for a batch. -/
theorem exists_batch_and_commit {store : Store} (runnable : store.IsRunnable)
    {config : EngineConfig} {threshold : Threshold} (valid : config.check = .ok threshold) :
    (∀ height, ∃ d, Dispatcher.ofConfig config height store.reader = .ok d) ∧
    ∀ d : Dispatcher, d.Reachable config → d.context.read = store.reader →
      ∀ ops, ∃ result d', d.batch ops = (.ok result, d') ∧
        ∀ height, ∃ records store', store.commit height result.accepted = .ok (records, store') ∧
          store'.IsRunnable := by
  constructor
  · intro height
    exact ⟨_, bind_eq_ok.2 ⟨threshold, mapError_eq_ok.2 valid, rfl⟩⟩
  · intro d reachable reads ops
    obtain ⟨result, d', hbatch⟩ :=
      Dispatcher.exists_batch_of_isRunnable runnable reachable reads ops
    refine ⟨result, d', hbatch, fun height => ?_⟩
    obtain ⟨records, store', hcommit⟩ :=
      Dispatcher.exists_commit_of_batch runnable.keyed runnable.designs reachable reads hbatch
        height
    have advances : d.Advances config ops store store' :=
      ⟨reachable, reads, result, d', height, records, hbatch, hcommit⟩
    exact ⟨records, store', hcommit, advances.isRunnable runnable⟩

namespace Sample

/-- The ledger with the records of the governance. -/
def governed : Store :=
  (ledger.setMembers .empty).setNetworkPolicy ⟨4, 10⟩

theorem isRunnable_governed : governed.IsRunnable := by
  have hmembers : (ledger.setMembers .empty).IsSound :=
    isSound_ledger.set .suffrage trivial (.inl rfl)
  have hsound : governed.IsSound :=
    hmembers.set .networkPolicy trivial (.inr (.inr rfl))
  exact ⟨hsound.keyed, hsound.designs, rfl, rfl⟩

end Sample

/-- Operations without signs, and with hashes that are wrong, do not stop a batch. -/
theorem exists_batch_and_commit_unsigned :
    Sample.governed.IsRunnable ∧ Sample.config.check = .ok .standard ∧
    ∃ d, Dispatcher.ofConfig Sample.config .genesis Sample.governed.reader = .ok d ∧
      ∃ result d', d.batch [Sample.unsigned, Sample.payment, Sample.unsigned] =
          (.ok result, d') ∧
        ∃ records store', Sample.governed.commit .genesis result.accepted =
          .ok (records, store') ∧ store'.IsRunnable := by
  have valid : Sample.config.check = .ok .standard := rfl
  obtain ⟨-, runs⟩ := exists_batch_and_commit Sample.isRunnable_governed valid
  refine ⟨Sample.isRunnable_governed, valid, _, rfl, ?_⟩
  obtain ⟨result, d', hbatch, hcommit⟩ := runs _ (.start rfl) rfl _
  exact ⟨result, d', hbatch, hcommit .genesis⟩

end CurrencyLedger
