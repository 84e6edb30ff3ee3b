import CurrencyLedger.Proofs.Processing.Dispatcher
import CurrencyLedger.Proofs.Processing.Effect
import Mathlib.Logic.Relation

/-!
The ledger from height to height: a batch on a snapshot, and the commit of what it accepted. Every
change of the batch is one that its operation may make on the snapshot (`exists_effect`), although
operations may write over each other, and that keeps a store sound.
-/

namespace CurrencyLedger

open Traversal

namespace Dispatcher

/-- A dispatcher takes a store to the next one: it runs a batch on the store's records, and what it
accepted is committed. -/
structure Advances (config : EngineConfig) (d : Dispatcher) (ops : List Operation)
    (store store' : Store) : Prop where
  reachable : d.Reachable config
  reads : d.context.read = store.reader
  commits : ∃ result d' height records, d.batch ops = (.ok result, d') ∧
    store.commit height result.accepted = .ok (records, store')

/-- An accepted operation made a change, one of all those that a batch made. -/
structure Wrote (d : Dispatcher) (config : EngineConfig) (ops : List Operation) (store : Store)
    (changes : List Change) (w : Change) (op : Operation) : Prop where
  accepted : op ∈ d.acceptedOperations ops
  valid : op.check config.networkBytes = .ok ()
  made : ∃ own, w ∈ own ∧ (∀ w' ∈ own, w' ∈ changes) ∧ d.context.Admits op own
  effect : Effect store op changes w

variable {config : EngineConfig} {d : Dispatcher} {ops : List Operation} {store store' : Store}

theorem context_eq (reads : d.context.read = store.reader) :
    d.context = store.context d.context.height d.context.threshold := by
  cases h : d.context with
  | mk height read threshold =>
    rw [h] at reads
    cases reads
    rfl

theorem Advances.exists_accepted (h : d.Advances config ops store store') :
    ∃ accepted height records,
      List.Forall₂ (Makes config.networkBytes d.context) (d.acceptedOperations ops) accepted ∧
      store.commit height accepted = .ok (records, store') := by
  obtain ⟨result, d', height, records, hbatch, hcommit⟩ := h.commits
  exact ⟨result.accepted, height, records, forall₂_of_batch h.reachable hbatch, hcommit⟩

section effects

variable (keyed : store.IsKeyed) (valid : store.HasValidDesigns)
include keyed valid

/-- Each change of a batch is one that its operation may make. -/
theorem exists_wrote {accepted : Store.Accepted}
    (hall : List.Forall₂ (Makes config.networkBytes d.context) (d.acceptedOperations ops) accepted)
    (reads : d.context.read = store.reader) {w : Change}
    (hw : w ∈ (Store.writes accepted).map Prod.snd) :
    ∃ op, d.Wrote config ops store ((Store.writes accepted).map Prod.snd) w op := by
  obtain ⟨write, hwrite, rfl⟩ := List.mem_map.1 hw
  obtain ⟨entry, hentry, -, hmem⟩ := Store.mem_writes.1 hwrite
  obtain ⟨op, hop, hmakes⟩ := exists_left hall hentry
  have sub : ∀ w' ∈ entry.2, w' ∈ (Store.writes accepted).map Prod.snd := by
    intro w' hw'
    exact List.mem_map.2 ⟨(entry.1, w'), Store.mem_writes.2 ⟨entry, hentry, rfl, hw'⟩, rfl⟩
  refine ⟨op, hop, hmakes.valid, ⟨entry.2, hmem, sub, hmakes.admits⟩, ?_⟩
  have hadmits := hmakes.admits
  rw [context_eq reads] at hadmits
  exact (effect_of_admits keyed valid hadmits hmem).mono sub

/-- What stands at a place after a batch: the change of an accepted operation, or what stood there
before. -/
theorem Advances.at?_cases (h : d.Advances config ops store store') :
    ∃ changes : List Change, (∀ w ∈ changes, ∃ op, d.Wrote config ops store changes w op) ∧
      ∀ place : Place, place ≠ .suffrage → place ≠ .candidates →
        (∃ w ∈ changes, w.IsFor place ∧ store'.at? place = some w.payload) ∨
          (∀ w ∈ changes, ¬w.IsFor place) ∧ store'.at? place = store.at? place := by
  obtain ⟨accepted, height, records, hall, hcommit⟩ := h.exists_accepted
  have hwrote : ∀ w ∈ (Store.writes accepted).map Prod.snd, ∃ op, _ :=
    fun w hw => exists_wrote keyed valid hall h.reads hw
  refine ⟨_, hwrote, fun place hs hc => ?_⟩
  have hreplace : ∀ w ∈ Store.writes accepted, w.2.IsFor place → w.2.strategy = .replace := by
    intro w hw hfor
    obtain ⟨op, hop⟩ := hwrote w.2 (List.mem_map_of_mem hw)
    exact hop.effect.regular.strategy hfor hs hc
  rcases Store.at?_commit_cases hcommit hreplace with ⟨w, hw, hfor, hat⟩ | ⟨hnone, hat⟩
  · exact .inl ⟨w.2, List.mem_map_of_mem hw, hfor, hat⟩
  · refine .inr ⟨fun w hw => ?_, hat⟩
    obtain ⟨w', hw', rfl⟩ := List.mem_map.1 hw
    exact hnone w' hw'

theorem Advances.isKeyed (h : d.Advances config ops store store') : store'.IsKeyed := by
  obtain ⟨accepted, height, records, hall, hcommit⟩ := h.exists_accepted
  apply keyed.commit hcommit
  intro w hw
  obtain ⟨op, hop⟩ := exists_wrote keyed valid hall h.reads (List.mem_map_of_mem hw)
  exact hop.effect.regular

theorem Advances.hasValidDesigns (h : d.Advances config ops store store') :
    store'.HasValidDesigns := by
  obtain ⟨changes, hwrote, hat⟩ := h.at?_cases keyed valid
  intro c design hdesign
  rw [Store.design?_eq_some] at hdesign
  rcases hat (.design c) (by simp) (by simp) with ⟨w, hw, -, hpayload⟩ | ⟨-, hsame⟩
  · obtain ⟨op, hop⟩ := hwrote w hw
    exact hop.effect.design_valid (Option.some.inj (hpayload.symm.trans hdesign))
  · exact valid c design (Store.design?_eq_some.2 (hsame ▸ hdesign))

end effects

/-- A batch leaves a sound store. -/
theorem Advances.isSound (sound : store.IsSound) (h : d.Advances config ops store store') :
    store'.IsSound := by
  have keyed := h.isKeyed sound.keyed sound.designs
  obtain ⟨changes, hwrote, hat⟩ := h.at?_cases sound.keyed sound.designs
  refine ⟨keyed, h.hasValidDesigns sound.keyed sound.designs, fun a c hnone => ?_⟩
  rw [keyed.account?_eq_none] at hnone
  obtain ⟨hunwritten, hsame⟩ : (∀ w ∈ changes, ¬w.IsFor (.account a)) ∧
      store'.at? (.account a) = store.at? (.account a) := by
    rcases hat (.account a) (by simp) (by simp) with ⟨w, -, -, hpayload⟩ | hother
    · cases hnone.symm.trans hpayload
    · exact hother
  have hnone : store.account? a = none := sound.keyed.account?_eq_none.2 (hsame ▸ hnone)
  rw [keyed.balance?_eq_none]
  rcases hat (.balance a c) (by simp) (by simp) with ⟨w, hw, hfor, -⟩ | ⟨-, hbalance⟩
  · obtain ⟨op, hop⟩ := hwrote w hw
    obtain ⟨n, -, howner | ⟨acc, hacc, rfl⟩, -⟩ := hop.effect.of_balance sound.owners hfor
    · rw [hnone] at howner
      cases howner
    · exact absurd (Change.isFor_account.2 rfl) (hunwritten _ hacc)
  · exact hbalance.trans (sound.keyed.balance?_eq_none.1 (sound.owners a c hnone))

end Dispatcher

namespace Store

/-- A store comes after another by a batch of some engine. -/
def Follows (store store' : Store) : Prop :=
  ∃ config d ops, Dispatcher.Advances config d ops store store'

/-- Stores stay sound over any run of batches. -/
theorem IsSound.run {store store' : Store} (sound : store.IsSound)
    (run : Relation.ReflTransGen Follows store store') : store'.IsSound := by
  induction run with
  | refl => exact sound
  | tail _ step ih =>
    obtain ⟨config, d, ops, h⟩ := step
    exact h.isSound ih

end Store

end CurrencyLedger
