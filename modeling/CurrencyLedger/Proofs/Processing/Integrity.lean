import CurrencyLedger.Proofs.Ledger.WellFormed
import CurrencyLedger.Proofs.Processing.Ownership

/-!
Runs of batches keep a store well formed, although operations of one batch may write over each
other: whatever an operation writes is in order by itself.
-/

namespace CurrencyLedger

/-- A batch leaves a well formed store. -/
theorem Dispatcher.Advances.wellFormed {config : EngineConfig} {d : Dispatcher}
    {ops : List Operation} {store store' : Store} (wf : store.WellFormed)
    (h : d.Advances config ops store store') : store'.WellFormed := by
  obtain ⟨accepted, height, records, hall, hcommit⟩ := h.exists_accepted
  have heffect : ∀ w ∈ Store.writes accepted, ∃ op changes, Effect store op changes w.2 := by
    intro w hw
    obtain ⟨op, hop⟩ :=
      exists_wrote wf.keyed wf.designs hall h.reads (List.mem_map_of_mem hw)
    exact ⟨op, _, hop.effect⟩
  refine wf.commit hcommit (fun w hw => ?_) (fun w hw amount hpayload => ?_)
    fun w hw d hpayload => ?_
  · obtain ⟨op, changes, effect⟩ := heffect w hw
    exact effect.regular
  · obtain ⟨op, changes, effect⟩ := heffect w hw
    exact effect.balance_nonneg wf.balance_nonneg hpayload
  · obtain ⟨op, changes, effect⟩ := heffect w hw
    exact effect.design_valid hpayload

/-- A ledger that starts empty or otherwise well formed is so after any sequence of batches. -/
theorem wellFormed_of_run : Store.WellFormed .empty ∧
    ∀ store store' : Store, store.WellFormed →
      Relation.ReflTransGen Store.Follows store store' → store'.WellFormed := by
  refine ⟨Store.wellFormed_empty, fun store store' wf run => ?_⟩
  induction run with
  | refl => exact wf
  | tail _ step ih =>
    obtain ⟨config, d, ops, h⟩ := step
    exact h.wellFormed ih

theorem Sample.wellFormed_ledger : ledger.WellFormed := by
  have hdesign := Store.wellFormed_empty.set (.design design.currency) (p := .design design)
    ⟨rfl, rfl⟩
  have haccount : ∀ a, Payload.Suits (.account ⟨a, some keys⟩) (.account a) :=
    fun a => ⟨rfl, fun s _ => s.make_self⟩
  have haccounts := ((hdesign.set (.account alice) (haccount alice)).set (.account bob)
    (haccount bob)).set (.account carol) (haccount carol)
  exact haccounts.set (.balance alice currency) (p := .balance ⟨100, currency⟩) ⟨rfl, by decide⟩

theorem wellFormed_of_run_payment : (Sample.ledgerAfter [Sample.payment]).WellFormed :=
  wellFormed_of_run.2 Sample.ledger _ Sample.wellFormed_ledger
    (.single ⟨Sample.config, Sample.dispatcher, [Sample.payment], Sample.advances_payment⟩)

end CurrencyLedger
