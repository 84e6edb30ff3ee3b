import CurrencyLedger.Proofs.Processing.Paid

/-!
How effects fail. An operation that passed its check is not rejected when its effects are made: they
fail by nothing but what the reads of records fail by (`Rules.effects_failsBy`).
-/

namespace CurrencyLedger

open Traversal

def Halt.IsFatal : Halt → Prop
  | fatal _ => True
  | rejected _ => False

theorem Result.ofState_failsBy {α : Type} (r : Except StateError α) :
    FailsBy Halt.IsFatal (Result.ofState r) :=
  .mapError fun _ _ => trivial

namespace Context

variable (ctx : Context)

theorem find_failsBy {α : Type} (key : String) (content : Record → Except StateError α) :
    FailsBy Halt.IsFatal (ctx.find key content) := by
  unfold find
  refine .bind (.mapError fun _ _ => trivial) fun found _ => ?_
  cases found with
  | none => exact .pure none
  | some r => exact (Result.ofState_failsBy _).bind fun a _ => .pure (some a)

theorem balance_failsBy (a : Address) (c : CurrencyId) :
    FailsBy Halt.IsFatal (ctx.balance a c) := by
  unfold balance balance?
  refine .bind ?_ fun n _ => .pure (n.getD 0)
  exact (ctx.find_failsBy _ _).bind fun found _ => .pure (found.map Amount.magnitude)

theorem require_failsBy {α : Type} (key : String) (content : Record → Except StateError α) :
    FailsBy Halt.IsFatal (ctx.require key content) := by
  unfold require
  refine (ctx.find_failsBy key content).bind fun found _ => ?_
  cases found with
  | none => exact .error trivial
  | some a => exact .pure a

/-- What the making of effects can fail by, after the check of the operation passed. -/
structure EffectsFailBy (P : Halt → Prop) : Prop where
  balance : ∀ a c, FailsBy P (ctx.balance a c)
  networkPolicy : FailsBy P ctx.networkPolicy
  debit : ∀ {sender : Address} {amounts : List Amount} {charges : List Charge}
    {balances : List (CurrencyId × Int)}, (∀ a ∈ amounts, 0 ≤ a.magnitude) →
    Charge.ofAmounts ctx amounts = .ok charges →
    Charge.coverAll ctx sender charges = .ok balances →
    ∀ charge ∈ charges, FailsBy P (Settlement.debitChange sender balances charge)

/-- Whatever the records are, effects are not a matter of rejection any more. -/
theorem effectsFailBy_fatal : ctx.EffectsFailBy Halt.IsFatal := by
  refine ⟨ctx.balance_failsBy, ctx.require_failsBy _ _, ?_⟩
  intro sender amounts charges balances _ _ _ charge _
  unfold Settlement.debitChange
  split
  · exact .ok _
  · split
    · exact .ok _
    · exact .error trivial

end Context

theorem Payment.amounts_nonneg {intent : Intent} {p : Payment} (hp : intent.payment? = some p)
    (h : intent.check = .ok ()) : ∀ a ∈ p.amounts, 0 ≤ a.magnitude := by
  intro a ha
  cases intent <;> cases hp
  case createAccounts sender items =>
    obtain ⟨targets, hitems, -⟩ := Intent.check_createAccounts h
    obtain ⟨item, hitem, ha⟩ := List.mem_flatMap.1 ha
    obtain ⟨_, -, -, hamounts, -⟩ := exists_right hitems hitem
    exact Int.le_of_lt (hamounts.positive a ha)
  case transfers sender items =>
    obtain ⟨item, hitem, ha⟩ := List.mem_flatMap.1 ha
    have hamounts := ((Intent.check_transfers h).2 item hitem).1
    exact Int.le_of_lt (hamounts.positive a ha)
  case keyUpdater =>
    obtain rfl := List.mem_singleton.1 ha
    exact Int.le_refl 0

section effects

variable {ctx : Context} {P : Halt → Prop} {op : Operation}

/-- A charge is only made in a currency that there is. -/
theorem Charge.design_of_ofAmounts {amounts : List Amount} {charges : List Charge}
    (h : ofAmounts ctx amounts = .ok charges) {charge : Charge} (hc : charge ∈ charges) :
    ∃ d, ctx.design charge.currency = .ok d := by
  obtain ⟨s, -, hs⟩ := exists_left (mapM_eq_ok_iff.1 h) hc
  simp only [ofSum, bind_eq_ok] at hs
  obtain ⟨d, hd, fee, -, hs⟩ := hs
  have hcurrency : charge.currency = s.currency := by
    split at hs
    · obtain ⟨_, -, hs⟩ := bind_eq_ok.1 hs
      cases hs
      rfl
    · cases hs
      rfl
  exact ⟨d, hcurrency ▸ hd⟩

theorem Settlement.changes_failsBy (reads : ∀ a c, FailsBy P (ctx.balance a c)) {sender : Address}
    {balances : List (CurrencyId × Int)} {charges : List Charge} {credits : List Credit}
    (designs : ∀ charge ∈ charges, ∃ d, ctx.design charge.currency = .ok d)
    (debits : ∀ charge ∈ charges, FailsBy P (debitChange sender balances charge)) :
    FailsBy P (changes ctx sender balances charges credits) := by
  have hcredit : ∀ credit ∈ credits, FailsBy P (creditChange ctx sender charges credit) :=
    fun credit _ => (reads _ _).bind fun _ _ => .pure _
  have hfee : ∀ charge ∈ charges, FailsBy P (feeChange ctx sender credits charge) := by
    intro charge _
    unfold feeChange
    split
    · exact .pure none
    · split
      · exact .pure none
      · exact (reads _ _).bind fun _ _ => .pure _
  have hdesign : ∀ charge ∈ charges, FailsBy P (designChange ctx charge) := by
    intro charge hc
    obtain ⟨d, hd⟩ := designs charge hc
    unfold designChange
    split
    · exact .pure none
    · exact .bind_of_ok hd (.pure _)
  refine (FailsBy.mapM hcredit).bind fun credited _ => ?_
  refine (FailsBy.mapM hfee).bind fun fees _ => ?_
  refine (FailsBy.mapM debits).bind fun debited _ => ?_
  exact (FailsBy.mapM hdesign).bind fun _ _ => .pure _

variable (can : ctx.EffectsFailBy P)
include can

theorem Charge.changes_failsBy {sender : Address} {amounts : List Amount} {charges : List Charge}
    {balances : List (CurrencyId × Int)} {credits : List Settlement.Credit}
    (nonneg : ∀ a ∈ amounts, 0 ≤ a.magnitude) (hcharges : ofAmounts ctx amounts = .ok charges)
    (hbalances : coverAll ctx sender charges = .ok balances) :
    FailsBy P (Settlement.changes ctx sender balances charges credits) :=
  Settlement.changes_failsBy can.balance (fun _ hc => design_of_ofAmounts hcharges hc)
    (can.debit nonneg hcharges hbalances)

theorem CreateAccounts.effects_failsBy {sender : Address} {items : List NewAccount}
    (hfact : (Intent.createAccounts sender items).check = .ok ())
    (hcheck : check ctx op sender items = .ok ()) : FailsBy P (effects ctx sender items) := by
  simp only [check, bind_eq_ok] at hcheck
  obtain ⟨_, -, _, hitems, charges, hcharges, balances, hbalances, -⟩ := hcheck
  refine .bind_of_ok hcharges (.bind_of_ok hbalances ?_)
  refine .bind (.mapM fun item hitem => ?_) fun created _ => ?_
  · have hitem := Check.forEach_eq_ok_iff.1 hitems item hitem
    rw [checkItem, bind_eq_ok] at hitem
    obtain ⟨a, ha, -⟩ := hitem
    exact .bind_of_ok ha (.pure _)
  · refine (Charge.changes_failsBy can ?_ hcharges hbalances).bind fun _ _ => .pure _
    exact Payment.amounts_nonneg rfl hfact

theorem Transfers.effects_failsBy {sender : Address} {items : List Transfer}
    (hfact : (Intent.transfers sender items).check = .ok ())
    (hcheck : check ctx op sender items = .ok ()) : FailsBy P (effects ctx sender items) := by
  simp only [check, bind_eq_ok] at hcheck
  obtain ⟨_, -, _, -, charges, hcharges, balances, hbalances, -⟩ := hcheck
  refine .bind_of_ok hcharges (.bind_of_ok hbalances ?_)
  exact Charge.changes_failsBy can (Payment.amounts_nonneg rfl hfact) hcharges hbalances

theorem KeyUpdater.effects_failsBy {target : Address} {keys : KeySet} {currency : CurrencyId}
    (hfact : (Intent.keyUpdater target keys currency).check = .ok ())
    (hcheck : check ctx op target keys currency = .ok ()) :
    FailsBy P (effects ctx op target keys currency) := by
  rw [check, bind_eq_ok] at hcheck
  obtain ⟨c, hc, -⟩ := hcheck
  refine .bind_of_ok hc ?_
  simp only [checked, bind_eq_ok] at hc
  obtain ⟨acc, -, hc⟩ := hc
  split at hc
  · cases hc
  · simp only [bind_eq_ok, pure_eq_ok] at hc
    obtain ⟨charges, hcharges, balances, hbalances, rfl⟩ := hc
    refine (Charge.changes_failsBy can ?_ hcharges hbalances).bind fun _ _ => .pure _
    exact Payment.amounts_nonneg rfl hfact

theorem CurrencyRegister.register_failsBy (d : CurrencyDesign) : FailsBy P (register ctx d) :=
  (can.balance _ _).bind fun _ _ => .pure _

omit can in
theorem CurrencyPolicyUpdater.effects_failsBy {currency : CurrencyId} {policy : CurrencyPolicy}
    (hcheck : check ctx op currency policy = .ok ()) : FailsBy P (effects ctx currency policy) := by
  rw [check, bind_eq_ok] at hcheck
  obtain ⟨d, hd, -⟩ := hcheck
  exact .bind_of_ok hd (.pure _)

theorem Mint.effects_failsBy {items : List Issue} (hcheck : check ctx op items = .ok ()) :
    FailsBy P (effects ctx items) := by
  rw [check, check_bind_eq_ok] at hcheck
  have hitems := Check.forEach_eq_ok_iff.1 hcheck.2
  refine .bind (.mapM fun item _ => (can.balance _ _).bind fun _ _ => .pure _) fun credits _ => ?_
  refine .bind (.mapM fun s hs => ?_) fun _ _ => .pure _
  obtain ⟨a, ha, hcurrency⟩ := (Charge.mem_sums.1 hs).1
  obtain ⟨item, hitem, rfl⟩ := List.mem_map.1 ha
  have hitem := hitems item hitem
  simp only [checkItem, bind_eq_ok] at hitem
  obtain ⟨_, -, d, hd, -⟩ := hitem
  exact .bind_of_ok (hcurrency ▸ hd) (.pure _)

/-- An operation that passed its check fails by nothing but what its reads fail by. -/
theorem Rules.effects_failsBy (hfact : op.fact.intent.check = .ok ())
    (hcheck : check op.kind ctx op = .ok ()) : FailsBy P (effects op.kind ctx op) := by
  rw [Operation.kind, Fact.kind] at hcheck ⊢
  unfold check at hcheck
  unfold effects
  cases hintent : op.fact.intent <;> rw [hintent] at hfact hcheck
  case createAccounts => exact CreateAccounts.effects_failsBy can hfact hcheck
  case transfers => exact Transfers.effects_failsBy can hfact hcheck
  case keyUpdater => exact KeyUpdater.effects_failsBy can hfact hcheck
  case currencyRegister d => exact CurrencyRegister.register_failsBy can d
  case currencyPolicyUpdater => exact CurrencyPolicyUpdater.effects_failsBy hcheck
  case mint => exact Mint.effects_failsBy can hcheck
  case suffrageCandidate => exact can.networkPolicy.bind fun _ _ => .pure _
  case suffrageJoin address start =>
    obtain ⟨c, hc, -⟩ := bind_eq_ok.1 hcheck
    exact .bind_of_ok hc (.pure _)
  case suffrageDisjoin node start =>
    obtain ⟨m, hm, -⟩ := bind_eq_ok.1 hcheck
    exact .bind_of_ok hm (.pure _)
  case genesisCurrencies =>
    refine .bind (.mapM fun d _ => ?_) fun _ _ => .pure _
    exact CurrencyRegister.register_failsBy can d

end effects

end CurrencyLedger
