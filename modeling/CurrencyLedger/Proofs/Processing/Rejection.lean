import CurrencyLedger.Proofs.Processing.Failure

/-!
On a keyed store with a suffrage and a network policy no operation stops the height: a check can
only reject (`Rules.check_failsBy`), and the effects of what passed can always be made
(`Context.effectsFailBy_false`).
-/

namespace CurrencyLedger

open Traversal

namespace Halt

def IsRejection : Halt → Prop
  | rejected _ => True
  | fatal _ => False

/-- A rejection that tells of a missing fee receiver only where a currency has one without an
account. -/
def IsFounded (store : Store) : Halt → Prop
  | rejected (.feeReceiverNotFound a) =>
    (∃ c, store.feeReceiver? c = some a) ∧ store.account? a = none
  | rejected _ => True
  | fatal _ => False

theorem IsFounded.isRejection {store : Store} {halt : Halt} (h : halt.IsFounded store) :
    halt.IsRejection := by
  cases halt with
  | rejected reason => trivial
  | fatal error => exact h

end Halt

theorem Traversal.FailsBy.isRejection {α : Type} {store : Store} {x : Result α}
    (h : FailsBy (Halt.IsFounded store) x) : FailsBy Halt.IsRejection x :=
  h.mono fun _ founded => founded.isRejection

section checks

variable {store : Store} {height : Height} {threshold : Threshold} {op : Operation}

theorem KeySet.checkSigners_failsBy (keys : KeySet) (signers : List PublicKey) :
    FailsBy (fun reason => (Halt.rejected reason).IsFounded store) (keys.checkSigners signers) := by
  have hweight : ∀ seen, FailsBy (fun reason => (Halt.rejected reason).IsFounded store)
      (keys.signedWeight seen signers) := by
    induction signers with
    | nil => exact fun seen => .ok 0
    | cons signer rest ih =>
      intro seen
      unfold signedWeight
      split
      · exact .error trivial
      · exact (ih _).bind fun _ _ => .pure _
  unfold checkSigners
  refine (hweight []).bind fun weight _ => ?_
  split
  · exact .error trivial
  · exact .ok ()

section keyed

variable (keyed : store.IsKeyed)
include keyed

theorem Context.requireAccount_failsBy (a : Address) (reason : Address → Reason) :
    FailsBy (fun halt => halt = .rejected (reason a) ∧ store.account? a = none)
      ((store.context height threshold).requireAccount a reason) := by
  unfold requireAccount accountExists
  rw [account?_eq keyed]
  cases store.account? a with
  | none => exact .error ⟨rfl, rfl⟩
  | some acc => exact .ok ()

theorem Context.requireAccount_rejects (a : Address) (reason : Address → Reason) :
    FailsBy Halt.IsRejection ((store.context height threshold).requireAccount a reason) := by
  refine (requireAccount_failsBy keyed a reason).mono ?_
  rintro _ ⟨rfl, -⟩
  trivial

theorem Context.requireNoAccount_failsBy (a : Address) :
    FailsBy (Halt.IsFounded store) ((store.context height threshold).requireNoAccount a) := by
  unfold requireNoAccount accountExists
  rw [account?_eq keyed]
  cases store.account? a with
  | none => exact .ok ()
  | some acc => exact .error trivial

theorem Context.design_failsBy (c : CurrencyId) :
    FailsBy (Halt.IsFounded store) ((store.context height threshold).design c) := by
  unfold design
  refine .bind_of_ok (find_design_eq keyed c) ?_
  split
  · exact .pure _
  · exact .error trivial

theorem Context.signedAccount_failsBy (a : Address) :
    FailsBy (Halt.IsFounded store) ((store.context height threshold).signedAccount a op) := by
  unfold signedAccount
  refine .bind_of_ok (account?_eq keyed a) ?_
  split
  · exact .error trivial
  · split
    · exact .error trivial
    · next keys _ =>
      have hsigned : FailsBy (Halt.IsFounded store)
          ((keys.checkSigners op.signers).mapError .rejected) :=
        .mapError fun reason he => keys.checkSigners_failsBy _ reason he
      exact hsigned.bind fun _ _ => .pure _

namespace Charge

/-- The fee on a sum that is not negative can be told. -/
theorem ofSum_failsBy {sum : Amount} (nonneg : 0 ≤ sum.magnitude) :
    FailsBy (Halt.IsFounded store) (ofSum (store.context height threshold) sum) := by
  unfold ofSum
  refine (Context.design_failsBy keyed _).bind fun d hd => ?_
  obtain ⟨fee, hfee⟩ := d.policy.fee.exists_fee nonneg
  refine .bind_of_ok (mapError_eq_ok.2 hfee) ?_
  have hreceiver : ∀ a, d.policy.fee.receiver? = some a → FailsBy (Halt.IsFounded store)
      ((store.context height threshold).requireAccount a .feeReceiverNotFound) := by
    intro a ha
    refine (Context.requireAccount_failsBy keyed a _).mono ?_
    rintro _ ⟨rfl, hnone⟩
    refine ⟨⟨sum.currency, ?_⟩, hnone⟩
    rw [Store.feeReceiver?, (Context.design_eq_ok keyed).1 hd, Option.bind_some, ha]
  cases hr : d.policy.fee.receiver? with
  | none => exact .pure _
  | some a => exact (hreceiver a hr).bind fun _ _ => .pure _

theorem ofAmounts_failsBy {amounts : List Amount} (nonneg : ∀ a ∈ amounts, 0 ≤ a.magnitude) :
    FailsBy (Halt.IsFounded store) (ofAmounts (store.context height threshold) amounts) := by
  refine .mapM fun s hs => ofSum_failsBy keyed ?_
  rw [(mem_sums.1 hs).2]
  exact Amount.sumIn_nonneg nonneg _

theorem coverAll_failsBy (sender : Address) (charges : List Charge) :
    FailsBy (Halt.IsFounded store) (coverAll (store.context height threshold) sender charges) := by
  refine .bind (.mapM fun charge _ => ?_) fun _ _ => .pure _
  refine .bind_of_ok (Context.balance?_eq keyed sender charge.currency) ?_
  split
  · exact .pure none
  · dsimp only
    split
    · exact .error trivial
    · exact .pure _

end Charge

theorem CreateAccounts.check_failsBy {sender : Address} {items : List NewAccount}
    (hfact : (Intent.createAccounts sender items).check = .ok ()) :
    FailsBy (Halt.IsFounded store) (check (store.context height threshold) op sender items) := by
  refine (Context.signedAccount_failsBy keyed sender).bind fun _ _ => ?_
  refine .bind (.forEach fun item _ => ?_) fun _ _ => ?_
  · refine .bind (.mapError fun _ _ => trivial) fun a _ => ?_
    refine (Context.requireNoAccount_failsBy keyed a).bind fun _ _ => .forEach fun amount _ => ?_
    refine (Context.design_failsBy keyed amount.currency).bind fun d _ => ?_
    dsimp only
    split
    · exact .error trivial
    · exact .pure ()
  · refine (Charge.ofAmounts_failsBy keyed (Payment.amounts_nonneg rfl hfact)).bind fun cs _ => ?_
    exact (Charge.coverAll_failsBy keyed sender cs).bind fun _ _ => .pure ()

theorem Transfers.check_failsBy {sender : Address} {items : List Transfer}
    (hfact : (Intent.transfers sender items).check = .ok ()) :
    FailsBy (Halt.IsFounded store) (check (store.context height threshold) op sender items) := by
  refine (Context.signedAccount_failsBy keyed sender).bind fun _ _ => ?_
  refine .bind (.forEach fun item _ => ?_) fun _ _ => ?_
  · refine (Context.requireAccount_failsBy keyed item.receiver _).mono ?_
    rintro _ ⟨rfl, -⟩
    trivial
  · refine (Charge.ofAmounts_failsBy keyed (Payment.amounts_nonneg rfl hfact)).bind fun cs _ => ?_
    exact (Charge.coverAll_failsBy keyed sender cs).bind fun _ _ => .pure ()

theorem KeyUpdater.check_failsBy {target : Address} {keys : KeySet} {currency : CurrencyId}
    (hfact : (Intent.keyUpdater target keys currency).check = .ok ()) :
    FailsBy (Halt.IsFounded store)
      (check (store.context height threshold) op target keys currency) := by
  refine .bind ?_ fun _ _ => .pure ()
  refine (Context.signedAccount_failsBy keyed target).bind fun acc _ => ?_
  split
  · exact .error trivial
  · refine (Charge.ofAmounts_failsBy keyed (Payment.amounts_nonneg rfl hfact)).bind fun cs _ => ?_
    exact (Charge.coverAll_failsBy keyed target cs).bind fun _ _ => .pure _

/-- The check of a payment names a missing fee receiver only where there is one. -/
theorem Rules.check_payment_failsBy {p : Payment} (hp : op.fact.intent.payment? = some p)
    (hfact : op.fact.intent.check = .ok ()) :
    FailsBy (Halt.IsFounded store) (check op.kind (store.context height threshold) op) := by
  rw [Operation.kind, Fact.kind]
  unfold check
  cases hintent : op.fact.intent <;> rw [hintent] at hp hfact
  case createAccounts => exact CreateAccounts.check_failsBy keyed hfact
  case transfers => exact Transfers.check_failsBy keyed hfact
  case keyUpdater => exact KeyUpdater.check_failsBy keyed hfact
  all_goals cases hp

theorem CurrencyRegister.checkDesign_failsBy (created : Option Address) (d : CurrencyDesign) :
    FailsBy Halt.IsRejection
      (checkDesign (store.context height threshold) created d) := by
  have hzero : FailsBy Halt.IsRejection
      ((store.context height threshold).requireNoAccount (.zero d.currency)) :=
    (Context.requireNoAccount_failsBy keyed _).isRejection
  refine .bind ?_ fun found _ => ?_
  · rw [Context.find_eq]
    split
    · exact .ok _
    · exact .ok _
  split
  · exact .error trivial
  · split
    · split
      · exact hzero
      · exact (Context.requireAccount_rejects keyed _ _).bind fun _ _ => hzero
    · exact hzero

variable (governed : store.IsGoverned)
include governed

theorem Store.IsGoverned.exists_members :
    ∃ m, (store.context height threshold).members = .ok m := by
  obtain ⟨p, hp⟩ := Option.isSome_iff_exists.1 governed.suffrage
  obtain ⟨m, rfl⟩ := Payload.fits_suffrage.1 (keyed _ _ hp)
  exact ⟨m, Context.members_eq_ok hp⟩

theorem Store.IsGoverned.exists_networkPolicy :
    ∃ n, (store.context height threshold).networkPolicy = .ok n := by
  obtain ⟨p, hp⟩ := Option.isSome_iff_exists.1 governed.policy
  obtain ⟨n, rfl⟩ := Payload.fits_networkPolicy.1 (keyed _ _ hp)
  exact ⟨n, Context.networkPolicy_eq_ok hp⟩

theorem Context.requireQuorum_failsBy :
    FailsBy Halt.IsRejection ((store.context height threshold).requireQuorum op) := by
  obtain ⟨m, hm⟩ := governed.exists_members keyed
  exact .bind_of_ok hm (.mapError fun _ _ => trivial)

omit keyed governed in
theorem Context.requireCandidateSign_failsBy (a : Address) (key : PublicKey) :
    FailsBy Halt.IsRejection (requireCandidateSign op a key) := by
  unfold requireCandidateSign
  split
  · exact .ok ()
  · exact .error trivial

theorem CurrencyRegister.check_failsBy (d : CurrencyDesign) :
    FailsBy Halt.IsRejection (check (store.context height threshold) op d) := by
  refine (checkDesign_failsBy keyed none d).bind fun _ _ => ?_
  refine (Context.requireAccount_rejects keyed _ _).bind fun _ _ => ?_
  exact Context.requireQuorum_failsBy keyed governed

theorem CurrencyPolicyUpdater.check_failsBy (c : CurrencyId) (policy : CurrencyPolicy) :
    FailsBy Halt.IsRejection (check (store.context height threshold) op c policy) := by
  have hquorum : FailsBy Halt.IsRejection ((store.context height threshold).requireQuorum op) :=
    Context.requireQuorum_failsBy keyed governed
  refine (Context.design_failsBy keyed c).isRejection.bind fun _ _ => ?_
  split
  · exact (Context.requireAccount_rejects keyed _ _).bind fun _ _ => hquorum
  · exact hquorum

theorem Mint.check_failsBy (items : List Issue) :
    FailsBy Halt.IsRejection (check (store.context height threshold) op items) := by
  refine (Context.requireQuorum_failsBy keyed governed).bind fun _ _ => .forEach fun item _ => ?_
  refine (Context.requireAccount_rejects keyed _ _).bind fun _ _ => ?_
  exact (Context.design_failsBy keyed _).isRejection.bind fun _ _ => .pure ()

theorem SuffrageCandidate.check_failsBy (a : Address) (key : PublicKey) :
    FailsBy Halt.IsRejection (check (store.context height threshold) op a key) := by
  obtain ⟨m, hm⟩ := governed.exists_members keyed
  obtain ⟨cs, hcs⟩ := Context.exists_candidates keyed
  refine (Context.requireCandidateSign_failsBy a key).bind fun _ _ => .bind_of_ok hm ?_
  split
  · exact .error trivial
  · refine .bind_of_ok hcs ?_
    split
    · exact .error trivial
    · exact Context.requireQuorum_failsBy keyed governed

theorem SuffrageJoin.check_failsBy (a : Address) (start : Height) :
    FailsBy Halt.IsRejection (check (store.context height threshold) op a start) := by
  obtain ⟨m, hm⟩ := governed.exists_members keyed
  obtain ⟨n, hn⟩ := governed.exists_networkPolicy keyed
  obtain ⟨cs, hcs⟩ := Context.exists_candidates keyed
  have hcandidate : FailsBy Halt.IsRejection
      (candidate (store.context height threshold) a start) := by
    refine .bind_of_ok hcs ?_
    split
    · exact .error trivial
    · split
      · exact .error trivial
      · split
        · exact .error trivial
        · exact .pure _
  refine hcandidate.bind fun c _ => .bind_of_ok hm ?_
  split
  · exact .error trivial
  · refine .bind_of_ok hn ?_
    dsimp only
    split
    · exact .error trivial
    · refine (Context.requireCandidateSign_failsBy _ _).bind fun _ _ => ?_
      exact Context.requireQuorum_failsBy keyed governed

theorem SuffrageDisjoin.check_failsBy (node : Address) (start : Height) :
    FailsBy Halt.IsRejection (check (store.context height threshold) op node start) := by
  obtain ⟨m, hm⟩ := governed.exists_members keyed
  refine .bind ?_ fun _ _ => Context.requireQuorum_failsBy keyed governed
  refine .bind_of_ok hm ?_
  split
  · exact .error trivial
  · split
    · exact .error trivial
    · split
      · exact .error trivial
      · exact .pure _

omit governed in
theorem GenesisCurrencies.check_failsBy (nodeKey : PublicKey) (keys : KeySet)
    (designs : List CurrencyDesign) :
    FailsBy Halt.IsRejection
      (check (store.context height threshold) op nodeKey keys designs) := by
  unfold check
  split
  · exact .error trivial
  · split
    · exact .error trivial
    · refine (Context.requireNoAccount_failsBy keyed _).isRejection.bind fun _ _ => ?_
      exact .forEach fun d _ => CurrencyRegister.checkDesign_failsBy keyed _ d

/-- No check stops the height. -/
theorem Rules.check_failsBy (hfact : op.fact.intent.check = .ok ()) :
    FailsBy Halt.IsRejection (check op.kind (store.context height threshold) op) := by
  cases hp : op.fact.intent.payment? with
  | some p =>
    exact (check_payment_failsBy keyed hp hfact).isRejection
  | none =>
    rw [Operation.kind, Fact.kind]
    unfold check
    cases hintent : op.fact.intent <;> rw [hintent] at hp
    case createAccounts | transfers | keyUpdater => cases hp
    case currencyRegister d => exact CurrencyRegister.check_failsBy keyed governed d
    case currencyPolicyUpdater c policy =>
      exact CurrencyPolicyUpdater.check_failsBy keyed governed c policy
    case mint items => exact Mint.check_failsBy keyed governed items
    case suffrageCandidate a key => exact SuffrageCandidate.check_failsBy keyed governed a key
    case suffrageJoin a start => exact SuffrageJoin.check_failsBy keyed governed a start
    case suffrageDisjoin node start => exact SuffrageDisjoin.check_failsBy keyed governed node start
    case genesisCurrencies nodeKey keys designs =>
      exact GenesisCurrencies.check_failsBy keyed nodeKey keys designs

/-- An amount that costs nothing is not looked for in the balances of the payer. -/
theorem Context.effectsFailBy_false (valid : store.HasValidDesigns) :
    (store.context height threshold).EffectsFailBy fun _ => False := by
  constructor
  case balance =>
    intro a c
    rw [balance_eq keyed]
    exact .ok _
  case networkPolicy =>
    obtain ⟨n, hn⟩ := governed.exists_networkPolicy keyed
    rw [hn]
    exact .ok n
  case debit =>
    intro sender amounts charges balances nonneg hcharges hbalances charge hc
    have bill := isBill_of_ofAmounts keyed hcharges
    obtain ⟨-, rfl⟩ := (Charge.coverAll_eq_ok keyed).1 hbalances
    unfold Settlement.debitChange
    rw [Charge.find?_covered bill.distinct hc]
    cases hcovered : charge.covered? store sender with
    | some entry => exact .ok _
    | none =>
      have hrequired : charge.amount + charge.fee = 0 := by
        unfold Charge.covered? at hcovered
        split at hcovered
        · next h => exact h.2
        · cases hcovered
      have hamount : 0 ≤ charge.amount := bill.amount charge hc ▸ Amount.sumIn_nonneg nonneg _
      have hfee := bill.fee_nonneg valid hc
      have hdebit : Settlement.debit sender charge = 0 := by
        unfold Settlement.debit Charge.required
        split
        · split <;> omega
        · exact hrequired
      rw [if_pos hdebit]
      exact .ok none

end keyed

end checks

end CurrencyLedger
