import CurrencyLedger.Proofs.Processing.Amendment
import CurrencyLedger.Proofs.Processing.Conservation
import CurrencyLedger.Proofs.Processing.Suffrage

/-!
What batches make of a design. Fees, mints and new policies all write the whole design, each from
the design before the batch, and the last write stays: what earlier operations have added to the
aggregate is overwritten, and so is a policy that they have set. `design_of_batch` accounts for it.
-/

namespace CurrencyLedger

open Traversal Settlement

namespace Intent

variable (store : Store) (c : CurrencyId)

/-- How much of a currency an intent issues: what it mints, or the fee on what it pays. -/
def issued : Intent → Int
  | .mint items => Amount.sumIn (items.map (·.amount)) c
  | intent => (intent.payment?.map fun p => store.feeOn p.amounts c).getD 0

/-- The policy that an intent sets for a currency. -/
def policyFor? : Intent → Option CurrencyPolicy
  | .currencyPolicyUpdater currency policy => if currency = c then some policy else none
  | _ => none

/-- The intent issues a currency, or sets its policy. -/
def Touches (intent : Intent) : Prop :=
  intent.issued store c ≠ 0 ∨ intent.policyFor? c ≠ none

instance (intent : Intent) : Decidable (intent.Touches store c) :=
  inferInstanceAs (Decidable (_ ∨ _))

/-- What an intent makes of the design of a currency. -/
def redesign (intent : Intent) (d : CurrencyDesign) : CurrencyDesign :=
  { d with
    policy := (intent.policyFor? c).getD d.policy
    aggregate := d.aggregate + intent.issued store c }

variable {store c} {intent : Intent} {d : CurrencyDesign}

theorem policyFor?_self (policy : CurrencyPolicy) :
    (currencyPolicyUpdater c policy).policyFor? c = some policy :=
  if_pos rfl

theorem touches_of_policy (policy : CurrencyPolicy) :
    (currencyPolicyUpdater c policy).Touches store c := by
  right
  rw [policyFor?_self]
  exact Option.some_ne_none policy

theorem redesign_of_issued (hpolicy : intent.policyFor? c = none) :
    intent.redesign store c d = d.issue (intent.issued store c) := by
  rw [redesign, hpolicy]
  rfl

end Intent

/-- The changes of an intent write its design of a currency, if it touches the currency. -/
structure Redesigns (store : Store) (c : CurrencyId) (d : CurrencyDesign) (intent : Intent)
    (changes : List Change) : Prop where
  only : ∀ w ∈ changes, w.IsFor (.design c) →
    intent.Touches store c ∧ w = .design (intent.redesign store c d)
  touched : intent.Touches store c → ∃ w ∈ changes, w.IsFor (.design c)

section redesigns

variable {store : Store} {height : Height} {threshold : Threshold} {op : Operation}
  {changes : List Change} {c : CurrencyId} {d : CurrencyDesign} {intent : Intent}

/-- Where nothing is issued, no policy set and no design written, the design is left alone. -/
theorem redesigns_of_untouched (hissued : intent.issued store c = 0)
    (hpolicy : intent.policyFor? c = none) (unwritten : ∀ w ∈ changes, ¬w.IsFor (.design c)) :
    Redesigns store c d intent changes := by
  constructor
  · intro w hw hfor
    exact absurd hfor (unwritten w hw)
  · rintro (hne | hne)
    · exact absurd hissued hne
    · exact absurd hpolicy hne

variable (keyed : store.IsKeyed) (hd : store.design? c = some d)
include keyed hd

/-- A settlement writes the design with the fee added, if there is one. -/
theorem redesigns_of_settles {p : Payment} {settled : List Change}
    (settles : Settles p store settled)
    (hissued : intent.issued store c = store.feeOn p.amounts c)
    (hpolicy : intent.policyFor? c = none) (sub : ∀ w ∈ settled, w ∈ changes)
    (others : ∀ w ∈ changes, w.IsFor (.design c) → w ∈ settled) :
    Redesigns store c d intent changes := by
  have hcurrency : d.currency = c := keyed.currency_eq hd
  constructor
  · intro w hw hfor
    rcases settles.only w (others w hw hfor) with ⟨a, b, -, -, rfl⟩ | ⟨b, d', hd', hfee, rfl⟩
    · cases Change.isFor_balance.1 hfor
    · have hb : d'.currency = b := keyed.currency_eq hd'
      have hc : d'.currency = c := Place.design.inj (Change.isFor_design.1 hfor)
      obtain rfl : b = c := hb.symm.trans hc
      obtain rfl : d = d' := Option.some.inj (hd.symm.trans hd')
      rw [Intent.redesign_of_issued hpolicy, Payment.designChange, hcurrency, hissued]
      exact ⟨.inl (by omega), rfl⟩
  · intro touches
    have hfee : store.feeOn p.amounts c ≠ 0 := by
      rcases touches with hne | hne
      · exact hissued ▸ hne
      · exact absurd hpolicy hne
    refine ⟨_, sub _ (settles.design c d hd hfee), ?_⟩
    rw [Payment.designChange, Change.isFor_design]
    exact congrArg Place.design hcurrency

theorem redesigns_of_mint {items : List Issue}
    (positive : ∀ item ∈ items, 0 < item.amount.magnitude)
    (heffects : Mint.effects (store.context height threshold) items = .ok changes) :
    Redesigns store c d (.mint items) changes := by
  have positive : ∀ a ∈ items.map (·.amount), 0 < a.magnitude := by
    intro a ha
    obtain ⟨item, hitem, rfl⟩ := List.mem_map.1 ha
    exact positive item hitem
  constructor
  · intro w hw hfor
    rcases (Mint.mem_effects heffects).1 hw with ⟨item, -, hcredit⟩ | ⟨sum, hsum, hdesign⟩
    · obtain ⟨amount, rfl⟩ := Mint.creditChange_eq_ok hcredit
      cases Change.isFor_balance.1 hfor
    · obtain ⟨d', hd', rfl⟩ := Mint.designChange_eq_ok hdesign
      obtain ⟨named, hmagnitude⟩ := Charge.mem_sums.1 hsum
      obtain rfl : sum.currency = c :=
        (keyed.currency_eq hd').symm.trans (Place.design.inj (Change.isFor_design.1 hfor))
      obtain rfl : d = d' := Option.some.inj (hd.symm.trans hd')
      have hpos := Amount.sumIn_pos positive named
      rw [Intent.redesign_of_issued rfl, hmagnitude]
      exact ⟨.inl (Int.ne_of_gt hpos), rfl⟩
  · rintro (hne | hne)
    · have named : Amount.Names (items.map (·.amount)) c := by
        by_contra hnone
        exact hne (Amount.sumIn_eq_zero hnone)
      have hsum : (⟨Amount.sumIn (items.map (·.amount)) c, c⟩ : Amount) ∈
          (Charge.sums (items.map (·.amount))).toList := Charge.mem_sums.2 ⟨named, rfl⟩
      refine ⟨.design (d.issue (Amount.sumIn (items.map (·.amount)) c)), ?_, ?_⟩
      · apply (Mint.mem_effects heffects).2
        exact .inr ⟨_, hsum, bind_eq_ok.2 ⟨d, (Context.design_eq_ok keyed).2 hd, rfl⟩⟩
      · have hcurrency : d.currency = c := keyed.currency_eq hd
        rw [Change.isFor_design]
        exact congrArg Place.design hcurrency
    · exact absurd rfl hne

theorem redesigns_of_currencyPolicyUpdater {b : CurrencyId} {policy : CurrencyPolicy}
    (heffects : CurrencyPolicyUpdater.effects (store.context height threshold) b policy =
      .ok changes) : Redesigns store c d (.currencyPolicyUpdater b policy) changes := by
  obtain ⟨d', hd', h⟩ := bind_eq_ok.1 heffects
  cases h
  have hd' := (Context.design_eq_ok keyed).1 hd'
  have hcurrency : d'.currency = b := keyed.currency_eq hd'
  by_cases hb : b = c
  · subst hb
    obtain rfl : d = d' := Option.some.inj (hd.symm.trans hd')
    constructor
    · intro w hw hfor
      rw [List.mem_singleton.1 hw, Intent.redesign, Intent.policyFor?_self]
      refine ⟨Intent.touches_of_policy policy, ?_⟩
      simp [Intent.issued, Intent.payment?, CurrencyDesign.withPolicy]
    · intro _
      refine ⟨_, List.mem_singleton.2 rfl, ?_⟩
      rw [Change.isFor_design]
      exact congrArg Place.design hcurrency
  · refine redesigns_of_untouched rfl (if_neg hb) ?_
    intro w hw hfor
    rw [List.mem_singleton.1 hw, Change.isFor_design] at hfor
    exact hb (hcurrency.symm.trans (Place.design.inj hfor))

omit keyed in
theorem not_isFor_of_register {new : CurrencyDesign}
    (fresh : store.at? (.design new.currency) = none) {registered : List Change}
    (h : CurrencyRegister.register (store.context height threshold) new = .ok registered)
    {w : Change} (hw : w ∈ registered) : ¬w.IsFor (.design c) := by
  intro hfor
  obtain ⟨current, -, h⟩ := bind_eq_ok.1 h
  cases h
  simp only [List.mem_cons, List.not_mem_nil, or_false] at hw
  rcases hw with rfl | rfl | rfl | rfl
  · obtain rfl := Place.design.inj (Change.isFor_design.1 hfor)
    rw [Store.design?_eq_some.1 hd] at fresh
    cases fresh
  · cases Change.isFor_balance.1 hfor
  · cases Change.isFor_balance.1 hfor
  · cases Change.isFor_account.1 hfor

/-- What an admitted operation makes of a design that is there. -/
theorem redesigns_of_admits (valid : store.HasValidDesigns)
    (h : (store.context height threshold).Admits op changes) :
    Redesigns store c d op.fact.intent changes := by
  have hfact := (Fact.check_eq_ok.1 h.fact).2
  have does := h.does
  generalize hintent : op.fact.intent = intent at hfact does
  cases does with
  | createAccounts check effects =>
    obtain ⟨-, charges, created, settled, -, hcreated, settles, rfl⟩ :=
      CreateAccounts.settles keyed valid check effects
    apply redesigns_of_settles keyed hd settles rfl rfl
    · intro w hw
      exact List.mem_append_right _ hw
    · intro w hw hfor
      rcases List.mem_append.1 hw with hw | hw
      · rcases (CreateAccounts.mem_created hcreated).1 hw with
          ⟨item, -, acc, -, rfl⟩ | ⟨credit, -, rfl⟩
        · cases Change.isFor_account.1 hfor
        · cases Change.isFor_balance.1 hfor
      · exact hw
  | transfers check effects =>
    obtain ⟨-, settles⟩ := Transfers.settles keyed valid rfl hfact check effects
    exact redesigns_of_settles keyed hd settles rfl rfl (fun _ hw => hw) fun _ hw _ => hw
  | keyUpdater _ effects =>
    obtain ⟨charges, settled, -, settles, rfl⟩ := KeyUpdater.settles keyed valid effects
    apply redesigns_of_settles keyed hd settles rfl rfl
    · intro w hw
      exact List.mem_cons_of_mem _ hw
    · intro w hw hfor
      rcases List.mem_cons.1 hw with rfl | hw
      · cases Change.isFor_account.1 hfor
      · exact hw
  | currencyRegister check effects =>
    obtain ⟨_, hdesign, -⟩ := bind_eq_ok.1 check
    have fresh := CurrencyRegister.at?_of_checkDesign hdesign
    exact redesigns_of_untouched rfl rfl fun w hw => not_isFor_of_register hd fresh effects hw
  | currencyPolicyUpdater _ effects => exact redesigns_of_currencyPolicyUpdater keyed hd effects
  | mint _ effects => exact redesigns_of_mint keyed hd (Intent.check_mint hfact).2 effects
  | suffrageCandidate check effects =>
    obtain ⟨-, deadline, rfl⟩ := applies_of_rules hintent check effects
    exact redesigns_of_untouched rfl rfl (by simp)
  | suffrageJoin check effects =>
    obtain ⟨c', -, -, -, rfl⟩ := joins_of_rules hintent check effects
    exact redesigns_of_untouched rfl rfl (by simp)
  | suffrageDisjoin _ effects =>
    obtain ⟨m, -, -, -, rfl⟩ := leaves_of_rules hintent effects
    exact redesigns_of_untouched rfl rfl (by simp)
  | genesisCurrencies check effects =>
    obtain ⟨-, -, fresh⟩ := GenesisCurrencies.first_of_check check
    obtain ⟨registered, hregistered, h⟩ := bind_eq_ok.1 effects
    cases h
    apply redesigns_of_untouched rfl rfl
    intro w hw
    rcases List.mem_cons.1 hw with rfl | hw
    · simp
    · obtain ⟨cs, hcs, hw⟩ := List.mem_flatten.1 hw
      obtain ⟨new, hnew, hregister⟩ := (mem_mapM hregistered).1 hcs
      exact not_isFor_of_register hd (fresh new hnew) hregister hw

end redesigns

namespace Store

variable (store : Store) (c : CurrencyId)

/-- How much of a currency operations issue, each by itself. -/
def issues : List Operation → Int
  | [] => 0
  | op :: later => op.fact.intent.issued store c + issues later

/-- The last operation that issues a currency or sets its policy. -/
def lastTouch? (ops : List Operation) : Option Operation :=
  (ops.filter fun op => op.fact.intent.Touches store c).getLast?

/-- What is overwritten of an aggregate: what operations issue before another one that touches the
currency. -/
def overwritten : List Operation → Int
  | [] => 0
  | op :: later =>
    (if (store.lastTouch? c later).isSome then op.fact.intent.issued store c else 0) +
      overwritten later

variable {store c} {op : Operation} {ops : List Operation} {d : CurrencyDesign}

theorem lastTouch?_cons (op : Operation) (later : List Operation) :
    store.lastTouch? c (op :: later) =
      (store.lastTouch? c later).or (if op.fact.intent.Touches store c then some op else none) := by
  rw [lastTouch?, List.filter_cons]
  by_cases touches : op.fact.intent.Touches store c
  · simp [touches, lastTouch?, List.getLast?_cons, Option.or_some]
  · simp [touches, lastTouch?]

theorem lastTouch?_eq_none :
    store.lastTouch? c ops = none ↔ ∀ op ∈ ops, ¬op.fact.intent.Touches store c := by
  simp [lastTouch?]

/-- The last operation of a currency stays the last with others after it. -/
theorem lastTouch?_of_split {earlier later : List Operation}
    (touches : op.fact.intent.Touches store c)
    (others : ∀ other ∈ later, ¬other.fact.intent.Touches store c) :
    store.lastTouch? c (earlier ++ op :: later) = some op := by
  have hnone : store.lastTouch? c later = none := lastTouch?_eq_none.2 others
  induction earlier with
  | nil => rw [List.nil_append, lastTouch?_cons, hnone, if_pos touches, Option.none_or]
  | cons first rest ih => rw [List.cons_append, lastTouch?_cons, ih, Option.some_or]

theorem issued_of_not_touches (h : ¬op.fact.intent.Touches store c) :
    op.fact.intent.issued store c = 0 := by
  by_contra hne
  exact h (.inl hne)

/-- What stays is what all operations issue, without what is overwritten. -/
theorem issued_add_overwritten (store : Store) (c : CurrencyId) (ops : List Operation) :
    ((store.lastTouch? c ops).map fun op => op.fact.intent.issued store c).getD 0 +
      store.overwritten c ops = store.issues c ops := by
  induction ops with
  | nil => rfl
  | cons op later ih =>
    rw [lastTouch?_cons, overwritten, issues, ← ih]
    cases hlast : store.lastTouch? c later with
    | some last =>
      simp only [Option.some_or, Option.map_some, Option.getD_some, Option.isSome_some, if_true]
      omega
    | none =>
      by_cases touches : op.fact.intent.Touches store c
      · simp [touches]
      · simp [touches, issued_of_not_touches touches]

/-- Nothing is overwritten where no two operations touch the currency. -/
theorem overwritten_eq_zero (apart : ops.Pairwise fun op later =>
    op.fact.intent.Touches store c → ¬later.fact.intent.Touches store c) :
    store.overwritten c ops = 0 := by
  induction ops with
  | nil => rfl
  | cons op later ih =>
    obtain ⟨hop, hlater⟩ := List.pairwise_cons.1 apart
    rw [overwritten, ih hlater, Int.add_zero]
    by_cases touches : op.fact.intent.Touches store c
    · have hnone : store.lastTouch? c later = none :=
        lastTouch?_eq_none.2 fun other hother => hop other hother touches
      rw [hnone]
      rfl
    · rw [issued_of_not_touches touches, ite_self]

end Store

namespace Redesigns

variable {store : Store} {c : CurrencyId} {d : CurrencyDesign} {intent : Intent}
  {changes : List Change}

theorem getLast?_eq (h : Redesigns store c d intent changes) :
    (changes.filter fun w => w.IsFor (.design c)).getLast? =
      if intent.Touches store c then some (.design (intent.redesign store c d)) else none := by
  by_cases touches : intent.Touches store c
  · rw [if_pos touches]
    obtain ⟨w, hw, hfor⟩ := h.touched touches
    cases hlast : (changes.filter fun w => w.IsFor (.design c)).getLast? with
    | none =>
      have hnil := List.getLast?_eq_none_iff.1 hlast
      exact absurd (decide_eq_true hfor) (List.filter_eq_nil_iff.1 hnil w hw)
    | some last =>
      obtain ⟨hmem, hlast⟩ := List.mem_filter.1 (List.mem_of_getLast? hlast)
      rw [(h.only last hmem (of_decide_eq_true hlast)).2]
  · rw [if_neg touches, List.getLast?_eq_none_iff, List.filter_eq_nil_iff]
    intro w hw hfor
    exact touches (h.only w hw (of_decide_eq_true hfor)).1

/-- The last operation that touches a currency makes the last change of its design. -/
theorem getLast?_flatMap {ops : List Operation} {accepted : Store.Accepted}
    (hall : List.Forall₂ (fun op entry => Redesigns store c d op.fact.intent entry.2) ops
      accepted) :
    ((accepted.flatMap Prod.snd).filter fun w => w.IsFor (.design c)).getLast? =
      (store.lastTouch? c ops).map fun op => .design (op.fact.intent.redesign store c d) := by
  induction hall with
  | nil => rfl
  | @cons op entry ops accepted hop _ ih =>
    -- what a later operation writes comes first, and else what this one does
    rw [List.flatMap_cons, List.filter_append, List.getLast?_append, ih, hop.getLast?_eq,
      Store.lastTouch?_cons, Option.map_or]
    by_cases touches : op.fact.intent.Touches store c
    · rw [if_pos touches, if_pos touches]
      rfl
    · rw [if_neg touches, if_neg touches]
      rfl

end Redesigns

namespace Dispatcher

variable {store store' : Store} {config : EngineConfig} {d : Dispatcher} {ops : List Operation}
  (keyed : store.IsKeyed) (valid : store.HasValidDesigns)
include keyed valid

/-- The design after a batch is what the last operation that touches it makes of the design before
the batch. -/
theorem Advances.design?_eq (h : d.Advances config ops store store') {c : CurrencyId}
    {design : CurrencyDesign} (hd : store.design? c = some design) :
    store'.design? c = some (((store.lastTouch? c (d.acceptedOperations ops)).map fun op =>
      op.fact.intent.redesign store c design).getD design) := by
  obtain ⟨accepted, height, records, hall, hcommit⟩ := h.exists_accepted
  rw [context_eq h.reads] at hall
  have hredesigns : List.Forall₂ (fun op entry => Redesigns store c design op.fact.intent entry.2)
      (d.acceptedOperations ops) accepted :=
    hall.imp fun op entry makes => redesigns_of_admits keyed hd valid makes.admits
  have hreplace : ∀ w ∈ Store.writesTo accepted (Place.design c).key, w.2.strategy = .replace := by
    intro w hw
    obtain ⟨hwrite, hfor⟩ := Store.mem_writesTo_key.1 hw
    obtain ⟨entry, hentry, -, hmem⟩ := Store.mem_writes.1 hwrite
    obtain ⟨op, -, hop⟩ := exists_left hredesigns hentry
    rw [(hop.only w.2 hmem hfor).2]
    rfl
  have hat : store'.at? (.design c) = _ := Store.payload?_commit hcommit hreplace
  have hlast : (Store.writesTo accepted (Place.design c).key).getLast?.map (fun w => w.2.payload) =
      ((store.lastTouch? c (d.acceptedOperations ops)).map fun op =>
        Change.design (op.fact.intent.redesign store c design)).map Change.payload := by
    rw [← Redesigns.getLast?_flatMap hredesigns, ← Store.getLast?_writesTo, Option.map_map]
    rfl
  rw [hlast] at hat
  rw [Store.design?_eq_some, hat]
  cases store.lastTouch? c (d.acceptedOperations ops) with
  | none => exact Store.design?_eq_some.1 hd
  | some op => rfl

/-- The law of one batch for the design of a currency. -/
structure Recasts (d : Dispatcher) (ops : List Operation) (store : Store) (c : CurrencyId)
    (old new : CurrencyDesign) : Prop where
  amount : new.amount = old.amount
  genesisAccount : new.genesisAccount = old.genesisAccount
  aggregate : new.aggregate = old.aggregate + store.issues c (d.acceptedOperations ops) -
    store.overwritten c (d.acceptedOperations ops)
  policy : new.policy = ((store.lastTouch? c (d.acceptedOperations ops)).bind fun op =>
    op.fact.intent.policyFor? c).getD old.policy

omit keyed valid in
/-- The policy of an operation stays with others after it. -/
theorem Recasts.policy_of_split {c : CurrencyId} {old new : CurrencyDesign}
    (h : d.Recasts ops store c old new) {earlier later : List Operation} {op : Operation}
    (split : d.acceptedOperations ops = earlier ++ op :: later) {policy : CurrencyPolicy}
    (sets : op.fact.intent = .currencyPolicyUpdater c policy)
    (others : ∀ other ∈ later, ¬other.fact.intent.Touches store c) : new.policy = policy := by
  have touches : op.fact.intent.Touches store c := sets ▸ Intent.touches_of_policy policy
  rw [h.policy, split, Store.lastTouch?_of_split touches others, Option.bind_some, sets,
    Intent.policyFor?_self]
  rfl

theorem Advances.exists_recasts (h : d.Advances config ops store store') {c : CurrencyId}
    {old : CurrencyDesign} (hd : store.design? c = some old) :
    ∃ new, store'.design? c = some new ∧ d.Recasts ops store c old new := by
  have hlast := Store.issued_add_overwritten store c (d.acceptedOperations ops)
  have hnew := h.design?_eq keyed valid hd
  cases hop : store.lastTouch? c (d.acceptedOperations ops) with
  | none =>
    rw [hop] at hlast hnew
    refine ⟨old, hnew, rfl, rfl, ?_, ?_⟩
    · simp only [Option.map_none, Option.getD_none] at hlast
      omega
    · rw [hop]
      rfl
  | some op =>
    rw [hop] at hlast hnew
    refine ⟨op.fact.intent.redesign store c old, hnew, rfl, rfl, ?_, ?_⟩
    · simp only [Option.map_some, Option.getD_some] at hlast
      have hgrown : (op.fact.intent.redesign store c old).aggregate =
          old.aggregate + op.fact.intent.issued store c := rfl
      omega
    · rw [hop]
      rfl

end Dispatcher

/-- What batches make of a design. Its amount and its first account stay. Its aggregate grows by the
fees and mints of the accepted operations, without what is overwritten, and its policy is the one
that an operation sets after which none touches the currency, or else the one before. So nothing is
lost where no two of the operations touch the currency. -/
theorem design_of_batch {store store' : Store} (keyed : store.IsKeyed)
    (valid : store.HasValidDesigns) {config : EngineConfig} {d : Dispatcher}
    {ops : List Operation} (h : d.Advances config ops store store') {c : CurrencyId}
    {old : CurrencyDesign} (hd : store.design? c = some old) :
    ∃ new, store'.design? c = some new ∧ d.Recasts ops store c old new ∧
      (∀ earlier op later policy, d.acceptedOperations ops = earlier ++ op :: later →
        op.fact.intent = .currencyPolicyUpdater c policy →
        (∀ other ∈ later, ¬other.fact.intent.Touches store c) → new.policy = policy) ∧
      ((d.acceptedOperations ops).Pairwise (fun op later =>
          op.fact.intent.Touches store c → ¬later.fact.intent.Touches store c) →
        new.aggregate = old.aggregate + store.issues c (d.acceptedOperations ops) ∧
        ∀ op ∈ d.acceptedOperations ops, ∀ policy,
          op.fact.intent = .currencyPolicyUpdater c policy → new.policy = policy) := by
  obtain ⟨new, hnew, recasts⟩ := h.exists_recasts keyed valid hd
  refine ⟨new, hnew, recasts, ?_, ?_⟩
  · intro earlier op later policy split sets others
    exact recasts.policy_of_split split sets others
  · intro apart
    constructor
    · rw [recasts.aggregate, Store.overwritten_eq_zero apart, Int.sub_zero]
    · intro op hop policy sets
      obtain ⟨earlier, later, split⟩ := List.append_of_mem hop
      apply recasts.policy_of_split split sets
      intro other hother
      rw [split, List.pairwise_append] at apart
      apply (List.pairwise_cons.1 apart.2.1).1 other hother
      exact sets ▸ Intent.touches_of_policy policy

namespace Sample

/-- The ledger with members, who may give its currency another policy. -/
def chaired : Store :=
  ledger.setMembers council

theorem isSound_chaired : chaired.IsSound :=
  isSound_ledger.set .suffrage trivial (.inl rfl)

def clerk : Dispatcher :=
  .start .standard (chaired.context .genesis chair.context.threshold) lenient.networkBytes 64 false

theorem reachable_clerk : clerk.Reachable lenient :=
  .start (show Dispatcher.ofConfig lenient .genesis chaired.reader = .ok clerk from rfl)

def dearer : CurrencyPolicy := ⟨2, .fixed bob 5⟩

/-- A member sets the policy. -/
def reform : Operation :=
  ⟨digest 0x0d0d4593f394c0b55ed0a0b666f3b1ed01066d86de74edf797429fabebcc0e13,
    ⟨[1], .currencyPolicyUpdater currency dearer⟩,
    [⟨key,
      BigEndian.bytes 32 0x7bac0d0cdf67671deca05f2b2112b39678e806eaa76c68fdcb9f940e6d956cb2 ++
      BigEndian.bytes 32 0x5faa51fd89ac5eb88d1c21a17d02cafab5f2c506d73f402790a5fd437ea33b79,
      some alice⟩]⟩

theorem check_reform : reform.check config.networkBytes = .ok () := by
  refine check_single
    0xc0637b9bb36560fac3c2a88aa9ffe99e1c50f141b4ca4225274013836d0196e0 rfl (fun _ => rfl) ?_ ?_ ?_
  · decide +kernel
  · decide +kernel
  · decide +kernel

def chairedAfter (ops : List Operation) : Store :=
  committed chaired (allAccepted clerk.context ops)

theorem advances_chaired {ops : List Operation}
    (known : ∀ op ∈ ops, op = reform ∨ op = payment ∨ op = other)
    (commits : (chaired.commit .genesis (allAccepted clerk.context ops)).isOk = true) :
    clerk.Advances lenient ops chaired (chairedAfter ops) ∧
      clerk.acceptedOperations ops = ops := by
  apply advances_committed ?_ ?_ ?_ reachable_clerk rfl commits
  · intro op hop
    rcases known op hop with rfl | rfl | rfl
    · exact check_reform
    · exact check_payment
    · exact check_other
  · intro op hop
    rcases known op hop with rfl | rfl | rfl <;> rfl
  · intro op hop
    rcases known op hop with rfl | rfl | rfl <;> rfl

end Sample

/-- The policy that is set last stays, and the fee that was collected before it is not counted. -/
theorem design_of_batch_reform : Sample.chaired.IsSound ∧
    Sample.clerk.Advances Sample.lenient [Sample.payment, Sample.reform] Sample.chaired
      (Sample.chairedAfter [Sample.payment, Sample.reform]) ∧
    ∃ new, (Sample.chairedAfter [Sample.payment, Sample.reform]).design? Sample.currency =
      some new ∧ new.policy = Sample.dearer ∧ new.aggregate = Sample.design.aggregate := by
  obtain ⟨h, haccepted⟩ :=
    @Sample.advances_chaired [Sample.payment, Sample.reform] (by simp) rfl
  have hd : Sample.chaired.design? Sample.currency = some Sample.design := rfl
  obtain ⟨new, hnew, recasts, set, -⟩ := design_of_batch Sample.isSound_chaired.keyed
    Sample.isSound_chaired.designs h hd
  refine ⟨Sample.isSound_chaired, h, new, hnew, ?_, ?_⟩
  · exact set [Sample.payment] Sample.reform [] Sample.dearer haccepted rfl (by simp)
  · rw [recasts.aggregate, haccepted]
    decide +kernel

/-- A policy that is set before a fee is collected is lost, and of two fees one. -/
theorem design_lost_by_payments :
    Sample.chaired.IsSound ∧
    Sample.clerk.Advances Sample.lenient [Sample.reform, Sample.payment, Sample.other]
      Sample.chaired (Sample.chairedAfter [Sample.reform, Sample.payment, Sample.other]) ∧
    Sample.clerk.acceptedOperations [Sample.reform, Sample.payment, Sample.other] =
      [Sample.reform, Sample.payment, Sample.other] ∧
    Sample.chaired.design? Sample.currency = some Sample.design ∧
    Sample.reform.fact.intent = .currencyPolicyUpdater Sample.currency Sample.dearer ∧
    [Sample.reform, Sample.payment, Sample.other].filter (·.kind = .currencyPolicyUpdater) =
      [Sample.reform] ∧
    ∃ new, (Sample.chairedAfter [Sample.reform, Sample.payment, Sample.other]).design?
        Sample.currency = some new ∧
      new.aggregate ≠ Sample.design.aggregate + Sample.chaired.issues Sample.currency
        [Sample.reform, Sample.payment, Sample.other] ∧
      new.policy ≠ Sample.dearer := by
  obtain ⟨h, haccepted⟩ :=
    @Sample.advances_chaired [Sample.reform, Sample.payment, Sample.other] (by simp) rfl
  refine ⟨Sample.isSound_chaired, h, haccepted, rfl, rfl, rfl, Sample.design.issue 3, rfl, ?_, ?_⟩
  · decide +kernel
  · decide

end CurrencyLedger
