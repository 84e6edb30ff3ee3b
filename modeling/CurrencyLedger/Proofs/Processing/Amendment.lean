import CurrencyLedger.Proofs.Ledger.Roster
import CurrencyLedger.Proofs.Processing.Batch

/-!
What operations may make of the records that the network governs: designs, members, candidates and
its policy. `amends_of_admits` goes through the ten kinds without asking anything of the store, so
that `Advances.exists_accounts` holds on every store; the lemmas by place say which kind of
operation it was.
-/

namespace CurrencyLedger

open Traversal

/-- An operation makes somebody a candidate who is not a member, nor a candidate that may still
join. -/
structure Applies (store : Store) (height : Height) (op : Operation) (a : Address)
    (key : PublicKey) : Prop where
  intent : op.fact.intent = .suffrageCandidate a key
  outside : store.member? a = none
  free : ∀ c, store.candidate? a = some c → c.deadline < height

/-- An operation makes a candidate a member, in time and with the candidate's sign. -/
structure Joins (store : Store) (height : Height) (op : Operation) (c : Candidate) : Prop where
  intent : op.fact.intent = .suffrageJoin c.address c.start
  outside : store.member? c.address = none
  found : store.candidate? c.address = some c
  timely : ¬c.deadline < height
  signed : ∃ s ∈ op.signs, s.signer = c.key ∧ s.node = some c.address

/-- An operation takes a member out that it names with its start. -/
structure Leaves (store : Store) (op : Operation) (m : Member) : Prop where
  intent : op.fact.intent = .suffrageDisjoin m.address m.start
  found : store.member? m.address = some m

section unique

variable {store : Store} {height : Height} {op op' : Operation}

/-- There is one candidate of an address, so one that may join. -/
theorem Joins.eq_of_address {c c' : Candidate} (joins : Joins store height op c)
    (joins' : Joins store height op' c') (ha : c'.address = c.address) : c = c' := by
  have hfound := joins'.found
  rw [ha, joins.found] at hfound
  exact Option.some.inj hfound

theorem Leaves.eq_of_address {m m' : Member} (leaves : Leaves store op m)
    (leaves' : Leaves store op' m') (ha : m'.address = m.address) : m = m' := by
  have hfound := leaves'.found
  rw [ha, leaves.found] at hfound
  exact Option.some.inj hfound

end unique

/-- A change that an operation may make, whatever the store holds. -/
inductive Amends (store : Store) (height : Height) (op : Operation) : Change → Prop
  | balance (a : Address) (amount : Amount) : Amends store height op (.balance a amount)
  | account (acc : Account) : Amends store height op (.account acc)
  | issue {c : CurrencyId} {d : CurrencyDesign} (found : store.design? c = some d) (n : Int) :
      Amends store height op (.design (d.issue n))
  | policy {c : CurrencyId} {d : CurrencyDesign} {policy : CurrencyPolicy}
      (intent : op.fact.intent = .currencyPolicyUpdater c policy)
      (found : store.design? c = some d) : Amends store height op (.design (d.withPolicy policy))
  | register {d : CurrencyDesign} (intent : op.fact.intent = .currencyRegister d)
      (fresh : store.at? (.design d.currency) = none) : Amends store height op (.design d)
  | genesis {nodeKey : PublicKey} {keys : KeySet} {designs : List CurrencyDesign}
      {d : CurrencyDesign} (intent : op.fact.intent = .genesisCurrencies nodeKey keys designs)
      (first : height = .genesis) (listed : d ∈ designs)
      (fresh : store.at? (.design d.currency) = none) : Amends store height op (.design d)
  | apply {a : Address} {key : PublicKey} (applies : Applies store height op a key)
      (deadline : Height) :
      Amends store height op (.candidate ⟨a, key, height.next, deadline⟩ .insert)
  | join {c : Candidate} (joins : Joins store height op c) :
      Amends store height op (.member ⟨c.address, c.key, height.next⟩ .insert)
  | settle {c : Candidate} (joins : Joins store height op c) :
      Amends store height op (.candidate c .remove)
  | leave {m : Member} (leaves : Leaves store op m) : Amends store height op (.member m .remove)

namespace Amends

variable {store : Store} {height : Height} {op : Operation} {w : Change}

theorem regular (h : Amends store height op w) : w.Regular := by
  cases h with
  | balance => exact .balance ..
  | account => exact .account _
  | issue => exact .design _
  | policy => exact .design _
  | register => exact .design _
  | genesis => exact .design _
  | apply => exact .candidate _ (by decide)
  | join => exact .member _ (by decide)
  | settle => exact .candidate _ (by decide)
  | leave => exact .member _ (by decide)

/-- The members change by operations that let one join or leave. -/
theorem of_suffrage (h : Amends store height op w) (hfor : w.IsFor .suffrage) :
    (∃ c, Joins store height op c ∧ w = .member ⟨c.address, c.key, height.next⟩ .insert) ∨
      ∃ m, Leaves store op m ∧ w = .member m .remove := by
  cases h with
  | join joins => exact .inl ⟨_, joins, rfl⟩
  | leave leaves => exact .inr ⟨_, leaves, rfl⟩
  | _ => simp at hfor

/-- The candidates change by operations that name a new one, or let one join. -/
theorem of_candidates (h : Amends store height op w) (hfor : w.IsFor .candidates) :
    (∃ a key deadline, Applies store height op a key ∧
      w = .candidate ⟨a, key, height.next, deadline⟩ .insert) ∨
      ∃ c, Joins store height op c ∧ w = .candidate c .remove := by
  cases h with
  | apply applies deadline => exact .inl ⟨_, _, deadline, applies, rfl⟩
  | settle joins => exact .inr ⟨_, joins, rfl⟩
  | _ => simp at hfor

theorem moves_members (h : Amends store height op w) (hfor : w.IsFor .suffrage) :
    Roster.members.Moves w := by
  rcases h.of_suffrage hfor with ⟨c, -, rfl⟩ | ⟨m, -, rfl⟩
  · exact ⟨_, .inl rfl⟩
  · exact ⟨_, .inr rfl⟩

theorem moves_candidates (h : Amends store height op w) (hfor : w.IsFor .candidates) :
    Roster.candidates.Moves w := by
  rcases h.of_candidates hfor with ⟨a, key, deadline, -, rfl⟩ | ⟨c, -, rfl⟩
  · exact ⟨_, .inl rfl⟩
  · exact ⟨_, .inr rfl⟩

theorem joins_of_insert {m : Member} (h : Amends store height op (.member m .insert)) :
    ∃ c, Joins store height op c ∧ m = ⟨c.address, c.key, height.next⟩ := by
  rcases h.of_suffrage (Change.isFor_member.2 rfl) with ⟨c, joins, heq⟩ | ⟨m', -, heq⟩
  · cases heq
    exact ⟨c, joins, rfl⟩
  · cases heq

theorem leaves_of_remove {m : Member} (h : Amends store height op (.member m .remove)) :
    Leaves store op m := by
  rcases h.of_suffrage (Change.isFor_member.2 rfl) with ⟨c, -, heq⟩ | ⟨m', leaves, heq⟩
  · cases heq
  · cases heq
    exact leaves

theorem applies_of_insert {c : Candidate} (h : Amends store height op (.candidate c .insert)) :
    Applies store height op c.address c.key ∧ c.start = height.next := by
  rcases h.of_candidates (Change.isFor_candidate.2 rfl) with
    ⟨a, key, deadline, applies, heq⟩ | ⟨c', -, heq⟩
  · cases heq
    exact ⟨applies, rfl⟩
  · cases heq

end Amends

section admits

variable {store : Store} {height : Height} {threshold : Threshold} {op : Operation}
  {changes : List Change}

theorem Context.requireCandidateSign_eq_ok {a : Address} {key : PublicKey} :
    requireCandidateSign op a key = .ok () ↔
      ∃ s ∈ op.signs, s.signer = key ∧ s.node = some a := by
  unfold requireCandidateSign
  split
  · next h => simpa using h
  · next h => simpa [reject] using h

theorem applies_of_rules {a : Address} {key : PublicKey}
    (intent : op.fact.intent = .suffrageCandidate a key)
    (hcheck : SuffrageCandidate.check (store.context height threshold) op a key = .ok ())
    (heffects : SuffrageCandidate.effects (store.context height threshold) a key = .ok changes) :
    Applies store height op a key ∧
      ∃ deadline, changes = [.candidate ⟨a, key, height.next, deadline⟩ .insert] := by
  obtain ⟨policy, -, h⟩ := bind_eq_ok.1 heffects
  cases h
  refine ⟨?_, _, rfl⟩
  obtain ⟨_, -, hcheck⟩ := bind_eq_ok.1 hcheck
  obtain ⟨members, hmembers, hcheck⟩ := bind_eq_ok.1 hcheck
  dsimp only at hcheck
  split at hcheck
  · cases hcheck
  · next houtside =>
    obtain ⟨candidates, hcandidates, hcheck⟩ := bind_eq_ok.1 hcheck
    split at hcheck
    · cases hcheck
    · next hfree =>
      refine ⟨intent, ?_, fun c hc => ?_⟩
      · rw [Store.member?, Context.items_of_members hmembers]
        simpa [KeyedList.contains] using houtside
      · rw [Store.candidate?, Context.items_of_candidates hcandidates] at hc
        simpa [hc, Candidate.isExpired] using hfree

theorem SuffrageJoin.candidate_eq_ok {a : Address} {start : Height} {c : Candidate}
    (h : candidate (store.context height threshold) a start = .ok c) :
    store.candidate? a = some c ∧ ¬c.deadline < height ∧ c.start = start := by
  obtain ⟨candidates, hcandidates, h⟩ := bind_eq_ok.1 h
  rw [Store.candidate?, Context.items_of_candidates hcandidates]
  split at h
  · cases h
  · next found hfound =>
    split at h
    · cases h
    · next hopen =>
      split at h
      · cases h
      · next hstart =>
        cases h
        exact ⟨hfound, by simpa [Candidate.isExpired] using hopen, not_not.1 hstart⟩

theorem joins_of_rules {a : Address} {start : Height}
    (intent : op.fact.intent = .suffrageJoin a start)
    (hcheck : SuffrageJoin.check (store.context height threshold) op a start = .ok ())
    (heffects : SuffrageJoin.effects (store.context height threshold) a start = .ok changes) :
    ∃ c, c.address = a ∧ c.start = start ∧ Joins store height op c ∧
      changes = [.member ⟨c.address, c.key, height.next⟩ .insert, .candidate c .remove] := by
  obtain ⟨c, hc, h⟩ := bind_eq_ok.1 heffects
  cases h
  obtain ⟨found, timely, rfl⟩ := SuffrageJoin.candidate_eq_ok hc
  obtain rfl := Store.address_of_candidate? found
  refine ⟨c, rfl, rfl, ?_, rfl⟩
  obtain ⟨c', hc', hcheck⟩ := bind_eq_ok.1 hcheck
  obtain rfl : c = c' := Except.ok.inj (hc.symm.trans hc')
  obtain ⟨members, hmembers, hcheck⟩ := bind_eq_ok.1 hcheck
  split at hcheck
  · cases hcheck
  · next houtside =>
    obtain ⟨policy, -, hcheck⟩ := bind_eq_ok.1 hcheck
    dsimp only at hcheck
    split at hcheck
    · cases hcheck
    · obtain ⟨_, hsigned, -⟩ := bind_eq_ok.1 hcheck
      refine ⟨intent, ?_, found, timely, Context.requireCandidateSign_eq_ok.1 hsigned⟩
      rw [Store.member?, Context.items_of_members hmembers]
      simpa [KeyedList.contains] using houtside

theorem leaves_of_rules {node : Address} {start : Height}
    (intent : op.fact.intent = .suffrageDisjoin node start)
    (heffects : SuffrageDisjoin.effects (store.context height threshold) node start =
      .ok changes) :
    ∃ m, m.address = node ∧ m.start = start ∧ Leaves store op m ∧
      changes = [.member m .remove] := by
  obtain ⟨m, hm, h⟩ := bind_eq_ok.1 heffects
  cases h
  obtain ⟨members, hmembers, hm⟩ := bind_eq_ok.1 hm
  split at hm
  · cases hm
  · next found hfound =>
    have hthere : store.member? node = some found := by
      rw [Store.member?, Context.items_of_members hmembers]
      exact hfound
    obtain rfl := Store.address_of_member? hthere
    split at hm
    · cases hm
    · next hstart =>
      split at hm
      · cases hm
      · cases hm
        obtain rfl := not_not.1 hstart
        exact ⟨m, rfl, rfl, ⟨intent, hthere⟩, rfl⟩

theorem amends_of_changes {sender : Address} {balances : List (CurrencyId × Int)}
    {charges : List Charge} {credits : List Settlement.Credit}
    (h : Settlement.changes (store.context height threshold) sender balances charges credits =
      .ok changes) {w : Change} (hw : w ∈ changes) : Amends store height op w := by
  simp only [Settlement.changes, bind_eq_ok, pure_eq_ok] at h
  obtain ⟨credited, hcredited, fees, hfees, debits, hdebits, designs, hdesigns, rfl⟩ := h
  simp only [List.mem_append, List.mem_filterMap, id_eq, exists_eq_right] at hw
  rcases hw with ((hw | hw) | hw) | hw
  · obtain ⟨credit, -, hcredit⟩ := (mem_mapM hcredited).1 hw
    obtain ⟨current, -, h⟩ := bind_eq_ok.1 hcredit
    cases h
    exact .balance ..
  · obtain ⟨charge, -, hfee⟩ := (mem_mapM hfees).1 hw
    unfold Settlement.feeChange at hfee
    split at hfee
    · cases hfee
    · split at hfee
      · cases hfee
      · obtain ⟨current, -, h⟩ := bind_eq_ok.1 hfee
        cases h
        exact .balance ..
  · obtain ⟨charge, -, hdebit⟩ := (mem_mapM hdebits).1 hw
    unfold Settlement.debitChange at hdebit
    split at hdebit
    · cases hdebit
      exact .balance ..
    · split at hdebit <;> cases hdebit
  · obtain ⟨charge, -, hdesign⟩ := (mem_mapM hdesigns).1 hw
    unfold Settlement.designChange at hdesign
    split at hdesign
    · cases hdesign
    · obtain ⟨d, hd, h⟩ := bind_eq_ok.1 hdesign
      cases h
      exact .issue (Context.design?_of_design hd) _

theorem amends_of_createAccounts {sender : Address} {items : List NewAccount}
    (heffects : CreateAccounts.effects (store.context height threshold) sender items =
      .ok changes) {w : Change} (hw : w ∈ changes) : Amends store height op w := by
  simp only [CreateAccounts.effects, bind_eq_ok, pure_eq_ok] at heffects
  obtain ⟨charges, -, balances, -, created, hcreated, settled, hsettled, rfl⟩ := heffects
  rcases List.mem_append.1 hw with hw | hw
  · rcases (CreateAccounts.mem_created hcreated).1 hw with
      ⟨item, -, acc, -, rfl⟩ | ⟨credit, -, rfl⟩
    · exact .account acc
    · exact .balance ..
  · exact amends_of_changes hsettled hw

/-- Where there is an account none is made. -/
theorem CreateAccounts.requireNoAccount_of_check {ctx : Context} {sender : Address}
    {items : List NewAccount} (h : check ctx op sender items = .ok ()) {item : NewAccount}
    (hitem : item ∈ items) {a : Address} (ha : item.address = .ok a) :
    ctx.requireNoAccount a = .ok () := by
  simp only [check, bind_eq_ok] at h
  obtain ⟨acc, -, _, hitems, -⟩ := h
  have hchecked := Check.forEach_eq_ok_iff.1 hitems item hitem
  simp only [checkItem, target, bind_eq_ok, mapError_eq_ok] at hchecked
  obtain ⟨b, hb, _, hfresh, -⟩ := hchecked
  obtain rfl : b = a := Except.ok.inj (hb.symm.trans ha)
  exact hfresh

theorem amends_of_keyUpdater {target : Address} {keys : KeySet} {currency : CurrencyId}
    (heffects : KeyUpdater.effects (store.context height threshold) op target keys currency =
      .ok changes) {w : Change} (hw : w ∈ changes) : Amends store height op w := by
  simp only [KeyUpdater.effects, bind_eq_ok, pure_eq_ok] at heffects
  obtain ⟨checked, -, settled, hsettled, rfl⟩ := heffects
  rcases List.mem_cons.1 hw with rfl | hw
  · exact .account _
  · exact amends_of_changes hsettled hw

namespace Mint

theorem mem_effects {ctx : Context} {items : List Issue} (h : effects ctx items = .ok changes)
    {w : Change} : w ∈ changes ↔ (∃ item ∈ items, creditChange ctx item = .ok w) ∨
      ∃ sum ∈ (Charge.sums (items.map (·.amount))).toList, designChange ctx sum = .ok w := by
  simp only [effects, bind_eq_ok, pure_eq_ok] at h
  obtain ⟨credits, hcredits, designs, hdesigns, rfl⟩ := h
  rw [List.mem_append, mem_mapM hcredits, mem_mapM hdesigns]

theorem creditChange_eq_ok {ctx : Context} {item : Issue} {w : Change}
    (h : creditChange ctx item = .ok w) : ∃ amount, w = .balance item.receiver amount := by
  obtain ⟨current, -, h⟩ := bind_eq_ok.1 h
  cases h
  exact ⟨_, rfl⟩

theorem designChange_eq_ok {sum : Amount} {w : Change}
    (h : designChange (store.context height threshold) sum = .ok w) :
    ∃ d, store.design? sum.currency = some d ∧ w = .design (d.issue sum.magnitude) := by
  obtain ⟨d, hd, h⟩ := bind_eq_ok.1 h
  cases h
  exact ⟨d, Context.design?_of_design hd, rfl⟩

end Mint

theorem amends_of_mint {items : List Issue}
    (heffects : Mint.effects (store.context height threshold) items = .ok changes) {w : Change}
    (hw : w ∈ changes) : Amends store height op w := by
  rcases (Mint.mem_effects heffects).1 hw with ⟨item, -, hcredit⟩ | ⟨sum, -, hdesign⟩
  · obtain ⟨amount, rfl⟩ := Mint.creditChange_eq_ok hcredit
    exact .balance ..
  · obtain ⟨d, hd, rfl⟩ := Mint.designChange_eq_ok hdesign
    exact .issue hd _

/-- A design is registered where nothing stands. -/
theorem CurrencyRegister.at?_of_checkDesign {created : Option Address} {d : CurrencyDesign}
    (h : checkDesign (store.context height threshold) created d = .ok ()) :
    store.at? (.design d.currency) = none := by
  obtain ⟨found, hfound, h⟩ := bind_eq_ok.1 h
  cases found with
  | some r => cases h
  | none => exact Context.at?_of_find_none hfound

theorem amends_of_register {d : CurrencyDesign} (registers : Amends store height op (.design d))
    {registered : List Change}
    (h : CurrencyRegister.register (store.context height threshold) d = .ok registered)
    {w : Change} (hw : w ∈ registered) : Amends store height op w := by
  obtain ⟨current, -, h⟩ := bind_eq_ok.1 h
  cases h
  simp only [List.mem_cons, List.not_mem_nil, or_false] at hw
  rcases hw with rfl | rfl | rfl | rfl
  · exact registers
  · exact .balance ..
  · exact .balance ..
  · exact .account _

theorem GenesisCurrencies.first_of_check {nodeKey : PublicKey} {keys : KeySet}
    {designs : List CurrencyDesign}
    (h : check (store.context height threshold) op nodeKey keys designs = .ok ()) :
    height = .genesis ∧ store.at? (.account (.ofKeySet keys)) = none ∧
      ∀ d ∈ designs, store.at? (.design d.currency) = none := by
  unfold check at h
  split at h
  · cases h
  · next hfirst =>
    split at h
    · cases h
    · obtain ⟨_, hfresh, hdesigns⟩ := bind_eq_ok.1 h
      refine ⟨not_not.1 hfirst, Context.at?_of_requireNoAccount hfresh, fun d hd => ?_⟩
      exact CurrencyRegister.at?_of_checkDesign (Check.forEach_eq_ok_iff.1 hdesigns d hd)

theorem amends_of_genesisCurrencies {nodeKey : PublicKey} {keys : KeySet}
    {designs : List CurrencyDesign}
    (intent : op.fact.intent = .genesisCurrencies nodeKey keys designs)
    (hcheck : GenesisCurrencies.check (store.context height threshold) op nodeKey keys designs =
      .ok ())
    (heffects : GenesisCurrencies.effects (store.context height threshold) keys designs =
      .ok changes) {w : Change} (hw : w ∈ changes) : Amends store height op w := by
  obtain ⟨first, -, fresh⟩ := GenesisCurrencies.first_of_check hcheck
  obtain ⟨registered, hregistered, h⟩ := bind_eq_ok.1 heffects
  cases h
  rcases List.mem_cons.1 hw with rfl | hw
  · exact .account _
  · obtain ⟨cs, hcs, hw⟩ := List.mem_flatten.1 hw
    obtain ⟨d, hd, hregister⟩ := (mem_mapM hregistered).1 hcs
    exact amends_of_register (.genesis intent first hd (fresh d hd)) hregister hw

/-- Every change of an admitted operation is one that it may make. -/
theorem amends_of_admits (h : (store.context height threshold).Admits op changes) {w : Change}
    (hw : w ∈ changes) : Amends store height op w := by
  have does := h.does
  generalize hintent : op.fact.intent = intent at does
  cases does with
  | createAccounts _ effects => exact amends_of_createAccounts effects hw
  | transfers _ effects =>
    obtain ⟨charges, -, h⟩ := bind_eq_ok.1 effects
    obtain ⟨balances, -, hsettled⟩ := bind_eq_ok.1 h
    exact amends_of_changes hsettled hw
  | keyUpdater _ effects => exact amends_of_keyUpdater effects hw
  | currencyRegister check effects =>
    obtain ⟨_, hdesign, -⟩ := bind_eq_ok.1 check
    have fresh := CurrencyRegister.at?_of_checkDesign hdesign
    exact amends_of_register (.register hintent fresh) effects hw
  | currencyPolicyUpdater _ effects =>
    obtain ⟨d, hd, h⟩ := bind_eq_ok.1 effects
    cases h
    rw [List.mem_singleton.1 hw]
    exact .policy hintent (Context.design?_of_design hd)
  | mint _ effects => exact amends_of_mint effects hw
  | suffrageCandidate check effects =>
    obtain ⟨applies, deadline, rfl⟩ := applies_of_rules hintent check effects
    rw [List.mem_singleton.1 hw]
    exact .apply applies deadline
  | suffrageJoin check effects =>
    obtain ⟨c, -, -, joins, rfl⟩ := joins_of_rules hintent check effects
    simp only [List.mem_cons, List.not_mem_nil, or_false] at hw
    rcases hw with rfl | rfl
    · exact .join joins
    · exact .settle joins
  | suffrageDisjoin _ effects =>
    obtain ⟨m, -, -, leaves, rfl⟩ := leaves_of_rules hintent effects
    rw [List.mem_singleton.1 hw]
    exact .leave leaves
  | genesisCurrencies check effects => exact amends_of_genesisCurrencies hintent check effects hw

namespace Context.Admits

variable (h : (store.context height threshold).Admits op changes)
include h

theorem joins {a : Address} {start : Height} (intent : op.fact.intent = .suffrageJoin a start) :
    ∃ c, c.address = a ∧ c.start = start ∧ Joins store height op c ∧
      changes = [.member ⟨c.address, c.key, height.next⟩ .insert, .candidate c .remove] := by
  have does := h.does
  rw [intent] at does
  cases does with
  | suffrageJoin check effects => exact joins_of_rules intent check effects

theorem leaves {a : Address} {start : Height} (intent : op.fact.intent = .suffrageDisjoin a start) :
    ∃ m, m.address = a ∧ m.start = start ∧ Leaves store op m ∧ changes = [.member m .remove] := by
  have does := h.does
  rw [intent] at does
  cases does with
  | suffrageDisjoin _ effects => exact leaves_of_rules intent effects

end Context.Admits

end admits

namespace Dispatcher

/-- What a batch writes and what its accepted operations make is the same. -/
structure Accounts (config : EngineConfig) (d : Dispatcher) (ops : List Operation)
    (store store' : Store) (accepted : Store.Accepted) : Prop where
  commits : ∃ height records, store.commit height accepted = .ok (records, store')
  admits : ∀ op ∈ d.acceptedOperations ops, op.check config.networkBytes = .ok () ∧
    ∃ changes, (store.context d.context.height d.context.threshold).Admits op changes ∧
      ∀ w ∈ changes, (op.hash, w) ∈ Store.writes accepted
  amends : ∀ w ∈ Store.writes accepted, ∃ op ∈ d.acceptedOperations ops,
    op.check config.networkBytes = .ok () ∧ Amends store d.context.height op w.2

variable {store store' : Store} {config : EngineConfig} {d : Dispatcher} {ops : List Operation}
  {accepted : Store.Accepted}

theorem accounts_of_forall₂ (reads : d.context.read = store.reader)
    (made : List.Forall₂ (Makes config.networkBytes d.context) (d.acceptedOperations ops) accepted)
    {height : Height} {records : List Record}
    (commits : store.commit height accepted = .ok (records, store')) :
    d.Accounts config ops store store' accepted := by
  rw [context_eq reads] at made
  refine ⟨⟨height, records, commits⟩, fun op hop => ?_, fun w hw => ?_⟩
  · obtain ⟨entry, hentry, makes⟩ := exists_right made hop
    refine ⟨makes.valid, entry.2, makes.admits, fun w hw => ?_⟩
    exact Store.mem_writes.2 ⟨entry, hentry, makes.hash.symm, hw⟩
  · obtain ⟨entry, hentry, -, hw⟩ := Store.mem_writes.1 hw
    obtain ⟨op, hop, makes⟩ := exists_left made hentry
    exact ⟨op, hop, makes.valid, amends_of_admits makes.admits hw⟩

theorem Advances.exists_accounts (h : d.Advances config ops store store') :
    ∃ accepted, d.Accounts config ops store store' accepted := by
  obtain ⟨accepted, height, records, made, commits⟩ := h.exists_accepted
  exact ⟨accepted, accounts_of_forall₂ h.reads made commits⟩

namespace Accounts

variable (accounts : d.Accounts config ops store store' accepted)
include accounts

theorem regular : ∀ w ∈ Store.writes accepted, w.2.Regular := by
  intro w hw
  obtain ⟨op, -, -, amends⟩ := accounts.amends w hw
  exact amends.regular

theorem moves_members : ∀ w ∈ Store.writes accepted, w.2.IsFor Roster.members.place →
    Roster.members.Moves w.2 := by
  intro w hw hfor
  obtain ⟨op, -, -, amends⟩ := accounts.amends w hw
  exact amends.moves_members hfor

theorem moves_candidates : ∀ w ∈ Store.writes accepted, w.2.IsFor Roster.candidates.place →
    Roster.candidates.Moves w.2 := by
  intro w hw hfor
  obtain ⟨op, -, -, amends⟩ := accounts.amends w hw
  exact amends.moves_candidates hfor

end Accounts

end Dispatcher

end CurrencyLedger
