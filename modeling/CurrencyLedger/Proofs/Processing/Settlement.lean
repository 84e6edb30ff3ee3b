import CurrencyLedger.Processing.Settlement
import CurrencyLedger.Proofs.Processing.Charge

/-!
What a settlement writes. `Payment.gain` says by how much each balance is to grow, whichever of
sender, receivers and fee receivers are the same; `settles_of_changes` says that a settlement writes
just that.
-/

namespace CurrencyLedger

open Traversal Settlement

/-- What an operation of an account moves. -/
structure Payment where
  payer : Address
  amounts : List Amount
  credits : List Credit

namespace Settlement

/-- The balance that a credit raises. -/
def Credit.place (credit : Credit) : Address × CurrencyId :=
  (credit.receiver, credit.amount.currency)

/-- What is credited to an address in a currency. -/
def creditedTo : List Credit → Address → CurrencyId → Int
  | [], _, _ => 0
  | credit :: rest, a, c =>
    (if credit.place = (a, c) then credit.amount.magnitude else 0) + creditedTo rest a c

theorem creditedTo_eq_zero {credits : List Credit} {a : Address} {c : CurrencyId}
    (h : ∀ credit ∈ credits, credit.place ≠ (a, c)) : creditedTo credits a c = 0 := by
  induction credits with
  | nil => rfl
  | cons credit rest ih =>
    rw [creditedTo, if_neg (h credit List.mem_cons_self),
      ih fun other ho => h other (List.mem_cons_of_mem _ ho), Int.add_zero]

theorem creditedTo_nonneg {credits : List Credit}
    (h : ∀ credit ∈ credits, 0 ≤ credit.amount.magnitude) (a : Address) (c : CurrencyId) :
    0 ≤ creditedTo credits a c := by
  induction credits with
  | nil => exact Int.le_refl 0
  | cons credit rest ih =>
    have hcredit := h credit List.mem_cons_self
    have hrest := ih fun other ho => h other (List.mem_cons_of_mem _ ho)
    rw [creditedTo]
    split <;> omega

/-- Where no balance is credited twice, a credit is all that its balance gets. -/
theorem creditedTo_eq {credits : List Credit} (distinct : (credits.map Credit.place).Nodup)
    {credit : Credit} (h : credit ∈ credits) :
    creditedTo credits credit.receiver credit.amount.currency = credit.amount.magnitude := by
  induction credits with
  | nil => cases h
  | cons other rest ih =>
    obtain ⟨hother, hrest⟩ := List.nodup_cons.1 distinct
    rcases List.mem_cons.1 h with rfl | h
    · have hzero : creditedTo rest credit.receiver credit.amount.currency = 0 :=
        creditedTo_eq_zero fun other ho e => hother (List.mem_map.2 ⟨other, ho, e⟩)
      have hplace : credit.place = (credit.receiver, credit.amount.currency) := rfl
      rw [creditedTo, if_pos hplace, hzero, Int.add_zero]
    · have hne : other.place ≠ (credit.receiver, credit.amount.currency) := fun e =>
        hother (List.mem_map.2 ⟨credit, h, e.symm⟩)
      rw [creditedTo, if_neg hne, ih hrest h, Int.zero_add]

end Settlement

/-- By how much a payment raises a balance: what it credits there, and the fee if it is collected
there, less what the payer pays. -/
def Payment.gain (p : Payment) (store : Store) (a : Address) (c : CurrencyId) : Int :=
  creditedTo p.credits a c + (if store.feeReceiver? c = some a then store.feeOn p.amounts c else 0) -
    if a = p.payer then Amount.sumIn p.amounts c + store.feeOn p.amounts c else 0

namespace Settlement

variable {store : Store} {height : Height} {threshold : Threshold}

/-- The change for a credit. -/
def creditOf (store : Store) (sender : Address) (charges : List Charge) (credit : Credit) :
    Change :=
  .balance credit.receiver
    ⟨store.balance credit.receiver credit.amount.currency +
      (credit.amount.magnitude + folded sender charges credit), credit.amount.currency⟩

/-- The change for a fee that is credited on its own. -/
def feeOf (store : Store) (sender : Address) (credits : List Credit) (charge : Charge) :
    Option Change :=
  charge.due?.bind fun due =>
    if due.1 = sender ∨ ∃ credit ∈ credits, credit.place = (due.1, charge.currency) then none
    else some (.balance due.1 ⟨store.balance due.1 charge.currency + due.2, charge.currency⟩)

/-- The change for a debit. -/
def debitOf (store : Store) (sender : Address) (charge : Charge) : Option Change :=
  (charge.covered? store sender).map fun entry =>
    .balance sender ⟨entry.2 - debit sender charge, charge.currency⟩

/-- The change of a design by a fee. -/
def designOf (store : Store) (charge : Charge) : Option Change :=
  charge.due?.bind fun due =>
    (store.design? charge.currency).map fun d => .design (d.issue due.2)

theorem creditChange_eq (keyed : store.IsKeyed) (sender : Address) (charges : List Charge)
    (credit : Credit) :
    creditChange (store.context height threshold) sender charges credit =
      .ok (creditOf store sender charges credit) := by
  rw [creditChange, Context.balance_eq keyed]
  rfl

theorem feeChange_eq (keyed : store.IsKeyed) (sender : Address) (credits : List Credit)
    (charge : Charge) :
    feeChange (store.context height threshold) sender credits charge =
      .ok (feeOf store sender credits charge) := by
  rw [feeChange, feeOf]
  cases charge.due? with
  | none => rfl
  | some due =>
    obtain ⟨receiver, fee⟩ := due
    simp only [List.any_eq_true, decide_eq_true_eq, Option.bind_some, Credit.place, Prod.mk.injEq]
    split
    · rfl
    · rw [Context.balance_eq keyed]
      rfl

theorem debitChange_eq_ok {sender : Address} {charges : List Charge}
    (distinct : (charges.map Charge.currency).Nodup) {charge : Charge} (hc : charge ∈ charges)
    {change : Option Change}
    (h : debitChange sender (charges.filterMap (Charge.covered? store sender)) charge =
      .ok change) :
    change = debitOf store sender charge ∧
      (charge.covered? store sender = none → debit sender charge = 0) := by
  rw [debitChange, Charge.find?_covered distinct hc] at h
  rw [debitOf]
  cases he : charge.covered? store sender with
  | none =>
    rw [he] at h
    split at h
    · next hs => cases hs
    · split at h
      · next hzero =>
        cases h
        exact ⟨rfl, fun _ => hzero⟩
      · cases h
  | some entry =>
    rw [he] at h
    cases h
    exact ⟨rfl, fun hn => by cases hn⟩

theorem designChange_eq_ok (keyed : store.IsKeyed) {charge : Charge} {change : Option Change}
    (h : designChange (store.context height threshold) charge = .ok change) :
    change = designOf store charge := by
  rw [designChange] at h
  rw [designOf]
  cases hd : charge.due? with
  | none =>
    rw [hd] at h
    cases h
    rfl
  | some due =>
    rw [hd] at h
    obtain ⟨d, hdesign, h⟩ := bind_eq_ok.1 h
    cases h
    rw [(Context.design_eq_ok keyed).1 hdesign]
    rfl

theorem changes_eq_ok (keyed : store.IsKeyed) {sender : Address} {charges : List Charge}
    (distinct : (charges.map Charge.currency).Nodup) {credits : List Credit}
    {changes : List Change}
    (h : Settlement.changes (store.context height threshold) sender
      (charges.filterMap (Charge.covered? store sender)) charges credits = .ok changes) :
    changes = credits.map (creditOf store sender charges) ++
        charges.filterMap (feeOf store sender credits) ++
        charges.filterMap (debitOf store sender) ++ charges.filterMap (designOf store) ∧
      ∀ charge ∈ charges, charge.covered? store sender = none → debit sender charge = 0 := by
  simp only [Settlement.changes, bind_eq_ok, pure_eq_ok] at h
  obtain ⟨credited, hcredits, fees, hfees, debits, hdebits, designs, hdesigns, rfl⟩ := h
  rw [mapM_eq_map fun credit _ => creditChange_eq keyed sender charges credit] at hcredits
  rw [mapM_eq_map fun charge _ => feeChange_eq keyed sender credits charge] at hfees
  have hdebits' := eq_map_of_mapM hdebits fun charge hc _ hok =>
    (debitChange_eq_ok distinct hc hok).1
  have hdesigns' := eq_map_of_mapM hdesigns fun charge _ _ hok => designChange_eq_ok keyed hok
  cases hcredits
  cases hfees
  subst hdebits' hdesigns'
  refine ⟨by simp only [List.filterMap_map, Function.id_comp], fun charge hc hnone => ?_⟩
  obtain ⟨change, -, hok⟩ := exists_right (mapM_eq_ok_iff.1 hdebits) hc
  exact (debitChange_eq_ok distinct hc hok).2 hnone

end Settlement

namespace IsBill

variable {store : Store} {amounts : List Amount} {charges : List Charge} {charge : Charge}
variable (bill : IsBill store amounts charges) (valid : store.HasValidDesigns)
include bill

theorem of_due {receiver : Address} {fee : Int} (h : charge ∈ charges)
    (hd : charge.due? = some (receiver, fee)) :
    0 < fee ∧ store.feeReceiver? charge.currency = some receiver ∧
      fee = store.feeOn amounts charge.currency := by
  obtain ⟨hpos, hr, rfl⟩ := Charge.due?_eq_some.1 hd
  exact ⟨hpos, bill.receiver_eq h ▸ hr, bill.fee_eq h⟩

include valid

theorem fee_eq_zero_of_due (h : charge ∈ charges) (hd : charge.due? = none) :
    store.feeOn amounts charge.currency = 0 := by
  have hnonneg := bill.fee_nonneg valid h
  rw [← bill.fee_eq h]
  unfold Charge.due? at hd
  split at hd
  · exact bill.fee_eq_zero h (Option.map_eq_none_iff.1 hd)
  · omega

/-- A fee that is collected is due, and one that is due has a charge. -/
theorem exists_due {c : CurrencyId} (h : store.feeOn amounts c ≠ 0) :
    ∃ charge ∈ charges, charge.currency = c ∧
      ∃ receiver, charge.due? = some (receiver, store.feeOn amounts c) ∧
        store.feeReceiver? c = some receiver := by
  have hn : Amount.Names amounts c := by
    by_contra hn
    exact h (Store.feeOn_of_not_named hn)
  obtain ⟨charge, hc, rfl⟩ := (bill.named c).2 hn
  cases hd : charge.due? with
  | none => exact absurd (bill.fee_eq_zero_of_due valid hc hd) h
  | some due =>
    obtain ⟨-, hr, hf⟩ := bill.of_due hc hd
    exact ⟨charge, hc, rfl, due.1, by rw [hd, ← hf], hr⟩

theorem debit_eq (sender : Address) (h : charge ∈ charges) :
    debit sender charge =
      Amount.sumIn amounts charge.currency + store.feeOn amounts charge.currency -
        if store.feeReceiver? charge.currency = some sender then
          store.feeOn amounts charge.currency
        else 0 := by
  rw [debit, Charge.required, bill.amount charge h, bill.fee_eq h]
  cases hd : charge.due? with
  | none => simp [bill.fee_eq_zero_of_due valid h hd]
  | some due =>
    obtain ⟨-, hr, -⟩ := bill.of_due h hd
    simp only [hr, Option.some.injEq]
    split <;> omega

theorem folded_eq {sender : Address} {credit : Credit} (hs : credit.receiver ≠ sender) :
    folded sender charges credit =
      if store.feeReceiver? credit.amount.currency = some credit.receiver then
        store.feeOn amounts credit.amount.currency
      else 0 := by
  by_cases hfee : store.feeOn amounts credit.amount.currency = 0
  · rw [hfee, ite_self, folded]
    split
    · next hdue =>
      obtain ⟨charge, hfind, hdue⟩ := Option.bind_eq_some_iff.1 hdue
      have hc := List.mem_of_find?_eq_some hfind
      obtain ⟨hpos, -, hf⟩ := bill.of_due hc hdue
      have hcurrency : charge.currency = credit.amount.currency := by
        simpa using List.find?_some hfind
      rw [hcurrency, hfee] at hf
      omega
    · rfl
  · obtain ⟨charge, hc, hcurrency, receiver, hdue, hr⟩ := bill.exists_due valid hfee
    rw [folded, ← hcurrency, bill.find?_currency hc, Option.bind_some, hdue, hcurrency, hr]
    simp only [Option.some.injEq]
    by_cases he : receiver = credit.receiver
    · rw [if_pos ⟨he, he ▸ hs⟩, if_pos he]
    · rw [if_neg fun hand => he hand.1, if_neg he]

end IsBill

/-- A payment credits no balance twice and none of the payer, in currencies that it names, and its
accounts are there. -/
structure Payment.IsProper (p : Payment) (store : Store) : Prop where
  named : ∀ credit ∈ p.credits, Amount.Names p.amounts credit.amount.currency
  distinct : (p.credits.map Credit.place).Nodup
  foreign : ∀ credit ∈ p.credits, credit.receiver ≠ p.payer
  received : ∀ credit ∈ p.credits, (store.account? credit.receiver).isSome
  paid : (store.account? p.payer).isSome

theorem Payment.IsProper.gain_payer {p : Payment} {store : Store} (proper : p.IsProper store)
    (c : CurrencyId) :
    p.gain store p.payer c =
      (if store.feeReceiver? c = some p.payer then store.feeOn p.amounts c else 0) -
        (Amount.sumIn p.amounts c + store.feeOn p.amounts c) := by
  have hzero : creditedTo p.credits p.payer c = 0 :=
    creditedTo_eq_zero fun credit h e => proper.foreign credit h (Prod.mk.inj e).1
  rw [gain, hzero, if_pos rfl, Int.zero_add]

/-- The change of a balance by a payment. -/
def Payment.balanceChange (p : Payment) (store : Store) (a : Address) (c : CurrencyId) : Change :=
  .balance a ⟨store.balance a c + p.gain store a c, c⟩

/-- The change of a design by the fee of a payment. -/
def Payment.designChange (p : Payment) (store : Store) (d : CurrencyDesign) : Change :=
  .design (d.issue (store.feeOn p.amounts d.currency))

/-- The changes are those of balances that gain or lose by a payment, and of designs whose currency
it has to pay fees in. -/
structure Settles (p : Payment) (store : Store) (changes : List Change) : Prop where
  only : ∀ w ∈ changes,
    (∃ a c, (store.account? a).isSome ∧ (store.design? c).isSome ∧ w = p.balanceChange store a c) ∨
      ∃ c d, store.design? c = some d ∧ 0 < store.feeOn p.amounts c ∧ w = p.designChange store d
  balance : ∀ a c, p.gain store a c ≠ 0 → p.balanceChange store a c ∈ changes
  design : ∀ c d, store.design? c = some d → store.feeOn p.amounts c ≠ 0 →
    p.designChange store d ∈ changes

section settles

variable {store : Store} {p : Payment} {charges : List Charge} {charge : Charge}
variable (bill : IsBill store p.amounts charges)
include bill

theorem feeOf_eq (h : charge ∈ charges) :
    feeOf store p.payer p.credits charge = charge.due?.bind fun due =>
      if due.1 = p.payer ∨ ∃ credit ∈ p.credits, credit.place = (due.1, charge.currency) then none
      else some (p.balanceChange store due.1 charge.currency) := by
  rw [feeOf]
  cases hdue : charge.due? with
  | none => rfl
  | some due =>
    obtain ⟨receiver, fee⟩ := due
    obtain ⟨-, hr, rfl⟩ := bill.of_due h hdue
    simp only [Option.bind_some]
    apply ite_congr rfl (fun _ => rfl)
    intro hn
    obtain ⟨hne, hcredits⟩ := not_or.1 hn
    have hzero : creditedTo p.credits receiver charge.currency = 0 :=
      creditedTo_eq_zero fun credit hc e => hcredits ⟨credit, hc, e⟩
    rw [Payment.balanceChange, Payment.gain, hzero, if_pos hr, if_neg hne, Int.zero_add,
      Int.sub_zero]

theorem designOf_eq (keyed : store.IsKeyed) (h : charge ∈ charges) :
    designOf store charge = charge.due?.bind fun _ =>
      (store.design? charge.currency).map (p.designChange store) := by
  rw [designOf]
  cases hdue : charge.due? with
  | none => rfl
  | some due =>
    obtain ⟨-, -, hfee⟩ := bill.of_due h hdue
    cases hd : store.design? charge.currency with
    | none => rfl
    | some d =>
      simp only [Option.bind_some, Option.map_some, Payment.designChange, hfee,
        keyed.currency_eq hd]

variable (proper : p.IsProper store)
include proper

variable (valid : store.HasValidDesigns)
include valid

theorem creditOf_eq {credit : Credit} (h : credit ∈ p.credits) :
    creditOf store p.payer charges credit =
      p.balanceChange store credit.receiver credit.amount.currency := by
  have hne := proper.foreign credit h
  rw [creditOf, Payment.balanceChange, Payment.gain, creditedTo_eq proper.distinct h,
    bill.folded_eq valid hne, if_neg hne, Int.sub_zero]

theorem gain_payer_eq_debit (h : charge ∈ charges) :
    p.gain store p.payer charge.currency = -debit p.payer charge := by
  rw [proper.gain_payer, bill.debit_eq valid p.payer h]
  omega

theorem debitOf_eq (h : charge ∈ charges) :
    debitOf store p.payer charge = (charge.covered? store p.payer).map fun _ =>
      p.balanceChange store p.payer charge.currency := by
  rw [debitOf]
  cases he : charge.covered? store p.payer with
  | none => rfl
  | some entry =>
    rw [Option.map_some, Option.map_some, Charge.covered?_eq_some he, Payment.balanceChange,
      gain_payer_eq_debit bill proper valid h, Int.sub_eq_add_neg]

/-- A balance that is to change is credited, or gets a fee, or is debited. -/
theorem balanceChange_mem (uncovered : ∀ charge ∈ charges,
    charge.covered? store p.payer = none → debit p.payer charge = 0)
    {a : Address} {c : CurrencyId} (hg : p.gain store a c ≠ 0) :
    p.balanceChange store a c ∈ p.credits.map (creditOf store p.payer charges) ∨
      p.balanceChange store a c ∈ charges.filterMap (feeOf store p.payer p.credits) ∨
      p.balanceChange store a c ∈ charges.filterMap (debitOf store p.payer) := by
  by_cases hcredit : ∃ credit ∈ p.credits, credit.place = (a, c)
  · obtain ⟨credit, hc, e⟩ := hcredit
    cases e
    exact .inl (List.mem_map.2 ⟨credit, hc, creditOf_eq bill proper valid hc⟩)
  refine .inr ?_
  by_cases ha : a = p.payer
  · subst ha
    refine .inr ?_
    have hn : Amount.Names p.amounts c := by
      by_contra hn
      refine hg ?_
      rw [proper.gain_payer, Amount.sumIn_eq_zero hn, Store.feeOn_of_not_named hn]
      simp
    obtain ⟨charge, hc, rfl⟩ := (bill.named c).2 hn
    refine List.mem_filterMap.2 ⟨charge, hc, ?_⟩
    rw [debitOf_eq bill proper valid hc]
    cases he : charge.covered? store p.payer with
    | none =>
      rw [gain_payer_eq_debit bill proper valid hc, uncovered charge hc he] at hg
      exact absurd rfl hg
    | some entry => rfl
  · refine .inl ?_
    have hzero : creditedTo p.credits a c = 0 :=
      creditedTo_eq_zero fun credit hc e => hcredit ⟨credit, hc, e⟩
    rw [Payment.gain, hzero, if_neg ha, Int.zero_add, Int.sub_zero] at hg
    obtain ⟨hr, hfee⟩ : store.feeReceiver? c = some a ∧ store.feeOn p.amounts c ≠ 0 := by
      split at hg
      · next hr => exact ⟨hr, hg⟩
      · exact absurd rfl hg
    obtain ⟨charge, hc, rfl, receiver, hdue, hr'⟩ := bill.exists_due valid hfee
    obtain rfl : receiver = a := Option.some.inj (hr'.symm.trans hr)
    refine List.mem_filterMap.2 ⟨charge, hc, ?_⟩
    rw [feeOf_eq bill hc, hdue, Option.bind_some, if_neg (not_or.2 ⟨ha, hcredit⟩)]

/-- A settlement writes the balances that a payment is to change, whoever the accounts are. -/
theorem settles_of_changes (keyed : store.IsKeyed) {height : Height} {threshold : Threshold}
    {changes : List Change}
    (h : Settlement.changes (store.context height threshold) p.payer
      (charges.filterMap (Charge.covered? store p.payer)) charges p.credits = .ok changes) :
    Settles p store changes := by
  obtain ⟨rfl, uncovered⟩ := changes_eq_ok keyed bill.distinct h
  refine ⟨fun w hw => ?_, fun a c hg => ?_, fun c d hd hfee => ?_⟩
  · simp only [List.mem_append, List.mem_map, List.mem_filterMap] at hw
    rcases hw with ((⟨credit, hc, rfl⟩ | ⟨charge, hc, hf⟩) | ⟨charge, hc, hf⟩) | ⟨charge, hc, hf⟩
    · exact .inl ⟨_, _, proper.received credit hc, bill.design_of_named (proper.named credit hc),
        creditOf_eq bill proper valid hc⟩
    · rw [feeOf_eq bill hc] at hf
      obtain ⟨⟨receiver, fee⟩, hdue, hf⟩ := Option.bind_eq_some_iff.1 hf
      have hr := (Charge.due?_eq_some.1 hdue).2.1
      split at hf
      · cases hf
      · exact .inl ⟨_, _, bill.receiver charge hc _ hr, bill.design_isSome hc,
          (Option.some.inj hf).symm⟩
    · rw [debitOf_eq bill proper valid hc] at hf
      obtain ⟨_, -, rfl⟩ := Option.map_eq_some_iff.1 hf
      exact .inl ⟨_, _, proper.paid, bill.design_isSome hc, rfl⟩
    · rw [designOf_eq bill keyed hc] at hf
      obtain ⟨due, hdue, hf⟩ := Option.bind_eq_some_iff.1 hf
      obtain ⟨d, hd, rfl⟩ := Option.map_eq_some_iff.1 hf
      obtain ⟨hpos, -, hfee⟩ := bill.of_due hc hdue
      exact .inr ⟨_, d, hd, hfee ▸ hpos, rfl⟩
  · simp only [List.mem_append]
    have hmem := balanceChange_mem bill proper valid uncovered hg
    tauto
  · obtain ⟨charge, hc, rfl, receiver, hdue, -⟩ := bill.exists_due valid hfee
    refine List.mem_append_right _ (List.mem_filterMap.2 ⟨charge, hc, ?_⟩)
    rw [designOf_eq bill keyed hc, hdue, hd]
    rfl

end settles

end CurrencyLedger
