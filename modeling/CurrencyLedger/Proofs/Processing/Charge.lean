import CurrencyLedger.Processing.Charge
import CurrencyLedger.Proofs.Ledger.Sound
import CurrencyLedger.Proofs.Money.Design
import CurrencyLedger.Proofs.Processing.Reading
import Mathlib.Data.List.Induction
import Mathlib.Data.List.Nodup

/-!
What charges say about the amounts they are made for. `IsBill` sums it up: one charge for each
currency that is named, on the sum of the amounts in it, with the fee of the currency's policy.
-/

namespace CurrencyLedger

open Traversal

namespace Amount

/-- The amounts name a currency. -/
def Names (amounts : List Amount) (c : CurrencyId) : Prop :=
  ∃ a ∈ amounts, a.currency = c

instance (amounts : List Amount) (c : CurrencyId) : Decidable (Names amounts c) :=
  inferInstanceAs (Decidable (∃ a ∈ amounts, _))

/-- The sum of the amounts in a currency. -/
def sumIn : List Amount → CurrencyId → Int
  | [], _ => 0
  | a :: rest, c => (if a.currency = c then a.magnitude else 0) + sumIn rest c

theorem names_append {as bs : List Amount} {c : CurrencyId} :
    Names (as ++ bs) c ↔ Names as c ∨ Names bs c := by
  simp [Names, or_and_right, exists_or]

@[simp] theorem names_singleton {a : Amount} {c : CurrencyId} : Names [a] c ↔ a.currency = c := by
  simp [Names]

theorem sumIn_append (as bs : List Amount) (c : CurrencyId) :
    sumIn (as ++ bs) c = sumIn as c + sumIn bs c := by
  induction as with
  | nil => simp [sumIn]
  | cons a as ih => simp only [List.cons_append, sumIn, ih, Int.add_assoc]

@[simp] theorem sumIn_singleton (a : Amount) (c : CurrencyId) :
    sumIn [a] c = if a.currency = c then a.magnitude else 0 := by
  simp [sumIn]

/-- A currency that is not named has no sum. -/
theorem sumIn_eq_zero {amounts : List Amount} {c : CurrencyId} (h : ¬Names amounts c) :
    sumIn amounts c = 0 := by
  induction amounts with
  | nil => rfl
  | cons a rest ih =>
    have hcons : ¬(a.currency = c ∨ Names rest c) := by simpa [Names] using h
    obtain ⟨ha, hrest⟩ := not_or.1 hcons
    rw [sumIn, if_neg ha, ih hrest, Int.add_zero]

theorem sumIn_nonneg {amounts : List Amount} (h : ∀ a ∈ amounts, 0 ≤ a.magnitude)
    (c : CurrencyId) : 0 ≤ sumIn amounts c := by
  induction amounts with
  | nil => exact Int.le_refl 0
  | cons a rest ih =>
    have ha := h a List.mem_cons_self
    have hrest := ih fun b hb => h b (List.mem_cons_of_mem _ hb)
    rw [sumIn]
    split <;> omega

theorem sumIn_pos {amounts : List Amount} (h : ∀ a ∈ amounts, 0 < a.magnitude) {c : CurrencyId}
    (named : Names amounts c) : 0 < sumIn amounts c := by
  induction amounts with
  | nil =>
    obtain ⟨a, ha, -⟩ := named
    cases ha
  | cons a rest ih =>
    obtain ⟨ha, hrest⟩ := List.forall_mem_cons.1 h
    have hsum := sumIn_nonneg (fun b hb => Int.le_of_lt (hrest b hb)) c
    rw [sumIn]
    by_cases hc : a.currency = c
    · rw [if_pos hc]
      omega
    · rw [if_neg hc, Int.zero_add]
      apply ih hrest
      obtain ⟨b, hb, hbc⟩ := named
      rcases List.mem_cons.1 hb with rfl | hb
      · exact absurd hbc hc
      · exact ⟨b, hb, hbc⟩

end Amount

namespace Charge

theorem get?_addTo (sums : Sums) (a : Amount) (c : CurrencyId) :
    (addTo sums a).get? c.text =
      if a.currency = c then
        some ⟨((sums.get? c.text).map Amount.magnitude).getD 0 + a.magnitude, c⟩
      else sums.get? c.text := by
  rw [addTo, KeyedList.get?_insert]
  by_cases h : a.currency = c
  · subst h
    simp
  · rw [if_neg h, if_neg fun ht => h (CurrencyId.text_injective ht)]

/-- Under each currency that is named stands the sum of the amounts in it. -/
theorem get?_sums (amounts : List Amount) (c : CurrencyId) :
    (sums amounts).get? c.text =
      if Amount.Names amounts c then some ⟨Amount.sumIn amounts c, c⟩ else none := by
  induction amounts using List.reverseRecOn with
  | nil =>
    rw [if_neg (by simp [Amount.Names])]
    rfl
  | append_singleton amounts a ih =>
    rw [sums, List.foldl_append, ← sums, List.foldl_cons, List.foldl_nil, get?_addTo, ih,
      Amount.sumIn_append, Amount.sumIn_singleton]
    simp only [Amount.names_append, Amount.names_singleton]
    by_cases ha : a.currency = c <;> by_cases hn : Amount.Names amounts c
    · simp [ha, hn]
    · simp [ha, hn, Amount.sumIn_eq_zero hn]
    · simp [ha, hn]
    · simp [ha, hn]

theorem mem_sums {amounts : List Amount} {s : Amount} :
    s ∈ (sums amounts).toList ↔
      Amount.Names amounts s.currency ∧ s.magnitude = Amount.sumIn amounts s.currency := by
  rw [KeyedList.mem_iff_get?, get?_sums]
  obtain ⟨n, c⟩ := s
  by_cases h : Amount.Names amounts c
  · simp [h, eq_comm]
  · simp [h]

theorem nodup_sums (amounts : List Amount) :
    ((sums amounts).toList.map Amount.currency).Nodup := by
  refine List.pairwise_map.2 ((sums amounts).sorted.imp fun h e => ?_)
  exact String.lt_irrefl _ (e ▸ h)

variable {store : Store} {height : Height} {threshold : Threshold}

theorem ofSum_eq_ok (keyed : store.IsKeyed) {sum : Amount} {charge : Charge}
    (h : ofSum (store.context height threshold) sum = .ok charge) :
    ∃ d, store.design? sum.currency = some d ∧ d.policy.fee.fee sum.magnitude = .ok charge.fee ∧
      charge.currency = sum.currency ∧ charge.amount = sum.magnitude ∧
      charge.receiver = d.policy.fee.receiver? ∧
      ∀ a, charge.receiver = some a → (store.account? a).isSome := by
  simp only [ofSum, bind_eq_ok, mapError_eq_ok, Context.design_eq_ok keyed] at h
  obtain ⟨d, hd, fee, hfee, h⟩ := h
  cases hr : d.policy.fee.receiver? with
  | none =>
    rw [hr] at h
    cases h
    exact ⟨d, hd, hfee, rfl, rfl, hr.symm, fun a ha => by cases ha⟩
  | some receiver =>
    simp only [hr, bind_eq_ok, Context.requireAccount_eq_ok keyed] at h
    obtain ⟨_, hreceiver, h⟩ := h
    cases h
    exact ⟨d, hd, hfee, rfl, rfl, hr.symm, fun a ha => Option.some.inj ha ▸ hreceiver⟩

theorem currencies_eq (keyed : store.IsKeyed) {sums : List Amount} {charges : List Charge}
    (h : List.Forall₂ (fun s charge => ofSum (store.context height threshold) s = .ok charge) sums
      charges) : charges.map Charge.currency = sums.map Amount.currency := by
  induction h with
  | nil => rfl
  | cons hs _ ih =>
    obtain ⟨_, -, -, hc, -⟩ := ofSum_eq_ok keyed hs
    rw [List.map_cons, List.map_cons, hc, ih]

/-- The balance that a sender has for a charge. -/
def covered? (store : Store) (sender : Address) (c : Charge) : Option (CurrencyId × Int) :=
  if (store.balance? sender c.currency).isNone ∧ c.required = 0 then none
  else some (c.currency, store.balance sender c.currency)

theorem covered?_eq_some {sender : Address} {c : Charge} {entry : CurrencyId × Int}
    (h : covered? store sender c = some entry) :
    entry = (c.currency, store.balance sender c.currency) := by
  unfold covered? at h
  split at h <;> cases h
  rfl

theorem cover_eq_ok (keyed : store.IsKeyed) {sender : Address} {c : Charge}
    {entry : Option (CurrencyId × Int)} :
    cover (store.context height threshold) sender c = .ok entry ↔
      c.required ≤ store.balance sender c.currency ∧ entry = covered? store sender c := by
  rw [cover, Context.balance?_eq keyed, bind_eq_ok]
  simp only [Except.ok.injEq, exists_eq_left', covered?, Store.balance]
  by_cases h : (store.balance? sender c.currency).isNone ∧ c.required = 0
  · rw [if_pos h, if_pos h, pure_eq_ok, Option.isNone_iff_eq_none.1 h.1, h.2]
    simp [eq_comm]
  · rw [if_neg h, if_neg h]
    split
    · next hlt => simp [reject, Int.not_le.2 hlt]
    · next hle =>
      rw [pure_eq_ok]
      simp [Int.not_lt.1 hle, eq_comm]

/-- The sender's balances cover the charges. -/
theorem coverAll_eq_ok (keyed : store.IsKeyed) {sender : Address} {charges : List Charge}
    {balances : List (CurrencyId × Int)} :
    coverAll (store.context height threshold) sender charges = .ok balances ↔
      (∀ c ∈ charges, c.required ≤ store.balance sender c.currency) ∧
        balances = charges.filterMap (covered? store sender) := by
  simp only [coverAll, bind_eq_ok, pure_eq_ok, mapM_eq_ok_iff, cover_eq_ok keyed]
  constructor
  · rintro ⟨entries, hall, rfl⟩
    induction hall with
    | nil => simp
    | @cons c entry charges entries h _ ih =>
      obtain ⟨hle, rfl⟩ := h
      refine ⟨List.forall_mem_cons.2 ⟨hle, ih.1⟩, ?_⟩
      cases hc : covered? store sender c with
      | none => rw [List.filterMap_cons_none hc, List.filterMap_cons_none (f := id) rfl, ih.2]
      | some entry =>
        rw [List.filterMap_cons_some hc, List.filterMap_cons_some (f := id) rfl, ih.2]
  · rintro ⟨hle, rfl⟩
    refine ⟨charges.map (covered? store sender), ?_, by simp [List.filterMap_map]⟩
    rw [List.forall₂_map_right_iff]
    exact List.forall₂_same.2 fun c hc => ⟨hle c hc, rfl⟩

/-- Where no currency comes twice, the balance for a charge is found by its currency. -/
theorem find?_covered {sender : Address} {charges : List Charge}
    (distinct : (charges.map Charge.currency).Nodup) {charge : Charge} (h : charge ∈ charges) :
    (charges.filterMap (covered? store sender)).find? (fun entry => entry.1 = charge.currency) =
      covered? store sender charge := by
  induction charges with
  | nil => cases h
  | cons c rest ih =>
    obtain ⟨hc, hrest⟩ := List.nodup_cons.1 distinct
    rcases List.mem_cons.1 h with rfl | h
    · cases he : covered? store sender charge with
      | some entry => simp [he, covered?_eq_some he]
      | none =>
        rw [List.filterMap_cons_none he, List.find?_eq_none]
        intro entry hentry
        obtain ⟨c', hc', he'⟩ := List.mem_filterMap.1 hentry
        rw [covered?_eq_some he']
        simpa using fun e => hc (List.mem_map.2 ⟨c', hc', e⟩)
    · have hne : c.currency ≠ charge.currency := fun e => hc (List.mem_map.2 ⟨charge, h, e.symm⟩)
      cases he : covered? store sender c with
      | none => rw [List.filterMap_cons_none he, ih hrest h]
      | some entry =>
        rw [List.filterMap_cons_some he, List.find?_cons_of_neg, ih hrest h]
        simpa [covered?_eq_some he] using hne

theorem due?_eq_some {c : Charge} {a : Address} {fee : Int} :
    c.due? = some (a, fee) ↔ 0 < c.fee ∧ c.receiver = some a ∧ fee = c.fee := by
  unfold due?
  split
  · next h =>
    cases c.receiver <;> simp [h, eq_comm]
  · next h => simp [h]

end Charge

namespace Store

/-- Who collects the fees in a currency. -/
def feeReceiver? (store : Store) (c : CurrencyId) : Option Address :=
  (store.design? c).bind fun d => d.policy.fee.receiver?

/-- The fee on the amounts in a currency. There is none in a currency that they do not name. -/
def feeOn (store : Store) (amounts : List Amount) (c : CurrencyId) : Int :=
  if Amount.Names amounts c then
    ((store.design? c).bind fun d => (d.policy.fee.fee (Amount.sumIn amounts c)).toOption).getD 0
  else 0

theorem feeOn_of_not_named {store : Store} {amounts : List Amount} {c : CurrencyId}
    (h : ¬Amount.Names amounts c) : store.feeOn amounts c = 0 :=
  if_neg h

/-- Where nobody collects fees there are none. -/
theorem feeOn_eq_zero {store : Store} {c : CurrencyId} (h : store.feeReceiver? c = none)
    (amounts : List Amount) : store.feeOn amounts c = 0 := by
  unfold feeOn
  split
  · cases hd : store.design? c with
    | none => rfl
    | some d =>
      rw [feeReceiver?, hd, Option.bind_some] at h
      rw [Option.bind_some]
      cases hfee : d.policy.fee.fee (Amount.sumIn amounts c) with
      | error e => rfl
      | ok fee => exact FeePolicy.fee_eq_zero hfee h
  · rfl

end Store

/-- The charges that a sender of the amounts has to cover. -/
structure IsBill (store : Store) (amounts : List Amount) (charges : List Charge) : Prop where
  distinct : (charges.map Charge.currency).Nodup
  named : ∀ c, (∃ charge ∈ charges, charge.currency = c) ↔ Amount.Names amounts c
  amount : ∀ charge ∈ charges, charge.amount = Amount.sumIn amounts charge.currency
  design : ∀ charge ∈ charges, ∃ d, store.design? charge.currency = some d ∧
    d.policy.fee.fee charge.amount = .ok charge.fee ∧ charge.receiver = d.policy.fee.receiver?
  receiver : ∀ charge ∈ charges, ∀ a, charge.receiver = some a → (store.account? a).isSome

theorem isBill_of_ofAmounts {store : Store} {height : Height} {threshold : Threshold}
    (keyed : store.IsKeyed) {amounts : List Amount} {charges : List Charge}
    (h : Charge.ofAmounts (store.context height threshold) amounts = .ok charges) :
    IsBill store amounts charges := by
  have each : ∀ charge ∈ charges, ∃ s ∈ (Charge.sums amounts).toList,
      Charge.ofSum (store.context height threshold) s = .ok charge :=
    fun _ => exists_left (mapM_eq_ok_iff.1 h)
  have currencies := Charge.currencies_eq keyed (mapM_eq_ok_iff.1 h)
  refine ⟨currencies ▸ Charge.nodup_sums amounts, fun c => ?_, ?_, ?_, ?_⟩
  · rw [← List.mem_map, currencies, List.mem_map]
    constructor
    · rintro ⟨s, hs, rfl⟩
      exact (Charge.mem_sums.1 hs).1
    · intro hn
      exact ⟨⟨Amount.sumIn amounts c, c⟩, Charge.mem_sums.2 ⟨hn, rfl⟩, rfl⟩
  · intro charge hcharge
    obtain ⟨s, hs, hok⟩ := each charge hcharge
    obtain ⟨_, -, -, hc, ha, -⟩ := Charge.ofSum_eq_ok keyed hok
    rw [ha, hc, (Charge.mem_sums.1 hs).2]
  · intro charge hcharge
    obtain ⟨s, -, hok⟩ := each charge hcharge
    obtain ⟨d, hd, hfee, hc, ha, hr, -⟩ := Charge.ofSum_eq_ok keyed hok
    exact ⟨d, hc ▸ hd, ha ▸ hfee, hr⟩
  · intro charge hcharge
    obtain ⟨s, -, hok⟩ := each charge hcharge
    obtain ⟨_, -, -, -, -, -, hreceiver⟩ := Charge.ofSum_eq_ok keyed hok
    exact hreceiver

namespace IsBill

variable {store : Store} {amounts : List Amount} {charges : List Charge} {charge : Charge}
variable (bill : IsBill store amounts charges)
include bill

theorem eq_of_currency (h : charge ∈ charges) {other : Charge} (ho : other ∈ charges)
    (he : other.currency = charge.currency) : other = charge :=
  List.inj_on_of_nodup_map bill.distinct ho h he

theorem find?_currency (h : charge ∈ charges) :
    (charges.find? fun c => c.currency = charge.currency) = some charge := by
  cases hf : charges.find? fun c => c.currency = charge.currency with
  | none => simpa using List.find?_eq_none.1 hf charge h
  | some other =>
    rw [bill.eq_of_currency h (List.mem_of_find?_eq_some hf) (by simpa using List.find?_some hf)]

theorem fee_eq (h : charge ∈ charges) : charge.fee = store.feeOn amounts charge.currency := by
  obtain ⟨d, hd, hfee, -⟩ := bill.design charge h
  rw [Store.feeOn, if_pos ((bill.named _).1 ⟨charge, h, rfl⟩), hd, ← bill.amount charge h]
  simp [hfee, Except.toOption]

theorem receiver_eq (h : charge ∈ charges) :
    charge.receiver = store.feeReceiver? charge.currency := by
  obtain ⟨d, hd, -, hr⟩ := bill.design charge h
  simp [Store.feeReceiver?, hd, hr]

theorem fee_nonneg (valid : store.HasValidDesigns) (h : charge ∈ charges) : 0 ≤ charge.fee := by
  obtain ⟨d, hd, hfee, -⟩ := bill.design charge h
  exact FeePolicy.fee_nonneg (CurrencyDesign.fee_check (valid _ _ hd)) hfee

theorem design_isSome (h : charge ∈ charges) : (store.design? charge.currency).isSome := by
  obtain ⟨d, hd, -⟩ := bill.design charge h
  rw [hd]
  rfl

/-- A currency that is named is there. -/
theorem design_of_named {c : CurrencyId} (named : Amount.Names amounts c) :
    (store.design? c).isSome := by
  obtain ⟨charge, hc, rfl⟩ := (bill.named c).2 named
  exact bill.design_isSome hc

theorem fee_eq_zero (h : charge ∈ charges) (hr : charge.receiver = none) : charge.fee = 0 := by
  obtain ⟨d, -, hfee, hd⟩ := bill.design charge h
  exact FeePolicy.fee_eq_zero hfee (hd.symm.trans hr)

end IsBill

end CurrencyLedger
