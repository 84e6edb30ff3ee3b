import CurrencyLedger.Proofs.Ledger.Total
import CurrencyLedger.Proofs.Processing.Amendment
import CurrencyLedger.Proofs.Processing.Ownership

/-!
The supply of a currency when it is registered. A design is recorded as the fact has it, and its
amount is all there is of the currency then; whether the total that the design records is this
amount is up to the fact, since the check of a design asks only that it is not negative.
-/

namespace CurrencyLedger

open Traversal

/-- The designs that an intent registers. -/
def Intent.designs : Intent → List CurrencyDesign
  | .currencyRegister design => [design]
  | .genesisCurrencies _ _ designs => designs
  | _ => []

/-- Nobody has a balance in the currency, and no record holds one. -/
structure Store.HasNone (store : Store) (c : CurrencyId) : Prop where
  unrecorded : ∀ a, store.balance? a c = none
  unheld : ∀ r ∈ store.toList, ∀ n, r.payload ≠ .balance ⟨n, c⟩

namespace Store.HasNone

variable {store : Store} {c : CurrencyId} (free : store.HasNone c)
include free

theorem balance_eq_zero (a : Address) : store.balance a c = 0 := by
  rw [balance, free.unrecorded]
  rfl

theorem moneyAt_eq_zero (key : String) : store.moneyAt key c = 0 := by
  rw [moneyAt, payload?]
  cases hr : store.get? key with
  | none => rfl
  | some r =>
    have hmem : r ∈ store.toList := List.mem_of_find?_eq_some hr
    change r.payload.money c = 0
    unfold Payload.money
    split
    · next amount hamount =>
      apply if_neg
      rintro rfl
      exact free.unheld r hmem amount.magnitude hamount
    · rfl

theorem total_eq_zero : store.total c = 0 := by
  have hkeys : ∀ r ∈ store.toList, r.key ∈ (store.toList.map Record.key).toFinset :=
    fun r hr => List.mem_toFinset.2 (List.mem_map_of_mem hr)
  rw [total_eq_sum hkeys]
  exact Finset.sum_eq_zero fun key _ => free.moneyAt_eq_zero key

end Store.HasNone

/-- What an account has of a currency that has just been registered. -/
def CurrencyDesign.startOf (d : CurrencyDesign) (a : Address) : Int :=
  if a = d.genesisAccount then d.amount.magnitude else 0

namespace CurrencyRegister

/-- The changes for a design whose currency nobody has yet. -/
def registered (d : CurrencyDesign) : List Change :=
  [.design d, .balance d.genesisAccount d.amount, .balance (.zero d.currency) ⟨0, d.currency⟩,
    .account (.zero d.currency)]

theorem mem_registered {d : CurrencyDesign} {w : Change} : w ∈ registered d ↔
    w = .design d ∨ w = .balance d.genesisAccount d.amount ∨
      w = .balance (.zero d.currency) ⟨0, d.currency⟩ ∨ w = .account (.zero d.currency) := by
  simp [registered]

theorem register_eq_registered {store : Store} {height : Height} {threshold : Threshold}
    {d : CurrencyDesign} {changes : List Change} (free : store.HasNone d.currency)
    (h : register (store.context height threshold) d = .ok changes) : changes = registered d := by
  obtain ⟨current, hcurrent, h⟩ := bind_eq_ok.1 h
  cases h
  rw [Context.balance_of_balance hcurrent, free.balance_eq_zero, Int.zero_add]
  rfl

theorem genesisAccount_ne_zero {d : CurrencyDesign} (valid : d.check = .ok ()) :
    d.genesisAccount ≠ .zero d.currency := by
  intro hzero
  obtain ⟨-, -, howned, -⟩ := CurrencyDesign.check_eq_ok.1 valid
  rw [hzero, Address.isZero_zero] at howned
  cases howned

end CurrencyRegister

/-- The changes of a registration: accounts, and those for the designs. -/
structure Registers (designs : List CurrencyDesign) (changes : List Change) : Prop where
  only : ∀ w ∈ changes, (∃ acc, w = .account acc) ∨
    ∃ d ∈ designs, w ∈ CurrencyRegister.registered d
  all : ∀ d ∈ designs, ∀ w ∈ CurrencyRegister.registered d, w ∈ changes
  distinct : (designs.map CurrencyDesign.currency).Nodup
  owned : ∀ d ∈ designs, d.genesisAccount ≠ .zero d.currency

theorem registers_of_admits {store : Store} {height : Height} {threshold : Threshold}
    {op : Operation} {changes : List Change}
    (kind : op.kind = .currencyRegister ∨ op.kind = .genesisCurrencies)
    (free : ∀ d ∈ op.fact.intent.designs, store.HasNone d.currency)
    (h : (store.context height threshold).Admits op changes) :
    Registers op.fact.intent.designs changes := by
  have hfact := (Fact.check_eq_ok.1 h.fact).2
  have heffects := h.effects
  unfold Rules.effects at heffects
  rw [Operation.kind, Fact.kind] at kind heffects
  cases hintent : op.fact.intent <;> rw [hintent] at kind free hfact heffects
  case currencyRegister d =>
    rw [CurrencyRegister.register_eq_registered (free d List.mem_cons_self) heffects]
    have honly : ∀ d' ∈ Intent.designs (.currencyRegister d), d' = d := fun d' hd' =>
      List.mem_singleton.1 hd'
    refine ⟨fun w hw => .inr ⟨d, List.mem_cons_self, hw⟩, fun d' hd' w hw => ?_,
      List.nodup_singleton _, fun d' hd' => ?_⟩
    · rwa [honly d' hd'] at hw
    · rw [honly d' hd']
      exact CurrencyRegister.genesisAccount_ne_zero hfact
  case genesisCurrencies nodeKey keys designs =>
    obtain ⟨hdistinct, hvalid⟩ := Intent.check_genesisCurrencies hfact
    obtain ⟨registered, hregistered, h⟩ := bind_eq_ok.1 heffects
    cases h
    rw [eq_map_of_mapM hregistered fun d hd _ =>
      CurrencyRegister.register_eq_registered (free d hd)]
    refine ⟨fun w hw => ?_, fun d hd w hw => ?_, hdistinct, fun d hd => ?_⟩
    · rcases List.mem_cons.1 hw with rfl | hw
      · exact .inl ⟨_, rfl⟩
      · exact .inr (List.mem_flatMap.1 hw)
    · exact List.mem_cons_of_mem _ (List.mem_flatMap.2 ⟨d, hd, hw⟩)
    · exact CurrencyRegister.genesisAccount_ne_zero (hvalid d hd).1
  all_goals rcases kind with kind | kind <;> cases kind

namespace Registers

variable {designs : List CurrencyDesign} {changes : List Change}
variable (registers : Registers designs changes)
include registers

theorem replaces {w : Change} (hw : w ∈ changes) : w.strategy = .replace := by
  rcases registers.only w hw with ⟨acc, rfl⟩ | ⟨d, -, hw⟩
  · rfl
  · rcases CurrencyRegister.mem_registered.1 hw with rfl | rfl | rfl | rfl <;> rfl

section design

variable {d : CurrencyDesign} (hd : d ∈ designs) {w : Change} (hw : w ∈ changes)
include hd hw

/-- A change is one for the design, or has nothing to do with its currency. -/
theorem mem_registered_or : w ∈ CurrencyRegister.registered d ∨
    (∀ a, ¬w.IsFor (.balance a d.currency)) ∧ ¬w.IsFor (.design d.currency) ∧
      w.payload.money d.currency = 0 := by
  rcases registers.only w hw with ⟨acc, rfl⟩ | ⟨d', hd', hw'⟩
  · exact .inr ⟨by simp, by simp, rfl⟩
  · by_cases hc : d'.currency = d.currency
    · obtain rfl : d' = d := List.inj_on_of_nodup_map registers.distinct hd' hd hc
      exact .inl hw'
    · right
      have hamount : d'.amount.currency ≠ d.currency := hc
      rcases CurrencyRegister.mem_registered.1 hw' with rfl | rfl | rfl | rfl
      · exact ⟨by simp, by simpa using hc, rfl⟩
      · exact ⟨by simp [hamount], by simp, if_neg hamount⟩
      · exact ⟨by simp [hc], by simp, if_neg hc⟩
      · exact ⟨by simp, by simp, rfl⟩

theorem eq_design (hfor : w.IsFor (.design d.currency)) : w = .design d := by
  rcases registers.mem_registered_or hd hw with hmem | ⟨-, hnot, -⟩
  · rcases CurrencyRegister.mem_registered.1 hmem with rfl | rfl | rfl | rfl
    · rfl
    · cases Change.isFor_balance.1 hfor
    · cases Change.isFor_balance.1 hfor
    · cases Change.isFor_account.1 hfor
  · exact absurd hfor hnot

theorem eq_balance {a : Address} (hfor : w.IsFor (.balance a d.currency)) :
    w = .balance a ⟨d.startOf a, d.currency⟩ := by
  rcases registers.mem_registered_or hd hw with hmem | ⟨hnot, -, -⟩
  · rcases CurrencyRegister.mem_registered.1 hmem with rfl | rfl | rfl | rfl
    · cases Change.isFor_design.1 hfor
    · obtain ⟨rfl, -⟩ := Place.balance.inj (Change.isFor_balance.1 hfor)
      rw [CurrencyDesign.startOf, if_pos rfl]
      rfl
    · obtain ⟨rfl, -⟩ := Place.balance.inj (Change.isFor_balance.1 hfor)
      rw [CurrencyDesign.startOf, if_neg (registers.owned d hd).symm]
    · cases Change.isFor_account.1 hfor
  · exact absurd hfor (hnot a)

/-- Only the balance of the genesis account holds something of the currency. -/
theorem money_eq_zero (hkey : w.key ≠ RecordKey.balance d.genesisAccount d.currency) :
    w.payload.money d.currency = 0 := by
  rcases registers.mem_registered_or hd hw with hmem | ⟨-, -, hzero⟩
  · rcases CurrencyRegister.mem_registered.1 hmem with rfl | rfl | rfl | rfl
    · rfl
    · exact absurd rfl hkey
    · exact if_pos rfl
    · rfl
  · exact hzero

end design

section commit

variable {store store' : Store} {height : Height} {digest : Digest} {records : List Record}
variable (h : store.commit height [(digest, changes)] = .ok (records, store'))
  {d : CurrencyDesign} (hd : d ∈ designs)
include h hd

theorem design?_commit : store'.design? d.currency = some d := by
  rw [Store.design?_eq_some]
  apply Store.at?_commit_of_written h
  · intro w hw hfor
    rw [registers.eq_design hd (Store.mem_writes_singleton.1 hw).2 hfor]
    exact ⟨rfl, rfl⟩
  · have hmem : Change.design d ∈ changes :=
      registers.all d hd _ (CurrencyRegister.mem_registered.2 (.inl rfl))
    exact ⟨(digest, .design d), Store.mem_writes_singleton.2 ⟨rfl, hmem⟩, Change.isFor_design.2 rfl⟩

omit h in
theorem exists_endowment (digest : Digest) : ∃ w ∈ Store.writes [(digest, changes)],
    w.2.IsFor (.balance d.genesisAccount d.currency) := by
  have hmem : Change.balance d.genesisAccount d.amount ∈ changes :=
    registers.all d hd _ (CurrencyRegister.mem_registered.2 (.inr (.inl rfl)))
  exact ⟨(digest, .balance d.genesisAccount d.amount),
    Store.mem_writes_singleton.2 ⟨rfl, hmem⟩, Change.isFor_balance.2 rfl⟩

variable (free : store.HasNone d.currency)
include free

theorem balance_commit (a : Address) : store'.balance a d.currency = d.startOf a := by
  have hgrown : store'.balance a d.currency = store.balance a d.currency + d.startOf a := by
    apply Store.balance_commit_of_gain h
    · intro w hw hfor
      rw [free.balance_eq_zero, Int.zero_add]
      exact registers.eq_balance hd (Store.mem_writes_singleton.1 hw).2 hfor
    · intro hstart
      have ha : a = d.genesisAccount := by
        by_contra hne
        exact hstart (if_neg hne)
      rw [ha]
      exact registers.exists_endowment hd digest
  rw [hgrown, free.balance_eq_zero, Int.zero_add]

/-- No other record holds anything of the currency. -/
theorem moneyAt_commit {key : String} (hkey : key ≠ RecordKey.balance d.genesisAccount d.currency) :
    store'.moneyAt key d.currency = 0 := by
  rcases Store.payload?_commit_cases h fun w hw (_ : w.2.key = key) =>
      registers.replaces (Store.mem_writes_singleton.1 hw).2 with
    ⟨w, hw, rfl, hpayload⟩ | ⟨-, hsame⟩
  · rw [Store.moneyAt, hpayload]
    exact registers.money_eq_zero hd (Store.mem_writes_singleton.1 hw).2 hkey
  · rw [Store.moneyAt, hsame]
    exact free.moneyAt_eq_zero key

theorem total_commit : store'.total d.currency = d.amount.magnitude := by
  let place := Place.balance d.genesisAccount d.currency
  have hat : store'.at? place = some (.balance ⟨d.startOf d.genesisAccount, d.currency⟩) := by
    apply Store.at?_commit_of_written h
    · intro w hw hfor
      rw [registers.eq_balance hd (Store.mem_writes_singleton.1 hw).2 hfor]
      exact ⟨rfl, rfl⟩
    · exact registers.exists_endowment hd digest
  have hmoney : store'.moneyAt place.key d.currency = d.amount.magnitude := by
    rw [Store.moneyAt, ← Store.at?, hat]
    simp [Payload.money, CurrencyDesign.startOf]
  have hother : ∀ key ∉ ({place.key} : Finset String),
      store'.moneyAt key d.currency = store.moneyAt key d.currency := by
    intro key hkey
    rw [free.moneyAt_eq_zero]
    apply registers.moneyAt_commit h hd free
    exact fun he => hkey (Finset.mem_singleton.2 he)
  have hsub := Store.total_sub hother
  rw [Finset.sum_singleton, hmoney, free.moneyAt_eq_zero, free.total_eq_zero] at hsub
  omega

end commit

end Registers

/-- One registration that a processor accepts, of one currency or of the first ones. Every design is
recorded as it stands in the fact, its amount is all there is of the currency, and the genesis
account has it; so the total that the design records is right if and only if the fact gives the
design that total. -/
theorem commit_of_registration {store : Store} {height : Height} {threshold : Threshold}
    {processor : Processor}
    (bound : processor.contextFor .process = .ok (store.context height threshold)) {op : Operation}
    (kind : op.kind = .currencyRegister ∨ op.kind = .genesisCurrencies)
    (free : ∀ d ∈ op.fact.intent.designs, store.HasNone d.currency) {changes : List Change}
    (accepted : (processor.process op).1 = .ok changes) (height' : Height) (digest : Digest) :
    ∃ records store', store.commit height' [(digest, changes)] = .ok (records, store') ∧
      ∀ d ∈ op.fact.intent.designs, store'.design? d.currency = some d ∧
        store'.total d.currency = d.amount.magnitude ∧
        (∀ a, store'.balance a d.currency =
          if a = d.genesisAccount then d.amount.magnitude else 0) ∧
        (d.aggregate = store'.total d.currency ↔
          d = .initial d.amount d.genesisAccount d.policy) := by
  obtain ⟨ctx, hctx, -, hadmits⟩ := Processor.process_eq_ok.1 accepted
  obtain rfl : store.context height threshold = ctx := Except.ok.inj (bound.symm.trans hctx)
  have registers := registers_of_admits kind free hadmits
  obtain ⟨records, store', h⟩ := @Store.exists_commit_of_replace store height' [(digest, changes)]
    fun w hw => registers.replaces (Store.mem_writes_singleton.1 hw).2
  refine ⟨records, store', h, fun d hd => ?_⟩
  have htotal := registers.total_commit h hd (free d hd)
  refine ⟨registers.design?_commit h hd, htotal, registers.balance_commit h hd (free d hd), ?_⟩
  rw [htotal]
  constructor
  · intro haggregate
    rw [CurrencyDesign.initial, ← haggregate]
  · intro hinitial
    rw [hinitial]
    rfl

theorem Store.hasNone_empty (c : CurrencyId) : Store.HasNone .empty c :=
  ⟨fun _ => rfl, fun _ hr => by cases hr⟩

namespace Sample

def copper : CurrencyId := ⟨"CPR", by decide +kernel, by decide +kernel⟩

/-- A design that is in order, but records less than there is. -/
def understated : CurrencyDesign :=
  ⟨⟨500, copper⟩, .ofKeySet keys, ⟨1, .nil⟩, 7⟩

/-- The first account and two currencies, one of them understated. -/
def founding : Operation :=
  ⟨.ofBytes [], ⟨[1], .genesisCurrencies key keys
    [.initial ⟨1000, currency⟩ (.ofKeySet keys) ⟨1, .nil⟩, understated]⟩, [⟨key, [], none⟩]⟩

theorem exists_founding : ∃ changes,
    ((Processor.start .genesisCurrencies (Store.context .empty .genesis .standard)).process
      founding).1 = .ok changes := by
  apply exists_of_isOk
  decide +kernel

end Sample

theorem commit_of_registration_founding : ∃ changes records store',
    Store.commit .empty .genesis [(.ofBytes [], changes)] = .ok (records, store') ∧
    store'.total Sample.currency = 1000 ∧
    store'.balance (.ofKeySet Sample.keys) Sample.currency = 1000 := by
  obtain ⟨changes, hchanges⟩ := Sample.exists_founding
  obtain ⟨records, store', hcommit, hdesigns⟩ := commit_of_registration rfl (.inr rfl)
    (fun d _ => Store.hasNone_empty d.currency) hchanges .genesis (.ofBytes [])
  obtain ⟨-, htotal, hbalance, -⟩ := hdesigns _ List.mem_cons_self
  exact ⟨changes, records, store', hcommit, htotal, (hbalance _).trans (if_pos rfl)⟩

/-- An operation is accepted whose currency starts with seven on record and five hundred in all. -/
theorem aggregate_ne_total_of_founding : ∃ changes records store',
    ((Processor.start .genesisCurrencies (Store.context .empty .genesis .standard)).process
      Sample.founding).1 = .ok changes ∧
    Store.commit .empty .genesis [(.ofBytes [], changes)] = .ok (records, store') ∧
    store'.design? Sample.copper = some Sample.understated ∧
    Sample.understated.aggregate = 7 ∧ store'.total Sample.copper = 500 := by
  obtain ⟨changes, hchanges⟩ := Sample.exists_founding
  obtain ⟨ctx, hctx, -, hadmits⟩ := Processor.process_eq_ok.1 hchanges
  cases hctx
  have registers :=
    registers_of_admits (.inr rfl) (fun d _ => Store.hasNone_empty d.currency) hadmits
  obtain ⟨records, store', h⟩ := @Store.exists_commit_of_replace .empty .genesis
    [(.ofBytes [], changes)] fun w hw => registers.replaces (Store.mem_writes_singleton.1 hw).2
  have hmem : Sample.understated ∈ Sample.founding.fact.intent.designs :=
    List.mem_cons_of_mem _ List.mem_cons_self
  exact ⟨changes, records, store', hchanges, h, registers.design?_commit h hmem, rfl,
    registers.total_commit h hmem (Store.hasNone_empty _)⟩

end CurrencyLedger
