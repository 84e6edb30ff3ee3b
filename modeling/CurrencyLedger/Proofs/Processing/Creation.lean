import CurrencyLedger.Proofs.Processing.Distinctness
import CurrencyLedger.Proofs.Processing.Replay
import CurrencyLedger.Proofs.Processing.Sequence

/-!
Accounts and currencies come once and stay what they are. Against earlier batches it is the records
that see to it, within a batch the claims: every account or design that an intent makes is claimed
by an address, a currency by its zero account (`Intent.exists_claim_of_created`). `Store.Grows` is
what a batch, and then a run, adds to a ledger.
-/

namespace CurrencyLedger

open Traversal

namespace Place

/-- Accounts and designs are never taken away. -/
def isLasting : Place → Bool
  | .account _ | .design _ => true
  | _ => false

/-- The address that has to be claimed for a place. -/
def claimed? : Place → Option Address
  | .account a => some a
  | .design c => some (.zero c)
  | _ => none

end Place

/-- What is recorded of a new currency: its design and its zero account. -/
def CurrencyDesign.origin (d : CurrencyDesign) : List Place :=
  [.design d.currency, .account (.zero d.currency)]

namespace Intent

/-- The places where an intent makes an account or a currency. -/
def created : Intent → List Place
  | .createAccounts _ items =>
    (items.filterMap NewAccount.account?).map fun acc => .account acc.address
  | .currencyRegister design => design.origin
  | .genesisCurrencies _ keys designs =>
    .account (.ofKeySet keys) :: designs.flatMap CurrencyDesign.origin
  | _ => []

variable {intent : Intent} {place : Place}

theorem mem_created_createAccounts {sender : Address} {items : List NewAccount} :
    place ∈ (createAccounts sender items).created ↔
      ∃ item ∈ items, ∃ a, item.address = .ok a ∧ place = .account a := by
  simp only [created, List.mem_map, List.mem_filterMap]
  constructor
  · rintro ⟨acc, ⟨item, hitem, hacc⟩, rfl⟩
    exact ⟨item, hitem, _, (NewAccount.account?_eq_some.1 hacc).1, rfl⟩
  · rintro ⟨item, hitem, a, ha, rfl⟩
    exact ⟨⟨a, some item.keys⟩, ⟨item, hitem, NewAccount.account?_eq_some.2 ⟨ha, rfl⟩⟩, rfl⟩

theorem mem_created_genesisCurrencies {nodeKey : PublicKey} {keys : KeySet}
    {designs : List CurrencyDesign} :
    place ∈ (genesisCurrencies nodeKey keys designs).created ↔
      place = .account (.ofKeySet keys) ∨ ∃ d ∈ designs, place ∈ d.origin := by
  rw [created, List.mem_cons, List.mem_flatMap]

theorem isLasting_of_created (h : place ∈ intent.created) : place.isLasting = true := by
  cases intent
  case createAccounts =>
    obtain ⟨item, -, a, -, rfl⟩ := mem_created_createAccounts.1 h
    rfl
  case currencyRegister design =>
    simp only [created, CurrencyDesign.origin, List.mem_cons, List.not_mem_nil, or_false] at h
    rcases h with rfl | rfl <;> rfl
  case genesisCurrencies =>
    rcases mem_created_genesisCurrencies.1 h with rfl | ⟨d, -, h⟩
    · rfl
    · simp only [CurrencyDesign.origin, List.mem_cons, List.not_mem_nil, or_false] at h
      rcases h with rfl | rfl <;> rfl
  all_goals cases h

/-- An intent in order makes nothing twice. -/
theorem nodup_created (h : intent.check = .ok ()) : intent.created.Nodup := by
  cases intent
  case createAccounts sender items =>
    have hdistinct : ((items.filterMap NewAccount.account?).map Account.address).Nodup :=
      nodup_accounts h
    rw [created, ← Function.comp_def, ← List.map_map]
    exact hdistinct.map fun a b => Place.account.inj
  case currencyRegister design => simp [created, CurrencyDesign.origin]
  case genesisCurrencies nodeKey keys designs =>
    obtain ⟨hdistinct, -⟩ := check_genesisCurrencies h
    rw [created, List.nodup_cons, List.nodup_flatMap]
    refine ⟨?_, ?_, ?_⟩
    · intro hmem
      obtain ⟨d, -, hd⟩ := List.mem_flatMap.1 hmem
      have hzero : Address.ofKeySet keys = .zero d.currency := by
        simpa [CurrencyDesign.origin] using hd
      have hnot := Address.isZero_ofKeySet keys
      rw [hzero, Address.isZero_zero] at hnot
      cases hnot
    · intro d _
      simp [CurrencyDesign.origin]
    · apply (List.pairwise_map.1 hdistinct).imp
      intro d d' hne
      have hzero : Address.zero d'.currency ≠ .zero d.currency := fun h =>
        hne (Address.zero_injective h).symm
      simp [Function.onFun, CurrencyDesign.origin, hne.symm, hzero]
  all_goals exact List.nodup_nil

end Intent

/-- Whatever an operation makes it claims by an address, under the strict rule or not. -/
theorem Intent.exists_claim_of_created {t : Terms} {op : Operation}
    (h : op.fact.intent.check = .ok ()) {place : Place} (hp : place ∈ op.fact.intent.created) :
    ∃ a, place.claimed? = some a ∧ .address a ∈ t.claims op := by
  unfold Terms.claims
  generalize op.fact.intent = intent at h hp
  cases intent
  case createAccounts sender items =>
    obtain ⟨targets, hitems, -⟩ := check_createAccounts h
    have htargets : Intent.targets items = .ok targets :=
      mapM_eq_ok_iff.2 (hitems.imp fun _ _ hitem => hitem.1)
    obtain ⟨item, hitem, a, ha, rfl⟩ := mem_created_createAccounts.1 hp
    obtain ⟨target, htarget, ha', -⟩ := exists_right hitems hitem
    obtain rfl : a = target := Except.ok.inj (ha.symm.trans ha')
    refine ⟨a, rfl, ?_⟩
    simp only [Claims.ofIntent, htargets]
    exact List.mem_append_left _ (List.mem_append_left _ (List.mem_map_of_mem htarget))
  case currencyRegister design =>
    simp only [created, CurrencyDesign.origin, List.mem_cons, List.not_mem_nil, or_false] at hp
    refine ⟨.zero design.currency, ?_, ?_⟩
    · rcases hp with rfl | rfl <;> rfl
    · simp [Claims.ofIntent, Claims.toList]
  case genesisCurrencies nodeKey keys designs =>
    rcases mem_created_genesisCurrencies.1 hp with rfl | ⟨d, hd, hp⟩
    · refine ⟨.ofKeySet keys, rfl, ?_⟩
      simp [Claims.ofIntent, Claims.toList]
    · simp only [CurrencyDesign.origin, List.mem_cons, List.not_mem_nil, or_false] at hp
      refine ⟨.zero d.currency, ?_, ?_⟩
      · rcases hp with rfl | rfl <;> rfl
      · simp only [Claims.ofIntent, Claims.toList, List.mem_append, List.mem_map]
        exact .inl (.inl ⟨_, List.mem_cons_of_mem _ (List.mem_map_of_mem hd), rfl⟩)
  all_goals cases hp

/-- Operations that claim nothing in common make nothing in common. -/
theorem Intent.disjoint_created {t : Terms} {op op' : Operation}
    (h : op.fact.intent.check = .ok ()) (h' : op'.fact.intent.check = .ok ())
    (disjoint : (t.claims op).Disjoint (t.claims op')) :
    op.fact.intent.created.Disjoint op'.fact.intent.created := by
  intro place hp hp'
  obtain ⟨a, ha, hclaim⟩ := exists_claim_of_created h hp
  obtain ⟨a', ha', hclaim'⟩ := exists_claim_of_created h' hp'
  obtain rfl : a = a' := Option.some.inj (ha.symm.trans ha')
  exact disjoint hclaim hclaim'

section admits

variable {store : Store} {height : Height} {threshold : Threshold} {op : Operation}
  {changes : List Change} {place : Place}

theorem CurrencyRegister.fresh_of_checkDesign {created : Option Address} {d : CurrencyDesign}
    (h : checkDesign (store.context height threshold) created d = .ok ()) (hp : place ∈ d.origin) :
    store.at? place = none := by
  have hdesign := at?_of_checkDesign h
  simp only [CurrencyDesign.origin, List.mem_cons, List.not_mem_nil, or_false] at hp
  rcases hp with rfl | rfl
  · exact hdesign
  · obtain ⟨found, -, h⟩ := bind_eq_ok.1 h
    refine @Context.at?_of_requireNoAccount _ height threshold _ ?_
    split at h
    · cases h
    · dsimp only at h
      split at h
      · split at h
        · exact h
        · obtain ⟨_, -, h⟩ := bind_eq_ok.1 h
          exact h
      · exact h

theorem GenesisCurrencies.checkDesign_of_check {ctx : Context} {nodeKey : PublicKey}
    {keys : KeySet} {designs : List CurrencyDesign}
    (h : check ctx op nodeKey keys designs = .ok ()) {d : CurrencyDesign} (hd : d ∈ designs) :
    CurrencyRegister.checkDesign ctx (some (.ofKeySet keys)) d = .ok () := by
  unfold check at h
  split at h
  · cases h
  · split at h
    · cases h
    · obtain ⟨_, -, hdesigns⟩ := bind_eq_ok.1 h
      exact Check.forEach_eq_ok_iff.1 hdesigns d hd

theorem CurrencyRegister.exists_isFor_of_register {ctx : Context} {d : CurrencyDesign}
    {registered : List Change} (h : register ctx d = .ok registered) (hp : place ∈ d.origin) :
    ∃ w ∈ registered, w.IsFor place := by
  apply exists_left (forall₂_isFor h)
  simp only [CurrencyDesign.origin, List.mem_cons, List.not_mem_nil, or_false] at hp
  rcases hp with rfl | rfl <;> simp [places]

/-- What an operation makes was not there, and is written. -/
theorem Context.Admits.of_created (h : (store.context height threshold).Admits op changes)
    (hp : place ∈ op.fact.intent.created) :
    store.at? place = none ∧ ∃ w ∈ changes, w.IsFor place := by
  have does := h.does
  generalize op.fact.intent = intent at hp does
  cases does with
  | createAccounts check effects =>
    obtain ⟨item, hitem, a, ha, rfl⟩ := Intent.mem_created_createAccounts.1 hp
    refine ⟨CreateAccounts.fresh_of_check check hitem ha, ?_⟩
    simp only [CreateAccounts.effects, bind_eq_ok, pure_eq_ok] at effects
    obtain ⟨charges, -, balances, -, created, hcreated, settled, -, rfl⟩ := effects
    refine ⟨.account ⟨a, some item.keys⟩, List.mem_append_left _ ?_, Change.isFor_account.2 rfl⟩
    apply (CreateAccounts.mem_created hcreated).2
    exact .inl ⟨item, hitem, _, NewAccount.account?_eq_some.2 ⟨ha, rfl⟩, rfl⟩
  | currencyRegister check effects =>
    obtain ⟨_, hdesign, -⟩ := bind_eq_ok.1 check
    exact ⟨CurrencyRegister.fresh_of_checkDesign hdesign hp,
      CurrencyRegister.exists_isFor_of_register effects hp⟩
  | @genesisCurrencies _ keys designs check effects =>
    obtain ⟨-, hfresh, -⟩ := GenesisCurrencies.first_of_check check
    obtain ⟨registered, hregistered, heffects⟩ := bind_eq_ok.1 effects
    cases heffects
    rcases Intent.mem_created_genesisCurrencies.1 hp with rfl | ⟨d, hd, hp⟩
    · exact ⟨hfresh, _, List.mem_cons_self, Change.isFor_account.2 rfl⟩
    · obtain ⟨cs, hcs, hregister⟩ := exists_right (mapM_eq_ok_iff.1 hregistered) hd
      obtain ⟨w, hw, hfor⟩ := CurrencyRegister.exists_isFor_of_register hregister hp
      refine ⟨?_, w, List.mem_cons_of_mem _ (List.mem_flatten.2 ⟨cs, hcs, hw⟩), hfor⟩
      exact CurrencyRegister.fresh_of_checkDesign (GenesisCurrencies.checkDesign_of_check check hd)
        hp
  | _ => cases hp

theorem Context.account?_of_signedAccount {a : Address} {acc : Account}
    (h : (store.context height threshold).signedAccount a op = .ok acc) :
    store.account? a = some acc := by
  obtain ⟨found, hfound, h⟩ := bind_eq_ok.1 h
  cases found with
  | none => cases h
  | some acc' =>
    dsimp only at h
    split at h
    · cases h
    · obtain ⟨_, -, h⟩ := bind_eq_ok.1 h
      cases h
      apply Store.account?_eq_some.2
      exact at?_of_find_some hfound fun _ => Record.account_eq_ok.1

theorem CurrencyRegister.mem_origin_of_register {ctx : Context} {d : CurrencyDesign}
    {registered : List Change} (h : register ctx d = .ok registered) {w : Change}
    (hw : w ∈ registered) (hfor : w.IsFor place) (lasting : place.isLasting = true) :
    place ∈ d.origin := by
  obtain ⟨place', hplace, hfor'⟩ := exists_right (forall₂_isFor h) hw
  obtain rfl : place = place' := Place.key_injective (hfor.symm.trans hfor')
  simp only [places, List.mem_cons, List.not_mem_nil, or_false] at hplace
  rcases hplace with rfl | rfl | rfl | rfl
  · simp [CurrencyDesign.origin]
  · cases lasting
  · cases lasting
  · simp [CurrencyDesign.origin]

/-- A settlement writes no account. -/
theorem Settlement.not_isFor_account {ctx : Context} {sender a : Address}
    {balances : List (CurrencyId × Int)} {charges : List Charge} {credits : List Credit}
    {settled : List Change} (h : Settlement.changes ctx sender balances charges credits =
      .ok settled) {w : Change} (hw : w ∈ settled) : ¬w.IsFor (.account a) := by
  intro hfor
  obtain ⟨place, hfor', reaches⟩ := exists_reaches h hw
  obtain rfl : .account a = place := Place.key_injective (hfor.symm.trans hfor')
  cases reaches

variable (matched : store.IsMatched)
include matched

/-- The only account that is written without being made is one that gets new keys. -/
theorem Context.Admits.account_created (h : (store.context height threshold).Admits op changes)
    {w : Change} (hw : w ∈ changes) {a : Address} (hfor : w.IsFor (.account a))
    (fresh : store.at? (.account a) = none) : .account a ∈ op.fact.intent.created := by
  have does := h.does
  generalize op.fact.intent = intent at does
  cases does with
  | createAccounts _ effects =>
    simp only [CreateAccounts.effects, bind_eq_ok, pure_eq_ok] at effects
    obtain ⟨charges, -, balances, -, created, hcreated, settled, hsettled, rfl⟩ := effects
    rcases List.mem_append.1 hw with hw | hw
    · rcases (CreateAccounts.mem_created hcreated).1 hw with
        ⟨item, hitem, acc, hacc, rfl⟩ | ⟨credit, -, rfl⟩
      · obtain rfl := Place.account.inj (Change.isFor_account.1 hfor)
        apply Intent.mem_created_createAccounts.2
        exact ⟨item, hitem, _, (NewAccount.account?_eq_some.1 hacc).1, rfl⟩
      · cases Change.isFor_balance.1 hfor
    · exact absurd hfor (Settlement.not_isFor_account hsettled hw)
  | transfers _ effects =>
    simp only [Transfers.effects, bind_eq_ok] at effects
    obtain ⟨charges, -, balances, -, hsettled⟩ := effects
    exact absurd hfor (Settlement.not_isFor_account hsettled hw)
  | keyUpdater _ effects =>
    simp only [KeyUpdater.effects, bind_eq_ok, pure_eq_ok] at effects
    obtain ⟨checked, hchecked, settled, hsettled, rfl⟩ := effects
    rcases List.mem_cons.1 hw with rfl | hw
    · obtain ⟨acc, hacc, hchecked⟩ := bind_eq_ok.1 hchecked
      split at hchecked
      · cases hchecked
      · simp only [bind_eq_ok, pure_eq_ok] at hchecked
        obtain ⟨charges, -, balances, -, rfl⟩ := hchecked
        have hthere := Context.account?_of_signedAccount hacc
        obtain rfl := matched.accounts _ _ hthere
        obtain rfl := Place.account.inj (Change.isFor_account.1 hfor)
        have there : store.at? (.account acc.address) = none := fresh
        rw [Store.account?_eq_some.1 hthere] at there
        cases there
    · exact absurd hfor (Settlement.not_isFor_account hsettled hw)
  | currencyRegister _ effects => exact CurrencyRegister.mem_origin_of_register effects hw hfor rfl
  | currencyPolicyUpdater _ effects =>
    obtain ⟨d, -, heffects⟩ := bind_eq_ok.1 effects
    cases heffects
    rw [List.mem_singleton.1 hw] at hfor
    cases Change.isFor_design.1 hfor
  | mint _ effects =>
    rcases (Mint.mem_effects effects).1 hw with ⟨item, -, hcredit⟩ | ⟨sum, -, hdesign⟩
    · obtain ⟨amount, rfl⟩ := Mint.creditChange_eq_ok hcredit
      cases Change.isFor_balance.1 hfor
    · obtain ⟨d, -, rfl⟩ := Mint.designChange_eq_ok hdesign
      cases Change.isFor_design.1 hfor
  | suffrageCandidate _ effects =>
    obtain ⟨policy, -, heffects⟩ := bind_eq_ok.1 effects
    cases heffects
    rw [List.mem_singleton.1 hw] at hfor
    cases Change.isFor_candidate.1 hfor
  | suffrageJoin _ effects =>
    obtain ⟨c, -, heffects⟩ := bind_eq_ok.1 effects
    cases heffects
    simp only [List.mem_cons, List.not_mem_nil, or_false] at hw
    rcases hw with rfl | rfl
    · cases Change.isFor_member.1 hfor
    · cases Change.isFor_candidate.1 hfor
  | suffrageDisjoin _ effects =>
    obtain ⟨m, -, heffects⟩ := bind_eq_ok.1 effects
    cases heffects
    rw [List.mem_singleton.1 hw] at hfor
    cases Change.isFor_member.1 hfor
  | genesisCurrencies _ effects =>
    obtain ⟨registered, hregistered, heffects⟩ := bind_eq_ok.1 effects
    cases heffects
    apply Intent.mem_created_genesisCurrencies.2
    rcases List.mem_cons.1 hw with rfl | hw
    · exact .inl (Change.isFor_account.1 hfor).symm
    · obtain ⟨cs, hcs, hw⟩ := List.mem_flatten.1 hw
      obtain ⟨d, hd, hregister⟩ := (mem_mapM hregistered).1 hcs
      exact .inr ⟨d, hd, CurrencyRegister.mem_origin_of_register hregister hw hfor rfl⟩

/-- So is the only design one whose policy or aggregate changes. -/
theorem Amends.design_created {w : Change} (amends : Amends store height op w) {c : CurrencyId}
    (hfor : w.IsFor (.design c)) (fresh : store.at? (.design c) = none) :
    .design c ∈ op.fact.intent.created := by
  have there : ∀ {c' : CurrencyId} {d : CurrencyDesign}, store.design? c' = some d →
      d.currency ≠ c := by
    rintro c' d hd rfl
    obtain rfl := matched.designs _ _ hd
    rw [Store.design?_eq_some.1 hd] at fresh
    cases fresh
  cases amends with
  | issue found => exact (there found (Place.design.inj (Change.isFor_design.1 hfor))).elim
  | policy _ found => exact (there found (Place.design.inj (Change.isFor_design.1 hfor))).elim
  | register intent =>
    rw [intent, ← Change.isFor_design.1 hfor]
    exact List.mem_cons_self
  | genesis intent _ listed =>
    rw [intent, ← Change.isFor_design.1 hfor]
    exact Intent.mem_created_genesisCurrencies.2 (.inr ⟨_, listed, List.mem_cons_self⟩)
  | _ => simp at hfor

/-- A design that is there is written with its amount and its genesis account. -/
theorem Amends.design_retained {w : Change} (amends : Amends store height op w) {c : CurrencyId}
    (hfor : w.IsFor (.design c)) {old : CurrencyDesign} (hd : store.design? c = some old) :
    ∃ new, w.payload = .design new ∧ new.amount = old.amount ∧
      new.genesisAccount = old.genesisAccount := by
  have same : ∀ {c' : CurrencyId} {d : CurrencyDesign}, store.design? c' = some d →
      d.currency = c → d = old := by
    rintro c' d hd' rfl
    obtain rfl := matched.designs _ _ hd'
    exact Option.some.inj (hd'.symm.trans hd)
  have there : store.at? (.design c) ≠ none := by
    rw [Store.design?_eq_some.1 hd]
    exact Option.some_ne_none _
  cases amends with
  | issue found =>
    obtain rfl := same found (Place.design.inj (Change.isFor_design.1 hfor))
    exact ⟨_, rfl, rfl, rfl⟩
  | policy _ found =>
    obtain rfl := same found (Place.design.inj (Change.isFor_design.1 hfor))
    exact ⟨_, rfl, rfl, rfl⟩
  | register _ fresh =>
    rw [← Change.isFor_design.1 hfor] at there
    exact absurd fresh there
  | genesis _ _ _ fresh =>
    rw [← Change.isFor_design.1 hfor] at there
    exact absurd fresh there
  | _ => simp at hfor

/-- What an operation makes is what it writes where nothing stands. -/
theorem Context.Admits.mem_created_iff (h : (store.context height threshold).Admits op changes)
    (lasting : place.isLasting = true) :
    place ∈ op.fact.intent.created ↔
      store.at? place = none ∧ ∃ w ∈ changes, w.IsFor place := by
  refine ⟨h.of_created, ?_⟩
  rintro ⟨fresh, w, hw, hfor⟩
  cases place with
  | account a => exact h.account_created matched hw hfor fresh
  | design c => exact (amends_of_admits h hw).design_created matched hfor fresh
  | _ => cases lasting

end admits

namespace Store

/-- Accounts and designs stay, with what makes them up. -/
structure Retains (store store' : Store) : Prop where
  accounts : ∀ a acc, store.account? a = some acc →
    ∃ acc', store'.account? a = some acc' ∧ acc'.address = acc.address
  designs : ∀ c d, store.design? c = some d →
    ∃ d', store'.design? c = some d' ∧ d'.currency = d.currency ∧ d'.amount = d.amount ∧
      d'.genesisAccount = d.genesisAccount

/-- A ledger comes from another with accounts and designs at new places, and no other new ones. No
place is named twice. -/
structure Grows (store : Store) (places : List Place) (store' : Store) : Prop where
  distinct : places.Nodup
  lasting : ∀ place ∈ places, place.isLasting = true
  fresh : ∀ place ∈ places, store.at? place = none
  there : ∀ place : Place, place.isLasting = true →
    ((store'.at? place).isSome ↔ (store.at? place).isSome ∨ place ∈ places)

variable {store middle store' : Store} {places later : List Place}

theorem Retains.refl (store : Store) : store.Retains store :=
  ⟨fun _ acc h => ⟨acc, h, rfl⟩, fun _ d h => ⟨d, h, rfl, rfl, rfl⟩⟩

theorem Retains.trans (h : store.Retains middle) (h' : middle.Retains store') :
    store.Retains store' := by
  constructor
  case accounts =>
    intro a acc hacc
    obtain ⟨acc', hacc', ha⟩ := h.accounts a acc hacc
    obtain ⟨acc'', hacc'', ha'⟩ := h'.accounts a acc' hacc'
    exact ⟨acc'', hacc'', ha'.trans ha⟩
  case designs =>
    intro c d hd
    obtain ⟨d', hd', hc, ha, hg⟩ := h.designs c d hd
    obtain ⟨d'', hd'', hc', ha', hg'⟩ := h'.designs c d' hd'
    exact ⟨d'', hd'', hc'.trans hc, ha'.trans ha, hg'.trans hg⟩

theorem Grows.refl (store : Store) : store.Grows [] store :=
  ⟨List.nodup_nil, by simp, by simp, by simp⟩

/-- What is made later is not there yet, so it has not been made before. -/
theorem Grows.trans (h : store.Grows places middle) (h' : middle.Grows later store') :
    store.Grows (places ++ later) store' := by
  have absent : ∀ place ∈ later, ¬((store.at? place).isSome ∨ place ∈ places) := by
    intro place hp there
    have hsome := (h.there place (h'.lasting place hp)).2 there
    rw [h'.fresh place hp] at hsome
    cases hsome
  constructor
  case distinct =>
    apply h.distinct.append h'.distinct
    intro place hp hp'
    exact absent place hp' (.inr hp)
  case lasting =>
    intro place hp
    exact (List.mem_append.1 hp).elim (h.lasting place) (h'.lasting place)
  case fresh =>
    intro place hp
    rcases List.mem_append.1 hp with hp | hp
    · exact h.fresh place hp
    · simpa using fun hsome => absent place hp (.inl hsome)
  case there =>
    intro place lasting
    rw [h'.there place lasting, h.there place lasting, List.mem_append, or_assoc]

end Store

namespace Dispatcher

variable {config : EngineConfig} {d : Dispatcher} {ops : List Operation} {store store' : Store}

/-- A dispatcher accepts the operations that a walk accepts. -/
theorem IsOrderly.acceptedOperations_eq (orderly : d.IsOrderly) {outcomes : List Outcome}
    {held : Finset Claim} (walks : d.terms.Walks d.claims.held ops outcomes held) :
    d.acceptedOperations ops = BatchResult.acceptedOf ops outcomes := by
  generalize hterms : d.terms = t at walks
  generalize htaken : d.claims.held = taken at walks
  induction walks generalizing d with
  | nil => rfl
  | @accepted _ _ op rest changes outcomes judged _ ih =>
    have hruns := orderly.runs op
    rw [hterms, htaken, judged] at hruns
    unfold acceptedOperations
    generalize d.run op = ran at hruns
    cases hruns with
    | @accepted _ pool claims filed held =>
      have orderly' : IsOrderly { d with pool := pool, claims := claims } := ⟨orderly.own, filed⟩
      have hrest := ih orderly' hterms (held.trans (by rw [htaken, hterms]))
      exact congrArg (op :: ·) hrest
  | @rejected _ _ op rest reason outcomes judged _ ih =>
    have hruns := orderly.runs op
    rw [hterms, htaken, judged] at hruns
    unfold acceptedOperations
    generalize d.run op = ran at hruns
    cases hruns with
    | @rejected _ pool filed =>
      have orderly' : IsOrderly { d with pool := pool } := ⟨orderly.own, filed⟩
      exact ih orderly' hterms htaken

/-- No two accepted operations of a batch claim the same. -/
theorem Advances.pairwise_disjoint (h : d.Advances config ops store store') :
    (d.acceptedOperations ops).Pairwise
      fun op op' => (d.terms.claims op).Disjoint (d.terms.claims op') := by
  have orderly := h.reachable.isReady.isOrderly
  obtain ⟨result, d', _, _, hbatch, -⟩ := h.commits
  have hresult := (orderly.batchFrom_eq .empty ops).result
  rw [show batchFrom .empty d ops = (.ok result, d') from hbatch] at hresult
  obtain ⟨⟨outcomes, held⟩, hwalk, -⟩ := map_eq_ok.1 hresult.symm
  have walks := Terms.walk_eq_ok.1 hwalk
  rw [orderly.acceptedOperations_eq walks]
  exact walks.pairwise_disjoint

theorem Advances.admits (h : d.Advances config ops store store') {op : Operation}
    (hop : op ∈ d.acceptedOperations ops) :
    ∃ changes, d.context.Admits op changes ∧
      (store.context d.context.height d.context.threshold).Admits op changes := by
  obtain ⟨accepted, accounts⟩ := h.exists_accounts
  obtain ⟨-, changes, hadmits, -⟩ := accounts.admits op hop
  exact ⟨changes, context_eq h.reads ▸ hadmits, hadmits⟩

theorem Advances.distinct_created (h : d.Advances config ops store store') :
    ((d.acceptedOperations ops).flatMap fun op => op.fact.intent.created).Nodup := by
  have checked : ∀ op ∈ d.acceptedOperations ops, op.fact.intent.check = .ok () := by
    intro op hop
    obtain ⟨changes, admits, -⟩ := h.admits hop
    exact (Fact.check_eq_ok.1 admits.fact).2
  apply List.nodup_flatMap.2
  refine ⟨fun op hop => Intent.nodup_created (checked op hop), ?_⟩
  apply h.pairwise_disjoint.imp_of_mem
  intro op op' hop hop' disjoint
  exact Intent.disjoint_created (checked op hop) (checked op' hop') disjoint

/-- A lasting place holds after a batch what some change writes there, or what it held before. -/
theorem Accounts.lasting_cases {accepted : Store.Accepted}
    (accounts : d.Accounts config ops store store' accepted) (place : Place)
    (lasting : place.isLasting = true) :
    (∃ w ∈ Store.writes accepted, w.2.IsFor place ∧ store'.at? place = some w.2.payload) ∨
      store'.at? place = store.at? place := by
  obtain ⟨height, records, hcommit⟩ := accounts.commits
  have replace : ∀ w ∈ Store.writes accepted, w.2.IsFor place → w.2.strategy = .replace := by
    intro w hw hfor
    refine (accounts.regular w hw).strategy hfor ?_ ?_
    · rintro rfl
      cases lasting
    · rintro rfl
      cases lasting
  exact (Store.at?_commit_cases hcommit replace).imp_right And.right

theorem Advances.isMatched (matched : store.IsMatched) (h : d.Advances config ops store store') :
    store'.IsMatched := by
  obtain ⟨accepted, accounts⟩ := h.exists_accounts
  constructor
  case accounts =>
    intro a acc hacc
    rw [Store.account?_eq_some] at hacc
    rcases accounts.lasting_cases (.account a) rfl with ⟨w, hw, hfor, hat⟩ | hsame
    · have hfits := (accounts.regular w hw).fits hfor
      rw [Option.some.inj (hat.symm.trans hacc)] at hfits
      exact hfits
    · exact matched.accounts a acc (Store.account?_eq_some.2 (hsame ▸ hacc))
  case designs =>
    intro c design hdesign
    rw [Store.design?_eq_some] at hdesign
    rcases accounts.lasting_cases (.design c) rfl with ⟨w, hw, hfor, hat⟩ | hsame
    · have hfits := (accounts.regular w hw).fits hfor
      rw [Option.some.inj (hat.symm.trans hdesign)] at hfits
      exact hfits
    · exact matched.designs c design (Store.design?_eq_some.2 (hsame ▸ hdesign))

section step

variable (matched : store.IsMatched) (h : d.Advances config ops store store')
include matched h

theorem Advances.retains : store.Retains store' := by
  obtain ⟨accepted, accounts⟩ := h.exists_accounts
  have matched' := h.isMatched matched
  constructor
  case accounts =>
    intro a acc hacc
    obtain ⟨height, records, hcommit⟩ := accounts.commits
    rcases accounts.lasting_cases (.account a) rfl with ⟨w, hw, hfor, hat⟩ | hsame
    · obtain ⟨acc', hpayload, ha⟩ :=
        Payload.fits_account.1 ((accounts.regular w hw).fits hfor)
      rw [hpayload, ← Store.account?_eq_some] at hat
      exact ⟨acc', hat, ha.trans (matched.accounts a acc hacc).symm⟩
    · exact ⟨acc, Store.account?_eq_some.2 (hsame.trans (Store.account?_eq_some.1 hacc)), rfl⟩
  case designs =>
    intro c old hd
    rcases accounts.lasting_cases (.design c) rfl with ⟨w, hw, hfor, hat⟩ | hsame
    · obtain ⟨op, -, -, amends⟩ := accounts.amends w hw
      obtain ⟨new, hpayload, hamount, hgenesis⟩ := amends.design_retained matched hfor hd
      rw [hpayload, ← Store.design?_eq_some] at hat
      have hcurrency := (matched'.designs c new hat).trans (matched.designs c old hd).symm
      exact ⟨new, hat, hcurrency, hamount, hgenesis⟩
    · exact ⟨old, Store.design?_eq_some.2 (hsame.trans (Store.design?_eq_some.1 hd)), rfl, rfl, rfl⟩

/-- A batch adds what its accepted operations make. -/
theorem Advances.grows :
    store.Grows ((d.acceptedOperations ops).flatMap fun op => op.fact.intent.created) store' := by
  obtain ⟨accepted, height, records, made, hcommit⟩ := h.exists_accepted
  have accounts := accounts_of_forall₂ h.reads made hcommit
  constructor
  case distinct => exact h.distinct_created
  case lasting =>
    intro place hp
    obtain ⟨op, -, hp⟩ := List.mem_flatMap.1 hp
    exact Intent.isLasting_of_created hp
  case fresh =>
    intro place hp
    obtain ⟨op, hop, hp⟩ := List.mem_flatMap.1 hp
    obtain ⟨-, changes, admits, -⟩ := accounts.admits op hop
    exact (admits.of_created hp).1
  case there =>
    intro place lasting
    constructor
    · intro hsome
      rcases accounts.lasting_cases place lasting with ⟨w, hw, hfor, -⟩ | hsame
      · obtain ⟨entry, hentry, -, hw⟩ := Store.mem_writes.1 hw
        obtain ⟨op, hop, makes⟩ := exists_left made hentry
        have admits := makes.admits
        rw [context_eq h.reads] at admits
        by_cases fresh : store.at? place = none
        · have hcreated := (admits.mem_created_iff matched lasting).2 ⟨fresh, w.2, hw, hfor⟩
          exact .inr (List.mem_flatMap.2 ⟨op, hop, hcreated⟩)
        · exact .inl (Option.isSome_iff_ne_none.2 fresh)
      · exact .inl (hsame ▸ hsome)
    · rintro (there | hp)
      · exact Store.isSome_at?_commit hcommit there
      · obtain ⟨op, hop, hp⟩ := List.mem_flatMap.1 hp
        obtain ⟨-, changes, admits, written⟩ := accounts.admits op hop
        obtain ⟨w, hw, hfor⟩ := (admits.of_created hp).2
        exact Store.isSome_at?_commit_of_written hcommit (written w hw) hfor

end step

end Dispatcher

/-- The places where the accepted operations of a batch make accounts and currencies. -/
def Batch.created (b : Batch) : List Place :=
  b.accepted.flatMap fun op => op.fact.intent.created

namespace Store

variable {store middle store' : Store} {batches earlier later : List Batch}

theorem Runs.append (h : store.Runs earlier middle) (h' : middle.Runs later store') :
    store.Runs (earlier ++ later) store' := by
  induction h with
  | nil => exact h'
  | cons step _ ih => exact .cons step (ih h')

variable (matched : store.IsMatched) (run : store.Runs batches store')
include matched run

theorem Runs.isMatched : store'.IsMatched := by
  induction run with
  | nil => exact matched
  | cons step _ ih => exact ih (step.isMatched matched)

theorem Runs.retains : store.Retains store' := by
  induction run with
  | nil => exact .refl _
  | cons step _ ih => exact (step.retains matched).trans (ih (step.isMatched matched))

/-- A run adds what its batches make, one after the other. -/
theorem Runs.grows : store.Grows (batches.flatMap Batch.created) store' := by
  induction run with
  | nil => exact .refl _
  | cons step _ ih => exact (step.grows matched).trans (ih (step.isMatched matched))

end Store

/-- Accounts and currencies are made once and stay. In a run of batches from a ledger whose accounts
and designs match their keys, whatever is there at some point is there ever after, at the same
address, and with the same currency, amount and genesis account. What the accepted operations of the
whole run make is made at different places, where nothing was at the start, and nothing else is new
in the end; and what the operations of a batch make is what they write where nothing stands. -/
theorem grows_of_runs {store middle store' : Store} (matched : store.IsMatched)
    {earlier later : List Batch} (before : store.Runs earlier middle)
    (after : middle.Runs later store') :
    middle.Retains store' ∧ store.Grows ((earlier ++ later).flatMap Batch.created) store' ∧
      ∀ b ∈ later.head?, ∀ op ∈ b.accepted, ∃ changes,
        b.dispatcher.context.Admits op changes ∧
          ∀ place : Place, place.isLasting = true → (place ∈ op.fact.intent.created ↔
            middle.at? place = none ∧ ∃ w ∈ changes, w.IsFor place) := by
  have matched' := before.isMatched matched
  refine ⟨after.retains matched', (before.append after).grows matched, ?_⟩
  intro b hb op hop
  cases after with
  | nil => cases hb
  | cons step _ =>
    cases hb
    obtain ⟨changes, admits, admits'⟩ := step.admits hop
    exact ⟨changes, admits, fun place lasting => admits'.mem_created_iff matched' lasting⟩

namespace Sample

/-- A batch whose walk is known, and a commit of what it accepts. -/
theorem advances_of_walks {d : Dispatcher} {config' : EngineConfig}
    (reachable : d.Reachable config') {store : Store} (reads : d.context.read = store.reader)
    {ops : List Operation} {outcomes : List Outcome} {held : Finset Claim}
    (walks : d.terms.Walks d.claims.held ops outcomes held)
    (commits : (store.commit .genesis (BatchResult.ofOutcomes ops outcomes).accepted).isOk = true) :
    d.Advances config' ops store (committed store (BatchResult.ofOutcomes ops outcomes).accepted) ∧
      d.acceptedOperations ops = BatchResult.acceptedOf ops outcomes := by
  have orderly := reachable.isReady.isOrderly
  obtain ⟨records, hcommit⟩ := commit_committed commits
  have hresult := (orderly.batchFrom_eq .empty ops).result
  rw [Terms.walk_eq_ok.2 walks] at hresult
  exact ⟨⟨reachable, reads, _, _, .genesis, records, Prod.ext hresult rfl, hcommit⟩,
    orderly.acceptedOperations_eq walks⟩

/-- Alice opens an account for the keys. -/
def opening : Operation :=
  signed ⟨[1], .createAccounts alice [⟨keys, [⟨10, currency⟩], .native⟩]⟩
    0xa2cacfeee7cbb238bf3e98fb4239f9bacd527217c621d01488bd0037ecf3aa83
    0x1a5fffd0f70c36c2eabe0ece6e98918bbd444de8108330bd432644e17b53ca53
    0x1daaf8651e644e8d9f76088f5ce027d0f34a85c3b3633dac1095c2352dc8a0de

theorem check_opening : opening.check config.networkBytes = .ok () := by
  refine check_signed
    0x5d634ead20bad99ea265047a0ad102e052acaf11a57b7afb54a21b3eb952d050
    (eq_ok_of_toOption ?_) rfl ?_ ?_ ?_
  · decide +kernel
  · decide +kernel
  · decide +kernel
  · decide +kernel

theorem walks_openings : dispatcher.terms.Walks ∅ [opening, opening]
    [.accepted (made dispatcher.context opening), .rejected (.duplicatedAddress (.ofKeySet keys))]
    {.address (.ofKeySet keys)} := by
  have hadmits : dispatcher.context.Admits opening (made dispatcher.context opening) :=
    admits_made (by decide +kernel)
  have hjudge := fun taken => @Terms.judge_fit dispatcher.terms taken opening (by decide)
    check_opening hadmits.check
  have hclaims : dispatcher.terms.claims opening = [.address (.ofKeySet keys)] := rfl
  refine .accepted ?_ (.rejected ?_ ?_)
  · rw [hjudge, hclaims]
    exact hadmits.effects
  · rw [hjudge, hclaims]
    simp [Claim.reason, reject]
  · rw [hclaims]
    exact .nil

/-- A batch with the operation twice. -/
def openings : Batch :=
  ⟨dispatcher, [opening, opening]⟩

def opened : Store :=
  committed ledger [(opening.hash, made dispatcher.context opening)]

theorem runs_openings : ledger.Runs [openings] opened ∧ openings.accepted = [opening] := by
  obtain ⟨h, haccepted⟩ := advances_of_walks reachable_dispatcher rfl walks_openings
    (by decide +kernel)
  exact ⟨.cons h .nil, haccepted⟩

end Sample

/-- An account that two operations of a batch would make is made by the first. -/
theorem grows_of_runs_openings : Sample.ledger.IsMatched ∧
    Sample.ledger.Runs [Sample.openings] Sample.opened ∧
    Sample.openings.created = [.account (.ofKeySet Sample.keys)] ∧
    Sample.ledger.at? (.account (.ofKeySet Sample.keys)) = none ∧
    (Sample.opened.at? (.account (.ofKeySet Sample.keys))).isSome := by
  obtain ⟨run, haccepted⟩ := Sample.runs_openings
  have matched := Sample.isSound_ledger.keyed.isMatched
  have hcreated : Sample.openings.created = [.account (.ofKeySet Sample.keys)] := by
    rw [Batch.created, haccepted]
    rfl
  obtain ⟨-, grows, -⟩ := grows_of_runs matched .nil run
  rw [List.nil_append, List.flatMap_singleton, hcreated] at grows
  refine ⟨matched, run, hcreated, grows.fresh _ List.mem_cons_self, ?_⟩
  exact (grows.there _ rfl).2 (.inr List.mem_cons_self)

end CurrencyLedger
