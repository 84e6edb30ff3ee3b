import CurrencyLedger.Proofs.Ledger.View
import Mathlib.Data.Finset.Card

/-!
The members of the suffrage as a finite set of addresses. Changes of it are unions and differences,
and where nobody both joins and leaves their order does not matter: after a commit the members are
those who joined and those who were there and did not leave (`Store.addresses_commit`).
-/

namespace CurrencyLedger

namespace Members

def addresses (members : Members) : Finset Address :=
  (members.toList.map (·.address)).toFinset

theorem mem_addresses {members : Members} {a : Address} :
    a ∈ members.addresses ↔ (members.get? a.text).isSome = true := by
  rw [addresses, List.mem_toFinset, List.mem_map, Option.isSome_iff_exists]
  constructor
  · rintro ⟨m, hm, rfl⟩
    exact ⟨m, KeyedList.get?_of_mem hm⟩
  · rintro ⟨m, hm⟩
    have htext := KeyedList.key_of_get? hm
    exact ⟨m, List.mem_of_find?_eq_some hm, Address.text_injective htext⟩

/-- No member is listed twice. -/
theorem nodup_addresses (members : Members) : (members.toList.map (·.address)).Nodup := by
  apply List.Pairwise.map _ _ members.sorted
  intro m m' hlt heq
  rw [heq] at hlt
  exact String.lt_irrefl _ hlt

theorem card_addresses (members : Members) : members.addresses.card = members.size := by
  rw [addresses, List.toFinset_card_of_nodup members.nodup_addresses, List.length_map]
  rfl

theorem addresses_insert (members : Members) (m : Member) :
    addresses (members.insert m) = insert m.address members.addresses := by
  ext a
  rw [mem_addresses, KeyedList.get?_insert, Finset.mem_insert, mem_addresses]
  by_cases ha : a = m.address
  · simp [ha]
  · have htext : m.address.text ≠ a.text := fun h => ha (Address.text_injective h).symm
    simp [ha, htext]

theorem addresses_erase (members : Members) (m : Member) :
    addresses (members.erase m.address.text) = members.addresses.erase m.address := by
  ext a
  rw [mem_addresses, KeyedList.get?_erase, Finset.mem_erase, mem_addresses]
  by_cases ha : a = m.address
  · simp [ha]
  · have htext : a.text ≠ m.address.text := fun h => ha (Address.text_injective h)
    simp [ha, htext]

theorem addresses_applySet_insert (base delta : Members) :
    addresses (Merger.applySet true base delta) = base.addresses ∪ delta.addresses := by
  unfold Merger.applySet addresses
  generalize delta.toList = added
  induction added generalizing base with
  | nil => simp
  | cons m rest ih =>
    rw [List.foldl_cons, ih]
    change addresses (base.insert m) ∪ _ = addresses base ∪ _
    rw [addresses_insert, List.map_cons, List.toFinset_cons, Finset.insert_union,
      Finset.union_insert]

theorem addresses_applySet_remove (base delta : Members) :
    addresses (Merger.applySet false base delta) = base.addresses \ delta.addresses := by
  unfold Merger.applySet addresses
  generalize delta.toList = removed
  induction removed generalizing base with
  | nil => simp
  | cons m rest ih =>
    rw [List.foldl_cons, ih]
    change addresses (base.erase m.address.text) \ _ = addresses base \ _
    rw [addresses_erase, List.map_cons, List.toFinset_cons, Finset.sdiff_insert,
      Finset.erase_sdiff_comm]

end Members

namespace Change

/-- Whom a change moves by a strategy: into the suffrage by insertion, out of it by removal. -/
def moves (c : Change) (s : Strategy) : Finset Address :=
  match c.payload with
  | .members delta => if c.strategy = s then Members.addresses delta else ∅
  | _ => ∅

theorem mem_moves_member {m : Member} {s s' : Strategy} {a : Address} :
    a ∈ (member m s).moves s' ↔ s = s' ∧ a = m.address := by
  change a ∈ (if s = s' then ({m.address} : Finset Address) else ∅) ↔ _
  by_cases hs : s = s' <;> simp [hs]

/-- What a change makes of the members. -/
theorem next?_members {c : Change} (set : c.strategy ≠ .replace) {base : Members} {next : Payload}
    (h : c.next? (some (.members base)) = some next) :
    ∃ members, next = .members members ∧
      members.addresses = (base.addresses \ c.moves .remove) ∪ c.moves .insert := by
  obtain ⟨key, payload, strategy⟩ := c
  cases strategy with
  | replace => exact absurd rfl set
  | insert =>
    cases payload with
    | members delta =>
      cases h
      refine ⟨_, rfl, (Members.addresses_applySet_insert base delta).trans ?_⟩
      simp [moves]
    | _ => cases h
  | remove =>
    cases payload with
    | members delta =>
      cases h
      refine ⟨_, rfl, (Members.addresses_applySet_remove base delta).trans ?_⟩
      simp [moves]
    | _ => cases h

end Change

/-- The members after changes of them, by which nobody both joins and leaves. -/
theorem Merger.members_mergeAll {m m' : Merger} {writes : List (Digest × Change)}
    (h : m.mergeAll writes = .ok m') {base : Members} (start : m.current = some (.members base))
    (sets : ∀ w ∈ writes, w.2.strategy ≠ .replace)
    (apart : ∀ a, (∃ w ∈ writes, a ∈ w.2.moves .insert) →
      ¬∃ w ∈ writes, a ∈ w.2.moves .remove) :
    ∃ members, m'.current = some (.members members) ∧
      ∀ a, a ∈ members.addresses ↔
        (∃ w ∈ writes, a ∈ w.2.moves .insert) ∨
          a ∈ base.addresses ∧ ¬∃ w ∈ writes, a ∈ w.2.moves .remove := by
  induction writes generalizing m base with
  | nil =>
    obtain rfl := mergeAll_nil.1 h
    exact ⟨base, start, by simp⟩
  | cons w rest ih =>
    obtain ⟨middle, hm, h⟩ := mergeAll_cons.1 h
    obtain ⟨-, -, -, p, hp, hpayload⟩ := merge_eq_ok hm
    rw [start] at hp
    obtain ⟨next, rfl, hnext⟩ := Change.next?_members (sets w List.mem_cons_self) hp
    obtain ⟨members, hmembers, hmem⟩ := ih h (current_of_payload hpayload)
      (fun w hw => sets w (List.mem_cons_of_mem _ hw))
      fun a ⟨w, hw, ha⟩ ⟨w', hw', hleft⟩ => apart a ⟨w, List.mem_cons_of_mem _ hw, ha⟩
        ⟨w', List.mem_cons_of_mem _ hw', hleft⟩
    refine ⟨members, hmembers, fun a => ?_⟩
    rw [hmem, hnext, Finset.mem_union, Finset.mem_sdiff]
    simp only [List.mem_cons, exists_eq_or_imp, not_or]
    by_cases ha : a ∈ w.2.moves .insert
    · have hstays : ¬∃ w' ∈ rest, a ∈ w'.2.moves .remove := fun ⟨w', hw', hleft⟩ =>
        apart a ⟨w, List.mem_cons_self, ha⟩ ⟨w', List.mem_cons_of_mem _ hw', hleft⟩
      simp only [ha, hstays, or_true, true_and, true_or, not_false_eq_true]
    · simp only [ha, or_false, false_or, and_assoc]

namespace Change.Regular

variable {c : Change} (regular : c.Regular)
include regular

theorem strategy_ne (hfor : c.IsFor .suffrage) : c.strategy ≠ .replace := by
  cases regular with
  | balance | account | design => simp at hfor
  | member m set => exact set
  | candidate m set => exact set

/-- Members come and go by changes of the suffrage only. -/
theorem isFor_suffrage {a : Address} {s : Strategy} (h : a ∈ c.moves s) :
    c.IsFor .suffrage := by
  cases regular with
  | member m set => exact isFor_member.2 rfl
  | _ => exact absurd h (Finset.notMem_empty a)

theorem not_isFor_networkPolicy : ¬c.IsFor .networkPolicy := by
  cases regular <;> simp

end Change.Regular

/-- After a commit the members are those who joined, and those who were there and did not leave. -/
theorem Store.addresses_commit {store store' : Store} {height : Height} {accepted : Accepted}
    {records : List Record} (h : store.commit height accepted = .ok (records, store'))
    (regular : ∀ w ∈ writes accepted, w.2.Regular) {members : Members}
    (hmembers : store.at? .suffrage = some (.members members)) {moved : Strategy → Finset Address}
    (hmoved : ∀ s a, a ∈ moved s ↔ ∃ w ∈ writes accepted, a ∈ w.2.moves s)
    (apart : Disjoint (moved .insert) (moved .remove)) :
    ∃ members', store'.at? .suffrage = some (.members members') ∧
      members'.addresses = (members.addresses \ moved .remove) ∪ moved .insert := by
  obtain ⟨m, hm, hcurrent⟩ := payload?_eq_current h (Place.key .suffrage)
  have hmoves : ∀ s a, (∃ w ∈ writesTo accepted (Place.key .suffrage), a ∈ w.2.moves s) ↔
      a ∈ moved s := by
    intro s a
    rw [hmoved]
    constructor
    · rintro ⟨w, hw, ha⟩
      exact ⟨w, (mem_writesTo_key.1 hw).1, ha⟩
    · rintro ⟨w, hw, ha⟩
      exact ⟨w, mem_writesTo_key.2 ⟨hw, (regular w hw).isFor_suffrage ha⟩, ha⟩
  have sets : ∀ w ∈ writesTo accepted (Place.key .suffrage), w.2.strategy ≠ .replace := by
    intro w hw
    obtain ⟨hw, hfor⟩ := mem_writesTo_key.1 hw
    exact (regular w hw).strategy_ne hfor
  obtain ⟨members', hmembers', hmem⟩ := Merger.members_mergeAll hm hmembers sets
    fun a joins leaves =>
      Finset.disjoint_left.1 apart ((hmoves _ a).1 joins) ((hmoves _ a).1 leaves)
  refine ⟨members', hcurrent.trans hmembers', ?_⟩
  ext a
  rw [hmem, hmoves, hmoves, Finset.mem_union, Finset.mem_sdiff, or_comm]

/-- How many members there are when some join who were not there, and some leave who were. -/
theorem Members.size_add_card {before after : Members} {joined left : Finset Address}
    (fresh : Disjoint before.addresses joined) (there : left ⊆ before.addresses)
    (h : after.addresses = (before.addresses \ left) ∪ joined) :
    after.size + left.card = before.size + joined.card := by
  rw [← card_addresses, ← card_addresses, h,
    Finset.card_union_of_disjoint (fresh.mono_left Finset.sdiff_subset),
    Finset.card_sdiff_of_subset there]
  have hle := Finset.card_le_card there
  omega

end CurrencyLedger
