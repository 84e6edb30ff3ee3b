import CurrencyLedger.Ledger.Key

/-!
The places of a ledger: what the keys of its records stand for. `Place.key_injective` says that two
places never share a key, although an address may itself hold the dash in front of the currency.
-/

namespace CurrencyLedger

inductive Place where
  | account (address : Address)
  | balance (address : Address) (currency : CurrencyId)
  | design (currency : CurrencyId)
  | suffrage
  | candidates
  | networkPolicy
deriving DecidableEq

theorem CurrencyId.mem_isInner {c : CurrencyId} {x : Char} (h : x ∈ c.text.toList) :
    CurrencyId.isInner x = true := by
  have shape := c.shape
  simp only [CurrencyId.hasShape, Bool.and_eq_true, List.all_eq_true] at shape
  exact shape.2 x h

theorem CurrencyId.text_injective {c d : CurrencyId} (h : c.text = d.text) : c = d := by
  cases c
  cases d
  simpa using h

theorem Address.zero_injective {c d : CurrencyId} (h : zero c = zero d) : c = d := by
  have hbody : ∀ e : CurrencyId, (zero e).body.toList = e.text.toList ++ zeroMark :=
    fun e => String.toList_ofList
  have h := congrArg (fun a => a.body.toList) h
  rw [hbody, hbody] at h
  exact CurrencyId.text_injective (String.toList_inj.1 (List.append_cancel_right h))

theorem CurrencyId.head?_isEdge {c : CurrencyId} {x : Char} {rest : List Char}
    (h : c.text.toList = x :: rest) : CurrencyId.isEdge x = true := by
  have shape := c.shape
  rw [h] at shape
  simp only [CurrencyId.hasShape, Bool.and_eq_true] at shape
  simpa using shape.1.1

theorem Address.mem_text {a : Address} {x : Char} (h : x ∈ a.text.toList) :
    Address.isBodyChar x = true := by
  rw [Address.text, String.toList_append, List.mem_append] at h
  rcases h with h | h
  · exact List.all_eq_true.1 a.characters x h
  · have ending : ∀ kind : AddressKind, kind.ending.toList.all Address.isBodyChar = true := by
      intro kind
      cases kind <;> decide
    exact List.all_eq_true.1 (ending a.kind) x h

namespace Place

def key : Place → String
  | account a => RecordKey.account a
  | balance a c => RecordKey.balance a c
  | design c => RecordKey.design c
  | suffrage => RecordKey.suffrage
  | candidates => RecordKey.candidates
  | networkPolicy => RecordKey.networkPolicy

/-- The first mark divides a list in one way. -/
theorem eq_of_append_mark {mark : Char} {s t r u : List Char} (hs : mark ∉ s) (ht : mark ∉ t)
    (h : s ++ mark :: r = t ++ mark :: u) : s = t ∧ r = u := by
  induction s generalizing t with
  | nil =>
    cases t with
    | nil => exact ⟨rfl, (List.cons.inj h).2⟩
    | cons x t => exact absurd ((List.cons.inj h).1 ▸ List.mem_cons_self) ht
  | cons x s ih =>
    cases t with
    | nil => exact absurd ((List.cons.inj h).1 ▸ List.mem_cons_self) hs
    | cons y t =>
      obtain ⟨rfl, tails⟩ := List.cons_eq_cons.1 h
      obtain ⟨rfl, hr⟩ := ih (fun hm => hs (List.mem_cons_of_mem _ hm))
        (fun hm => ht (List.mem_cons_of_mem _ hm)) tails
      exact ⟨rfl, hr⟩

/-- What a key has in front of its colon. -/
def front : Place → String
  | account a => a.text
  | balance a c => a.text ++ "-" ++ c.text
  | design _ => "currencydesign"
  | suffrage => "suffrage"
  | candidates => "suffrage_candidate"
  | networkPolicy => "network_policy"

/-- What a key has from its colon on. -/
def rest : Place → List Char
  | account _ => [':', 'a', 'c', 'c', 'o', 'u', 'n', 't']
  | balance _ _ => [':', 'b', 'a', 'l', 'a', 'n', 'c', 'e']
  | design c => ':' :: c.text.toList
  | _ => []

theorem toList_key (p : Place) : p.key.toList = p.front.toList ++ p.rest := by
  cases p with
  | account a =>
    have ending : RecordKey.accountEnding.toList = [':', 'a', 'c', 'c', 'o', 'u', 'n', 't'] := by
      decide
    rw [key, RecordKey.account, String.toList_append, ending, front, rest]
  | balance a c =>
    have ending : RecordKey.balanceEnding.toList = [':', 'b', 'a', 'l', 'a', 'n', 'c', 'e'] := by
      decide
    rw [key, RecordKey.balance, String.toList_append, ending, front, rest]
  | design c =>
    have start : RecordKey.designStart.toList = "currencydesign".toList ++ [':'] := by
      decide
    rw [key, RecordKey.design, String.toList_append, start, front, rest, List.append_assoc,
      List.singleton_append]
  | suffrage => exact (List.append_nil _).symm
  | candidates => exact (List.append_nil _).symm
  | networkPolicy => exact (List.append_nil _).symm

theorem colon_not_mem_address (a : Address) : ':' ∉ a.text.toList := fun h =>
  absurd (Address.mem_text h) (by decide)

theorem colon_not_mem_currency (c : CurrencyId) : ':' ∉ c.text.toList := fun h =>
  absurd (CurrencyId.mem_isInner h) (by decide)

theorem dash_not_mem_currency (c : CurrencyId) : '-' ∉ c.text.toList := fun h =>
  absurd (CurrencyId.mem_isInner h) (by decide)

theorem toList_balance_front (a : Address) (c : CurrencyId) :
    (balance a c).front.toList = a.text.toList ++ '-' :: c.text.toList := by
  have dash : "-".toList = ['-'] := by decide
  rw [front, String.toList_append, String.toList_append, dash, List.append_assoc,
    List.singleton_append]

theorem colon_not_mem_front (p : Place) : ':' ∉ p.front.toList := by
  cases p with
  | account a => exact colon_not_mem_address a
  | balance a c =>
    rw [toList_balance_front, List.mem_append, List.mem_cons, not_or, not_or]
    exact ⟨colon_not_mem_address a, by decide, colon_not_mem_currency c⟩
  | design c =>
    rw [front]
    decide
  | _ => decide

/-- The part from the colon on is empty or starts with the colon. -/
theorem rest_cases (p : Place) : p.rest = [] ∨ ∃ cs, p.rest = ':' :: cs := by
  cases p with
  | account a => exact .inr ⟨_, rfl⟩
  | balance a c => exact .inr ⟨_, rfl⟩
  | design c => exact .inr ⟨_, rfl⟩
  | _ => exact .inl rfl

theorem parts_eq {p q : Place} (h : p.key = q.key) :
    p.front.toList = q.front.toList ∧ p.rest = q.rest := by
  have h : p.front.toList ++ p.rest = q.front.toList ++ q.rest := by
    rw [← toList_key, ← toList_key, h]
  have hp := colon_not_mem_front p
  have hq := colon_not_mem_front q
  rcases rest_cases p with ep | ⟨cs, ep⟩ <;> rcases rest_cases q with eq | ⟨ds, eq⟩ <;>
    rw [ep, eq] at h ⊢
  · simpa using h
  · rw [List.append_nil] at h
    exact absurd (h ▸ List.mem_append_right _ List.mem_cons_self) hp
  · rw [List.append_nil] at h
    exact absurd (h ▸ List.mem_append_right _ List.mem_cons_self) hq
  · obtain ⟨hf, hr⟩ := eq_of_append_mark hp hq h
    exact ⟨hf, hr ▸ rfl⟩

/-- A currency has no dash, so the last dash of a balance's key ends the address. -/
theorem balance_front {a b : Address} {c d : CurrencyId}
    (h : (balance a c).front.toList = (balance b d).front.toList) : a = b ∧ c = d := by
  have h := congrArg List.reverse h
  simp only [toList_balance_front, List.reverse_append, List.reverse_cons, List.append_assoc,
    List.singleton_append] at h
  obtain ⟨hc, ha⟩ := eq_of_append_mark (fun hm => dash_not_mem_currency c (List.mem_reverse.1 hm))
    (fun hm => dash_not_mem_currency d (List.mem_reverse.1 hm)) h
  exact ⟨Address.text_injective (String.toList_inj.1 (List.reverse_inj.1 ha)),
    CurrencyId.text_injective (String.toList_inj.1 (List.reverse_inj.1 hc))⟩

/-- Currencies start with a capital letter or a digit. -/
theorem design_rest_ne {c : CurrencyId} {x : Char} {cs : List Char}
    (hx : CurrencyId.isEdge x = false) : (design c).rest ≠ ':' :: x :: cs := by
  intro h
  have := CurrencyId.head?_isEdge (List.cons.inj h).2
  rw [hx] at this
  cases this

theorem key_injective {p q : Place} (h : p.key = q.key) : p = q := by
  obtain ⟨hf, hr⟩ := parts_eq h
  cases p <;> cases q
  case account.account a b => rw [Address.text_injective (String.toList_inj.1 hf)]
  case balance.balance a c b d =>
    obtain ⟨rfl, rfl⟩ := balance_front hf
    rfl
  case design.design c d =>
    rw [CurrencyId.text_injective (String.toList_inj.1 (List.cons.inj hr).2)]
  case account.design => exact absurd hr.symm (design_rest_ne (by decide))
  case design.account => exact absurd hr (design_rest_ne (by decide))
  case balance.design => exact absurd hr.symm (design_rest_ne (by decide))
  case design.balance => exact absurd hr (design_rest_ne (by decide))
  case suffrage.candidates => exact absurd hf (by decide)
  case suffrage.networkPolicy => exact absurd hf (by decide)
  case candidates.suffrage => exact absurd hf (by decide)
  case candidates.networkPolicy => exact absurd hf (by decide)
  case networkPolicy.suffrage => exact absurd hf (by decide)
  case networkPolicy.candidates => exact absurd hf (by decide)
  all_goals first | rfl | simp [rest] at hr

theorem key_inj {p q : Place} : p.key = q.key ↔ p = q :=
  ⟨key_injective, congrArg key⟩

end Place

end CurrencyLedger
