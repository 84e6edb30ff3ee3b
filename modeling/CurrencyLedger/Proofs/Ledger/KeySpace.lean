import CurrencyLedger.Proofs.Ledger.Place
import Mathlib.Data.List.Nodup

/-!
The keys of records tell their kinds. A key has at most one colon, so the text from the colon on is
what its ending can be compared with, and the text in front of the colon is all that stands before
it. `keys_apart` says that no two places share a key, and that the endings of accounts and balances
and the start of designs are each found on the keys of their own kind only.
-/

namespace CurrencyLedger.Place

variable {p : Place} {cs : List Char}

theorem colon_not_mem_rest (h : p.rest = ':' :: cs) : ':' ∉ cs := by
  cases p with
  | account a =>
    cases h
    decide
  | balance a c =>
    cases h
    decide
  | design c =>
    cases h
    exact colon_not_mem_currency c
  | _ => cases h

/-- A key ends in a text with one colon, in front, if this is what it has from its own colon on. -/
theorem isSuffix_key_iff (plain : ':' ∉ cs) :
    ':' :: cs <:+ p.key.toList ↔ p.rest = ':' :: cs := by
  rw [toList_key]
  constructor
  · rintro ⟨front, h⟩
    rcases rest_cases p with hrest | ⟨ds, hrest⟩
    · rw [hrest, List.append_nil] at h
      exact absurd (h ▸ List.mem_append_right _ List.mem_cons_self) (colon_not_mem_front p)
    · rw [hrest] at h ⊢
      -- Seen from the end, the colon is the first one in both texts.
      have h := congrArg List.reverse h
      simp only [List.reverse_append, List.reverse_cons, List.append_assoc,
        List.singleton_append] at h
      obtain ⟨same, -⟩ := eq_of_append_mark (fun hm => plain (List.mem_reverse.1 hm))
        (fun hm => colon_not_mem_rest hrest (List.mem_reverse.1 hm)) h
      rw [List.reverse_inj.1 same]
  · intro h
    exact h ▸ List.suffix_append _ _

/-- A key starts with a text that has one colon, at its end, if this is all that it has up to its
own colon. -/
theorem isPrefix_key_iff (plain : ':' ∉ cs) :
    cs ++ [':'] <+: p.key.toList ↔ p.front.toList = cs ∧ p.rest ≠ [] := by
  rw [toList_key]
  constructor
  · rintro ⟨more, h⟩
    rw [List.append_assoc, List.singleton_append] at h
    rcases rest_cases p with hrest | ⟨ds, hrest⟩
    · rw [hrest, List.append_nil] at h
      exact absurd (h ▸ List.mem_append_right _ List.mem_cons_self) (colon_not_mem_front p)
    · rw [hrest] at h ⊢
      obtain ⟨same, -⟩ := eq_of_append_mark plain (colon_not_mem_front p) h
      exact ⟨same.symm, List.cons_ne_nil _ _⟩
  · rintro ⟨rfl, hrest⟩
    obtain ⟨ds, hrest⟩ := (rest_cases p).resolve_left hrest
    exact ⟨ds, by rw [hrest, List.append_assoc, List.singleton_append]⟩

/-- The endings of addresses have an `a`, and the keys of balances a dash. -/
theorem eq_design_of_front (h : p.front.toList = "currencydesign".toList) :
    ∃ c, p = design c := by
  cases p with
  | account a =>
    have hending : ∀ kind : AddressKind, 'a' ∈ kind.ending.toList := by
      intro kind
      cases kind <;> decide
    have hletter : 'a' ∈ (account a).front.toList := by
      rw [front, Address.text, String.toList_append]
      exact List.mem_append_right _ (hending a.kind)
    rw [h] at hletter
    exact absurd hletter (by decide)
  | balance a c =>
    have hdash : '-' ∈ (balance a c).front.toList := by
      rw [toList_balance_front]
      exact List.mem_append_right _ List.mem_cons_self
    rw [h] at hdash
    exact absurd hdash (by decide)
  | design c => exact ⟨c, rfl⟩
  | _ => exact absurd h (by decide)

theorem isAccount_key : RecordKey.isAccount p.key = true ↔ ∃ a, p = account a := by
  have ending : RecordKey.accountEnding.toList = ':' :: ['a', 'c', 'c', 'o', 'u', 'n', 't'] := by
    decide
  rw [RecordKey.isAccount, List.isSuffixOf_iff_suffix, ending, isSuffix_key_iff (by decide)]
  constructor
  · intro h
    cases p with
    | account a => exact ⟨a, rfl⟩
    | balance a c => simp [rest] at h
    | design c => exact absurd h (design_rest_ne (by decide))
    | _ => cases h
  · rintro ⟨a, rfl⟩
    rfl

theorem isBalance_key : RecordKey.isBalance p.key = true ↔ ∃ a c, p = balance a c := by
  have ending : RecordKey.balanceEnding.toList = ':' :: ['b', 'a', 'l', 'a', 'n', 'c', 'e'] := by
    decide
  rw [RecordKey.isBalance, List.isSuffixOf_iff_suffix, ending, isSuffix_key_iff (by decide)]
  constructor
  · intro h
    cases p with
    | account a => simp [rest] at h
    | balance a c => exact ⟨a, c, rfl⟩
    | design c => exact absurd h (design_rest_ne (by decide))
    | _ => cases h
  · rintro ⟨a, c, rfl⟩
    rfl

theorem isDesign_key : RecordKey.isDesign p.key = true ↔ ∃ c, p = design c := by
  have start : RecordKey.designStart.toList = "currencydesign".toList ++ [':'] := by decide
  rw [RecordKey.isDesign, List.isPrefixOf_iff_prefix, start, isPrefix_key_iff (by decide)]
  constructor
  · rintro ⟨h, -⟩
    exact eq_design_of_front h
  · rintro ⟨c, rfl⟩
    exact ⟨rfl, List.cons_ne_nil _ _⟩

/-- Records of different accounts, balances and currencies have different keys, also where an
address holds the dash that stands in front of a currency, and no key is of two kinds. Of all these
keys, those that look like a key of an account, of a balance or of a design are the keys of such
places. -/
theorem keys_apart :
    (∀ a b, RecordKey.account a = RecordKey.account b ↔ a = b) ∧
    (∀ a b c d, RecordKey.balance a c = RecordKey.balance b d ↔ a = b ∧ c = d) ∧
    (∀ c d, RecordKey.design c = RecordKey.design d ↔ c = d) ∧
    (∀ a b c d, [RecordKey.account a, RecordKey.balance b c, RecordKey.design d,
      RecordKey.suffrage, RecordKey.candidates, RecordKey.networkPolicy].Nodup) ∧
    ∀ p : Place, (RecordKey.isAccount p.key = true ↔ ∃ a, p = account a) ∧
      (RecordKey.isBalance p.key = true ↔ ∃ a c, p = balance a c) ∧
      (RecordKey.isDesign p.key = true ↔ ∃ c, p = design c) := by
  refine ⟨fun a b => ?_, fun a b c d => ?_, fun c d => ?_, fun a b c d => ?_,
    fun p => ⟨isAccount_key, isBalance_key, isDesign_key⟩⟩
  · exact (key_inj (p := account a) (q := account b)).trans (by rw [account.injEq])
  · exact (key_inj (p := balance a c) (q := balance b d)).trans (by rw [balance.injEq])
  · exact (key_inj (p := design c) (q := design d)).trans (by rw [design.injEq])
  · have places :
        [account a, balance b c, design d, suffrage, candidates, networkPolicy].Nodup := by
      simp
    exact places.map (f := key) fun _ _ h => key_injective h

end CurrencyLedger.Place
