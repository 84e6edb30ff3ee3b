import CurrencyLedger.Hint
import CurrencyLedger.Proofs.Collection.Traversal
import CurrencyLedger.Proofs.Number.Digits

/-!
Texts of hints. The numbers of a version may be given with a plus sign and with zeros in front, so a
hint has more texts than the one it is shown as: `Hint.parse_eq_ok_iff`.
-/

namespace CurrencyLedger

namespace Decimal

/-- A number as it may be given: perhaps a plus sign, perhaps zeros, and its digits. -/
def Spells (cs : List Char) (n : Nat) : Prop :=
  ∃ sign count, (sign = [] ∨ sign = ['+']) ∧ cs = sign ++ (List.replicate count '0' ++ digits n)

theorem isRun_digits (n : Nat) : IsRun (digits n) ∧ number (digits n) = n := by
  obtain ⟨run, hn⟩ := value?_eq_some_iff.1 (value?_digits n)
  exact ⟨run, hn.symm⟩

theorem isRun_iff {cs : List Char} {n : Nat} :
    IsRun cs ∧ n = number cs ↔ ∃ count, cs = List.replicate count '0' ++ digits n := by
  constructor
  · rintro ⟨run, rfl⟩
    exact run.exists_zeros
  · rintro ⟨count, rfl⟩
    obtain ⟨run, hn⟩ := isRun_digits n
    refine ⟨⟨List.append_ne_nil_of_right_ne_nil _ run.ne_nil, fun c hc => ?_⟩, ?_⟩
    · rcases List.mem_append.1 hc with hc | hc
      · rw [List.eq_of_mem_replicate hc]
        rfl
      · exact run.isDigit c hc
    · rw [number_append, number_zeros, Nat.zero_mul, Nat.zero_add, hn]

theorem le_of_valueFrom? {lead n : Nat} {cs : List Char} (h : valueFrom? lead cs = some n) :
    lead ≤ n := by
  induction cs generalizing lead with
  | nil => exact Nat.le_of_eq (Option.some.inj h)
  | cons c rest ih =>
    obtain ⟨d, -, hrest⟩ := Option.bind_eq_some_iff.1 h
    have := ih hrest
    omega

/-- Digits are read up to the limit. -/
theorem bounded_eq_ok {limit lead n : Nat} {cs : List Char} (hlead : lead ≤ limit) :
    bounded limit lead cs = .ok n ↔ valueFrom? lead cs = some n ∧ n ≤ limit := by
  induction cs generalizing lead with
  | nil =>
    rw [bounded, valueFrom?, Except.ok.injEq, Option.some.injEq]
    exact ⟨fun h => ⟨h, h ▸ hlead⟩, fun h => h.1⟩
  | cons c rest ih =>
    rw [bounded, valueFrom?]
    cases digitValue? c with
    | none => simp
    | some d =>
      simp only [Option.bind_eq_bind, Option.bind_some]
      split
      · next hlt =>
        refine iff_of_false (fun heq => by cases heq) fun h => ?_
        have := le_of_valueFrom? h.1
        omega
      · next hle => exact ih (Nat.not_lt.1 hle)

theorem bounded_eq_ok_iff {limit n : Nat} {cs : List Char} (ne : cs ≠ []) :
    bounded limit 0 cs = .ok n ↔
      (∃ count, cs = List.replicate count '0' ++ digits n) ∧ n ≤ limit := by
  rw [bounded_eq_ok (Nat.zero_le _), valueFrom?_eq_some_iff, ← isRun_iff]
  exact and_congr_left' ⟨fun h => ⟨⟨ne, h.1⟩, h.2⟩, fun h => ⟨h.1.isDigit, h.2⟩⟩

theorem unsigned_eq_ok_iff {limit n : Nat} {cs : List Char} :
    unsigned limit cs = .ok n ↔ Spells cs n ∧ n ≤ limit := by
  have plus (count : Nat) : '+' ∉ List.replicate count '0' ++ digits n := fun h =>
    absurd ((isRun_iff.2 ⟨count, rfl⟩).1.isDigit _ h) (by decide)
  have ne (count : Nat) : List.replicate count '0' ++ digits n ≠ [] :=
    (isRun_iff.2 ⟨count, rfl⟩).1.ne_nil
  unfold unsigned
  split
  · refine iff_of_false nofun ?_
    rintro ⟨⟨sign, count, -, h⟩, -⟩
    exact ne count (List.append_eq_nil_iff.1 h.symm).2
  · refine iff_of_false nofun ?_
    rintro ⟨⟨sign, count, rfl | rfl, h⟩, -⟩
    · exact plus count (h ▸ List.mem_cons_self)
    · exact ne count (List.cons_eq_cons.1 h).2.symm
  · next rest hrest =>
    have hne : rest ≠ [] := fun h => hrest (by rw [h])
    rw [bounded_eq_ok_iff hne]
    refine and_congr_left' ⟨fun ⟨count, h⟩ => ⟨['+'], count, .inr rfl, by rw [h]; rfl⟩, ?_⟩
    rintro ⟨sign, count, rfl | rfl, h⟩
    · exact absurd (h ▸ List.mem_cons_self) (plus count)
    · exact ⟨count, (List.cons_eq_cons.1 h).2⟩
  · next hnil hplus hsign =>
    rw [bounded_eq_ok_iff hnil]
    refine and_congr_left' ⟨fun ⟨count, h⟩ => ⟨[], count, .inl rfl, h⟩, ?_⟩
    rintro ⟨sign, count, rfl | rfl, h⟩
    · exact ⟨count, h⟩
    · exact absurd h (hsign _)

theorem Spells.unique {cs : List Char} {n m : Nat} (hn : Spells cs n) (hm : Spells cs m) :
    n = m := by
  have hn := unsigned_eq_ok_iff.2 ⟨hn, Nat.le_max_left n m⟩
  have hm := unsigned_eq_ok_iff.2 ⟨hm, Nat.le_max_right n m⟩
  rw [hn] at hm
  exact Except.ok.inj hm

theorem spells_digits (n : Nat) : Spells (digits n) n :=
  ⟨[], 0, .inl rfl, rfl⟩

/-- What a number is given with. -/
theorem Spells.mem {cs : List Char} {n : Nat} (h : Spells cs n) {c : Char} (hc : c ∈ cs) :
    c = '+' ∨ c.isDigit = true := by
  obtain ⟨sign, count, hsign, rfl⟩ := h
  rcases List.mem_append.1 hc with hc | hc
  · rcases hsign with rfl | rfl
    · cases hc
    · exact .inl (List.mem_singleton.1 hc)
  · exact .inr ((isRun_iff.2 ⟨count, rfl⟩).1.isDigit c hc)

end Decimal

namespace Hint

open Decimal (Spells)
open Traversal (mapM_eq_ok_iff)

theorem splitVersion?_eq_some {cs type version : List Char}
    (h : splitVersion? cs = some (type, version)) : cs = type ++ '-' :: 'v' :: version := by
  induction cs generalizing type with
  | nil => cases h
  | cons c rest ih =>
    unfold splitVersion? at h
    split at h
    · next t v hrest =>
      cases h
      rw [ih hrest, List.cons_append]
    · cases h
      rfl
    · cases h

theorem splitVersion?_of_not_mem {cs : List Char} (h : '-' ∉ cs) : splitVersion? cs = none := by
  induction cs with
  | nil => rfl
  | cons c rest ih =>
    rw [List.mem_cons, not_or] at h
    unfold splitVersion?
    rw [ih h.2]
    split
    · next heq => cases heq
    · exact absurd rfl h.1
    · rfl

theorem splitVersion?_append {version : List Char} (h : '-' ∉ version) (type : List Char) :
    splitVersion? (type ++ '-' :: 'v' :: version) = some (type, version) := by
  induction type with
  | nil =>
    have hnone : splitVersion? ('v' :: version) = none :=
      splitVersion?_of_not_mem (by simp [h])
    show splitVersion? ('-' :: 'v' :: version) = _
    unfold splitVersion?
    rw [hnone]
    rfl
  | cons c type ih =>
    rw [List.cons_append]
    unfold splitVersion?
    rw [ih]

theorem splitPoints_eq (cs : List Char) : splitPoints cs = cs.splitOn '.' := by
  induction cs with
  | nil => rfl
  | cons c rest ih =>
    rw [List.splitOn, List.splitOnP_cons_eq_if_modifyHead, ← List.splitOn, ← ih]
    by_cases hc : c = '.'
    · subst hc
      rfl
    · rw [splitPoints, if_neg (by simpa using hc)]
      · cases hparts : splitPoints rest with
        | nil => exact absurd (ih ▸ hparts) (List.splitOn_ne_nil _ _)
        | cons part parts => rfl
      · exact hc

/-- A text that a hint may have. -/
structure IsSpelling (cs : List Char) (h : Hint) : Prop where
  type_ne_nil : h.type.toList ≠ []
  type_chars : h.type.toList.all isTypeChar = true
  version : ∃ major minor patch, Spells major h.major ∧ Spells minor h.minor ∧
    Spells patch h.patch ∧
    cs = h.type.toList ++ '-' :: 'v' :: (major ++ '.' :: (minor ++ '.' :: patch))

/-- The numbers of the version have 32 bits. -/
structure IsNarrow (h : Hint) : Prop where
  major : h.major ≤ UInt32.size - 1
  minor : h.minor ≤ UInt32.size - 1
  patch : h.patch ≤ UInt32.size - 1

theorem splitPoints_version {major minor patch : List Char} (hmajor : '.' ∉ major)
    (hminor : '.' ∉ minor) (hpatch : '.' ∉ patch) :
    splitPoints (major ++ '.' :: (minor ++ '.' :: patch)) = [major, minor, patch] := by
  have hparts : major ++ '.' :: (minor ++ '.' :: patch) =
      ['.'].intercalate [major, minor, patch] := by simp [List.intercalate]
  rw [splitPoints_eq, hparts, List.splitOn_intercalate]
  · simp [hmajor, hminor, hpatch]
  · simp

theorem eq_of_splitPoints {cs major minor patch : List Char}
    (h : splitPoints cs = [major, minor, patch]) :
    cs = major ++ '.' :: (minor ++ '.' :: patch) := by
  have hparts : ['.'].intercalate (cs.splitOn '.') = cs := List.intercalate_splitOn '.'
  rw [← hparts, ← splitPoints_eq, h]
  simp [List.intercalate]

theorem IsSpelling.of_parse {s : String} {h : Hint} (parsed : parse s = .ok h) :
    IsSpelling s.toList h ∧ h.IsNarrow := by
  unfold parse at parsed
  split at parsed
  · cases parsed
  · next type version hsplit =>
    split at parsed
    · cases parsed
    · next hchars =>
      rw [Bool.or_eq_true, not_or, Bool.not_eq_true', Bool.not_eq_false] at hchars
      split at parsed
      · cases parsed
      · next major minor patch hnumbers =>
        cases parsed
        generalize hparts : splitPoints version = parts at hnumbers
        -- three parts were read, and each of them is a number of 32 bits
        cases mapM_eq_ok_iff.1 hnumbers with
        | cons hmajor hrest =>
        cases hrest with
        | cons hminor hrest =>
        cases hrest with
        | cons hpatch hrest =>
        cases hrest
        obtain ⟨spellsMajor, leMajor⟩ := Decimal.unsigned_eq_ok_iff.1 hmajor
        obtain ⟨spellsMinor, leMinor⟩ := Decimal.unsigned_eq_ok_iff.1 hminor
        obtain ⟨spellsPatch, lePatch⟩ := Decimal.unsigned_eq_ok_iff.1 hpatch
        refine ⟨⟨?_, ?_, _, _, _, spellsMajor, spellsMinor, spellsPatch, ?_⟩,
          leMajor, leMinor, lePatch⟩
        · simpa using hchars.1
        · simpa using hchars.2
        · rw [splitVersion?_eq_some hsplit, eq_of_splitPoints hparts, String.toList_ofList]
      · cases parsed

/-- A spelling of a number stands between points and behind a dash. -/
theorem not_mem_of_spells {cs : List Char} {n : Nat} (h : Spells cs n) : '.' ∉ cs ∧ '-' ∉ cs := by
  constructor <;> intro hmem <;> rcases h.mem hmem with h | h <;> revert h <;> decide

/-- A spelling is taken apart in one way. -/
theorem IsSpelling.split {cs : List Char} {h : Hint} (spelling : IsSpelling cs h) :
    ∃ version major minor patch, splitVersion? cs = some (h.type.toList, version) ∧
      splitPoints version = [major, minor, patch] ∧
      Spells major h.major ∧ Spells minor h.minor ∧ Spells patch h.patch := by
  obtain ⟨-, -, major, minor, patch, hmajor, hminor, hpatch, rfl⟩ := spelling
  refine ⟨major ++ '.' :: (minor ++ '.' :: patch), major, minor, patch, splitVersion?_append ?_ _,
    splitPoints_version (not_mem_of_spells hmajor).1 (not_mem_of_spells hminor).1
      (not_mem_of_spells hpatch).1, hmajor, hminor, hpatch⟩
  simp [(not_mem_of_spells hmajor).2, (not_mem_of_spells hminor).2, (not_mem_of_spells hpatch).2]

theorem IsSpelling.unique {cs : List Char} {h h' : Hint} (spelling : IsSpelling cs h)
    (spelling' : IsSpelling cs h') : h = h' := by
  obtain ⟨version, major, minor, patch, hsplit, hparts, hmajor, hminor, hpatch⟩ := spelling.split
  obtain ⟨version', major', minor', patch', hsplit', hparts', hmajor', hminor', hpatch'⟩ :=
    spelling'.split
  obtain ⟨htype, rfl⟩ := Prod.mk.inj (Option.some.inj (hsplit.symm.trans hsplit'))
  cases hparts.symm.trans hparts'
  obtain ⟨type, a, b, c⟩ := h
  obtain ⟨type', a', b', c'⟩ := h'
  cases String.toList_injective htype
  cases hmajor.unique hmajor'
  cases hminor.unique hminor'
  cases hpatch.unique hpatch'
  rfl

theorem IsSpelling.parse_eq {s : String} {h : Hint} (spelling : IsSpelling s.toList h)
    (narrow : h.IsNarrow) : parse s = .ok h := by
  obtain ⟨version, major, minor, patch, hsplit, hparts, hmajor, hminor, hpatch⟩ := spelling.split
  have hnumbers : (splitPoints version).mapM (Decimal.unsigned (UInt32.size - 1)) =
      .ok [h.major, h.minor, h.patch] := by
    rw [hparts, mapM_eq_ok_iff]
    exact .cons (Decimal.unsigned_eq_ok_iff.2 ⟨hmajor, narrow.major⟩) <|
      .cons (Decimal.unsigned_eq_ok_iff.2 ⟨hminor, narrow.minor⟩) <|
      .cons (Decimal.unsigned_eq_ok_iff.2 ⟨hpatch, narrow.patch⟩) .nil
  have hempty : h.type.toList.isEmpty = false := by simpa using spelling.type_ne_nil
  unfold parse
  simp only [hsplit, hempty, spelling.type_chars, Bool.not_true, Bool.or_self, Bool.false_eq_true,
    if_false, hnumbers, String.ofList_toList]

theorem parse_eq_ok_iff {s : String} {h : Hint} :
    parse s = .ok h ↔ IsSpelling s.toList h ∧ h.IsNarrow :=
  ⟨IsSpelling.of_parse, fun ⟨spelling, narrow⟩ => spelling.parse_eq narrow⟩

/-- A hint that has a spelling is spelled by the text that it is shown as. -/
theorem IsSpelling.text {cs : List Char} {h : Hint} (spelling : IsSpelling cs h) :
    IsSpelling h.text.toList h := by
  refine ⟨spelling.type_ne_nil, spelling.type_chars, _, _, _, Decimal.spells_digits _,
    Decimal.spells_digits _, Decimal.spells_digits _, ?_⟩
  simp [Hint.text, Decimal.ofNat]

theorem parse_text {s : String} {h : Hint} (parsed : parse s = .ok h) : parse h.text = .ok h := by
  obtain ⟨spelling, narrow⟩ := parse_eq_ok_iff.1 parsed
  exact parse_eq_ok_iff.2 ⟨spelling.text, narrow⟩

/-- The first version of a type. -/
def first (type : String) : Hint :=
  ⟨type, 0, 0, 1⟩

end Hint

end CurrencyLedger
