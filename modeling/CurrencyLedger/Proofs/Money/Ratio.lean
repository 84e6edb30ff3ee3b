import CurrencyLedger.Proofs.Collection.Traversal
import CurrencyLedger.Proofs.Money.Texts
import CurrencyLedger.Proofs.Number.Digits
import Mathlib.Data.Rat.Cast.Order
import Mathlib.Tactic.FieldSimp
import Mathlib.Tactic.Linarith
import Mathlib.Tactic.NormNum
import Mathlib.Tactic.Ring

/-!
Texts of fee ratios denote rational numbers. `Ratio.parse_eq_ok_iff` says that a ratio is read where
the number of its text is, with nothing rounded. Whatever else is read as a ratio is its text with
more zeros: in front, behind the places, or as places behind a point that its text has not.
-/

namespace CurrencyLedger

namespace Ratio

open Decimal

/-- The number that a text denotes: one or more digits and, if there is a point, one to nine places
behind it. -/
inductive Denotes : List Char → ℚ → Prop
  | whole {ds : List Char} (run : IsRun ds) : Denotes ds (number ds)
  | pointed {ds ps : List Char} (run : IsRun ds) (places : IsRun ps) (short : ps.length ≤ 9) :
      Denotes (ds ++ '.' :: ps) (number ds + number ps / 10 ^ ps.length)

theorem Denotes.unique {cs : List Char} {q q' : ℚ} (h : Denotes cs q) (h' : Denotes cs q') :
    q = q' := by
  cases h with
  | whole run =>
    generalize hcs : cs = ds at h'
    cases h' with
    | whole => rfl
    | pointed =>
      refine absurd ?_ run.point_not_mem
      rw [hcs]
      exact List.mem_append_right _ List.mem_cons_self
  | @pointed ds ps run places short =>
    generalize hcs : ds ++ '.' :: ps = cs' at h'
    cases h' with
    | whole run' =>
      refine absurd ?_ run'.point_not_mem
      rw [← hcs]
      exact List.mem_append_right _ List.mem_cons_self
    | pointed =>
      obtain ⟨rfl, -, rfl⟩ :=
        (List.append_cons_inj_of_notMem run.point_not_mem places.point_not_mem).1 hcs
      rfl

section parts

variable {cs ds ps : List Char} {n : Nat}

theorem partsOf?_unpointed (h : '.' ∉ cs) :
    partsOf? cs = some n ↔ IsRun cs ∧ n = number cs * scale ∧ n < UInt64.size := by
  have hall : ∀ c ∈ cs, (c != '.') = true := fun c hc => bne_iff_ne.2 fun e => h (e ▸ hc)
  have hplaces : (cs.dropWhile (· != '.')).drop 1 = [] := by
    rw [List.dropWhile_eq_nil_iff.2 hall, List.drop_nil]
  have hcontains : cs.contains '.' = false := by simpa using h
  unfold partsOf?
  rw [List.takeWhile_eq_self_iff.2 hall, hplaces, hcontains, if_pos (by simp)]
  simp only [Option.bind_eq_bind, Option.bind_eq_some_iff, value?_eq_some_iff,
    valueFrom?_zeros_iff, Option.ite_none_right_eq_some, Option.some.injEq]
  constructor
  · rintro ⟨w, ⟨run, hw⟩, p, ⟨-, hp⟩, bound, rfl⟩
    rw [number_nil, Nat.zero_mul] at hp
    rw [hp, Nat.add_zero] at bound ⊢
    exact ⟨run, hw ▸ rfl, bound⟩
  · rintro ⟨run, rfl, bound⟩
    refine ⟨_, ⟨run, rfl⟩, 0, ⟨nofun, ?_⟩, ?_⟩
    · rw [number_nil, Nat.zero_mul]
    · rw [Nat.add_zero]
      exact ⟨bound, rfl⟩

theorem partsOf?_of_point (h : '.' ∉ ds) :
    partsOf? (ds ++ '.' :: ps) = some n ↔ IsRun ds ∧ IsRun ps ∧ ps.length ≤ 9 ∧
      n = number ds * scale + number ps * 10 ^ (9 - ps.length) ∧ n < UInt64.size := by
  have hall : ∀ c ∈ ds, (c != '.') = true := fun c hc => bne_iff_ne.2 fun e => h (e ▸ hc)
  have hwhole : (ds ++ '.' :: ps).takeWhile (· != '.') = ds := by
    rw [List.takeWhile_append_of_pos hall]
    simp
  have hplaces : ((ds ++ '.' :: ps).dropWhile (· != '.')).drop 1 = ps := by
    rw [List.dropWhile_append_of_pos hall]
    simp
  have hcontains : (ds ++ '.' :: ps).contains '.' = true := by simp
  unfold partsOf?
  rw [hwhole, hplaces, hcontains]
  simp only [Option.bind_eq_bind, Option.bind_eq_some_iff, value?_eq_some_iff,
    valueFrom?_zeros_iff, Option.ite_none_right_eq_some, Option.some.injEq]
  constructor
  · rintro ⟨⟨hne, short⟩, w, ⟨run, rfl⟩, p, ⟨hps, rfl⟩, bound, rfl⟩
    exact ⟨run, ⟨hne trivial, hps⟩, short, rfl, bound⟩
  · rintro ⟨run, places, short, rfl, bound⟩
    exact ⟨⟨fun _ => places.ne_nil, short⟩, _, ⟨run, rfl⟩, _, ⟨places.isDigit, rfl⟩, bound, rfl⟩

/-- Places denote billionths where up to nine zeros complete them. -/
theorem places_eq (short : ps.length ≤ 9) :
    (number ps / 10 ^ ps.length : ℚ) * 10 ^ 9 = (number ps * 10 ^ (9 - ps.length) : ℕ) := by
  have split : (10 : ℚ) ^ 9 = 10 ^ ps.length * 10 ^ (9 - ps.length) := by
    rw [← pow_add, Nat.add_sub_cancel' short]
  rw [split]
  push_cast
  field_simp

theorem partsOf?_eq_some_iff :
    partsOf? cs = some n ↔ n < UInt64.size ∧ ∃ q : ℚ, Denotes cs q ∧ (n : ℚ) = q * 10 ^ 9 := by
  have hscale : ((scale : ℕ) : ℚ) = 10 ^ 9 := by norm_num [scale]
  constructor
  · intro h
    by_cases hpoint : '.' ∈ cs
    · obtain ⟨ds, ps, rfl, hds⟩ := List.eq_append_cons_of_mem hpoint
      obtain ⟨run, places, short, rfl, bound⟩ := (partsOf?_of_point hds).1 h
      refine ⟨bound, _, .pointed run places short, ?_⟩
      rw [add_mul, places_eq short]
      push_cast
      rw [hscale]
    · obtain ⟨run, rfl, bound⟩ := (partsOf?_unpointed hpoint).1 h
      refine ⟨bound, _, .whole run, ?_⟩
      push_cast
      rw [hscale]
  · rintro ⟨bound, q, hq, hn⟩
    cases hq with
    | whole run =>
      refine (partsOf?_unpointed run.point_not_mem).2 ⟨run, ?_, bound⟩
      rw [← hscale] at hn
      exact_mod_cast hn
    | pointed run places short =>
      refine (partsOf?_of_point run.point_not_mem).2 ⟨run, places, short, ?_, bound⟩
      rw [add_mul, places_eq short, ← hscale] at hn
      exact_mod_cast hn

end parts

theorem parse_eq_ok {s : String} {r : Ratio} :
    parse s = .ok r ↔ partsOf? s.toList = some r.parts := by
  unfold parse ofParts
  cases partsOf? s.toList with
  | none => exact iff_of_false nofun nofun
  | some n =>
    constructor
    · intro h
      dsimp only at h
      split at h
      · cases h
        rfl
      · cases h
    · intro h
      cases h
      exact dif_pos r.le_one

theorem parse_eq_ok_iff {s : String} {r : Ratio} :
    parse s = .ok r ↔ ∃ q : ℚ, Denotes s.toList q ∧ (r.parts : ℚ) = q * 10 ^ 9 := by
  have bound : r.parts < UInt64.size := Nat.lt_of_le_of_lt r.le_one (by decide)
  rw [parse_eq_ok, partsOf?_eq_some_iff, and_iff_right bound]

theorem Denotes.exists_parts {cs : List Char} {q : ℚ} (h : Denotes cs q) :
    ∃ n : ℕ, (n : ℚ) = q * 10 ^ 9 := by
  cases h with
  | @whole run => exact ⟨number cs * 10 ^ 9, by push_cast; rfl⟩
  | @pointed ds ps run places short =>
    refine ⟨number ds * 10 ^ 9 + number ps * 10 ^ (9 - ps.length), ?_⟩
    rw [add_mul, places_eq short]
    push_cast
    rfl

/-- A decimal is read as a ratio if it is at most one. -/
theorem exists_parse_iff {s : String} :
    (∃ r, parse s = .ok r) ↔ ∃ q : ℚ, Denotes s.toList q ∧ q ≤ 1 := by
  constructor
  · rintro ⟨r, h⟩
    obtain ⟨q, hq, hr⟩ := parse_eq_ok_iff.1 h
    refine ⟨q, hq, ?_⟩
    have le : (r.parts : ℚ) ≤ 10 ^ 9 := by exact_mod_cast r.le_one
    linarith
  · rintro ⟨q, hq, hle⟩
    obtain ⟨n, hn⟩ := hq.exists_parts
    have le : n ≤ scale := by
      have : (n : ℚ) ≤ (10 ^ 9 : ℕ) := by push_cast; linarith
      exact_mod_cast this
    exact ⟨⟨n, le⟩, parse_eq_ok_iff.2 ⟨q, hq, hn⟩⟩

/-- Places are those that are written for their fraction with zeros behind. -/
theorem exists_zeros_places {ps : List Char} (run : IsRun ps) (short : ps.length ≤ 9) :
    ∃ count, ps = places (number ps * 10 ^ (9 - ps.length)) ++ List.replicate count '0' := by
  have hnine : ps.length + (9 - ps.length) = 9 := Nat.add_sub_cancel' short
  have hpadded : paddedPlaces (number ps * 10 ^ (9 - ps.length)) =
      ps ++ List.replicate (9 - ps.length) '0' := by
    have hrun : IsRun (ps ++ List.replicate (9 - ps.length) '0') :=
      ⟨List.append_ne_nil_of_left_ne_nil run.ne_nil _, (valueFrom?_eq_some_iff.1
        (valueFrom?_zeros_iff.2 ⟨run.isDigit, rfl⟩)).1⟩
    obtain ⟨count, hcount⟩ := hrun.exists_zeros
    rw [number_append, number_zeros, List.length_replicate, Nat.add_zero] at hcount
    have hlength := congrArg List.length hcount
    rw [List.length_append, List.length_append, List.length_replicate, List.length_replicate,
      hnine] at hlength
    rw [hcount, paddedPlaces, show 9 - (digits _).length = count by omega]
  have hzeros : ∀ c ∈ List.replicate (9 - ps.length) '0', (c == '0') = true := fun c hc =>
    beq_iff_eq.2 (List.eq_of_mem_replicate hc)
  have hplaces : places (number ps * 10 ^ (9 - ps.length)) =
      (ps.reverse.dropWhile (· == '0')).reverse := by
    show ((paddedPlaces _).reverse.dropWhile (· == '0')).reverse = _
    rw [hpadded, List.reverse_append, List.reverse_replicate,
      List.dropWhile_append_of_pos hzeros]
  refine ⟨(ps.reverse.takeWhile (· == '0')).length, ?_⟩
  have hend : ps.reverse.takeWhile (· == '0') =
      List.replicate (ps.reverse.takeWhile (· == '0')).length '0' :=
    List.eq_replicate_of_mem fun c hc => by simpa using List.mem_takeWhile_imp hc
  rw [hplaces, ← List.reverse_replicate, ← hend, ← List.reverse_append,
    List.takeWhile_append_dropWhile, List.reverse_reverse]

/-- What is read as a ratio is its text with more in front or behind. -/
theorem exists_zeros_chars {s : String} {r : Ratio} (h : parse s = .ok r) :
    ∃ count more, s.toList = List.replicate count '0' ++ (r.chars ++ more) := by
  have hparts := parse_eq_ok.1 h
  by_cases hpoint : '.' ∈ s.toList
  · obtain ⟨ds, ps, hs, hds⟩ := List.eq_append_cons_of_mem hpoint
    rw [hs] at hparts ⊢
    obtain ⟨run, places, short, hr, -⟩ := (partsOf?_of_point hds).1 hparts
    obtain ⟨count, hcount⟩ := run.exists_zeros
    obtain ⟨behind, hbehind⟩ := exists_zeros_places places short
    have lt : number ps * 10 ^ (9 - ps.length) < scale := by
      have hps := number_lt places.isDigit
      calc number ps * 10 ^ (9 - ps.length)
          < 10 ^ ps.length * 10 ^ (9 - ps.length) :=
            Nat.mul_lt_mul_of_pos_right hps (Nat.pow_pos (by decide))
        _ = scale := by rw [← Nat.pow_add, Nat.add_sub_cancel' short]; rfl
    generalize number ps * 10 ^ (9 - ps.length) = fraction at hr hbehind lt
    have hdiv : r.parts / scale = number ds := by
      rw [hr, Nat.mul_comm, Nat.mul_add_div (by decide), Nat.div_eq_of_lt lt, Nat.add_zero]
    have hmod : r.parts % scale = fraction := by
      rw [hr, Nat.mul_comm, Nat.mul_add_mod, Nat.mod_eq_of_lt lt]
    rw [chars, hdiv, hmod]
    refine ⟨count, ?_⟩
    split
    · exact ⟨'.' :: ps, by rw [← List.append_assoc, ← hcount]⟩
    · refine ⟨List.replicate behind '0', ?_⟩
      rw [List.append_assoc, List.cons_append, ← hbehind, ← List.append_assoc, ← hcount]
  · obtain ⟨run, hr, -⟩ := (partsOf?_unpointed hpoint).1 hparts
    obtain ⟨count, hcount⟩ := run.exists_zeros
    refine ⟨count, [], ?_⟩
    rw [chars, hr, Nat.mul_div_cancel _ (by decide), Nat.mul_mod_left, if_pos rfl, List.append_nil,
      ← hcount]

theorem eq_text_or_longer {s : String} {r : Ratio} (h : parse s = .ok r) :
    s = r.text ∨ r.text.length < s.length := by
  obtain ⟨count, more, hs⟩ := exists_zeros_chars h
  have hlength : s.length = count + (r.text.length + more.length) := by
    rw [← String.length_toList, hs, text, String.length_ofList]
    simp
  by_cases hexact : count = 0 ∧ more = []
  · obtain ⟨rfl, rfl⟩ := hexact
    left
    rw [← String.toList_inj, hs, text, String.toList_ofList, List.append_nil]
    rfl
  · right
    have : more.length ≠ 0 ∨ count ≠ 0 := by
      rw [Ne, List.length_eq_zero_iff]
      tauto
    omega

theorem text_injective : Function.Injective text :=
  Traversal.injective_of_reads parse_text

/-- Texts are read exactly. A text denotes one number at most, and it is read if it denotes one that
is at most one; the ratio has as many billionths as the number, however many digits it is written
with. The text of a ratio reads back, every other text of it is longer, and different ratios have
different texts. -/
theorem parse_exact :
    (∀ (cs : List Char) (q q' : ℚ), Denotes cs q → Denotes cs q' → q = q') ∧
    (∀ s : String, (∃ r, parse s = .ok r) ↔ ∃ q : ℚ, Denotes s.toList q ∧ q ≤ 1) ∧
    (∀ (s : String) (r : Ratio), parse s = .ok r ↔
      ∃ q : ℚ, Denotes s.toList q ∧ (r.parts : ℚ) = q * 10 ^ 9) ∧
    (∀ r : Ratio, parse r.text = .ok r ∧
      ∀ s : String, parse s = .ok r → s = r.text ∨ r.text.length < s.length) ∧
    Function.Injective text :=
  ⟨fun _ _ _ => Denotes.unique, fun _ => exists_parse_iff, fun _ _ => parse_eq_ok_iff,
    fun r => ⟨parse_text r, fun _ => eq_text_or_longer⟩, text_injective⟩

/-- A quarter, with zeros that its text has not and more digits than fit into 64 bits. -/
theorem parse_exact_quarter :
    parse "0000000000000000000000.250" = .ok ⟨250000000, by decide⟩ ∧
    (⟨250000000, by decide⟩ : Ratio).text.length < "0000000000000000000000.250".length := by
  obtain ⟨-, -, exact, canonical, -⟩ := parse_exact
  have denotes : Denotes "0000000000000000000000.250".toList
      (number "0000000000000000000000".toList + number "250".toList / 10 ^ 3) :=
    @Denotes.pointed "0000000000000000000000".toList "250".toList
      ⟨by decide, List.all_eq_true.1 (by decide)⟩ ⟨by decide, List.all_eq_true.1 (by decide)⟩
      (by decide)
  have hparse : parse "0000000000000000000000.250" = .ok ⟨250000000, by decide⟩ := by
    refine (exact _ _).2 ⟨_, denotes, ?_⟩
    rw [show number "0000000000000000000000".toList = 0 by decide,
      show number "250".toList = 250 by decide]
    norm_num
  refine ⟨hparse, ((canonical _).2 _ hparse).resolve_left ?_⟩
  decide +kernel

end Ratio

end CurrencyLedger
