import Mathlib.Data.List.Nodup

/-!
The first item of a list that came before. A loop that keeps a list of what it has seen stops there:
`isFirst_cons_of_mem` and `isFirst_cons_of_not_mem` are its two steps.
-/

namespace CurrencyLedger.Repetition

variable {α : Type} {seen rest items : List α} {a b : α}

/-- The first item that is among those in front of it, or among those that were seen already. -/
def IsFirst (seen items : List α) (a : α) : Prop :=
  ∃ before after, items = before ++ a :: after ∧ before.Nodup ∧ (∀ b ∈ before, b ∉ seen) ∧
    (a ∈ before ∨ a ∈ seen)

theorem not_isFirst_nil : ¬IsFirst seen [] a := by
  rintro ⟨before, after, h, -⟩
  simp at h

theorem isFirst_cons_of_mem (h : a ∈ seen) : IsFirst seen (a :: rest) b ↔ b = a := by
  constructor
  · rintro ⟨before, after, hsplit, -, hfresh, -⟩
    cases before with
    | nil => exact (List.cons.inj hsplit).1.symm
    | cons c before =>
      obtain ⟨rfl, -⟩ := List.cons.inj hsplit
      exact absurd h (hfresh a List.mem_cons_self)
  · rintro rfl
    exact ⟨[], rest, rfl, .nil, by simp, .inr h⟩

theorem isFirst_cons_of_not_mem (h : a ∉ seen) :
    IsFirst seen (a :: rest) b ↔ IsFirst (a :: seen) rest b := by
  constructor
  · rintro ⟨before, after, hsplit, distinct, hfresh, hb⟩
    cases before with
    | nil =>
      obtain ⟨rfl, -⟩ := List.cons.inj hsplit
      exact absurd (hb.resolve_left List.not_mem_nil) h
    | cons c before =>
      obtain ⟨rfl, rfl⟩ := List.cons.inj hsplit
      obtain ⟨ha, distinct⟩ := List.nodup_cons.1 distinct
      refine ⟨before, after, rfl, distinct, fun c hc hmem => ?_, ?_⟩
      · rcases List.mem_cons.1 hmem with rfl | hmem
        · exact ha hc
        · exact hfresh c (List.mem_cons_of_mem _ hc) hmem
      · rcases hb with hb | hb
        · rcases List.mem_cons.1 hb with rfl | hb
          · exact .inr List.mem_cons_self
          · exact .inl hb
        · exact .inr (List.mem_cons_of_mem _ hb)
  · rintro ⟨before, after, rfl, distinct, hfresh, hb⟩
    have ha : a ∉ before := fun hmem => hfresh a hmem List.mem_cons_self
    refine ⟨a :: before, after, rfl, List.nodup_cons.2 ⟨ha, distinct⟩, ?_, ?_⟩
    · rw [List.forall_mem_cons]
      exact ⟨h, fun c hc hmem => hfresh c hc (List.mem_cons_of_mem _ hmem)⟩
    · rcases hb with hb | hb
      · exact .inl (List.mem_cons_of_mem _ hb)
      · rcases List.mem_cons.1 hb with rfl | hb
        · exact .inl List.mem_cons_self
        · exact .inr hb

/-- There is one if and only if the items are not all different and new. -/
theorem exists_isFirst_iff :
    (∃ a, IsFirst seen items a) ↔ ¬(items.Nodup ∧ ∀ a ∈ items, a ∉ seen) := by
  induction items generalizing seen with
  | nil => simp [not_isFirst_nil]
  | cons a rest ih =>
    by_cases h : a ∈ seen
    · simp [isFirst_cons_of_mem h, h]
    · simp only [isFirst_cons_of_not_mem h, ih]
      rw [List.nodup_cons, List.forall_mem_cons]
      apply not_congr
      constructor
      · rintro ⟨distinct, hnew⟩
        refine ⟨⟨fun ha => hnew a ha List.mem_cons_self, distinct⟩, h, fun b hb hmem => ?_⟩
        exact hnew b hb (List.mem_cons_of_mem _ hmem)
      · rintro ⟨⟨ha, distinct⟩, -, hnew⟩
        refine ⟨distinct, fun b hb hmem => ?_⟩
        rcases List.mem_cons.1 hmem with rfl | hmem
        · exact ha hb
        · exact hnew b hb hmem

theorem exists_isFirst_nil_iff : (∃ a, IsFirst [] items a) ↔ ¬items.Nodup := by
  simp [exists_isFirst_iff]

end CurrencyLedger.Repetition
