import CurrencyLedger.Collection.KeyedList
import Mathlib.Data.List.Destutter

/-!
Sorted lists as finite maps. What `ofList` makes of a list is the list sorted by the keys, where
items with one key keep their order, less every item that follows one with its own key
(`toList_ofList`). So to insert is to drop the item under the key, add the new one and sort again
(`insert_eq_ofList`). Insertions and removals under different keys commute.
-/

namespace CurrencyLedger.KeyedList

variable {α : Type} {key : α → String} {l items : List α}

theorem get?_ofList (items : List α) (k : String) :
    (ofList items : KeyedList key).get? k = items.find? fun a => key a = k := by
  induction items with
  | nil => rfl
  | cons a rest ih =>
    show ((ofList rest : KeyedList key).insert a).get? k = _
    rw [get?_insert, ih, List.find?_cons]
    by_cases h : key a = k <;> simp [h]

/-- A sorted list is made again of its items. -/
theorem ofList_toList (m : KeyedList key) : ofList m.toList = m :=
  ext fun k => get?_ofList m.toList k

section sorting

theorem byKey_trans (a b c : α) (hab : decide (key a ≤ key b) = true)
    (hbc : decide (key b ≤ key c) = true) : decide (key a ≤ key c) = true :=
  decide_eq_true (String.le_trans (of_decide_eq_true hab) (of_decide_eq_true hbc))

theorem byKey_total (a b : α) : (decide (key a ≤ key b) || decide (key b ≤ key a)) = true := by
  simpa using String.le_total (key a) (key b)

/-- A sort by the keys leaves items with one key in their order. -/
theorem filter_mergeSort (items : List α) (k : String) :
    ((items.mergeSort fun a b => key a ≤ key b).filter fun a => key a = k) =
      items.filter fun a => key a = k := by
  have perm : (items.mergeSort fun a b => key a ≤ key b).Perm items :=
    List.mergeSort_perm items _
  have equal : (items.filter fun a => key a = k).Pairwise
      fun a b => (decide (key a ≤ key b)) = true := by
    refine List.pairwise_of_forall_mem_list fun a ha b hb => ?_
    have hab : key a = key b := by
      rw [of_decide_eq_true (List.mem_filter.1 ha).2, of_decide_eq_true (List.mem_filter.1 hb).2]
    exact decide_eq_true (hab ▸ String.le_refl _)
  have sub := List.sublist_mergeSort byKey_trans byKey_total equal List.filter_sublist
  have sub := sub.filter fun a => decide (key a = k)
  simp only [List.filter_filter, Bool.and_self] at sub
  exact (sub.eq_of_length (perm.filter _).length_eq.symm).symm

theorem sorted_mergeSort (items : List α) :
    (items.mergeSort fun a b => key a ≤ key b).Pairwise fun a b => key a ≤ key b := by
  have sorted : (items.mergeSort fun a b => key a ≤ key b).Pairwise
      fun a b => decide (key a ≤ key b) = true :=
    List.pairwise_mergeSort byKey_trans byKey_total items
  exact sorted.imp of_decide_eq_true

/-- Of neighbours with one key the first is kept, so what is found under each key stays. -/
theorem find?_destutter (l : List α) (k : String) :
    ((l.destutter fun a b => key a ≠ key b).find? fun a => key a = k) =
      l.find? fun a => key a = k := by
  cases l with
  | nil => rfl
  | cons a rest =>
    rw [List.destutter_cons']
    induction rest generalizing a with
    | nil => rfl
    | cons b rest ih =>
      by_cases hab : key a ≠ key b
      · rw [List.destutter'_cons_pos (R := fun a b => key a ≠ key b) rest hab, List.find?_cons, ih]
        rfl
      · rw [List.destutter'_cons_neg (R := fun a b => key a ≠ key b) rest hab, ih]
        by_cases ha : key a = k
        · simp [ha]
        · have hb : key b ≠ k := not_not.1 hab ▸ ha
          simp [ha, hb]

/-- Where neighbours differ, a sorted list is strictly sorted. -/
theorem sorted_of_isChain (sorted : l.Pairwise fun a b => key a ≤ key b)
    (apart : l.IsChain fun a b => key a ≠ key b) : l.Pairwise fun a b => key a < key b := by
  induction l with
  | nil => exact .nil
  | cons a rest ih =>
    obtain ⟨ha, hrest⟩ := List.pairwise_cons.1 sorted
    refine List.pairwise_cons.2 ⟨fun c hc => ?_, ih hrest apart.tail⟩
    cases rest with
    | nil => cases hc
    | cons b rest =>
      have hne : key a ≠ key b := (List.isChain_cons_cons.1 apart).1
      have hbc : key b ≤ key c := by
        rcases List.mem_cons.1 hc with rfl | hc
        · exact String.le_refl _
        · exact (List.pairwise_cons.1 hrest).1 c hc
      refine String.not_le.1 fun hca => hne (String.le_antisymm (ha b List.mem_cons_self) ?_)
      exact String.le_trans hbc hca

theorem toList_ofList (items : List α) :
    (ofList items : KeyedList key).toList =
      (items.mergeSort fun a b => key a ≤ key b).destutter fun a b => key a ≠ key b := by
  let sorted := items.mergeSort fun a b => key a ≤ key b
  have strict := sorted_of_isChain
    ((sorted_mergeSort items).sublist (List.destutter_sublist (fun a b => key a ≠ key b) sorted))
    (List.isChain_destutter _ sorted)
  -- Both lists are strictly sorted, so they are one if they find the same.
  have same : (ofList items : KeyedList key) = ⟨_, strict⟩ := by
    refine ext fun k => ?_
    rw [get?_ofList, get?, find?_destutter, ← List.head?_filter, ← List.head?_filter,
      filter_mergeSort]
  exact congrArg toList same

end sorting

theorem insert_eq_ofList (m : KeyedList key) (a : α) :
    m.insert a = ofList ((m.toList.filter fun b => key b ≠ key a) ++ [a]) := by
  refine ext fun k => ?_
  rw [get?_insert, get?_ofList, List.find?_append]
  change _ = ((m.erase (key a)).get? k).or _
  rw [get?_erase]
  by_cases h : key a = k
  · simp [h]
  · simp [h, Ne.symm h]

theorem insert_comm (m : KeyedList key) {a b : α} (h : key a ≠ key b) :
    (m.insert a).insert b = (m.insert b).insert a := by
  refine ext fun k => ?_
  simp only [get?_insert]
  by_cases hb : key b = k
  · have ha : key a ≠ k := fun ha => h (ha.trans hb.symm)
    simp [ha, hb]
  · simp [hb]

theorem erase_insert_comm (m : KeyedList key) {a : α} {k : String} (h : key a ≠ k) :
    (m.insert a).erase k = (m.erase k).insert a := by
  refine ext fun k' => ?_
  simp only [get?_insert, get?_erase]
  by_cases ha : key a = k'
  · simp [ha, ha ▸ h]
  · simp [ha]

theorem erase_comm (m : KeyedList key) (k k' : String) :
    (m.erase k).erase k' = (m.erase k').erase k := by
  refine ext fun k'' => ?_
  simp only [get?_erase]
  by_cases h : k'' = k <;> simp [h]

end CurrencyLedger.KeyedList
