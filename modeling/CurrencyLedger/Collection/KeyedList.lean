/-!
Finite maps as lists that are strictly sorted by a key of their items. `ext` says that such a list
is determined by what is found under each key; `get?_insert` and `get?_erase` say what the
operations do.
-/

namespace CurrencyLedger

structure KeyedList {α : Type} (key : α → String) where
  toList : List α
  sorted : toList.Pairwise fun a b => key a < key b

namespace KeyedList

variable {α : Type} {key : α → String}

theorem key_trichotomy (s t : String) : s < t ∨ s = t ∨ t < s := by
  rcases Decidable.em (s < t) with h | h
  · exact .inl h
  · rcases Decidable.em (t < s) with h' | h'
    · exact .inr (.inr h')
    · exact .inr (.inl (String.le_antisymm (String.not_lt.1 h') (String.not_lt.1 h)))

def empty : KeyedList key := ⟨[], .nil⟩

instance : Inhabited (KeyedList key) := ⟨empty⟩

def size (m : KeyedList key) : Nat := m.toList.length

def isEmpty (m : KeyedList key) : Bool := m.toList.isEmpty

def get? (m : KeyedList key) (k : String) : Option α :=
  m.toList.find? fun a => key a = k

def contains (m : KeyedList key) (k : String) : Bool :=
  (m.get? k).isSome

/-- Puts an item at its place, over one with the same key. -/
def insertInto (key : α → String) (a : α) : List α → List α
  | [] => [a]
  | b :: rest =>
    if key a < key b then a :: b :: rest
    else if key a = key b then a :: rest
    else b :: insertInto key a rest

theorem mem_insertInto {a b : α} {l : List α} (h : b ∈ insertInto key a l) : b = a ∨ b ∈ l := by
  induction l with
  | nil => simpa [insertInto] using h
  | cons c rest ih =>
    rw [insertInto] at h
    split at h
    · simpa using h
    · split at h
      · rcases List.mem_cons.1 h with h | h
        · exact .inl h
        · exact .inr (List.mem_cons_of_mem _ h)
      · rcases List.mem_cons.1 h with h | h
        · exact .inr (h ▸ List.mem_cons_self)
        · exact (ih h).imp_right (List.mem_cons_of_mem _)

theorem sorted_insertInto {a : α} {l : List α} (h : l.Pairwise fun a b => key a < key b) :
    (insertInto key a l).Pairwise fun a b => key a < key b := by
  induction l with
  | nil => simp [insertInto]
  | cons c rest ih =>
    obtain ⟨hc, hr⟩ := List.pairwise_cons.1 h
    rw [insertInto]
    split
    · next hlt =>
      refine List.pairwise_cons.2 ⟨fun b hb => ?_, h⟩
      rcases List.mem_cons.1 hb with rfl | hb
      · exact hlt
      · exact String.lt_trans hlt (hc b hb)
    · next hge =>
      split
      · next heq => exact List.pairwise_cons.2 ⟨fun b hb => heq ▸ hc b hb, hr⟩
      · next hne =>
        refine List.pairwise_cons.2 ⟨fun b hb => ?_, ih hr⟩
        rcases mem_insertInto hb with rfl | hb
        · rcases key_trichotomy (key c) (key b) with h' | h' | h'
          · exact h'
          · exact absurd h'.symm hne
          · exact absurd h' hge
        · exact hc b hb

def insert (m : KeyedList key) (a : α) : KeyedList key :=
  ⟨insertInto key a m.toList, sorted_insertInto m.sorted⟩

def erase (m : KeyedList key) (k : String) : KeyedList key :=
  ⟨m.toList.filter fun a => key a ≠ k, m.sorted.sublist List.filter_sublist⟩

/-- Of several items with one key the first is kept. -/
def ofList (items : List α) : KeyedList key :=
  items.foldr (fun a m => m.insert a) empty

theorem find?_insertInto (a : α) (l : List α) (h : l.Pairwise fun a b => key a < key b)
    (k : String) :
    (insertInto key a l).find? (fun b => key b = k) =
      if key a = k then some a else l.find? fun b => key b = k := by
  induction l with
  | nil => by_cases h : key a = k <;> simp [insertInto, h]
  | cons c rest ih =>
    obtain ⟨hc, hr⟩ := List.pairwise_cons.1 h
    rw [insertInto]
    split
    · by_cases hk : key a = k <;> simp [List.find?_cons, hk]
    · split
      · next heq => by_cases hk : key a = k <;> simp_all
      · next hne =>
        have ih := ih hr
        by_cases hk : key a = k
        · have : key c ≠ k := fun hck => hne (hk.trans hck.symm)
          simp_all
        · by_cases hck : key c = k <;> simp_all

theorem get?_insert (m : KeyedList key) (a : α) (k : String) :
    (m.insert a).get? k = if key a = k then some a else m.get? k :=
  find?_insertInto a m.toList m.sorted k

theorem get?_erase (m : KeyedList key) (k k' : String) :
    (m.erase k).get? k' = if k' = k then none else m.get? k' := by
  unfold get? erase
  rw [List.find?_filter]
  split
  · next h =>
    subst h
    simp
  · next h =>
    congr 1
    funext a
    by_cases ha : key a = k' <;> simp [ha, h]

theorem key_of_get? {m : KeyedList key} {k : String} {a : α} (h : m.get? k = some a) :
    key a = k := by
  simpa using List.find?_some h

theorem get?_of_mem {m : KeyedList key} {a : α} (h : a ∈ m.toList) : m.get? (key a) = some a := by
  obtain ⟨l, hl⟩ := m
  simp only [get?] at h ⊢
  induction l with
  | nil => simp at h
  | cons b rest ih =>
    obtain ⟨hb, hr⟩ := List.pairwise_cons.1 hl
    rcases List.mem_cons.1 h with rfl | h
    · simp
    · have : key b ≠ key a := fun e => String.lt_irrefl _ (e ▸ hb a h)
      rw [List.find?_cons, decide_eq_false this]
      exact ih hr h

theorem mem_iff_get? {m : KeyedList key} {a : α} : a ∈ m.toList ↔ m.get? (key a) = some a :=
  ⟨get?_of_mem, fun h => List.mem_of_find?_eq_some h⟩

theorem eq_of_sorted {l l' : List α} (h : l.Pairwise fun a b => key a < key b)
    (h' : l'.Pairwise fun a b => key a < key b) (hm : ∀ a, a ∈ l ↔ a ∈ l') : l = l' := by
  induction l generalizing l' with
  | nil =>
    cases l' with
    | nil => rfl
    | cons b _ => simpa using (hm b).2 List.mem_cons_self
  | cons a rest ih =>
    cases l' with
    | nil => simpa using (hm a).1 List.mem_cons_self
    | cons b rest' =>
      obtain ⟨ha, hr⟩ := List.pairwise_cons.1 h
      obtain ⟨hb, hr'⟩ := List.pairwise_cons.1 h'
      have hab : a = b := by
        rcases List.mem_cons.1 ((hm a).1 List.mem_cons_self) with e | h1
        · exact e
        · rcases List.mem_cons.1 ((hm b).2 List.mem_cons_self) with e | h2
          · exact e.symm
          · exact absurd (String.lt_trans (hb a h1) (ha b h2)) (String.lt_irrefl _)
      subst hab
      congr 1
      refine ih hr hr' fun c => ⟨fun hc => ?_, fun hc => ?_⟩
      · rcases List.mem_cons.1 ((hm c).1 (List.mem_cons_of_mem _ hc)) with rfl | h
        · exact absurd (ha c hc) (String.lt_irrefl _)
        · exact h
      · rcases List.mem_cons.1 ((hm c).2 (List.mem_cons_of_mem _ hc)) with rfl | h
        · exact absurd (hb c hc) (String.lt_irrefl _)
        · exact h

theorem ext {m m' : KeyedList key} (h : ∀ k, m.get? k = m'.get? k) : m = m' := by
  obtain ⟨l, hl⟩ := m
  obtain ⟨l', hl'⟩ := m'
  have : l = l' := eq_of_sorted hl hl' fun a => by
    have h1 := mem_iff_get? (m := ⟨l, hl⟩) (a := a)
    have h2 := mem_iff_get? (m := ⟨l', hl'⟩) (a := a)
    rw [h] at h1
    exact h1.trans h2.symm
  subst this
  rfl

end KeyedList

end CurrencyLedger
