import CurrencyLedger.Collection.Distinct
import Mathlib.Data.List.Forall2

/-!
Computations that may fail, and lists that are gone through by them. A computation that succeeds is
taken apart by `bind_eq_ok`, a list by `mapM_eq_ok_iff`. `FailsBy` says what errors a computation
can have.
-/

namespace CurrencyLedger.Traversal

variable {ε α β : Type}

theorem bind_eq_ok {x : Except ε α} {f : α → Except ε β} {b : β} :
    x >>= f = .ok b ↔ ∃ a, x = .ok a ∧ f a = .ok b := by
  cases x <;> simp [bind, Except.bind]

/-- A check that comes first has to pass. -/
theorem check_bind_eq_ok {x : Except ε Unit} {f : Unit → Except ε β} {b : β} :
    x >>= f = .ok b ↔ x = .ok () ∧ f () = .ok b := by
  cases x <;> simp [bind, Except.bind]

theorem pure_eq_ok {a b : α} : (pure a : Except ε α) = .ok b ↔ a = b := by
  simp [pure, Except.pure]

/-- What goes on with no way to fail adds no errors. -/
theorem bind_pure_eq_error {x : Except ε α} {f : α → β} {e : ε} :
    (x >>= fun a => pure (f a)) = .error e ↔ x = .error e := by
  cases x <;> simp [bind, Except.bind, pure, Except.pure]

/-- What goes on without an error of some kind adds none of that kind. -/
theorem bind_eq_error_of_ne {x : Except ε α} {f : α → Except ε β} {e : ε}
    (h : ∀ a, f a ≠ .error e) : x >>= f = .error e ↔ x = .error e := by
  cases x with
  | error e' => simp [bind, Except.bind]
  | ok a => simp [bind, Except.bind, h a]

theorem mapError_eq_ok {δ : Type} {x : Except ε α} {f : ε → δ} {a : α} :
    x.mapError f = .ok a ↔ x = .ok a := by
  cases x <;> simp [Except.mapError]

theorem map_eq_ok {x : Except ε α} {f : α → β} {b : β} :
    x.map f = .ok b ↔ ∃ a, x = .ok a ∧ f a = b := by
  cases x <;> simp [Except.map]

/-- What reads back is written differently for different values. -/
theorem injective_of_reads {print : α → β} {parse : β → Except ε α}
    (h : ∀ a, parse (print a) = .ok a) : Function.Injective print := by
  intro a b heq
  have ha := h a
  rw [heq, h b] at ha
  exact (Except.ok.inj ha).symm

theorem exists_of_isOk {x : Except ε α} (h : x.isOk = true) : ∃ a, x = .ok a := by
  cases x with
  | error e => cases h
  | ok a => exact ⟨a, rfl⟩

theorem eq_ok_of_toOption {x : Except ε α} {a : α} (h : x.toOption = some a) : x = .ok a := by
  cases x with
  | ok b => exact congrArg _ (Option.some.inj h)
  | error e => cases h

/-- A list is gone through if every item is. -/
theorem mapM_eq_ok_iff {f : α → Except ε β} {items : List α} {results : List β} :
    items.mapM f = .ok results ↔ List.Forall₂ (fun a b => f a = .ok b) items results := by
  induction items generalizing results with
  | nil => cases results <;> simp [pure_eq_ok]
  | cons a rest ih =>
    rw [List.mapM_cons]
    simp only [bind_eq_ok, pure_eq_ok, ih]
    constructor
    · rintro ⟨b, hb, bs, hbs, rfl⟩
      exact .cons hb hbs
    · intro h
      cases h with
      | cons hb hbs => exact ⟨_, hb, _, hbs, rfl⟩

/-- A step that cannot fail is a function. -/
theorem mapM_eq_map {f : α → Except ε β} {g : α → β} {items : List α}
    (h : ∀ a ∈ items, f a = .ok (g a)) : items.mapM f = .ok (items.map g) := by
  rw [mapM_eq_ok_iff, List.forall₂_map_right_iff]
  exact List.forall₂_same.2 h

/-- Where each step that succeeds gives what a function gives, so do all. -/
theorem eq_map_of_mapM {f : α → Except ε β} {g : α → β} {items : List α} {results : List β}
    (h : items.mapM f = .ok results) (hg : ∀ a ∈ items, ∀ b, f a = .ok b → b = g a) :
    results = items.map g := by
  induction mapM_eq_ok_iff.1 h with
  | nil => rfl
  | @cons a b as bs hab hall ih =>
    rw [hg a List.mem_cons_self b hab,
      ih (mapM_eq_ok_iff.2 hall) fun a' ha' => hg a' (List.mem_cons_of_mem _ ha'), List.map_cons]

/-- A list is gone through up to the first item that fails. -/
theorem mapM_eq_error_iff {f : α → Except ε β} {items : List α} {e : ε} :
    items.mapM f = .error e ↔ ∃ before a after, items = before ++ a :: after ∧
      (∀ a' ∈ before, ∃ b, f a' = .ok b) ∧ f a = .error e := by
  induction items with
  | nil => simp [pure, Except.pure]
  | cons a rest ih =>
    rw [List.mapM_cons]
    cases ha : f a with
    | error e' =>
      constructor
      · intro h
        cases h
        exact ⟨[], a, rest, rfl, by simp, ha⟩
      · rintro ⟨before, a', after, hsplit, hbefore, hfails⟩
        cases before with
        | nil =>
          cases hsplit
          rw [ha] at hfails
          cases hfails
          rfl
        | cons first before =>
          cases hsplit
          obtain ⟨b, hb⟩ := hbefore a List.mem_cons_self
          rw [ha] at hb
          cases hb
    | ok b =>
      change (rest.mapM f >>= fun bs => pure (b :: bs)) = .error e ↔ _
      rw [bind_pure_eq_error, ih]
      constructor
      · rintro ⟨before, a', after, rfl, hbefore, hfails⟩
        exact ⟨a :: before, a', after, rfl, List.forall_mem_cons.2 ⟨⟨b, ha⟩, hbefore⟩, hfails⟩
      · rintro ⟨before, a', after, hsplit, hbefore, hfails⟩
        cases before with
        | nil =>
          cases hsplit
          rw [ha] at hfails
          cases hfails
        | cons first before =>
          cases hsplit
          exact ⟨before, a', after, rfl, (List.forall_mem_cons.1 hbefore).2, hfails⟩

/-- A fold fails at the first item that fails on what the items before it give. -/
theorem foldlM_eq_error_iff {f : β → α → Except ε β} {items : List α} {b : β} {e : ε} :
    items.foldlM f b = .error e ↔ ∃ before a after, items = before ++ a :: after ∧
      ∃ b', before.foldlM f b = .ok b' ∧ f b' a = .error e := by
  induction items generalizing b with
  | nil => simp [pure, Except.pure]
  | cons a rest ih =>
    rw [List.foldlM_cons]
    constructor
    · intro h
      cases ha : f b a with
      | error e' =>
        rw [ha] at h
        cases h
        exact ⟨[], a, rest, rfl, b, rfl, ha⟩
      | ok b' =>
        rw [ha] at h
        obtain ⟨before, a', after, rfl, b'', hbefore, hfails⟩ := ih.1 h
        refine ⟨a :: before, a', after, rfl, b'', ?_, hfails⟩
        rw [List.foldlM_cons, ha]
        exact hbefore
    · rintro ⟨before, a', after, hsplit, b', hbefore, hfails⟩
      cases before with
      | nil =>
        cases hsplit
        cases hbefore
        rw [hfails]
        rfl
      | cons first before =>
        cases hsplit
        obtain ⟨b'', hb'', hbefore⟩ := bind_eq_ok.1 hbefore
        rw [hb'']
        exact ih.2 ⟨before, a', after, rfl, b', hbefore, hfails⟩

section related

variable {R : α → β → Prop} {as : List α} {bs : List β}

theorem exists_right (h : List.Forall₂ R as bs) {a : α} (ha : a ∈ as) : ∃ b ∈ bs, R a b := by
  induction h with
  | nil => cases ha
  | @cons a' b as bs hab _ ih =>
    rcases List.mem_cons.1 ha with rfl | ha
    · exact ⟨b, List.mem_cons_self, hab⟩
    · obtain ⟨b', hb', hr⟩ := ih ha
      exact ⟨b', List.mem_cons_of_mem _ hb', hr⟩

theorem exists_left (h : List.Forall₂ R as bs) {b : β} (hb : b ∈ bs) : ∃ a ∈ as, R a b :=
  exists_right (List.Forall₂.flip h) hb

theorem forall₂_and_right {P : β → Prop} :
    List.Forall₂ (fun a b => R a b ∧ P b) as bs ↔ List.Forall₂ R as bs ∧ ∀ b ∈ bs, P b := by
  constructor
  · intro h
    refine ⟨h.imp fun _ _ => And.left, fun b hb => ?_⟩
    obtain ⟨a, -, -, hb⟩ := exists_left h hb
    exact hb
  · rintro ⟨h, hP⟩
    induction h with
    | nil => exact .nil
    | cons hab _ ih =>
      obtain ⟨hb, hbs⟩ := List.forall_mem_cons.1 hP
      exact .cons ⟨hab, hb⟩ (ih hbs)

/-- Items that go with the same results can stand for each other. -/
theorem forall₂_congr_left {as' : List α} {Q : α → α → Prop}
    (same : ∀ a a', Q a a' → ∀ b, R a b ↔ R a' b) (h : List.Forall₂ Q as as') (bs : List β) :
    List.Forall₂ R as bs ↔ List.Forall₂ R as' bs := by
  induction h generalizing bs with
  | nil => rfl
  | cons haa _ ih => simp only [List.forall₂_cons_left_iff, same _ _ haa, ih]

end related

/-- A list can be gone through if each of its items can. -/
theorem exists_mapM_iff {f : α → Except ε β} {items : List α} :
    (∃ results, items.mapM f = .ok results) ↔ ∀ a ∈ items, ∃ b, f a = .ok b := by
  constructor
  · rintro ⟨results, h⟩ a ha
    obtain ⟨b, -, hb⟩ := exists_right (mapM_eq_ok_iff.1 h) ha
    exact ⟨b, hb⟩
  · intro h
    cases hresult : items.mapM f with
    | ok results => exact ⟨results, rfl⟩
    | error e =>
      obtain ⟨before, a, after, rfl, -, hfails⟩ := mapM_eq_error_iff.1 hresult
      obtain ⟨b, hb⟩ := h a (by simp)
      rw [hfails] at hb
      cases hb

theorem mem_mapM {f : α → Except ε β} {items : List α} {results : List β}
    (h : items.mapM f = .ok results) {b : β} : b ∈ results ↔ ∃ a ∈ items, f a = .ok b := by
  have hall := mapM_eq_ok_iff.1 h
  constructor
  · exact exists_left hall
  · rintro ⟨a, ha, hb⟩
    obtain ⟨b', hb', hok⟩ := exists_right hall ha
    obtain rfl := Except.ok.inj (hb.symm.trans hok)
    exact hb'

/-- What sets the items of a list apart sets apart what belongs to them. -/
theorem pairwise_of_forall₂ {P : α → β → Prop} {R : α → α → Prop} {S : β → β → Prop} {as : List α}
    {bs : List β} (h : List.Forall₂ P as bs) (apart : as.Pairwise R)
    (step : ∀ a b, P a b → ∀ a' b', P a' b' → R a a' → S b b') : bs.Pairwise S := by
  induction h with
  | nil => exact .nil
  | @cons a b as bs hab hall ih =>
    obtain ⟨ha, has⟩ := List.pairwise_cons.1 apart
    refine List.pairwise_cons.2 ⟨fun b' hb' => ?_, ih has⟩
    obtain ⟨a', ha', hab'⟩ := exists_left hall hb'
    exact step a b hab a' b' hab' (ha a' ha')

theorem pairwise_of_mapM {f : α → Except ε β} {items : List α} {results : List β}
    {R : α → α → Prop} {S : β → β → Prop} (h : items.mapM f = .ok results)
    (apart : items.Pairwise R)
    (step : ∀ a b, f a = .ok b → ∀ a' b', f a' = .ok b' → R a a' → S b b') :
    results.Pairwise S :=
  pairwise_of_forall₂ (mapM_eq_ok_iff.1 h) apart step

/-- Every error of a computation has a property. -/
def FailsBy (P : ε → Prop) (x : Except ε α) : Prop :=
  ∀ e, x = .error e → P e

namespace FailsBy

variable {P Q : ε → Prop} {x : Except ε α}

theorem ok (a : α) : FailsBy P (.ok a : Except ε α) := by
  intro e he
  cases he

theorem pure (a : α) : FailsBy P (Pure.pure a : Except ε α) :=
  ok a

theorem error {e : ε} (h : P e) : FailsBy P (.error e : Except ε α) := by
  intro e' he
  exact Except.error.inj he ▸ h

theorem mono (h : FailsBy P x) (imp : ∀ e, P e → Q e) : FailsBy Q x :=
  fun e he => imp e (h e he)

theorem bind {f : α → Except ε β} (h : FailsBy P x) (hf : ∀ a, x = .ok a → FailsBy P (f a)) :
    FailsBy P (x >>= f) := by
  cases x with
  | error e => exact error (h e rfl)
  | ok a => exact hf a rfl

/-- A step that succeeds has no errors. -/
theorem bind_of_ok {f : α → Except ε β} {a : α} (h : x = .ok a) (hf : FailsBy P (f a)) :
    FailsBy P (x >>= f) := by
  rw [h]
  exact hf

theorem map {f : α → β} (h : FailsBy P x) : FailsBy P (x.map f) := by
  cases x with
  | error e => exact error (h e rfl)
  | ok a => exact ok (f a)

theorem mapError {δ : Type} {f : ε → δ} {R : δ → Prop} (h : ∀ e, x = .error e → R (f e)) :
    FailsBy R (x.mapError f) := by
  cases x with
  | error e => exact error (h e rfl)
  | ok a => exact ok a

theorem mapM {f : α → Except ε β} {items : List α} (h : ∀ a ∈ items, FailsBy P (f a)) :
    FailsBy P (items.mapM f) := by
  induction items with
  | nil => exact pure []
  | cons a rest ih =>
    rw [List.mapM_cons]
    refine (h a List.mem_cons_self).bind fun b _ => ?_
    refine (ih fun a' ha' => h a' (List.mem_cons_of_mem _ ha')).bind fun bs _ => ?_
    exact pure (b :: bs)

theorem forEach {check : α → Except ε Unit} {items : List α}
    (h : ∀ a ∈ items, FailsBy P (check a)) : FailsBy P (Check.forEach check items) := by
  induction items with
  | nil => exact ok ()
  | cons a rest ih =>
    refine (h a List.mem_cons_self).bind fun _ _ => ?_
    exact ih fun a' ha' => h a' (List.mem_cons_of_mem _ ha')

theorem distinctFrom {κ : Type} [DecidableEq κ] {key : α → Except ε κ} {repeated : κ → ε}
    {last : α → Except ε Unit} {items : List α} (hkey : ∀ a ∈ items, FailsBy P (key a))
    (hrepeated : ∀ k, P (repeated k)) (hlast : ∀ a ∈ items, FailsBy P (last a)) (seen : List κ) :
    FailsBy P (Check.distinctFrom key repeated last seen items) := by
  induction items generalizing seen with
  | nil => exact ok ()
  | cons a rest ih =>
    refine (hkey a List.mem_cons_self).bind fun k _ => ?_
    split
    · exact error (hrepeated k)
    · refine (hlast a List.mem_cons_self).bind fun _ _ => ?_
      exact ih (fun a' ha' => hkey a' (List.mem_cons_of_mem _ ha'))
        (fun a' ha' => hlast a' (List.mem_cons_of_mem _ ha')) (k :: seen)

end FailsBy

/-- A list may be gone through in any order if no two of its items yield something. -/
theorem flatMap_eq_of_perm {f : α → List β} {items items' : List α}
    (perm : items.Perm items') (apart : items.Pairwise fun a b => f a = [] ∨ f b = []) :
    items.flatMap f = items'.flatMap f := by
  induction perm with
  | nil => rfl
  | cons a _ ih => rw [List.flatMap_cons, List.flatMap_cons, ih (List.pairwise_cons.1 apart).2]
  | swap a b rest =>
    have hab := (List.pairwise_cons.1 apart).1 a List.mem_cons_self
    simp only [List.flatMap_cons]
    rcases hab with h | h
    · rw [h, List.nil_append, List.nil_append]
    · rw [h, List.nil_append, List.nil_append]
  | trans perm _ ih ih' =>
    rw [ih apart]
    apply ih'
    exact (perm.pairwise_iff fun h => h.symm).1 apart

end CurrencyLedger.Traversal

namespace CurrencyLedger.Check

open Traversal

variable {α κ ε : Type} [DecidableEq κ] {key : α → Except ε κ} {repeated : κ → ε} {items : List α}

theorem distinct_eq_ok : distinct key repeated items = .ok () ↔
    ∃ ks, List.Forall₂ (fun a k => key a = .ok k) items ks ∧ ks.Nodup := by
  simp only [distinct_eq_ok_iff, mapM_eq_ok_iff]

/-- Where an item in order has a key, all items have to be in order and their keys distinct. -/
theorem distinct_eq_ok_and {P : α → Prop} {R : α → κ → Prop}
    (hkey : ∀ a k, key a = .ok k ↔ P a ∧ R a k) : distinct key repeated items = .ok () ↔
      (∀ a ∈ items, P a) ∧ ∃ ks, List.Forall₂ R items ks ∧ ks.Nodup := by
  simp only [distinct_eq_ok, hkey, List.forall₂_and_left, and_assoc, exists_and_left]

theorem distinct_eq_ok_map {P : α → Prop} {f : α → κ}
    (hkey : ∀ a k, key a = .ok k ↔ P a ∧ f a = k) : distinct key repeated items = .ok () ↔
      (∀ a ∈ items, P a) ∧ (items.map f).Nodup := by
  have hmap (ks : List κ) : List.Forall₂ (fun a k => f a = k) items ks ↔ items.map f = ks := by
    rw [← List.forall₂_eq_eq_eq, List.forall₂_map_left_iff]
  simp only [distinct_eq_ok_and hkey, hmap, exists_eq_left']

end CurrencyLedger.Check
