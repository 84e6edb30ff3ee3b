/-!
Checks that go through a list and stop at the first item that fails. `forEach_eq_ok_iff` and
`distinct_eq_ok_iff` say when a list passes.
-/

namespace CurrencyLedger.Check

variable {α κ ε : Type}

/-- Every item passes its own check. -/
def forEach (check : α → Except ε Unit) : List α → Except ε Unit
  | [] => .ok ()
  | a :: rest => do
    check a
    forEach check rest

/-- Every item passes a check that gives its key, no key comes twice, and every item passes a last
check. Of each item all this is looked at before the next item. -/
def distinctFrom [DecidableEq κ] (key : α → Except ε κ) (repeated : κ → ε)
    (last : α → Except ε Unit) : List κ → List α → Except ε Unit
  | _, [] => .ok ()
  | seen, a :: rest => do
    let k ← key a
    if k ∈ seen then .error (repeated k)
    else
      last a
      distinctFrom key repeated last (k :: seen) rest

def distinct [DecidableEq κ] (key : α → Except ε κ) (repeated : κ → ε) (items : List α) :
    Except ε Unit :=
  distinctFrom key repeated (fun _ => .ok ()) [] items

theorem forEach_eq_ok_iff {check : α → Except ε Unit} {items : List α} :
    forEach check items = .ok () ↔ ∀ a ∈ items, check a = .ok () := by
  induction items with
  | nil => simp [forEach]
  | cons a rest ih =>
    cases h : check a with
    | error e => simp [forEach, h, bind, Except.bind]
    | ok u => simp [forEach, h, bind, Except.bind, ih]

theorem distinctFrom_eq_ok_iff [DecidableEq κ] {key : α → Except ε κ} {repeated : κ → ε}
    {last : α → Except ε Unit} {seen : List κ} {items : List α} :
    distinctFrom key repeated last seen items = .ok () ↔
      ∃ ks, items.mapM key = .ok ks ∧ ks.Nodup ∧ (∀ k ∈ ks, k ∉ seen) ∧
        ∀ a ∈ items, last a = .ok () := by
  induction items generalizing seen with
  | nil => simp [distinctFrom, pure, Except.pure]
  | cons a rest ih =>
    rw [distinctFrom, List.mapM_cons]
    cases hk : key a with
    | error e => simp [bind, Except.bind]
    | ok k =>
      by_cases hs : k ∈ seen
      · simp only [bind, Except.bind, hs, if_true, reduceCtorEq, false_iff, not_exists]
        rintro ks ⟨h, -, hn, -⟩
        cases hr : rest.mapM key with
        | error e => simp [hr] at h
        | ok ks' =>
          simp [hr, pure, Except.pure] at h
          exact hn k (h ▸ List.mem_cons_self) hs
      · cases hl : last a with
        | error e => simp [bind, Except.bind, hs, hl]
        | ok u =>
          simp only [bind, Except.bind, hs, if_false, ih]
          constructor
          · rintro ⟨ks, h, hd, hn, hlast⟩
            refine ⟨k :: ks, by simp [h, pure, Except.pure], ?_, ?_, ?_⟩
            · exact List.nodup_cons.2 ⟨fun hm => hn k hm List.mem_cons_self, hd⟩
            · intro k' hk'
              rcases List.mem_cons.1 hk' with rfl | hk'
              · exact hs
              · exact fun hm => hn k' hk' (List.mem_cons_of_mem _ hm)
            · intro b hb
              rcases List.mem_cons.1 hb with rfl | hb
              · exact hl
              · exact hlast b hb
          · rintro ⟨ks, h, hd, hn, hlast⟩
            cases hr : rest.mapM key with
            | error e => simp [hr] at h
            | ok ks' =>
              simp [hr, pure, Except.pure] at h
              subst h
              obtain ⟨hk1, hd1⟩ := List.nodup_cons.1 hd
              refine ⟨ks', rfl, hd1, fun k' hk' hm => ?_, fun b hb =>
                hlast b (List.mem_cons_of_mem _ hb)⟩
              rcases List.mem_cons.1 hm with rfl | hm
              · exact hk1 hk'
              · exact hn k' (List.mem_cons_of_mem _ hk') hm

theorem distinct_eq_ok_iff [DecidableEq κ] {key : α → Except ε κ} {repeated : κ → ε}
    {items : List α} :
    distinct key repeated items = .ok () ↔ ∃ ks, items.mapM key = .ok ks ∧ ks.Nodup := by
  simp [distinct, distinctFrom_eq_ok_iff]

end CurrencyLedger.Check
