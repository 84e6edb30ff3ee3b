import CurrencyLedger.Proofs.Ledger.Total

/-!
Operations that write over each other. Each makes its changes on the ledger as it was before all of
them, and the last change for a balance stays: what an earlier operation has added to that balance
is lost. `total_commit_add_lost` accounts for it.
-/

namespace CurrencyLedger

instance (w : Change) (place : Place) : Decidable (w.IsFor place) :=
  inferInstanceAs (Decidable (_ = _))

/-- The balance that some changes leave, if one of them is for it. -/
def Change.written? (changes : List Change) (a : Address) (c : CurrencyId) : Option Int :=
  (changes.filter fun w => w.IsFor (.balance a c)).getLast?.map fun w =>
    w.payload.magnitude?.getD 0

namespace Change

theorem written?_append (changes changes' : List Change) (a : Address) (c : CurrencyId) :
    written? (changes ++ changes') a c = (written? changes' a c).or (written? changes a c) := by
  simp [written?, List.getLast?_append, Option.map_or]

theorem written?_eq_none {changes : List Change} {a : Address} {c : CurrencyId} :
    written? changes a c = none ↔ ∀ w ∈ changes, ¬w.IsFor (.balance a c) := by
  simp [written?]

theorem exists_of_written? {changes : List Change} {a : Address} {c : CurrencyId} {n : Int}
    (h : written? changes a c = some n) :
    ∃ w ∈ changes, w.IsFor (.balance a c) ∧ w.payload.magnitude?.getD 0 = n := by
  obtain ⟨w, hw, hn⟩ := Option.map_eq_some_iff.1 h
  obtain ⟨hmem, hfor⟩ := List.mem_filter.1 (List.mem_of_getLast? hw)
  exact ⟨w, hmem, of_decide_eq_true hfor, hn⟩

end Change

namespace Store

open Change

/-- What some changes add to a balance. -/
def gain (store : Store) (changes : List Change) (a : Address) (c : CurrencyId) : Int :=
  ((written? changes a c).map fun n => n - store.balance a c).getD 0

/-- What operations add to a balance, each by itself. -/
def gains (store : Store) (a : Address) (c : CurrencyId) : Accepted → Int
  | [] => 0
  | entry :: later => store.gain entry.2 a c + gains store a c later

/-- What is lost at a balance: what operations add to it before another one writes it again. -/
def lost (store : Store) (a : Address) (c : CurrencyId) : Accepted → Int
  | [] => 0
  | entry :: later =>
    (if (written? (later.flatMap Prod.snd) a c).isSome then store.gain entry.2 a c else 0) +
      lost store a c later

variable {store store' : Store} {accepted : Accepted} {a : Address} {c : CurrencyId}

theorem gain_of_not_written {changes : List Change} (h : written? changes a c = none) :
    store.gain changes a c = 0 := by
  rw [gain, h]
  rfl

theorem gain_append (changes changes' : List Change) :
    store.gain (changes ++ changes') a c =
      if (written? changes' a c).isSome then store.gain changes' a c
      else store.gain changes a c := by
  simp only [gain, written?_append]
  cases written? changes' a c <;> rfl

/-- What stays is what all operations add, without what is lost. -/
theorem gain_add_lost (store : Store) (accepted : Accepted) (a : Address) (c : CurrencyId) :
    store.gain (accepted.flatMap Prod.snd) a c + store.lost a c accepted =
      store.gains a c accepted := by
  induction accepted with
  | nil => rfl
  | cons entry later ih =>
    rw [List.flatMap_cons, gain_append, lost, gains, ← ih]
    split
    · omega
    · next hnone =>
      have hlater : store.gain (later.flatMap Prod.snd) a c = 0 :=
        gain_of_not_written (Option.not_isSome_iff_eq_none.1 hnone)
      omega

theorem sum_gains {addresses : Finset Address}
    (h : ∀ entry ∈ accepted, ∑ b ∈ addresses, store.gain entry.2 b c = 0) :
    ∑ b ∈ addresses, store.gains b c accepted = 0 := by
  induction accepted with
  | nil => exact Finset.sum_eq_zero fun _ _ => rfl
  | cons entry later ih =>
    simp only [gains, Finset.sum_add_distrib]
    rw [h entry List.mem_cons_self, ih fun other ho => h other (List.mem_cons_of_mem _ ho)]
    rfl

/-- Nothing is lost at a balance that no two operations write. -/
theorem lost_eq_zero (apart : accepted.Pairwise fun entry later =>
    written? entry.2 a c = none ∨ written? later.2 a c = none) : store.lost a c accepted = 0 := by
  induction accepted with
  | nil => rfl
  | cons entry later ih =>
    obtain ⟨hentry, hlater⟩ := List.pairwise_cons.1 apart
    rw [lost, ih hlater, Int.add_zero]
    split
    · next hsome =>
      obtain ⟨n, hn⟩ := Option.isSome_iff_exists.1 hsome
      obtain ⟨w, hw, hfor, -⟩ := exists_of_written? hn
      obtain ⟨other, hother, hmem⟩ := List.mem_flatMap.1 hw
      rcases hentry other hother with hnone | hnone
      · exact gain_of_not_written hnone
      · exact absurd hfor (written?_eq_none.1 hnone w hmem)
    · rfl

theorem exists_written_of_lost (h : store.lost a c accepted ≠ 0) :
    ∃ w ∈ writes accepted, w.2.IsFor (.balance a c) := by
  by_contra unwritten
  refine h (lost_eq_zero (List.pairwise_of_forall_mem_list fun entry he _ _ => .inl ?_))
  refine written?_eq_none.2 fun w hw hfor => unwritten ⟨(entry.1, w), ?_, hfor⟩
  exact mem_writes.2 ⟨entry, he, rfl, hw⟩

theorem map_snd_writes (accepted : Accepted) :
    (writes accepted).map Prod.snd = accepted.flatMap Prod.snd := by
  simp [writes, List.map_flatMap, Function.comp_def]

/-- The last change for a place is the last write to its key. -/
theorem getLast?_writesTo (accepted : Accepted) (place : Place) :
    (writesTo accepted place.key).getLast?.map Prod.snd =
      ((accepted.flatMap Prod.snd).filter fun w => w.IsFor place).getLast? := by
  rw [← map_snd_writes, List.filter_map, List.getLast?_map]
  rfl

section commit

variable {height : Height} {records : List Record}
variable (h : store.commit height accepted = .ok (records, store'))
include h

theorem balance_commit
    (replace : ∀ w ∈ writes accepted, w.2.IsFor (.balance a c) → w.2.strategy = .replace) :
    store'.balance a c = store.balance a c + store.gain (accepted.flatMap Prod.snd) a c := by
  have hat : store'.at? (.balance a c) = _ := payload?_commit h fun w hw =>
    replace w (mem_writesTo_key.1 hw).1 (mem_writesTo_key.1 hw).2
  have hlast : written? (accepted.flatMap Prod.snd) a c =
      (writesTo accepted (Place.balance a c).key).getLast?.map fun w =>
        w.2.payload.magnitude?.getD 0 := by
    rw [written?, ← getLast?_writesTo, Option.map_map]
    rfl
  rw [gain, hlast, balance, balance?, hat]
  cases (writesTo accepted (Place.balance a c).key).getLast? with
  | none =>
    rw [Option.map_none, Option.none_or, Option.map_none, Option.map_none, Option.getD_none,
      Int.add_zero]
    rfl
  | some w =>
    simp only [Option.map_some, Option.some_or, Option.bind_some, Option.getD_some]
    omega

variable (keyed : store.IsKeyed) (regular : ∀ w ∈ writes accepted, w.2.Regular)
include keyed regular

/-- A commit changes a total by what the operations add, without what is lost. -/
theorem total_commit_add_lost {addresses : Finset Address}
    (written : ∀ b, (∃ w ∈ writes accepted, w.2.IsFor (.balance b c)) → b ∈ addresses) :
    store'.total c + ∑ b ∈ addresses, store.lost b c accepted =
      store.total c + ∑ b ∈ addresses, store.gains b c accepted := by
  have hsub := total_commit keyed regular h written
  have hbalance : ∀ b, store'.balance b c - store.balance b c + store.lost b c accepted =
      store.gains b c accepted := by
    intro b
    rw [← gain_add_lost, balance_commit h fun w hw hfor =>
      (regular w hw).strategy hfor (by simp) (by simp)]
    omega
  have hsum : ∑ b ∈ addresses, (store'.balance b c - store.balance b c) +
      ∑ b ∈ addresses, store.lost b c accepted = ∑ b ∈ addresses, store.gains b c accepted := by
    rw [← Finset.sum_add_distrib]
    exact Finset.sum_congr rfl fun b _ => hbalance b
  omega

end commit

end Store

end CurrencyLedger
