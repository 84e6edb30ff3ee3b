import CurrencyLedger.Proofs.Ledger.View

/-!
The sets that a ledger keeps by address: its members and its candidates. A change puts one item in
or takes one out, whatever else is written to the same record. So an item that is there after a
commit was there before or was put in (`Roster.get?_commit_eq_some`), and one that is not was taken
out or had not been there (`Roster.get?_commit_eq_none`).
-/

namespace CurrencyLedger

/-- A set at one place of the ledger, with the changes that put an item in or take one out. A set
that is not recorded is empty. -/
structure Roster {α : Type} (key : α → String) where
  place : Place
  open? : Payload → Option (KeyedList key)
  change : α → Strategy → Change
  isFor_change : ∀ a s, (change a s).IsFor place
  inserted : ∀ a current next, (change a .insert).next? current = some next →
    open? next = some (((current.bind open?).getD .empty).insert a)
  removed : ∀ a current next, (change a .remove).next? current = some next →
    open? next = some (((current.bind open?).getD .empty).erase (key a))

namespace Roster

def members : Roster fun m : Member => m.address.text where
  place := .suffrage
  open? := Payload.members?
  change := Change.member
  isFor_change _ _ := Change.isFor_member.2 rfl
  inserted a current next h := by
    cases current with
    | none => cases h; rfl
    | some p => cases p <;> cases h; rfl
  removed a current next h := by
    cases current with
    | none => cases h; rfl
    | some p => cases p <;> cases h; rfl

def candidates : Roster fun c : Candidate => c.address.text where
  place := .candidates
  open? := Payload.candidates?
  change := Change.candidate
  isFor_change _ _ := Change.isFor_candidate.2 rfl
  inserted a current next h := by
    cases current with
    | none => cases h; rfl
    | some p => cases p <;> cases h; rfl
  removed a current next h := by
    cases current with
    | none => cases h; rfl
    | some p => cases p <;> cases h; rfl

variable {α : Type} {key : α → String} (roster : Roster key)

/-- The set that a payload stands for. -/
def read (current : Option Payload) : KeyedList key :=
  (current.bind roster.open?).getD .empty

/-- The set of a store. -/
def items (store : Store) : KeyedList key :=
  roster.read (store.at? roster.place)

/-- The change puts an item in, or takes one out. -/
def Moves (w : Change) : Prop :=
  ∃ a, w = roster.change a .insert ∨ w = roster.change a .remove

theorem read_inserted {a : α} {current : Option Payload} {next : Payload}
    (h : (roster.change a .insert).next? current = some next) :
    roster.read (some next) = (roster.read current).insert a := by
  rw [read, Option.bind_some, roster.inserted a current next h, Option.getD_some, read]

theorem read_removed {a : α} {current : Option Payload} {next : Payload}
    (h : (roster.change a .remove).next? current = some next) :
    roster.read (some next) = (roster.read current).erase (key a) := by
  rw [read, Option.bind_some, roster.removed a current next h, Option.getD_some, read]

variable {roster}

/-- What is found after a change: the item that it puts in, nothing where it takes one out, or what
was found before. -/
theorem Moves.get?_read {w : Change} (moves : roster.Moves w) {current : Option Payload}
    {next : Payload} (h : w.next? current = some next) (k : String) :
    (∃ a, key a = k ∧ w = roster.change a .insert ∧
      (roster.read (some next)).get? k = some a) ∨
    (∃ a, key a = k ∧ w = roster.change a .remove ∧ (roster.read (some next)).get? k = none) ∨
    (roster.read (some next)).get? k = (roster.read current).get? k := by
  rcases moves with ⟨a, rfl | rfl⟩
  · rw [roster.read_inserted h, KeyedList.get?_insert]
    by_cases hk : key a = k
    · exact .inl ⟨a, hk, rfl, if_pos hk⟩
    · exact .inr (.inr (if_neg hk))
  · rw [roster.read_removed h, KeyedList.get?_erase]
    by_cases hk : k = key a
    · exact .inr (.inl ⟨a, hk.symm, rfl, if_pos hk⟩)
    · exact .inr (.inr (if_neg hk))

section commit

variable {store store' : Store} {height : Height} {accepted : Store.Accepted}
  {records : List Record} (h : store.commit height accepted = .ok (records, store'))
  (moves : ∀ w ∈ Store.writes accepted, w.2.IsFor roster.place → roster.Moves w.2)
include h moves

/-- An item after a commit was there before it, or was put in. -/
theorem get?_commit_eq_some {k : String} {a : α} (there : (roster.items store').get? k = some a) :
    (roster.items store).get? k = some a ∨
      ∃ w ∈ Store.writes accepted, w.2 = roster.change a .insert := by
  refine Store.commit_induction (P := fun current => (roster.read current).get? k = some a →
    (roster.items store).get? k = some a ∨ ∃ w ∈ Store.writes accepted,
      w.2 = roster.change a .insert) h ?_ ?_ there
  · intro before
    exact .inl before
  · intro w hw current next ih hnext found
    obtain ⟨hw, hfor⟩ := Store.mem_writesTo_key.1 hw
    rcases (moves w hw hfor).get?_read hnext k with ⟨b, -, hput, hb⟩ | ⟨b, -, -, hb⟩ | hsame
    · rw [hb] at found
      cases found
      exact .inr ⟨w, hw, hput⟩
    · rw [hb] at found
      cases found
    · exact ih (hsame ▸ found)

/-- What is missing after a commit was missing before it, or was taken out. -/
theorem get?_commit_eq_none {k : String} (missing : (roster.items store').get? k = none) :
    (roster.items store).get? k = none ∨
      ∃ w ∈ Store.writes accepted, ∃ a, key a = k ∧ w.2 = roster.change a .remove := by
  refine Store.commit_induction (P := fun current => (roster.read current).get? k = none →
    (roster.items store).get? k = none ∨ ∃ w ∈ Store.writes accepted, ∃ a, key a = k ∧
      w.2 = roster.change a .remove) h ?_ ?_ missing
  · intro before
    exact .inl before
  · intro w hw current next ih hnext found
    obtain ⟨hw, hfor⟩ := Store.mem_writesTo_key.1 hw
    rcases (moves w hw hfor).get?_read hnext k with ⟨b, -, -, hb⟩ | ⟨b, hk, htaken, -⟩ | hsame
    · rw [hb] at found
      cases found
    · exact .inr ⟨w, hw, b, hk, htaken⟩
    · exact ih (hsame ▸ found)

/-- An item that is taken out is missing, unless another is put in under its key. -/
theorem get?_commit_of_removed {a : α} {digest : Digest}
    (taken : (digest, roster.change a .remove) ∈ Store.writes accepted)
    (alone : ∀ w ∈ Store.writes accepted, ∀ b, key b = key a → w.2 ≠ roster.change b .insert) :
    (roster.items store').get? (key a) = none := by
  have hmem := Store.mem_writesTo_key.2 ⟨taken, roster.isFor_change a .remove⟩
  refine Store.commit_of_brought (P := fun current => (roster.read current).get? (key a) = none) h
    hmem ?_ ?_
  · intro current next hnext
    rw [roster.read_removed hnext, KeyedList.get?_erase, if_pos rfl]
  · intro w hw current next ih hnext
    obtain ⟨hw, hfor⟩ := Store.mem_writesTo_key.1 hw
    rcases (moves w hw hfor).get?_read hnext (key a) with ⟨b, hk, hput, -⟩ | ⟨b, -, -, hb⟩ | hsame
    · exact absurd hput (alone w hw b hk)
    · exact hb
    · exact hsame.trans ih

end commit

end Roster

namespace Store

def member? (store : Store) (a : Address) : Option Member :=
  (Roster.members.items store).get? a.text

def candidate? (store : Store) (a : Address) : Option Candidate :=
  (Roster.candidates.items store).get? a.text

variable {store : Store} {a : Address}

theorem address_of_member? {m : Member} (h : store.member? a = some m) : m.address = a := by
  have htext := @KeyedList.key_of_get? _ _ (Roster.members.items store) _ _ h
  exact Address.text_injective htext

theorem address_of_candidate? {c : Candidate} (h : store.candidate? a = some c) :
    c.address = a := by
  have htext := @KeyedList.key_of_get? _ _ (Roster.candidates.items store) _ _ h
  exact Address.text_injective htext

end Store

end CurrencyLedger
