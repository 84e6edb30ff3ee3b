import CurrencyLedger.Proofs.Ledger.Atomic
import CurrencyLedger.Proofs.Processing.Accounting

/-!
Mergers through any calls, of which some fail. A call that fails leaves the merger as it is, so the
merger is the one that the other calls make alone (`mergeAll_taken`). What these make of the payload
is told by relations that follow no loop: `Makes` for one change, which says what is found under
each key of the new set, and `Leads` for one after the other. `all_or_nothing` puts both together
with the record that comes out at the end.
-/

namespace CurrencyLedger

open Traversal

/-- What is found under a key of a set after a change of it, by what is found in the set of the
change and what was found before. -/
def Strategy.found {α : Type} : Strategy → (delta base : Option α) → Option α
  | .replace, delta, _ => delta
  | .insert, delta, base => delta.or base
  | .remove, delta, base => if delta.isSome then none else base

namespace Merger

section applySet

variable {α : Type} {key : α → String}

/-- Of the items of a sorted list at most one goes to each key. -/
theorem get?_foldl_insert {items : List α} (sorted : items.Pairwise fun a b => key a < key b)
    (base : KeyedList key) (k : String) :
    (items.foldl (fun m a => m.insert a) base).get? k =
      (items.find? fun a => key a = k).or (base.get? k) := by
  induction items generalizing base with
  | nil => rfl
  | cons a rest ih =>
    obtain ⟨ha, hrest⟩ := List.pairwise_cons.1 sorted
    rw [List.foldl_cons, ih hrest, KeyedList.get?_insert, List.find?_cons]
    by_cases hkey : key a = k
    · have hnone : (rest.find? fun b => key b = k) = none := by
        refine List.find?_eq_none.2 fun b hb => ?_
        simpa using fun h : key b = k => String.lt_irrefl _ (hkey ▸ h ▸ ha b hb)
      simp [hkey, hnone]
    · simp [hkey]

theorem get?_foldl_erase (items : List α) (base : KeyedList key) (k : String) :
    (items.foldl (fun m a => m.erase (key a)) base).get? k =
      if (items.find? fun a => key a = k).isSome then none else base.get? k := by
  induction items generalizing base with
  | nil => rfl
  | cons a rest ih =>
    rw [List.foldl_cons, ih, KeyedList.get?_erase, List.find?_cons]
    by_cases hkey : key a = k
    · simp [hkey]
    · simp [hkey, Ne.symm hkey]

theorem get?_applySet {s : Strategy} (h : s ≠ .replace) (base delta : KeyedList key) (k : String) :
    (applySet (s = .insert) base delta).get? k = s.found (delta.get? k) (base.get? k) := by
  cases s with
  | replace => exact absurd rfl h
  | insert => exact get?_foldl_insert delta.sorted base k
  | remove => exact get?_foldl_erase delta.toList base k

theorem eq_applySet_iff {s : Strategy} (h : s ≠ .replace) {base delta next : KeyedList key} :
    next = applySet (s = .insert) base delta ↔
      ∀ k, next.get? k = s.found (delta.get? k) (base.get? k) := by
  constructor
  · rintro rfl
    exact get?_applySet h base delta
  · exact fun hfound => KeyedList.ext fun k => (hfound k).trans (get?_applySet h base delta k).symm

end applySet

section mergeSet?

variable {add : Bool} {current : Option Payload}

theorem mergeSet?_members {base : Members} (h : current.getD (.members .empty) = .members base)
    (delta : Members) :
    mergeSet? add current (.members delta) = some (.members (applySet add base delta)) := by
  cases current <;> cases h <;> rfl

theorem mergeSet?_candidates {base : Candidates}
    (h : current.getD (.candidates .empty) = .candidates base) (delta : Candidates) :
    mergeSet? add current (.candidates delta) = some (.candidates (applySet add base delta)) := by
  cases current <;> cases h <;> rfl

theorem mergeSet?_eq_none_iff {delta : Payload} : mergeSet? add current delta = none ↔
    (delta.kind ≠ .members ∧ delta.kind ≠ .candidates) ∨
      ∃ p, current = some p ∧ p.kind ≠ delta.kind := by
  cases current with
  | none => cases delta <;> simp [mergeSet?, Payload.kind]
  | some p => cases p <;> cases delta <;> simp [mergeSet?, Payload.kind]

end mergeSet?

end Merger

namespace Change

/-- What a change makes of a payload. A set that is not there yet is empty. -/
inductive Makes (c : Change) (current : Option Payload) : Payload → Prop
  | replaced : c.strategy = .replace → Makes c current c.payload
  | members {base delta next : Members} : c.strategy ≠ .replace → c.payload = .members delta →
      current.getD (.members .empty) = .members base →
      (∀ k, next.get? k = c.strategy.found (delta.get? k) (base.get? k)) →
      Makes c current (.members next)
  | candidates {base delta next : Candidates} : c.strategy ≠ .replace →
      c.payload = .candidates delta →
      current.getD (.candidates .empty) = .candidates base →
      (∀ k, next.get? k = c.strategy.found (delta.get? k) (base.get? k)) →
      Makes c current (.candidates next)

/-- Changes lead from a payload to another, each made of what the one before it leaves. -/
inductive Leads : Option Payload → List Change → Option Payload → Prop
  | nil (current : Option Payload) : Leads current [] current
  | cons {c : Change} {changes : List Change} {current last : Option Payload} {next : Payload} :
      c.Makes current next → Leads (some next) changes last → Leads current (c :: changes) last

/-- A change cannot be made of a payload: it is to add items or to take them away, but has no set
of items, or has one of another kind than the payload. -/
def Misfits (c : Change) (current : Option Payload) : Prop :=
  (c.strategy = .insert ∨ c.strategy = .remove) ∧
    ((c.payload.kind ≠ .members ∧ c.payload.kind ≠ .candidates) ∨
      ∃ p, current = some p ∧ p.kind ≠ c.payload.kind)

variable {c : Change} {current : Option Payload}

theorem next?_of_ne_replace (h : c.strategy ≠ .replace) (current : Option Payload) :
    c.next? current = Merger.mergeSet? (c.strategy = .insert) current c.payload := by
  unfold next?
  cases hs : c.strategy with
  | replace => exact absurd hs h
  | insert => rfl
  | remove => rfl

theorem makes_iff {next : Payload} : c.Makes current next ↔ c.next? current = some next := by
  constructor
  · rintro (hs | ⟨hs, hdelta, hbase, hfound⟩ | ⟨hs, hdelta, hbase, hfound⟩)
    · exact next?_replace hs current
    · rw [next?_of_ne_replace hs, hdelta, Merger.mergeSet?_members hbase,
        (Merger.eq_applySet_iff hs).2 hfound]
    · rw [next?_of_ne_replace hs, hdelta, Merger.mergeSet?_candidates hbase,
        (Merger.eq_applySet_iff hs).2 hfound]
  · intro h
    by_cases hs : c.strategy = .replace
    · rw [next?_replace hs] at h
      cases h
      exact .replaced hs
    · rw [next?_of_ne_replace hs] at h
      unfold Merger.mergeSet? at h
      split at h
      · next hdelta =>
        cases h
        exact .members hs hdelta rfl (Merger.get?_applySet hs _ _)
      · next hdelta =>
        cases h
        exact .members hs hdelta rfl (Merger.get?_applySet hs _ _)
      · next hdelta =>
        cases h
        exact .candidates hs hdelta rfl (Merger.get?_applySet hs _ _)
      · next hdelta =>
        cases h
        exact .candidates hs hdelta rfl (Merger.get?_applySet hs _ _)
      · cases h

theorem next?_eq_none_iff : c.next? current = none ↔ c.Misfits current := by
  by_cases hs : c.strategy = .replace
  · simp [next?_replace hs, Misfits, hs]
  · have moves : c.strategy = .insert ∨ c.strategy = .remove := by
      cases h : c.strategy <;> simp_all
    rw [next?_of_ne_replace hs, Merger.mergeSet?_eq_none_iff, Misfits, and_iff_right moves]

theorem leads_iff {changes : List Change} {last : Option Payload} :
    Leads current changes last ↔ fold? changes current = some last := by
  induction changes generalizing current with
  | nil =>
    constructor
    · rintro ⟨⟩
      rfl
    · intro h
      cases h
      exact .nil _
  | cons c changes ih =>
    rw [fold?_cons, Option.bind_eq_some_iff]
    constructor
    · rintro (_ | ⟨hmakes, hleads⟩)
      exact ⟨_, makes_iff.1 hmakes, ih.1 hleads⟩
    · rintro ⟨next, hnext, hrest⟩
      exact .cons (makes_iff.2 hnext) (ih.2 hrest)

end Change

namespace Merger

def Fails (m : Merger) (call : Digest × Change) : Prop :=
  ∃ e, (m.tryMerge call).1 = .error e

instance (m : Merger) (call : Digest × Change) : Decidable (m.Fails call) :=
  match h : (m.tryMerge call).1 with
  | .ok _ => .isFalse fun ⟨_, he⟩ => by cases h.symm.trans he
  | .error e => .isTrue ⟨e, h⟩

/-- The merger after calls, of which some may fail. -/
def after (m : Merger) (calls : List (Digest × Change)) : Merger :=
  calls.foldl (fun m call => (m.tryMerge call).2) m

/-- The calls that do not fail, each on the merger that those before it leave. -/
def taken (m : Merger) : List (Digest × Change) → List (Digest × Change)
  | [] => []
  | call :: calls =>
    if m.Fails call then (m.tryMerge call).2.taken calls
    else call :: (m.tryMerge call).2.taken calls

variable {m : Merger} {call : Digest × Change}

theorem merge_eq_ok_iff_tryMerge {m' : Merger} :
    m.merge call.2 call.1 = .ok m' ↔ m.tryMerge call = (.ok (), m') := by
  unfold merge
  obtain ⟨answer, m''⟩ := m.tryMerge call
  cases answer <;> simp

theorem fails_iff_merge : m.Fails call ↔ ∃ e, m.merge call.2 call.1 = .error e := by
  unfold Fails merge
  obtain ⟨answer, m'⟩ := m.tryMerge call
  cases answer <;> simp

/-- Where a call fails, it fails before it writes. -/
theorem tryMerge_of_fails (h : m.Fails call) : (m.tryMerge call).2 = m := by
  obtain ⟨e, he⟩ := h
  rw [tryMerge_eq] at he ⊢
  split
  · rfl
  · next hkey =>
    rw [if_neg hkey] at he
    cases hp : m.nextPayload call.2 with
    | error e' => rfl
    | ok p =>
      rw [hp] at he
      cases he

theorem merge_of_not_fails (h : ¬ m.Fails call) :
    m.merge call.2 call.1 = .ok (m.tryMerge call).2 := by
  rw [merge_eq_ok_iff_tryMerge]
  cases hanswer : (m.tryMerge call).1 with
  | ok => exact Prod.ext hanswer rfl
  | error e => exact absurd ⟨e, hanswer⟩ h

theorem fails_iff : m.Fails call ↔ call.2.key ≠ m.key ∨ call.2.Misfits m.current := by
  rw [fails_iff_merge]
  by_cases hkey : call.2.key = m.key
  · simp only [merge_eq_error_iff hkey, Change.next?_eq_none_iff, exists_and_left, exists_eq,
      and_true, hkey, ne_eq, not_true, false_or]
  · refine iff_of_true ⟨.foreignChange m.key call.2.key, ?_⟩ (.inl hkey)
    rw [merge, tryMerge_eq, if_pos hkey]

/-- The calls that fail leave no trace. -/
theorem mergeAll_taken (m : Merger) (calls : List (Digest × Change)) :
    m.mergeAll (m.taken calls) = .ok (m.after calls) := by
  induction calls generalizing m with
  | nil => exact mergeAll_nil.2 rfl
  | cons call calls ih =>
    rw [taken, after, List.foldl_cons, ← after]
    split
    · next hfails =>
      rw [tryMerge_of_fails hfails]
      exact ih m
    · next hfine => exact mergeAll_cons.2 ⟨_, merge_of_not_fails hfine, ih _⟩

theorem after_of_mergeAll {m' : Merger} {calls : List (Digest × Change)}
    (h : m.mergeAll calls = .ok m') : m.after calls = m' := by
  induction calls generalizing m with
  | nil => exact mergeAll_nil.1 h
  | cons call calls ih =>
    obtain ⟨middle, hmiddle, h⟩ := mergeAll_cons.1 h
    have hcall : (m.tryMerge call).2 = middle := by rw [merge_eq_ok_iff_tryMerge.1 hmiddle]
    rw [after, List.foldl_cons, ← after, hcall]
    exact ih h

theorem key_of_mem_taken {calls : List (Digest × Change)} (h : call ∈ m.taken calls) :
    call.2.key = m.key := by
  induction calls generalizing m with
  | nil => cases h
  | cons first calls ih =>
    rw [taken] at h
    split at h
    · next hfails => exact ih (tryMerge_of_fails hfails ▸ h)
    · next hfine =>
      obtain ⟨hown, hkey, -⟩ := merge_eq_ok (merge_of_not_fails hfine)
      rcases List.mem_cons.1 h with rfl | h
      · exact hown
      · exact (ih h).trans hkey

section run

variable (height : Height) (key : String) (previous : Option Record)
  (calls : List (Digest × Change))

/-- The calls that do not fail, of all calls to a new merger. -/
def takenFrom : List (Digest × Change) :=
  (start height key previous).taken calls

/-- What calls to a new merger leave, and the record that comes of them. -/
structure IsRun : Prop where
  /-- The calls that fail could as well be left out. -/
  traceless : (start height key previous).after (takenFrom height key previous calls) =
    (start height key previous).after calls
  /-- The payload is what the calls that did not fail make of the one that stood there. -/
  current (last : Option Payload) :
    Change.Leads (previous.map Record.payload) ((takenFrom height key previous calls).map Prod.snd)
      last ↔ last = ((start height key previous).after calls).current
  untouched : takenFrom height key previous calls = [] →
    ((start height key previous).after calls).close = none
  closed : takenFrom height key previous calls ≠ [] →
    ∃ r, ((start height key previous).after calls).close = some r ∧ r.IsIntact ∧
      r.key = key ∧ r.height = height ∧ r.previous = previous.map Record.hash ∧
      r.operations = ((takenFrom height key previous calls).map Prod.fst).eraseDups ∧
      ∀ last, Change.Leads (previous.map Record.payload)
        ((takenFrom height key previous calls).map Prod.snd) last ↔ last = some r.payload

theorem leads_takenFrom_iff (last : Option Payload) :
    Change.Leads (previous.map Record.payload) ((takenFrom height key previous calls).map Prod.snd)
      last ↔ last = ((start height key previous).after calls).current := by
  -- `exists_mergeAll_iff` is about writes to the merger's own key, and only those are taken.
  have own : ∀ call ∈ takenFrom height key previous calls,
      call.2.key = (start height key previous).key := fun _ => key_of_mem_taken
  have merged := mergeAll_taken (start height key previous) calls
  have hfold := (exists_mergeAll_iff own).1 ⟨_, merged, rfl⟩
  rw [Change.leads_iff]
  change Change.fold? _ (start height key previous).current = _ ↔ _
  rw [hfold, Option.some.injEq, eq_comm]

theorem isRun : IsRun height key previous calls where
  traceless := after_of_mergeAll (mergeAll_taken _ calls)
  current := leads_takenFrom_iff height key previous calls
  untouched hnil := by
    have merged := mergeAll_taken (start height key previous) calls
    rw [← takenFrom, hnil] at merged
    rw [← mergeAll_nil.1 merged, close_start]
  closed hne := by
    have merged := mergeAll_taken (start height key previous) calls
    obtain ⟨hkey, hprevious⟩ := mergeAll_eq_ok merged
    obtain ⟨r, hr⟩ := exists_close merged hne
    obtain ⟨hheight, hprev, hoperations, hcurrent⟩ := close_eq_some hr
    refine ⟨r, hr, isIntact_of_close hr, (key_of_close hr).trans hkey,
      hheight.trans (height_mergeAll merged), hprev.trans (by rw [hprevious]; rfl),
      hoperations.trans (operations_mergeAll (l := []) merged rfl), fun last => ?_⟩
    rw [leads_takenFrom_iff, hcurrent]

end run

theorem all_or_nothing :
    (∀ (m : Merger) (call : Digest × Change),
      (m.Fails call ↔ call.2.key ≠ m.key ∨ call.2.Misfits m.current) ∧
      (m.Fails call → (m.tryMerge call).2 = m)) ∧
    ∀ (height : Height) (key : String) (previous : Option Record) (calls : List (Digest × Change)),
      IsRun height key previous calls :=
  ⟨fun _ _ => ⟨fails_iff, tryMerge_of_fails⟩, isRun⟩

end Merger

namespace Sample

/-- An operation that calls come from, by a number. -/
def source (b : UInt8) : Digest :=
  ⟨List.replicate 32 b, by simp⟩

/-- Two members that are put in by three calls, and two calls that are for no set of members. -/
def calls : List (Digest × Change) :=
  [(source 1, .member ⟨bob, key, .genesis⟩ .insert),
   (source 2, .candidate ⟨carol, key, .genesis, .genesis⟩ .insert),
   (source 3, ⟨RecordKey.suffrage, .candidates .empty, .insert⟩),
   (source 4, .member ⟨carol, key, .genesis⟩ .insert),
   (source 1, .member ⟨carol, key, ⟨5⟩⟩ .insert)]

end Sample

/-- A change of another kind of set fails on every set of members, and the record that comes of the
calls lists no operation of those that fail. -/
theorem Merger.all_or_nothing_calls :
    (∀ m : Merger, m.current.map Payload.kind = some .members →
      m.Fails (Sample.source 3, ⟨m.key, .candidates .empty, .insert⟩)) ∧
    ∃ r, ((start .genesis RecordKey.suffrage none).after Sample.calls).close = some r ∧
      r.IsIntact ∧ r.operations = [Sample.source 1, Sample.source 4] := by
  obtain ⟨call, run⟩ := all_or_nothing
  constructor
  · intro m hm
    obtain ⟨p, hp, hkind⟩ := Option.map_eq_some_iff.1 hm
    refine (call _ _).1.2 (.inr ⟨.inl rfl, .inr ⟨p, hp, ?_⟩⟩)
    rw [hkind]
    exact Payload.Kind.noConfusion
  · obtain ⟨r, hr, intact, -, -, -, operations, -⟩ :=
      (run .genesis RecordKey.suffrage none Sample.calls).closed fun h => by
        have hlength := congrArg List.length h
        revert hlength
        decide +kernel
    exact ⟨r, hr, intact, operations.trans (by decide +kernel)⟩

end CurrencyLedger
