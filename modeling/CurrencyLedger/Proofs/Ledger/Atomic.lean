import CurrencyLedger.Proofs.Ledger.Ordering
import CurrencyLedger.Proofs.Ledger.View

/-!
A commit as a whole. The mergers of a commit are a fold over its writes, and the merger of a key has
folded the writes to that key (`mergerAt_foldlM`); so a commit fails with the first write that
cannot be made, and else every record it writes can be read off the writes to its key.
`commit_atomic` says both.
-/

namespace CurrencyLedger

open Traversal

namespace Change

/-- What changes make of a payload, one after the other, if each of them can be made. -/
def fold? (changes : List Change) (current : Option Payload) : Option (Option Payload) :=
  changes.foldlM (fun current c => (c.next? current).map some) current

theorem fold?_cons (c : Change) (changes : List Change) (current : Option Payload) :
    fold? (c :: changes) current = (c.next? current).bind fun p => fold? changes (some p) := by
  rw [fold?, List.foldlM_cons]
  cases c.next? current <;> rfl

end Change

namespace Merger

/-- What comes at the end stays if it has not come before. -/
theorem eraseDups_concat (before : List Digest) (op : Digest) :
    (before ++ [op]).eraseDups =
      if op ∈ before.eraseDups then before.eraseDups else before.eraseDups ++ [op] := by
  rw [List.eraseDups_append]
  by_cases h : op ∈ before
  · rw [if_pos (List.mem_eraseDups.2 h)]
    simp [List.removeAll, h]
  · rw [if_neg fun hmem => h (List.mem_eraseDups.1 hmem)]
    simp [List.removeAll, h, List.eraseDups_cons]

variable {m m' : Merger} {c : Change} {op : Digest} {e : StateError}

/-- A change of the merger's key fails only where it takes items to or from what is no set. -/
theorem merge_eq_error_iff (hkey : c.key = m.key) : m.merge c op = .error e ↔
    c.next? m.current = none ∧
      e = .noSet m.key c.strategy.name c.payload.kind (m.current.map Payload.kind) := by
  rw [merge, tryMerge_eq, if_neg (not_not.2 hkey)]
  unfold nextPayload Change.next?
  cases c.strategy with
  | replace => simp
  | insert => cases hp : mergeSet? true m.current c.payload <;> simp [hp, eq_comm]
  | remove => cases hp : mergeSet? false m.current c.payload <;> simp [hp, eq_comm]

section mergeAll

variable {writes : List (Digest × Change)}

/-- The writes to a merger's key can be merged if each can be made of what those before it leave. -/
theorem exists_mergeAll_iff (own : ∀ w ∈ writes, w.2.key = m.key) {current : Option Payload} :
    (∃ m', m.mergeAll writes = .ok m' ∧ m'.current = current) ↔
      Change.fold? (writes.map Prod.snd) m.current = some current := by
  induction writes generalizing m with
  | nil => simp [mergeAll_nil, Change.fold?]
  | cons w writes ih =>
    obtain ⟨hkey, hown⟩ := List.forall_mem_cons.1 own
    rw [List.map_cons, Change.fold?_cons, Option.bind_eq_some_iff]
    constructor
    · rintro ⟨m', hm', rfl⟩
      obtain ⟨middle, hmiddle, hm'⟩ := mergeAll_cons.1 hm'
      obtain ⟨-, hsame, -, p, hp, hpayload⟩ := merge_eq_ok hmiddle
      refine ⟨p, hp, ?_⟩
      rw [← current_of_payload hpayload]
      apply (ih fun w hw => (hown w hw).trans hsame.symm).1
      exact ⟨m', hm', rfl⟩
    · rintro ⟨p, hp, hfold⟩
      obtain ⟨middle, hmiddle⟩ := exists_merge w.1 hkey hp
      obtain ⟨-, hsame, -, p', hp', hpayload⟩ := merge_eq_ok hmiddle
      obtain rfl : p = p' := Option.some.inj (hp.symm.trans hp')
      rw [← current_of_payload hpayload] at hfold
      obtain ⟨m', hm', hcurrent⟩ := (ih fun w hw => (hown w hw).trans hsame.symm).2 hfold
      exact ⟨m', mergeAll_cons.2 ⟨middle, hmiddle, hm'⟩, hcurrent⟩

theorem height_mergeAll (h : m.mergeAll writes = .ok m') : m'.height = m.height := by
  induction writes generalizing m with
  | nil => rw [mergeAll_nil.1 h]
  | cons w writes ih =>
    obtain ⟨middle, hmiddle, h⟩ := mergeAll_cons.1 h
    obtain ⟨-, p, -, rfl⟩ := merge_eq_ok_iff.1 hmiddle
    exact (ih h).trans rfl

/-- A merger lists the operations of its writes, each once and in the order in which they come. -/
theorem operations_mergeAll {l : List Digest} (h : m.mergeAll writes = .ok m')
    (listed : m.operations = l.eraseDups) :
    m'.operations = (l ++ writes.map Prod.fst).eraseDups := by
  induction writes generalizing m l with
  | nil => rw [← mergeAll_nil.1 h, List.map_nil, List.append_nil, listed]
  | cons w writes ih =>
    obtain ⟨middle, hmiddle, h⟩ := mergeAll_cons.1 h
    obtain ⟨-, p, -, rfl⟩ := merge_eq_ok_iff.1 hmiddle
    have hnext := ih (l := l ++ [w.1]) h (by rw [listed, eraseDups_concat])
    rw [hnext, List.append_assoc, List.singleton_append, List.map_cons]

theorem isSome_payload_mergeAll (h : m.mergeAll writes = .ok m')
    (written : m.payload.isSome ∨ writes ≠ []) : m'.payload.isSome := by
  induction writes generalizing m with
  | nil =>
    rw [← mergeAll_nil.1 h]
    exact written.resolve_right fun hne => hne rfl
  | cons w writes ih =>
    obtain ⟨middle, hmiddle, h⟩ := mergeAll_cons.1 h
    obtain ⟨-, p, -, rfl⟩ := merge_eq_ok_iff.1 hmiddle
    exact ih h (.inl rfl)

/-- A merger that something was written to gives a record. -/
theorem exists_close (h : m.mergeAll writes = .ok m') (written : writes ≠ []) :
    ∃ r, m'.close = some r := by
  obtain ⟨p, hp⟩ := Option.isSome_iff_exists.1 (isSome_payload_mergeAll h (.inr written))
  exact ⟨_, by rw [close, hp, Option.map_some]⟩

end mergeAll

theorem close_eq_some {r : Record} (h : m.close = some r) :
    r.height = m.height ∧ r.previous = m.previous.map Record.hash ∧
      r.operations = m.operations ∧ m.current = some r.payload := by
  obtain ⟨p, hp, rfl⟩ := Option.map_eq_some_iff.1 h
  exact ⟨rfl, rfl, rfl, current_of_payload hp⟩

end Merger

namespace Store

variable {store : Store} {height : Height} {accepted : Accepted}

/-- What writes make of the payload under a key, if each of them can be made. -/
def foldTo? (store : Store) (writes : List (Digest × Change)) (key : String) :
    Option (Option Payload) :=
  Change.fold? ((writes.filter fun w => w.2.key = key).map Prod.snd) (store.payload? key)

/-- A write cannot be made of what the writes before it leave, though each of these could. -/
def FailsBy (store : Store) (accepted : Accepted) (e : StateError) : Prop :=
  ∃ before w after, writes accepted = before ++ w :: after ∧
    (∀ key, (store.foldTo? before key).isSome) ∧
    ∃ current, store.foldTo? before w.2.key = some current ∧ w.2.next? current = none ∧
      e = .noSet w.2.key w.2.strategy.name w.2.payload.kind (current.map Payload.kind)

/-- The records that a commit writes, and the store after it: one record for each key that is
written, made of the writes to this key alone. -/
structure IsCommit (store : Store) (height : Height) (accepted : Accepted) (records : List Record)
    (store' : Store) : Prop where
  sorted : records.Pairwise fun r r' => r.key < r'.key
  written : ∀ key, (∃ r ∈ records, r.key = key) ↔ ∃ entry ∈ accepted, ∃ c ∈ entry.2, c.key = key
  intact : ∀ r ∈ records, r.IsIntact
  height : ∀ r ∈ records, r.height = height
  previous : ∀ r ∈ records, r.previous = (store.get? r.key).map Record.hash
  operations : ∀ r ∈ records,
    r.operations = ((writesTo accepted r.key).map Prod.fst).eraseDups
  payload : ∀ r ∈ records, store.foldTo? (writes accepted) r.key = some (some r.payload)
  held : ∀ r ∈ records, store'.get? r.key = some r
  kept : ∀ key, (∀ r ∈ records, r.key ≠ key) → store'.get? key = store.get? key

section fold

variable {ws : List (Digest × Change)} {mergers : Mergers}

theorem own_of_filter {key : String} {w : Digest × Change}
    (h : w ∈ ws.filter fun w => w.2.key = key) : w.2.key = key := by
  simpa using (List.mem_filter.1 h).2

/-- The merger of a key holds what the writes to the key make of the payload there. -/
theorem foldTo?_of_foldlM
    (h : ws.foldlM (fun ms w => store.mergeChange height w.1 ms w.2) .empty = .ok mergers)
    (key : String) :
    store.foldTo? ws key = some (store.mergerAt height mergers key).current :=
  (Merger.exists_mergeAll_iff fun _ => own_of_filter).1 ⟨_, mergerAt_foldlM h key, rfl⟩

theorem exists_foldlM_of_foldTo? (h : ∀ key, (store.foldTo? ws key).isSome) :
    ∃ mergers, ws.foldlM (fun ms w => store.mergeChange height w.1 ms w.2) .empty =
      .ok mergers := by
  apply exists_foldlM_mergeChange
  intro key
  obtain ⟨current, hcurrent⟩ := Option.isSome_iff_exists.1 (h key)
  obtain ⟨m, hm, -⟩ := (Merger.exists_mergeAll_iff
    (m := .start height key (store.get? key)) fun _ => own_of_filter).2 hcurrent
  exact ⟨m, hm⟩

end fold

theorem key_mergerAt {mergers : Mergers} (key : String) :
    (store.mergerAt height mergers key).key = key := by
  unfold mergerAt
  cases h : mergers.get? key with
  | none => rfl
  | some m => exact KeyedList.key_of_get? h

theorem mergeChange_eq_error_iff {mergers : Mergers} {op : Digest} {c : Change} {e : StateError} :
    store.mergeChange height op mergers c = .error e ↔
      c.next? (store.mergerAt height mergers c.key).current = none ∧
        e = .noSet c.key c.strategy.name c.payload.kind
          ((store.mergerAt height mergers c.key).current.map Payload.kind) := by
  rw [mergeChange, bind_pure_eq_error, ← mergerAt,
    Merger.merge_eq_error_iff (key_mergerAt c.key).symm, key_mergerAt]

/-- A commit fails with the first write that cannot be made. -/
theorem commit_eq_error_iff {e : StateError} :
    store.commit height accepted = .error e ↔ store.FailsBy accepted e := by
  rw [commit_eq_error, newRecords, bind_pure_eq_error, foldlM_mergeOperation, foldlM_eq_error_iff]
  constructor
  · rintro ⟨before, w, after, hsplit, mergers, hbefore, hfails⟩
    obtain ⟨hnext, rfl⟩ := mergeChange_eq_error_iff.1 hfails
    refine ⟨before, w, after, hsplit, fun key => ?_, _, foldTo?_of_foldlM hbefore _, hnext, rfl⟩
    rw [foldTo?_of_foldlM hbefore key]
    rfl
  · rintro ⟨before, w, after, hsplit, hfine, current, hcurrent, hnext, rfl⟩
    obtain ⟨mergers, hbefore⟩ := @exists_foldlM_of_foldTo? store height before hfine
    rw [foldTo?_of_foldlM hbefore] at hcurrent
    obtain rfl := Option.some.inj hcurrent
    exact ⟨before, w, after, hsplit, mergers, hbefore, mergeChange_eq_error_iff.2 ⟨hnext, rfl⟩⟩

section commit

variable {store' : Store} {records : List Record}

/-- The records of a commit are those of its mergers. -/
theorem exists_mergers_of_commit (h : store.commit height accepted = .ok (records, store')) :
    ∃ mergers : Mergers, (writes accepted).foldlM
        (fun ms w => store.mergeChange height w.1 ms w.2) .empty = .ok mergers ∧
      records = mergers.toList.filterMap Merger.close :=
  newRecords_eq_ok_iff.1 (commit_eq_ok_iff.1 h).1

/-- A record that a commit writes closes the merger of its key. -/
theorem exists_merger_of_mem (h : store.commit height accepted = .ok (records, store')) {r : Record}
    (hr : r ∈ records) :
    ∃ m, (Merger.start height r.key (store.get? r.key)).mergeAll (writesTo accepted r.key) =
      .ok m ∧ m.close = some r := by
  obtain ⟨mergers, hfold, rfl⟩ := exists_mergers_of_commit h
  obtain ⟨m, hm, hclose⟩ := List.mem_filterMap.1 hr
  have hkey := Merger.key_of_close hclose
  have hat : store.mergerAt height mergers r.key = m := by
    rw [mergerAt, hkey, KeyedList.get?_of_mem hm, Option.getD_some]
  exact ⟨m, hat ▸ mergerAt_foldlM hfold r.key, hclose⟩

theorem sorted_of_commit (h : store.commit height accepted = .ok (records, store')) :
    records.Pairwise fun r r' => r.key < r'.key := by
  obtain ⟨mergers, -, rfl⟩ := exists_mergers_of_commit h
  apply List.Pairwise.filterMap _ _ mergers.sorted
  intro m m' hlt r hr r' hr'
  rw [Merger.key_of_close hr, Merger.key_of_close hr']
  exact hlt

theorem exists_write_iff {key : String} :
    (∃ w ∈ writes accepted, w.2.key = key) ↔ ∃ entry ∈ accepted, ∃ c ∈ entry.2, c.key = key := by
  constructor
  · rintro ⟨w, hw, hkey⟩
    obtain ⟨entry, hentry, -, hc⟩ := mem_writes.1 hw
    exact ⟨entry, hentry, w.2, hc, hkey⟩
  · rintro ⟨entry, hentry, c, hc, hkey⟩
    exact ⟨(entry.1, c), mem_writes.2 ⟨entry, hentry, rfl, hc⟩, hkey⟩

theorem exists_record_iff (h : store.commit height accepted = .ok (records, store'))
    (key : String) :
    (∃ r ∈ records, r.key = key) ↔ ∃ entry ∈ accepted, ∃ c ∈ entry.2, c.key = key := by
  obtain ⟨mergers, hfold, rfl⟩ := exists_mergers_of_commit h
  have hmergers := isSome_get?_foldlM hfold key
  rw [← exists_write_iff]
  constructor
  · rintro ⟨r, hr, rfl⟩
    obtain ⟨m, hm, hclose⟩ := List.mem_filterMap.1 hr
    rw [Merger.key_of_close hclose] at hmergers ⊢
    have hthere : (mergers.get? m.key).isSome := by
      rw [KeyedList.get?_of_mem hm]
      rfl
    exact (hmergers.1 hthere).resolve_left fun hempty => by cases hempty
  · rintro ⟨w, hw, hkey⟩
    obtain ⟨m, hm⟩ := Option.isSome_iff_exists.1 (hmergers.2 (.inr ⟨w, hw, hkey⟩))
    have hmerged := mergerAt_foldlM hfold key
    rw [mergerAt, mergerAt, hm, Option.getD_some] at hmerged
    have hne := List.ne_nil_of_mem (mem_writesTo.2 ⟨hw, hkey⟩)
    obtain ⟨r, hclose⟩ := Merger.exists_close hmerged hne
    refine ⟨r, List.mem_filterMap.2 ⟨m, List.mem_of_find?_eq_some hm, hclose⟩, ?_⟩
    rw [Merger.key_of_close hclose, KeyedList.key_of_get? hm]

/-- What a commit leaves under the key of a record that it writes is the record. -/
theorem get?_commit_of_mem (h : store.commit height accepted = .ok (records, store')) {r : Record}
    (hr : r ∈ records) : store'.get? r.key = some r := by
  obtain ⟨m, hm, hclose⟩ := exists_merger_of_mem h hr
  obtain ⟨m', hm', hget⟩ := get?_commit h r.key
  obtain rfl := Except.ok.inj (hm.symm.trans hm')
  rw [hget, hclose, Option.some_or]

theorem isCommit_of_commit (h : store.commit height accepted = .ok (records, store')) :
    store.IsCommit height accepted records store' where
  sorted := sorted_of_commit h
  written := exists_record_iff h
  intact r hr := by
    obtain ⟨m, -, hclose⟩ := exists_merger_of_mem h hr
    exact Merger.isIntact_of_close hclose
  height r hr := by
    obtain ⟨m, hm, hclose⟩ := exists_merger_of_mem h hr
    rw [(Merger.close_eq_some hclose).1, Merger.height_mergeAll hm]
    rfl
  previous r hr := by
    obtain ⟨m, hm, hclose⟩ := exists_merger_of_mem h hr
    rw [(Merger.close_eq_some hclose).2.1, (Merger.mergeAll_eq_ok hm).2]
    rfl
  operations r hr := by
    obtain ⟨m, hm, hclose⟩ := exists_merger_of_mem h hr
    rw [(Merger.close_eq_some hclose).2.2.1]
    exact Merger.operations_mergeAll (l := []) hm rfl
  payload r hr := by
    obtain ⟨m, hm, hclose⟩ := exists_merger_of_mem h hr
    apply (Merger.exists_mergeAll_iff (m := .start height r.key (store.get? r.key))
      fun _ => own_of_filter).1
    exact ⟨m, hm, (Merger.close_eq_some hclose).2.2.2⟩
  held r := get?_commit_of_mem h
  kept key hkey := by
    apply get?_commit_of_not_written h
    intro w hw hwritten
    obtain ⟨r, hr, hsame⟩ := (exists_record_iff h key).2 (exists_write_iff.1 ⟨w, hw, hwritten⟩)
    exact hkey r hr hsame

end commit

/-- A commit is all or nothing, whatever operations wrote to whatever keys. It fails with the first
write that cannot be made of what the writes before it leave, and the store stays as it is; or there
is no such write, and it writes one record for each key that occurs, which extends the record that
stood there by the writes to the key, in the order of the operations and of their changes. -/
theorem commit_atomic (store : Store) (height : Height) (accepted : Accepted) :
    (∃ e, store.FailsBy accepted e ∧ store.tryCommit height accepted = (.error e, store)) ∨
    ∃ records store', (∀ e, ¬store.FailsBy accepted e) ∧
      store.tryCommit height accepted = (.ok records, store') ∧
      store.IsCommit height accepted records store' := by
  cases h : store.commit height accepted with
  | error e =>
    exact .inl ⟨e, commit_eq_error_iff.1 h, by rw [tryCommit_eq, commit_eq_error.1 h]⟩
  | ok result =>
    obtain ⟨records, store'⟩ := result
    obtain ⟨hrecords, hstore⟩ := commit_eq_ok_iff.1 h
    refine .inr ⟨records, store', fun e fails => ?_, by rw [tryCommit_eq, hrecords, hstore],
      isCommit_of_commit h⟩
    rw [commit_eq_error_iff.2 fails] at h
    cases h

end Store

end CurrencyLedger
