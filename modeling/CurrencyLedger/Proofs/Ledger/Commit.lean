import CurrencyLedger.Ledger.Store
import CurrencyLedger.Proofs.Collection.Traversal

/-!
What a commit leaves under each key. `get?_commit` says that the keys do not concern each other: the
record under a key comes from the writes to that key alone, merged in their order.
`payload?_commit` gives the payload where writes only replace, `commit_induction` carries a property
of a payload through all writes to its key.
-/

namespace CurrencyLedger

open Traversal

namespace Change

/-- The payload that a change makes of the one before it, if it can be made. -/
def next? (c : Change) (current : Option Payload) : Option Payload :=
  match c.strategy with
  | .replace => some c.payload
  | strategy => Merger.mergeSet? (strategy = .insert) current c.payload

theorem next?_replace {c : Change} (h : c.strategy = .replace) (current : Option Payload) :
    c.next? current = some c.payload := by
  simp [next?, h]

end Change

namespace Merger

theorem nextPayload_eq_ok {m : Merger} {c : Change} {p : Payload} :
    m.nextPayload c = .ok p ↔ c.next? m.current = some p := by
  unfold nextPayload Change.next?
  cases hs : c.strategy with
  | replace => simp
  | insert => cases hp : mergeSet? true m.current c.payload <;> simp [hp]
  | remove => cases hp : mergeSet? false m.current c.payload <;> simp [hp]

/-- A call that fails does so before anything is written. Else the payload is written, and then the
operation is listed. -/
theorem tryMerge_eq (m : Merger) (op : Digest) (c : Change) : m.tryMerge (op, c) =
    if c.key ≠ m.key then (.error (.foreignChange m.key c.key), m)
    else
      match m.nextPayload c with
      | .error e => (.error e, m)
      | .ok p => (.ok (), { m with payload := some p }.addOperation op) := by
  show (if c.key ≠ m.key then _ else _ : Writing Merger Unit).run.run m = _
  by_cases hkey : c.key ≠ m.key
  · rw [if_pos hkey, if_pos hkey]
    rfl
  · rw [if_neg hkey, if_neg hkey]
    cases m.nextPayload c <;> rfl

/-- A merger takes a change of its key that can be made of the payload so far. -/
theorem merge_eq_ok_iff {m m' : Merger} {c : Change} {op : Digest} : m.merge c op = .ok m' ↔
    c.key = m.key ∧ ∃ p, c.next? m.current = some p ∧
      m' = { m with
        payload := some p
        operations := if op ∈ m.operations then m.operations else m.operations ++ [op] } := by
  rw [merge, tryMerge_eq]
  by_cases hkey : c.key = m.key
  · rw [if_neg (not_not.2 hkey), and_iff_right hkey]
    simp only [← nextPayload_eq_ok]
    cases hp : m.nextPayload c with
    | error e => simp
    | ok p => simp [addOperation, eq_comm]
  · simp [hkey]

theorem merge_eq_ok {m m' : Merger} {c : Change} {op : Digest} (h : m.merge c op = .ok m') :
    c.key = m.key ∧ m'.key = m.key ∧ m'.previous = m.previous ∧
      ∃ p, c.next? m.current = some p ∧ m'.payload = some p := by
  obtain ⟨hkey, p, hp, rfl⟩ := merge_eq_ok_iff.1 h
  exact ⟨hkey, rfl, rfl, p, hp, rfl⟩

theorem exists_merge {m : Merger} {c : Change} {p : Payload} (op : Digest) (hkey : c.key = m.key)
    (h : c.next? m.current = some p) : ∃ m', m.merge c op = .ok m' :=
  ⟨_, merge_eq_ok_iff.2 ⟨hkey, p, h, rfl⟩⟩

/-- Merges changes in their order, each with its operation. -/
def mergeAll (m : Merger) (writes : List (Digest × Change)) : Except StateError Merger :=
  writes.foldlM (fun m w => m.merge w.2 w.1) m

theorem mergeAll_cons {m m' : Merger} {w : Digest × Change} {writes : List (Digest × Change)} :
    m.mergeAll (w :: writes) = .ok m' ↔
      ∃ middle, m.merge w.2 w.1 = .ok middle ∧ middle.mergeAll writes = .ok m' := by
  rw [mergeAll, List.foldlM_cons, bind_eq_ok]
  rfl

theorem mergeAll_nil {m m' : Merger} : m.mergeAll [] = .ok m' ↔ m = m' := by
  simp [mergeAll, pure_eq_ok]

theorem mergeAll_eq_ok {m m' : Merger} {writes : List (Digest × Change)}
    (h : m.mergeAll writes = .ok m') : m'.key = m.key ∧ m'.previous = m.previous := by
  induction writes generalizing m with
  | nil => rw [mergeAll_nil.1 h]; exact ⟨rfl, rfl⟩
  | cons w writes ih =>
    obtain ⟨middle, hm, h⟩ := mergeAll_cons.1 h
    obtain ⟨-, hkey, hprev, -⟩ := merge_eq_ok hm
    exact ⟨(ih h).1.trans hkey, (ih h).2.trans hprev⟩

theorem current_of_payload {m : Merger} {p : Payload} (h : m.payload = some p) :
    m.current = some p := by
  simp [current, h]

/-- A property of the payload that every change keeps holds after all of them. -/
theorem mergeAll_induction {P : Option Payload → Prop} {m m' : Merger}
    {writes : List (Digest × Change)} (h : m.mergeAll writes = .ok m') (start : P m.current)
    (step : ∀ w ∈ writes, ∀ current next, P current → w.2.next? current = some next →
      P (some next)) : P m'.current := by
  induction writes generalizing m with
  | nil => exact mergeAll_nil.1 h ▸ start
  | cons w writes ih =>
    obtain ⟨middle, hm, h⟩ := mergeAll_cons.1 h
    obtain ⟨-, -, -, p, hp, hpayload⟩ := merge_eq_ok hm
    have hmiddle : P middle.current := by
      rw [current_of_payload hpayload]
      exact step w List.mem_cons_self _ _ start hp
    exact ih h hmiddle fun w hw => step w (List.mem_cons_of_mem _ hw)

/-- A property that one of the changes brings about and every change keeps holds after all of
them. -/
theorem mergeAll_of_brought {P : Option Payload → Prop} {m m' : Merger}
    {writes : List (Digest × Change)} (h : m.mergeAll writes = .ok m') {w : Digest × Change}
    (hw : w ∈ writes)
    (brings : ∀ current next, w.2.next? current = some next → P (some next))
    (keeps : ∀ w ∈ writes, ∀ current next, P current → w.2.next? current = some next →
      P (some next)) : P m'.current := by
  induction writes generalizing m with
  | nil => cases hw
  | cons first rest ih =>
    obtain ⟨middle, hm, hrest⟩ := mergeAll_cons.1 h
    have keeps' := fun w hw => keeps w (List.mem_cons_of_mem first hw)
    rcases List.mem_cons.1 hw with rfl | hw
    · obtain ⟨-, -, -, p, hp, hpayload⟩ := merge_eq_ok hm
      have hmiddle : P middle.current := by
        rw [current_of_payload hpayload]
        exact brings _ _ hp
      exact mergeAll_induction hrest hmiddle keeps'
    · exact ih hrest hw keeps'

/-- Where changes only replace, the last one stays. -/
theorem current_mergeAll {m m' : Merger} {writes : List (Digest × Change)}
    (h : m.mergeAll writes = .ok m') (replace : ∀ w ∈ writes, w.2.strategy = .replace) :
    m'.current = (writes.getLast?.map fun w => w.2.payload).or m.current := by
  induction writes generalizing m with
  | nil => simp [mergeAll_nil.1 h]
  | cons w writes ih =>
    obtain ⟨middle, hm, h⟩ := mergeAll_cons.1 h
    obtain ⟨-, -, -, p, hp, hpayload⟩ := merge_eq_ok hm
    rw [Change.next?_replace (replace w List.mem_cons_self)] at hp
    rw [ih h fun w hw => replace w (List.mem_cons_of_mem _ hw), current_of_payload hpayload, ← hp]
    cases hl : writes.getLast? <;> simp [List.getLast?_cons, hl]

/-- Changes can be merged that can be made of every payload with a property, and keep it. -/
theorem exists_mergeAll {P : Option Payload → Prop} {m : Merger} {writes : List (Digest × Change)}
    (start : P m.current)
    (step : ∀ w ∈ writes, w.2.key = m.key ∧
      ∀ current, P current → ∃ next, w.2.next? current = some next ∧ P (some next)) :
    ∃ m', m.mergeAll writes = .ok m' := by
  induction writes generalizing m with
  | nil => exact ⟨m, rfl⟩
  | cons w writes ih =>
    obtain ⟨hkey, hnext⟩ := step w List.mem_cons_self
    obtain ⟨next, hnext, hkept⟩ := hnext m.current start
    obtain ⟨middle, hm⟩ := exists_merge w.1 hkey hnext
    obtain ⟨-, hmiddle, -, p, hp, hpayload⟩ := merge_eq_ok hm
    obtain rfl : next = p := Option.some.inj (hnext.symm.trans hp)
    have hstart : P middle.current := current_of_payload hpayload ▸ hkept
    obtain ⟨m', hm'⟩ := ih hstart fun w hw => hmiddle ▸ step w (List.mem_cons_of_mem _ hw)
    exact ⟨m', mergeAll_cons.2 ⟨middle, hm, hm'⟩⟩

theorem close_start (height : Height) (key : String) (previous : Option Record) :
    (start height key previous).close = none := rfl

theorem key_of_close {m : Merger} {r : Record} (h : m.close = some r) : r.key = m.key := by
  obtain ⟨p, -, rfl⟩ := Option.map_eq_some_iff.1 h
  rfl

theorem isIntact_of_close {m : Merger} {r : Record} (h : m.close = some r) : r.IsIntact := by
  obtain ⟨p, -, rfl⟩ := Option.map_eq_some_iff.1 h
  exact Record.isIntact_make ..

theorem payload_close (m : Merger) :
    (m.close.or m.previous).map Record.payload = m.current := by
  cases h : m.payload <;> simp [close, current, h, Record.make]

end Merger

namespace Store

/-- The payload under a key. -/
def payload? (store : Store) (key : String) : Option Payload :=
  (store.get? key).map Record.payload

/-- The changes of accepted operations in their order, each with its operation. -/
def writes (accepted : Accepted) : List (Digest × Change) :=
  accepted.flatMap fun entry => entry.2.map fun c => (entry.1, c)

/-- The writes to one key. -/
def writesTo (accepted : Accepted) (key : String) : List (Digest × Change) :=
  (writes accepted).filter fun w => w.2.key = key

theorem mem_writes {accepted : Accepted} {w : Digest × Change} :
    w ∈ writes accepted ↔ ∃ entry ∈ accepted, w.1 = entry.1 ∧ w.2 ∈ entry.2 := by
  simp only [writes, List.mem_flatMap, List.mem_map]
  constructor
  · rintro ⟨entry, he, c, hc, rfl⟩
    exact ⟨entry, he, rfl, hc⟩
  · rintro ⟨entry, he, h1, h2⟩
    exact ⟨entry, he, w.2, h2, by rw [← h1]⟩

theorem mem_writes_singleton {digest : Digest} {changes : List Change} {w : Digest × Change} :
    w ∈ writes [(digest, changes)] ↔ w.1 = digest ∧ w.2 ∈ changes := by
  simp [mem_writes]

theorem mem_writesTo {accepted : Accepted} {key : String} {w : Digest × Change} :
    w ∈ writesTo accepted key ↔ w ∈ writes accepted ∧ w.2.key = key := by
  simp [writesTo]

/-- The merger of a key, which starts with the committed record. -/
def mergerAt (store : Store) (height : Height) (mergers : Mergers) (key : String) : Merger :=
  (mergers.get? key).getD (.start height key (store.get? key))

/-- One change concerns the merger of its key only. -/
theorem mergeChange_eq_ok {store : Store} {height : Height} {op : Digest}
    {mergers mergers' : Mergers} {c : Change} :
    store.mergeChange height op mergers c = .ok mergers' ↔
      ∃ m, (store.mergerAt height mergers c.key).merge c op = .ok m ∧
        mergers' = mergers.insert m := by
  simp only [mergeChange, bind_eq_ok, pure_eq_ok]
  exact exists_congr fun m => and_congr_right fun _ => eq_comm

theorem get?_mergers_insert {store : Store} {height : Height} {op : Digest} {mergers : Mergers}
    {c : Change} {m : Merger} (h : (store.mergerAt height mergers c.key).merge c op = .ok m)
    (key : String) :
    KeyedList.get? (mergers.insert m) key = if c.key = key then some m else mergers.get? key := by
  obtain ⟨hkey, hm, -, -⟩ := Merger.merge_eq_ok h
  rw [KeyedList.get?_insert, hm, ← hkey]

theorem mergerAt_insert {store : Store} {height : Height} {op : Digest} {mergers : Mergers}
    {c : Change} {m : Merger} (h : (store.mergerAt height mergers c.key).merge c op = .ok m)
    (key : String) :
    store.mergerAt height (mergers.insert m) key =
      if c.key = key then m else store.mergerAt height mergers key := by
  unfold mergerAt
  rw [get?_mergers_insert h]
  split <;> rfl

/-- All changes, whatever operations they come from. -/
theorem foldlM_mergeOperation (store : Store) (height : Height) (accepted : Accepted)
    (mergers : Mergers) :
    accepted.foldlM (store.mergeOperation height) mergers =
      (writes accepted).foldlM (fun ms w => store.mergeChange height w.1 ms w.2) mergers := by
  induction accepted generalizing mergers with
  | nil => rfl
  | cons entry rest ih =>
    rw [List.foldlM_cons, writes, List.flatMap_cons, List.foldlM_append, List.foldlM_map]
    exact bind_congr fun ms => ih ms

/-- Each key's merger takes the writes to the key. -/
theorem mergerAt_foldlM {store : Store} {height : Height} {ws : List (Digest × Change)}
    {mergers mergers' : Mergers}
    (h : ws.foldlM (fun ms w => store.mergeChange height w.1 ms w.2) mergers = .ok mergers')
    (key : String) :
    (store.mergerAt height mergers key).mergeAll (ws.filter fun w => w.2.key = key) =
      .ok (store.mergerAt height mergers' key) := by
  induction ws generalizing mergers with
  | nil => rw [pure_eq_ok.1 h]; exact Merger.mergeAll_nil.2 rfl
  | cons w ws ih =>
    rw [List.foldlM_cons, bind_eq_ok] at h
    obtain ⟨middle, hw, h⟩ := h
    obtain ⟨m, hmerge, rfl⟩ := mergeChange_eq_ok.1 hw
    have ih := ih h
    rw [mergerAt_insert hmerge] at ih
    by_cases hkey : w.2.key = key
    · subst hkey
      rw [if_pos rfl] at ih
      rw [List.filter_cons_of_pos (by simp)]
      exact Merger.mergeAll_cons.2 ⟨m, hmerge, ih⟩
    · rw [if_neg hkey] at ih
      rwa [List.filter_cons_of_neg (by simpa using hkey)]

/-- All changes can be merged if those to each key can. -/
theorem exists_foldlM_mergeChange {store : Store} {height : Height}
    {ws : List (Digest × Change)} {mergers : Mergers}
    (h : ∀ key, ∃ m, (store.mergerAt height mergers key).mergeAll
      (ws.filter fun w => w.2.key = key) = .ok m) :
    ∃ mergers', ws.foldlM (fun ms w => store.mergeChange height w.1 ms w.2) mergers =
      .ok mergers' := by
  induction ws generalizing mergers with
  | nil => exact ⟨mergers, rfl⟩
  | cons w ws ih =>
    obtain ⟨m', hw⟩ := h w.2.key
    rw [List.filter_cons_of_pos (by simp)] at hw
    obtain ⟨m, hm, hrest⟩ := Merger.mergeAll_cons.1 hw
    have hnext : ∀ key, ∃ m', (store.mergerAt height (mergers.insert m) key).mergeAll
        (ws.filter fun w => w.2.key = key) = .ok m' := by
      intro key
      rw [mergerAt_insert hm]
      by_cases hkey : w.2.key = key
      · subst hkey
        exact ⟨m', by rwa [if_pos rfl]⟩
      · obtain ⟨m'', hother⟩ := h key
        rw [List.filter_cons_of_neg (by simpa using hkey)] at hother
        exact ⟨m'', by rwa [if_neg hkey]⟩
    obtain ⟨mergers', hfold⟩ := ih hnext
    refine ⟨mergers', ?_⟩
    rw [List.foldlM_cons, bind_eq_ok]
    exact ⟨_, mergeChange_eq_ok.2 ⟨m, hm, rfl⟩, hfold⟩

/-- The new records are those of the mergers of all writes. -/
theorem newRecords_eq_ok_iff {store : Store} {height : Height} {accepted : Accepted}
    {records : List Record} : store.newRecords height accepted = .ok records ↔
      ∃ mergers : Mergers, (writes accepted).foldlM
          (fun ms w => store.mergeChange height w.1 ms w.2) .empty = .ok mergers ∧
        records = mergers.toList.filterMap Merger.close := by
  rw [newRecords, foldlM_mergeOperation, bind_eq_ok]
  exact exists_congr fun mergers => and_congr_right' (pure_eq_ok.trans eq_comm)

/-- Writes records one after another, each over one with its key. -/
def putAll (store : Store) (records : List Record) : Store :=
  records.foldl (fun (s : Store) r => s.insert r) store

theorem putAll_cons (store : Store) (r : Record) (records : List Record) :
    store.putAll (r :: records) = putAll (store.insert r) records :=
  rfl

theorem run_inserts (store : Store) (records : List Record) :
    (records.forM fun r => modify fun store => store.insert r : Writing Store PUnit).run.run store =
      (.ok (), store.putAll records) := by
  induction records generalizing store with
  | nil => rfl
  | cons r records ih => exact ih (store.insert r)

/-- The records are made before the first of them is written, and only making them can fail. -/
theorem tryCommit_eq (store : Store) (height : Height) (accepted : Accepted) :
    store.tryCommit height accepted =
      match store.newRecords height accepted with
      | .error e => (.error e, store)
      | .ok records => (.ok records, store.putAll records) := by
  show ((liftM (store.newRecords height accepted) : Writing Store _) >>= _).run.run store = _
  cases store.newRecords height accepted with
  | error e => rfl
  | ok records =>
    show ((records.forM _ : Writing Store _) >>= fun _ => pure records).run.run store = _
    rw [ExceptT.run_bind, StateT.run_bind, run_inserts]
    rfl

theorem commit_eq_ok_iff {store store' : Store} {height : Height} {accepted : Accepted}
    {records : List Record} : store.commit height accepted = .ok (records, store') ↔
      store.newRecords height accepted = .ok records ∧ store' = store.putAll records := by
  rw [commit, tryCommit_eq]
  cases store.newRecords height accepted with
  | error e => simp
  | ok rs =>
    simp only [Except.ok.injEq, Prod.mk.injEq]
    exact and_congr_right fun h => by rw [h, eq_comm]

theorem commit_eq_error {store : Store} {height : Height} {accepted : Accepted} {e : StateError} :
    store.commit height accepted = .error e ↔ store.newRecords height accepted = .error e := by
  rw [commit, tryCommit_eq]
  cases store.newRecords height accepted <;> simp

/-- The records of closed mergers, each under its key. -/
theorem get?_foldl_close {ms : List Merger} (sorted : ms.Pairwise fun m m' => m.key < m'.key)
    (store : Store) (key : String) :
    (store.putAll (ms.filterMap Merger.close)).get? key =
      ((ms.find? fun m => m.key = key).bind Merger.close).or (store.get? key) := by
  induction ms generalizing store with
  | nil => rfl
  | cons m rest ih =>
    obtain ⟨hm, hrest⟩ := List.pairwise_cons.1 sorted
    by_cases hkey : m.key = key
    · have hnone : (rest.find? fun m' => m'.key = key) = none := by
        refine List.find?_eq_none.2 fun m' hm' => ?_
        simpa using fun h => String.lt_irrefl _ (hkey ▸ h ▸ hm m' hm')
      cases hc : m.close with
      | none => simp [hc, ih hrest, hnone, hkey]
      | some r =>
        have hr : r.key = key := (Merger.key_of_close hc).trans hkey
        simp [hc, putAll_cons, ih hrest, hnone, hkey, KeyedList.get?_insert, hr]
    · cases hc : m.close with
      | none => simp [hc, ih hrest, hkey]
      | some r =>
        have hr : r.key ≠ key := fun h => hkey ((Merger.key_of_close hc).symm.trans h)
        simp [hc, putAll_cons, ih hrest, hkey, KeyedList.get?_insert, hr]

variable {store store' : Store} {height : Height} {accepted : Accepted} {records : List Record}

/-- Keys do not concern each other: a record is what the writes to its key make of the record that
stood there. -/
theorem get?_commit (h : store.commit height accepted = .ok (records, store')) (key : String) :
    ∃ m, (Merger.start height key (store.get? key)).mergeAll (writesTo accepted key) = .ok m ∧
      store'.get? key = m.close.or (store.get? key) := by
  obtain ⟨hrecords, rfl⟩ := commit_eq_ok_iff.1 h
  obtain ⟨mergers, hfold, rfl⟩ := newRecords_eq_ok_iff.1 hrecords
  refine ⟨store.mergerAt height mergers key, mergerAt_foldlM hfold key, ?_⟩
  rw [get?_foldl_close mergers.sorted, mergerAt]
  unfold KeyedList.get?
  cases hf : mergers.toList.find? fun m => m.key = key with
  | none => simp [Merger.close_start]
  | some m => simp

/-- A commit succeeds if the writes to each key can be merged. -/
theorem exists_commit (h : ∀ key, ∃ m, (Merger.start height key (store.get? key)).mergeAll
    (writesTo accepted key) = .ok m) : ∃ result, store.commit height accepted = .ok result := by
  obtain ⟨mergers, hfold⟩ := @exists_foldlM_mergeChange store height (writes accepted) .empty h
  exact ⟨_, commit_eq_ok_iff.2 ⟨newRecords_eq_ok_iff.2 ⟨mergers, hfold, rfl⟩, rfl⟩⟩

/-- Changes are committed that can be made of every payload which their keys may have, and keep it
so. -/
theorem exists_commit_of_step {P : String → Option Payload → Prop}
    (start : ∀ key, P key (store.payload? key))
    (step : ∀ w ∈ writes accepted, ∀ current, P w.2.key current →
      ∃ next, w.2.next? current = some next ∧ P w.2.key (some next)) :
    ∃ records store', store.commit height accepted = .ok (records, store') := by
  obtain ⟨⟨records, store'⟩, h⟩ := @exists_commit store height accepted fun key => by
    apply Merger.exists_mergeAll (start key)
    intro w hw
    obtain ⟨hwritten, rfl⟩ := mem_writesTo.1 hw
    exact ⟨rfl, step w hwritten⟩
  exact ⟨records, store', h⟩

/-- Changes that only replace are committed. -/
theorem exists_commit_of_replace (replace : ∀ w ∈ writes accepted, w.2.strategy = .replace) :
    ∃ records store', store.commit height accepted = .ok (records, store') :=
  exists_commit_of_step (P := fun _ _ => True) (fun _ => trivial) fun w hw current _ =>
    ⟨_, Change.next?_replace (replace w hw) current, trivial⟩

theorem payload?_eq_current (h : store.commit height accepted = .ok (records, store'))
    (key : String) :
    ∃ m, (Merger.start height key (store.get? key)).mergeAll (writesTo accepted key) = .ok m ∧
      store'.payload? key = m.current := by
  obtain ⟨m, hm, hget⟩ := get?_commit h key
  refine ⟨m, hm, ?_⟩
  rw [payload?, hget, ← m.payload_close, (Merger.mergeAll_eq_ok hm).2]
  rfl

/-- A property of the payload under a key that every write to the key keeps. -/
theorem commit_induction {P : Option Payload → Prop}
    (h : store.commit height accepted = .ok (records, store')) {key : String}
    (start : P (store.payload? key))
    (step : ∀ w ∈ writesTo accepted key, ∀ current next, P current →
      w.2.next? current = some next → P (some next)) : P (store'.payload? key) := by
  obtain ⟨m, hm, hcurrent⟩ := payload?_eq_current h key
  rw [hcurrent]
  exact Merger.mergeAll_induction hm start step

/-- A property of the payload under a key that one write to the key brings about and every such
write keeps. -/
theorem commit_of_brought {P : Option Payload → Prop}
    (h : store.commit height accepted = .ok (records, store')) {key : String}
    {w : Digest × Change} (hw : w ∈ writesTo accepted key)
    (brings : ∀ current next, w.2.next? current = some next → P (some next))
    (keeps : ∀ w ∈ writesTo accepted key, ∀ current next, P current →
      w.2.next? current = some next → P (some next)) : P (store'.payload? key) := by
  obtain ⟨m, hm, hcurrent⟩ := payload?_eq_current h key
  rw [hcurrent]
  exact Merger.mergeAll_of_brought hm hw brings keeps

/-- Where writes only replace, the last one stays. -/
theorem payload?_commit (h : store.commit height accepted = .ok (records, store')) {key : String}
    (replace : ∀ w ∈ writesTo accepted key, w.2.strategy = .replace) :
    store'.payload? key =
      ((writesTo accepted key).getLast?.map fun w => w.2.payload).or (store.payload? key) := by
  obtain ⟨m, hm, hcurrent⟩ := payload?_eq_current h key
  rw [hcurrent, Merger.current_mergeAll hm replace]
  rfl

/-- Where writes only replace, a key holds what one of the writes to it writes, or what it held
before. -/
theorem payload?_commit_cases (h : store.commit height accepted = .ok (records, store'))
    {key : String} (replace : ∀ w ∈ writes accepted, w.2.key = key → w.2.strategy = .replace) :
    (∃ w ∈ writes accepted, w.2.key = key ∧ store'.payload? key = some w.2.payload) ∨
      (∀ w ∈ writes accepted, w.2.key ≠ key) ∧ store'.payload? key = store.payload? key := by
  have hpayload := payload?_commit h fun w hw =>
    replace w (mem_writesTo.1 hw).1 (mem_writesTo.1 hw).2
  cases hl : (writesTo accepted key).getLast? with
  | none =>
    rw [hl] at hpayload
    refine .inr ⟨fun w hw hkey => ?_, hpayload⟩
    have hmem := mem_writesTo.2 ⟨hw, hkey⟩
    rw [List.getLast?_eq_none_iff.1 hl] at hmem
    cases hmem
  | some last =>
    rw [hl] at hpayload
    obtain ⟨hlast, hkey⟩ := mem_writesTo.1 (List.mem_of_getLast? hl)
    exact .inl ⟨last, hlast, hkey, hpayload⟩

/-- A record is left alone by writes to other keys. -/
theorem get?_commit_of_not_written (h : store.commit height accepted = .ok (records, store'))
    {key : String} (unwritten : ∀ w ∈ writes accepted, w.2.key ≠ key) :
    store'.get? key = store.get? key := by
  obtain ⟨m, hm, hget⟩ := get?_commit h key
  have hnil : writesTo accepted key = [] :=
    List.filter_eq_nil_iff.2 fun w hw => by simpa using unwritten w hw
  rw [hnil] at hm
  rw [hget, ← Merger.mergeAll_nil.1 hm, Merger.close_start, Option.none_or]

/-- Every record after a commit is intact if every record before it was. -/
theorem isIntact_commit (h : store.commit height accepted = .ok (records, store'))
    (intact : ∀ r ∈ store.toList, r.IsIntact) {r : Record} (hr : r ∈ store'.toList) :
    r.IsIntact := by
  obtain ⟨m, -, hget⟩ := get?_commit h r.key
  rw [KeyedList.get?_of_mem hr] at hget
  cases hc : m.close with
  | none =>
    rw [hc, Option.none_or] at hget
    exact intact r (KeyedList.mem_iff_get?.2 hget.symm)
  | some r' =>
    rw [hc, Option.some_or, Option.some.injEq] at hget
    exact hget ▸ Merger.isIntact_of_close hc

end Store

end CurrencyLedger
