import CurrencyLedger.Proofs.Ledger.Commit
import CurrencyLedger.Proofs.Wire.RoundTrip

/-!
Dumps of stores. A store that was built of records, by seeds and by commits holds intact records
only, so the array of its records is read and taken again (`restore_dump`). A records file need not
be such a dump: `ofRecords_overwrite` says that the old records with the written ones in the place
of those that they overwrite are as good.
-/

namespace CurrencyLedger.Store

open Traversal

/-- The stores that can be built. The setters of accounts, balances and the like are cases of
`set`. -/
inductive IsBuilt : Store → Prop
  | empty : IsBuilt .empty
  | ofRecords {records : List Record} {store : Store} (taken : ofRecords records = .ok store) :
      IsBuilt store
  | set {store : Store} (built : IsBuilt store) (key : String) (payload : Payload) :
      IsBuilt (store.set key payload)
  | commit {store store' : Store} {height : Height} {accepted : Accepted} {records : List Record}
      (built : IsBuilt store) (committed : store.commit height accepted = .ok (records, store')) :
      IsBuilt store'

/-- The last of the records with a key stays. -/
theorem get?_putAll (store : Store) (records : List Record) (key : String) :
    (store.putAll records).get? key =
      (records.reverse.find? fun r => r.key = key).or (store.get? key) := by
  induction records generalizing store with
  | nil => rfl
  | cons r rest ih =>
    rw [putAll, List.foldl_cons, ← putAll, ih, KeyedList.get?_insert, List.reverse_cons,
      List.find?_append, Option.or_assoc]
    by_cases hkey : r.key = key <;> simp [hkey]

theorem foldlM_eq_ok {records : List Record} {store store' : Store} :
    records.foldlM (fun (store : Store) r =>
      if r.IsIntact then .ok (store.insert r) else (.error r : Except Record Store)) store =
        .ok store' ↔
      (∀ r ∈ records, r.IsIntact) ∧ store' = store.putAll records := by
  induction records generalizing store with
  | nil =>
    rw [List.foldlM_nil, pure_eq_ok]
    exact ⟨fun h => ⟨List.forall_mem_nil _, h.symm⟩, fun h => h.2.symm⟩
  | cons r rest ih =>
    rw [List.foldlM_cons, bind_eq_ok]
    by_cases hr : r.IsIntact
    · simp [hr, ih, putAll]
    · simp [hr]

/-- Records are taken if each is intact. -/
theorem ofRecords_eq_ok {records : List Record} {store : Store} :
    ofRecords records = .ok store ↔
      (∀ r ∈ records, r.IsIntact) ∧ store = putAll .empty records :=
  foldlM_eq_ok

theorem mem_of_mem_putAll {store : Store} {records : List Record} {r : Record}
    (h : r ∈ (store.putAll records).toList) : r ∈ records ∨ r ∈ store.toList := by
  have hget := KeyedList.get?_of_mem h
  rw [get?_putAll] at hget
  cases hfind : records.reverse.find? fun r' => r'.key = r.key with
  | some r' =>
    rw [hfind, Option.some_or, Option.some.injEq] at hget
    exact .inl (hget ▸ List.mem_reverse.1 (List.mem_of_find?_eq_some hfind))
  | none =>
    rw [hfind, Option.none_or] at hget
    exact .inr (KeyedList.mem_iff_get?.2 hget)

/-- Every record of a store that was built is intact. -/
theorem IsBuilt.isIntact {store : Store} (built : store.IsBuilt) :
    ∀ r ∈ store.toList, r.IsIntact := by
  induction built with
  | empty => exact fun r hr => absurd hr List.not_mem_nil
  | ofRecords taken =>
    obtain ⟨intact, rfl⟩ := ofRecords_eq_ok.1 taken
    intro r hr
    exact (mem_of_mem_putAll hr).elim (intact r) fun hr => absurd hr List.not_mem_nil
  | set built key payload ih =>
    intro r hr
    rcases KeyedList.mem_insertInto hr with rfl | hr
    · exact Record.isIntact_make _ _ _ _ _
    · exact ih r hr
  | commit built committed ih => exact fun r hr => isIntact_commit committed ih hr

theorem isIntact_of_committed {store store' : Store} {height : Height} {accepted : Accepted}
    {records : List Record} (h : store.commit height accepted = .ok (records, store')) :
    ∀ r ∈ records, r.IsIntact := by
  obtain ⟨mergers, -, rfl⟩ := newRecords_eq_ok_iff.1 (commit_eq_ok_iff.1 h).1
  intro r hr
  obtain ⟨m, -, hm⟩ := List.mem_filterMap.1 hr
  exact Merger.isIntact_of_close hm

/-- The records of a store give the store again. -/
theorem putAll_toList (store : Store) : putAll .empty store.toList = store := by
  refine KeyedList.ext fun key => ?_
  rw [get?_putAll]
  cases hfind : store.toList.reverse.find? fun r => r.key = key with
  | some r =>
    have hmem : r ∈ store.toList := List.mem_reverse.1 (List.mem_of_find?_eq_some hfind)
    have hkey : r.key = key := by simpa using List.find?_some hfind
    rw [Option.some_or, ← hkey, KeyedList.get?_of_mem hmem]
  | none =>
    have hnone : store.get? key = none :=
      List.find?_eq_none.2 fun r hr => List.find?_eq_none.1 hfind r (List.mem_reverse.2 hr)
    rw [hnone]
    rfl

theorem IsBuilt.ofRecords_toList {store : Store} (built : store.IsBuilt) :
    Store.ofRecords store.toList = .ok store :=
  ofRecords_eq_ok.2 ⟨built.isIntact, store.putAll_toList.symm⟩

/-- The array of the records, as a document. -/
def dump (store : Store) : String :=
  Wire.ledgerRecord.list.jsonText store.toList

/-- Why a document gives no store. -/
inductive RestoreFault where
  | document (error : ReadError)
  | notIntact (record : Record)

def restore (document : String) : Except RestoreFault Store := do
  let records ← (Wire.ledgerRecord.list.ofJson document).mapError .document
  (ofRecords records).mapError .notIntact

theorem ofJson_records (records : List Record) :
    Wire.ledgerRecord.list.ofJson (Wire.ledgerRecord.list.jsonText records) = .ok records :=
  Wire.faithful_ledgerRecord.list.ofJson_jsonText records

theorem restore_dump {store : Store} (built : store.IsBuilt) :
    restore store.dump = .ok store := by
  rw [restore, dump, ofJson_records]
  exact mapError_eq_ok.2 built.ofRecords_toList

/-- The old records, with those that were written in the place of those that they overwrite. -/
def overwrite (old written : List Record) : List Record :=
  (old.filter fun r => written.all fun w => w.key ≠ r.key) ++ written

/-- The last record with a key is an old one only if none with the key was written. -/
theorem find?_kept {old written : List Record} {key : String}
    (unwritten : (written.reverse.find? fun r => r.key = key) = none) :
    ((old.filter fun r => written.all fun w => w.key ≠ r.key).reverse.find? fun r => r.key = key) =
      old.reverse.find? fun r => r.key = key := by
  rw [← List.filter_reverse, List.find?_filter]
  congr 1
  funext r
  by_cases hkey : r.key = key
  · have kept : (written.all fun w => w.key ≠ r.key) = true := by
      refine List.all_eq_true.2 fun w hw => ?_
      have := List.find?_eq_none.1 unwritten w (List.mem_reverse.2 hw)
      simpa [hkey] using this
    simp only [kept, true_and, decide_eq_true_eq]
  · simp [hkey]

/-- Overwritten records give what the old ones give when the written ones are put over them. -/
theorem putAll_overwrite (old written : List Record) :
    putAll .empty (overwrite old written) = (putAll .empty old).putAll written := by
  refine KeyedList.ext fun key => ?_
  rw [get?_putAll, get?_putAll, get?_putAll, overwrite, List.reverse_append, List.find?_append,
    Option.or_assoc]
  -- What was written under the key hides the old records with it, whether they are kept or not.
  cases hfind : written.reverse.find? fun r => r.key = key with
  | some w => rw [Option.some_or, Option.some_or]
  | none => rw [Option.none_or, Option.none_or, find?_kept hfind]

theorem ofRecords_overwrite {store : Store} {old written : List Record}
    (taken : ofRecords old = .ok store) (intact : ∀ r ∈ written, r.IsIntact) :
    ofRecords (overwrite old written) = .ok (store.putAll written) := by
  obtain ⟨hold, rfl⟩ := ofRecords_eq_ok.1 taken
  refine ofRecords_eq_ok.2 ⟨fun r hr => ?_, (putAll_overwrite old written).symm⟩
  rcases List.mem_append.1 hr with hr | hr
  · exact hold r (List.mem_filter.1 hr).1
  · exact intact r hr

end CurrencyLedger.Store
