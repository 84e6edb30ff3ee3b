import CurrencyLedger.Proofs.Ledger.Commit
import Mathlib.Data.List.Perm.Basic

/-!
The order in which a commit takes changes. Only writes to the same key meet, so `commit_congr` asks
for their order under each key alone. Operations that write no key in common may come in any order,
and so may the changes of one operation that writes no key twice.
-/

namespace CurrencyLedger

open Traversal

namespace Store

section writes

variable {accepted accepted' : Accepted} {key : String}

theorem writesTo_eq_flatMap (accepted : Accepted) (key : String) :
    writesTo accepted key =
      accepted.flatMap fun entry =>
        (entry.2.filter fun c => c.key = key).map fun c => (entry.1, c) := by
  simp only [writesTo, writes, List.filter_flatMap, List.filter_map]
  rfl

theorem writesTo_append (accepted accepted' : Accepted) (key : String) :
    writesTo (accepted ++ accepted') key = writesTo accepted key ++ writesTo accepted' key := by
  rw [writesTo_eq_flatMap, List.flatMap_append, ← writesTo_eq_flatMap, ← writesTo_eq_flatMap]

theorem writesTo_cons (entry : Digest × List Change) (accepted : Accepted) (key : String) :
    writesTo (entry :: accepted) key =
      ((entry.2.filter fun c => c.key = key).map fun c => (entry.1, c)) ++
        writesTo accepted key := by
  rw [writesTo_eq_flatMap, List.flatMap_cons, ← writesTo_eq_flatMap]

/-- Operations that write no key in common write the same to each key in any order. -/
theorem writesTo_eq_of_perm (perm : accepted.Perm accepted')
    (apart : accepted.Pairwise fun a b => (a.2.map Change.key).Disjoint (b.2.map Change.key))
    (key : String) : writesTo accepted key = writesTo accepted' key := by
  rw [writesTo_eq_flatMap, writesTo_eq_flatMap]
  apply flatMap_eq_of_perm perm
  apply apart.imp
  intro a b disjoint
  rw [List.map_eq_nil_iff, List.map_eq_nil_iff, List.filter_eq_nil_iff, List.filter_eq_nil_iff]
  by_contra h
  simp only [not_or, not_forall, decide_eq_true_eq, not_not] at h
  obtain ⟨⟨c, hc, hkey⟩, c', hc', hkey'⟩ := h
  exact disjoint (List.mem_map.2 ⟨c, hc, hkey⟩) (List.mem_map.2 ⟨c', hc', hkey'⟩)

/-- So do the changes of an operation that writes no key twice. -/
theorem filter_key_eq_of_perm {changes changes' : List Change} (perm : changes.Perm changes')
    (distinct : (changes.map Change.key).Nodup) (key : String) :
    (changes.filter fun c => c.key = key) = changes'.filter fun c => c.key = key := by
  have hfilter : ∀ cs : List Change,
      (cs.filter fun c => c.key = key) = cs.flatMap fun c => if c.key = key then [c] else [] := by
    intro cs
    induction cs with
    | nil => rfl
    | cons c rest ih => by_cases hkey : c.key = key <;> simp [hkey, ih]
  rw [hfilter, hfilter]
  apply flatMap_eq_of_perm perm
  apply (List.pairwise_map.1 distinct).imp
  intro c c' hne
  by_cases hkey : c.key = key
  · exact .inr (if_neg fun hkey' => hne (hkey.trans hkey'.symm))
  · exact .inl (if_neg hkey)

end writes

section commit

variable {store : Store} {height : Height}

/-- There is a merger for each key that is written. -/
theorem isSome_get?_foldlM {ws : List (Digest × Change)} {mergers mergers' : Mergers}
    (h : ws.foldlM (fun ms w => store.mergeChange height w.1 ms w.2) mergers = .ok mergers')
    (key : String) :
    (mergers'.get? key).isSome ↔ (mergers.get? key).isSome ∨ ∃ w ∈ ws, w.2.key = key := by
  induction ws generalizing mergers with
  | nil => simp [pure_eq_ok.1 h]
  | cons w ws ih =>
    rw [List.foldlM_cons, bind_eq_ok] at h
    obtain ⟨middle, hw, h⟩ := h
    obtain ⟨m, hmerge, rfl⟩ := mergeChange_eq_ok.1 hw
    rw [ih h, get?_mergers_insert hmerge, List.exists_mem_cons_iff]
    by_cases hkey : w.2.key = key
    · simp [hkey]
    · simp [hkey]

/-- The mergers depend on the writes to each key alone. -/
theorem mergers_congr {ws ws' : List (Digest × Change)} {mergers mergers' : Mergers}
    (h : ws.foldlM (fun ms w => store.mergeChange height w.1 ms w.2) .empty = .ok mergers)
    (h' : ws'.foldlM (fun ms w => store.mergeChange height w.1 ms w.2) .empty = .ok mergers')
    (same : ∀ key, (ws.filter fun w => w.2.key = key) = ws'.filter fun w => w.2.key = key) :
    mergers = mergers' := by
  apply KeyedList.ext
  intro key
  have hat : store.mergerAt height mergers key = store.mergerAt height mergers' key := by
    have hmerged := mergerAt_foldlM h key
    rw [same key] at hmerged
    exact Except.ok.inj (hmerged.symm.trans (mergerAt_foldlM h' key))
  have hwritten : (∃ w ∈ ws, w.2.key = key) ↔ ∃ w ∈ ws', w.2.key = key := by
    have hmem := congrArg (fun l => ∃ w, w ∈ l) (same key)
    simpa using hmem
  have hthere : (mergers.get? key).isSome ↔ (mergers'.get? key).isSome := by
    rw [isSome_get?_foldlM h, isSome_get?_foldlM h', hwritten]
  unfold mergerAt at hat
  cases hm : mergers.get? key with
  | none =>
    cases hm' : mergers'.get? key with
    | none => rfl
    | some m' => simp [hm, hm'] at hthere
  | some m =>
    cases hm' : mergers'.get? key with
    | none => simp [hm, hm'] at hthere
    | some m' =>
      rw [hm, hm'] at hat
      exact congrArg some hat

variable {accepted accepted' : Accepted} {result : List Record × Store}

theorem commit_of_same (same : ∀ key, writesTo accepted key = writesTo accepted' key)
    (h : store.commit height accepted = .ok result) :
    store.commit height accepted' = .ok result := by
  obtain ⟨result', h'⟩ := @exists_commit store height accepted' fun key => by
    obtain ⟨m, hm, -⟩ := @get?_commit store result.2 height accepted result.1 h key
    exact ⟨m, same key ▸ hm⟩
  obtain ⟨hrecords, hstore⟩ := commit_eq_ok_iff.1 h
  obtain ⟨hrecords', hstore'⟩ := commit_eq_ok_iff.1 h'
  obtain ⟨mergers, hfold, hclosed⟩ := newRecords_eq_ok_iff.1 hrecords
  obtain ⟨mergers', hfold', hclosed'⟩ := newRecords_eq_ok_iff.1 hrecords'
  rw [mergers_congr hfold hfold' same, ← hclosed'] at hclosed
  rw [hclosed] at hstore
  rw [h', Prod.ext hclosed (hstore.trans hstore'.symm)]

/-- A commit depends on the writes to each key alone. -/
theorem commit_congr (same : ∀ key, writesTo accepted key = writesTo accepted' key) :
    store.commit height accepted = .ok result ↔ store.commit height accepted' = .ok result :=
  ⟨commit_of_same same, commit_of_same fun key => (same key).symm⟩

/-- Operations that write no key in common may be committed in any order. -/
theorem commit_perm (perm : accepted.Perm accepted')
    (apart : accepted.Pairwise fun a b => (a.2.map Change.key).Disjoint (b.2.map Change.key)) :
    store.commit height accepted = .ok result ↔ store.commit height accepted' = .ok result :=
  commit_congr (writesTo_eq_of_perm perm apart)

/-- The changes of an operation that writes no key twice may be committed in any order, among
whatever other operations. -/
theorem commit_perm_changes {changes changes' : List Change} (perm : changes.Perm changes')
    (distinct : (changes.map Change.key).Nodup) (before after : Accepted) (digest : Digest) :
    store.commit height (before ++ (digest, changes) :: after) = .ok result ↔
      store.commit height (before ++ (digest, changes') :: after) = .ok result := by
  apply commit_congr
  intro key
  rw [writesTo_append, writesTo_append, writesTo_cons, writesTo_cons,
    filter_key_eq_of_perm perm distinct]

end commit

end Store

end CurrencyLedger
