import CurrencyLedger.Proofs.Ledger.Dump
import CurrencyLedger.Proofs.Processing.Pooling

/-!
Restarts are transparent. Between two batches a store may be dumped and restored, and a new
dispatcher be made for it: what the later batches tell and write is the same as if one store had
been kept in memory, with one dispatcher that moves from height to height.
-/

namespace CurrencyLedger

open Traversal

/-- A batch for a height. -/
structure Turn where
  height : Height
  operations : List Operation

/-- What a turn tells: the operations that it accepted and those that it rejected, and the records
that it wrote. -/
abbrev Told := Except LedgerError (BatchResult × List Record)

/-- A store with the dispatcher that works on it. -/
structure Session where
  store : Store
  dispatcher : Dispatcher

namespace Session

/-- Moves to the height of a turn, runs its batch and commits what was accepted. A turn that fails
writes nothing. -/
def turn (s : Session) (t : Turn) : Told × Session :=
  match (s.dispatcher.nextHeight t.height s.store.reader).batch t.operations with
  | (.error error, d) => (.error error, ⟨s.store, d⟩)
  | (.ok result, d) =>
    match s.store.commit t.height result.accepted with
    | .error error => (.error (.state error), ⟨s.store, d⟩)
    | .ok (records, store) => (.ok (result, records), ⟨store, d⟩)

/-- What a sequence of turns tells, and the store after them. -/
def turns : Session → List Turn → List Told × Store
  | s, [] => ([], s.store)
  | s, t :: rest => ((s.turn t).1 :: ((s.turn t).2.turns rest).1, ((s.turn t).2.turns rest).2)

/-- Why a session cannot be taken up again. -/
inductive RestartFault where
  | restore (fault : Store.RestoreFault)
  | dispatcher (error : LedgerError)

/-- Dumps the store, restores it from the dump and makes a new dispatcher for it. -/
def restart (config : EngineConfig) (height : Height) (s : Session) :
    Except RestartFault Session := do
  let store ← (Store.restore s.store.dump).mapError .restore
  let d ← (Dispatcher.ofConfig config height store.reader).mapError .dispatcher
  return ⟨store, d⟩

/-- Turns, each with whether it comes after a restart. -/
def interruptedTurns (config : EngineConfig) :
    Session → List (Bool × Turn) → Except RestartFault (List Told × Store)
  | s, [] => .ok ([], s.store)
  | s, (false, t) :: rest =>
    ((s.turn t).2.interruptedTurns config rest).map fun (told, store) =>
      ((s.turn t).1 :: told, store)
  | s, (true, t) :: rest => do
    let r ← s.restart config t.height
    let (told, store) ← (r.turn t).2.interruptedTurns config rest
    return ((r.turn t).1 :: told, store)

end Session

namespace Dispatcher

variable {config : EngineConfig} {d d' : Dispatcher}

theorem Reachable.exists_ofConfig (h : d.Reachable config) (height : Height) (read : Reader) :
    ∃ d', ofConfig config height read = .ok d' := by
  rw [ofConfig, h.isSetUp.check_eq]
  exact ⟨_, rfl⟩

/-- At a new height a dispatcher is, but for its pool, as its configuration makes it. -/
theorem Reachable.unpooled_nextHeight (h : d.Reachable config) {threshold : Threshold}
    (checked : config.check = .ok threshold) (height : Height) (read : Reader) :
    (d.nextHeight height read).unpooled =
      .start .standard ⟨height, read, threshold⟩ config.networkBytes
        config.oneOperationPerSender := by
  have setUp := h.isSetUp
  obtain rfl : threshold = d.context.threshold :=
    Except.ok.inj (checked.symm.trans setUp.check_eq)
  simp only [unpooled, Dispatcher.nextHeight, Unpooled.start, setUp.ready.registry,
    setUp.network_eq, setUp.strict_eq]

/-- What a batch at a new height gives depends on the configuration, not on what was done before. -/
theorem Reachable.batch_nextHeight (h : d.Reachable config) (h' : d'.Reachable config)
    (height : Height) (read : Reader) (ops : List Operation) :
    ((d.nextHeight height read).batch ops).1 = ((d'.nextHeight height read).batch ops).1 := by
  have hcheck := h.isSetUp.check_eq
  have hbatch := ((h.nextHeight height read).isReady.isOrderly.agrees_batchFrom .empty ops).answer
  have hbatch' :=
    ((h'.nextHeight height read).isReady.isOrderly.agrees_batchFrom .empty ops).answer
  rw [h.unpooled_nextHeight hcheck] at hbatch
  rw [h'.unpooled_nextHeight hcheck] at hbatch'
  exact hbatch.trans hbatch'.symm

/-- A new dispatcher is at its height already. -/
theorem nextHeight_ofConfig {height : Height} {read : Reader}
    (made : ofConfig config height read = .ok d) : d.nextHeight height read = d := by
  obtain ⟨threshold, -, h⟩ := bind_eq_ok.1 made
  cases h
  rfl

end Dispatcher

namespace Session

variable {config : EngineConfig} {s s' : Session}

/-- Sessions of one configuration on one store, which was built. -/
structure Alike (config : EngineConfig) (s s' : Session) : Prop where
  store_eq : s'.store = s.store
  built : s.store.IsBuilt
  reachable : s.dispatcher.Reachable config
  reachable' : s'.dispatcher.Reachable config

/-- What a turn tells depends on the store and on what the batch gives. -/
theorem told_turn (s : Session) (t : Turn) :
    (s.turn t).1 = do
      let result ← ((s.dispatcher.nextHeight t.height s.store.reader).batch t.operations).1
      let (records, _) ← (s.store.commit t.height result.accepted).mapError .state
      return (result, records) := by
  unfold Session.turn
  split
  · next h => rw [h]; rfl
  · next h =>
    rw [h]
    split
    · next hcommit => simp only [bind, Except.bind, hcommit]; rfl
    · next hcommit => simp only [bind, Except.bind, hcommit]; rfl

theorem dispatcher_turn (s : Session) (t : Turn) :
    (s.turn t).2.dispatcher =
      ((s.dispatcher.nextHeight t.height s.store.reader).batch t.operations).2 := by
  unfold Session.turn
  split
  · next h => rw [h]
  · next h => rw [h]; split <;> rfl

theorem commit_of_turn {t : Turn} {result : BatchResult} {records : List Record}
    (told : (s.turn t).1 = .ok (result, records)) :
    s.store.commit t.height result.accepted = .ok (records, (s.turn t).2.store) := by
  unfold Session.turn at told ⊢
  split at told
  · cases told
  · split at told
    · cases told
    · next hcommit =>
      cases told
      simp only [hcommit]

theorem store_turn_of_error {t : Turn} {error : LedgerError}
    (told : (s.turn t).1 = .error error) : (s.turn t).2.store = s.store := by
  unfold Session.turn at told ⊢
  split
  · rfl
  · split
    · rfl
    · next hbatch _ _ _ hcommit =>
      simp only [hbatch, hcommit] at told
      cases told

/-- Without operations nothing is written. -/
theorem store_turn_of_nil {t : Turn} (nothing : t.operations = []) :
    (s.turn t).2.store = s.store := by
  rw [Session.turn, nothing]
  rfl

/-- A turn takes its dispatcher to another that can be reached. -/
theorem reachable_turn (reachable : s.dispatcher.Reachable config) (t : Turn) :
    (s.turn t).2.dispatcher.Reachable config := by
  rw [dispatcher_turn]
  exact (reachable.nextHeight _ _).batch _

/-- A turn tells the same in sessions that are alike, and leaves them alike. -/
theorem Alike.turn (alike : Alike config s s') (t : Turn) :
    (s'.turn t).1 = (s.turn t).1 ∧ Alike config (s.turn t).2 (s'.turn t).2 := by
  have told : (s'.turn t).1 = (s.turn t).1 := by
    rw [told_turn, told_turn, alike.store_eq, alike.reachable'.batch_nextHeight alike.reachable]
  have reachable := reachable_turn alike.reachable t
  have reachable' := reachable_turn alike.reachable' t
  refine ⟨told, ?_⟩
  cases htold : (s.turn t).1 with
  | error error =>
    have store := store_turn_of_error htold
    have store' := store_turn_of_error (told.trans htold)
    refine ⟨?_, store ▸ alike.built, reachable, reachable'⟩
    rw [store, store', alike.store_eq]
  | ok answer =>
    -- Both stores come of committing the same changes to the same store.
    have committed := commit_of_turn htold
    have committed' := commit_of_turn (told.trans htold)
    rw [alike.store_eq, committed] at committed'
    refine ⟨?_, alike.built.commit committed, reachable, reachable'⟩
    exact (Prod.mk.inj (Except.ok.inj committed')).2.symm

/-- Any session on a store that was built can be taken up again. -/
theorem Alike.restart (alike : Alike config s s') (height : Height) :
    ∃ r, s'.restart config height = .ok r ∧ Alike config s r := by
  obtain ⟨d, made⟩ := alike.reachable.exists_ofConfig height s.store.reader
  refine ⟨⟨s.store, d⟩, ?_, rfl, alike.built, alike.reachable, .start made⟩
  rw [Session.restart, alike.store_eq, Store.restore_dump alike.built]
  exact bind_eq_ok.2 ⟨s.store, rfl, bind_eq_ok.2 ⟨d, mapError_eq_ok.2 made, rfl⟩⟩

/-- Restarts between turns succeed and change nothing of what is told or written. -/
theorem Alike.interruptedTurns (alike : Alike config s s') (ts : List (Bool × Turn)) :
    s'.interruptedTurns config ts = .ok (s.turns (ts.map Prod.snd)) := by
  induction ts generalizing s s' with
  | nil => rw [Session.interruptedTurns, alike.store_eq]; rfl
  | cons step rest ih =>
    obtain ⟨interrupted, t⟩ := step
    rw [List.map_cons, Session.turns]
    cases interrupted with
    | false =>
      obtain ⟨told, after⟩ := alike.turn t
      rw [Session.interruptedTurns, ih after, told]
      rfl
    | true =>
      obtain ⟨r, taken, alike⟩ := alike.restart t.height
      obtain ⟨told, after⟩ := alike.turn t
      rw [← told]
      exact bind_eq_ok.2 ⟨r, taken, bind_eq_ok.2 ⟨_, ih after, rfl⟩⟩

end Session

end CurrencyLedger
