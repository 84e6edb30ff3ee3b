import CurrencyLedger.Processing.Dispatcher
import CurrencyLedger.Proofs.Operation.Validity
import CurrencyLedger.Proofs.Processing.Paid

/-!
What a dispatcher does with an operation. The pool only saves the making of processors: `checked`
and `settled` say without it how the two phases end, and `accepted_of_run` is what an accepted
operation has passed.
-/

namespace CurrencyLedger

open Traversal

namespace Pool

/-- Every idle processor is kept under its kind. -/
def IsFiled (pool : Pool) : Prop :=
  ∀ kind, ∀ p ∈ pool.idle kind, p.kind = kind

theorem isFiled_ofCapacity (capacity : Nat) : (ofCapacity capacity).IsFiled := by
  intro kind p hp
  cases hp

variable {pool pool' : Pool} (filed : pool.IsFiled)
include filed

theorem IsFiled.setIdle {kind : OperationKind} {processors : List Processor}
    (h : ∀ p ∈ processors, p.kind = kind) : (pool.setIdle kind processors).IsFiled := by
  intro k p hp
  simp only [Pool.setIdle] at hp
  split at hp
  · next he => exact he ▸ h p hp
  · exact filed k p hp

/-- A processor out of the pool is as good as a new one. -/
theorem IsFiled.take? {kind : OperationKind} {ctx : Context} {p : Processor}
    (h : pool.take? kind ctx = some (p, pool')) : p = .start kind ctx ∧ pool'.IsFiled := by
  unfold Pool.take? at h
  split at h
  · cases h
  · next q rest hidle =>
    cases h
    have hkinds := hidle ▸ filed kind
    refine ⟨by rw [Processor.reset, hkinds q List.mem_cons_self], filed.setIdle fun p hp => ?_⟩
    exact hkinds p (List.mem_cons_of_mem _ hp)

theorem IsFiled.put (p : Processor) : (pool.put p).2.IsFiled := by
  unfold Pool.put
  split
  · apply filed.setIdle
    intro q hq
    rcases List.mem_cons.1 hq with rfl | hq
    · rfl
    · exact filed p.kind q hq
  · exact filed

end Pool

/-- A fault of an operation rejects it. -/
theorem Operation.IsFault.verdict_eq {error : LedgerError} (h : IsFault error) :
    error.verdict = .ok (.invalidOperation error.message) := by
  rw [LedgerError.verdict]
  rcases h with h | h
  · rw [h]
  · rw [h]

/-- Only a rejection is an outcome of its own. -/
theorem Outcome.ofResult_eq_rejected {result : Result (List Change)} {reason : Reason} :
    ofResult result = .ok (.rejected reason) ↔ result = .error (.rejected reason) := by
  cases result with
  | ok changes => simp [ofResult]
  | error halt => cases halt <;> simp [ofResult]

namespace Dispatcher

/-- A dispatcher whose pool is in order and whose kinds go to processors of their own. -/
structure IsOrderly (d : Dispatcher) : Prop where
  own : ∀ kind made, d.registry kind = some made → made = kind
  filed : d.pool.IsFiled

/-- A dispatcher for all kinds whose pool is in order. -/
structure IsReady (d : Dispatcher) : Prop where
  registry : d.registry = .standard
  filed : d.pool.IsFiled

/-- How the first phase of an operation ends. -/
def checked (d : Dispatcher) (op : Operation) : Except LedgerError Outcome :=
  match d.validity op with
  | .error error => .error error
  | .ok (some reason) => .ok (.rejected reason)
  | .ok none =>
    Outcome.ofResult (((Processor.start op.kind d.context).preProcess op).1.map fun _ => [])

/-- How the second phase of an operation ends, and what is claimed then. -/
def settled (d : Dispatcher) (op : Operation) : Except LedgerError Outcome × Claims :=
  match d.validity op with
  | .error error => (.error error, d.claims)
  | .ok (some reason) => (.ok (.rejected reason), d.claims)
  | .ok none =>
    match Claims.ofIntent d.strict op.fact.intent with
    | .error error => (.error (.validation error), d.claims)
    | .ok new =>
      match d.claims.conflict? new with
      | some reason => (.ok (.rejected reason), d.claims)
      | none =>
        (Outcome.ofResult ((Processor.start op.kind d.context).process op).1, d.claims.union new)

section Validity

variable {d : Dispatcher} {op : Operation}

theorem validity_of_ok (valid : op.check d.network = .ok ()) : d.validity op = .ok none := by
  rw [validity, valid]

/-- The arm for errors that stop the height is never taken: an operation that is not in order is
rejected for that. -/
theorem validity_of_error {error : LedgerError} (h : op.check d.network = .error error) :
    d.validity op = .ok (some (.invalidOperation error.message)) := by
  rw [validity, h]
  exact congrArg (Except.map some) (Operation.check_failsBy op d.network error h).verdict_eq

theorem check_of_validity (h : d.validity op = .ok none) : op.check d.network = .ok () := by
  cases hcheck : op.check d.network with
  | ok passed => rfl
  | error error =>
    rw [validity_of_error hcheck] at h
    cases h

end Validity

namespace IsOrderly

variable {d : Dispatcher} (orderly : d.IsOrderly)
include orderly

theorem borrow {kind : OperationKind} (known : (d.registry kind).isSome) :
    ∃ pool : Pool, pool.IsFiled ∧
      d.borrow kind = .ok (.start kind d.context, { d with pool := pool }) := by
  obtain ⟨made, hmade⟩ := Option.isSome_iff_exists.1 known
  obtain rfl := orderly.own kind made hmade
  unfold Dispatcher.borrow
  simp only [hmade]
  cases h : d.pool.take? made d.context with
  | none => exact ⟨d.pool, orderly.filed, rfl⟩
  | some taken =>
    obtain ⟨p, pool⟩ := taken
    obtain ⟨rfl, filed⟩ := orderly.filed.take? h
    exact ⟨pool, filed, rfl⟩

theorem preProcess_eq {op : Operation} (known : (d.registry op.kind).isSome) :
    ∃ pool : Pool, pool.IsFiled ∧ d.preProcess op = (d.checked op, { d with pool := pool }) := by
  obtain ⟨pool, filed, hborrow⟩ := orderly.borrow known
  have hvalidity : ({ d with pool := pool } : Dispatcher).validity op = d.validity op := rfl
  unfold Dispatcher.preProcess withProcessor checked
  simp only [hborrow, hvalidity]
  -- whatever the check says, the processor is given back
  rcases d.validity op with _ | _ | _
  all_goals exact ⟨_, filed.put _, rfl⟩

theorem process_eq {op : Operation} (known : (d.registry op.kind).isSome) :
    ∃ pool : Pool, pool.IsFiled ∧
      d.process op = ((d.settled op).1, { d with pool := pool, claims := (d.settled op).2 }) := by
  obtain ⟨pool, filed, hborrow⟩ := orderly.borrow known
  have hvalidity : ({ d with pool := pool } : Dispatcher).validity op = d.validity op := rfl
  unfold Dispatcher.process withProcessor settled
  simp only [hborrow, hvalidity, claim]
  rcases d.validity op with _ | _ | _
  · exact ⟨_, filed.put _, rfl⟩
  · cases Claims.ofIntent d.strict op.fact.intent with
    | error e => exact ⟨_, filed.put _, rfl⟩
    | ok new =>
      cases hconflict : d.claims.conflict? new with
      | some reason =>
        simp only [hconflict]
        exact ⟨_, filed.put _, rfl⟩
      | none =>
        simp only [hconflict]
        exact ⟨_, filed.put _, rfl⟩
  · exact ⟨_, filed.put _, rfl⟩

end IsOrderly

namespace IsReady

variable {d : Dispatcher} (ready : d.IsReady)
include ready

theorem isOrderly : d.IsOrderly := by
  refine ⟨fun kind made h => ?_, ready.filed⟩
  rw [ready.registry] at h
  exact (Option.some.inj h).symm

theorem known (kind : OperationKind) : (d.registry kind).isSome := by
  rw [ready.registry]
  rfl

theorem preProcess_eq (op : Operation) : ∃ pool : Pool, pool.IsFiled ∧
    d.preProcess op = (d.checked op, { d with pool := pool }) :=
  ready.isOrderly.preProcess_eq (ready.known _)

theorem process_eq (op : Operation) : ∃ pool : Pool, pool.IsFiled ∧
    d.process op = ((d.settled op).1, { d with pool := pool, claims := (d.settled op).2 }) :=
  ready.isOrderly.process_eq (ready.known _)

/-- The dispatcher after an operation reads and checks as before. -/
theorem exists_run (op : Operation) : ∃ (pool : Pool) (claims : Claims), pool.IsFiled ∧
    (d.run op).2 = { d with pool := pool, claims := claims } := by
  obtain ⟨pool, filed, hpre⟩ := ready.preProcess_eq op
  have ready' : IsReady { d with pool := pool } := ⟨ready.registry, filed⟩
  obtain ⟨pool', filed', hprocess⟩ := ready'.process_eq op
  unfold run
  rw [hpre]
  split
  · next changes d' h =>
    obtain rfl := (Prod.mk.inj h).2
    rw [hprocess]
    exact ⟨pool', _, filed', rfl⟩
  · exact ⟨pool, d.claims, filed, rfl⟩

theorem run (op : Operation) : (d.run op).2.IsReady := by
  obtain ⟨pool, claims, filed, h⟩ := ready.exists_run op
  rw [h]
  exact ⟨ready.registry, filed⟩

theorem context_run (op : Operation) : (d.run op).2.context = d.context := by
  obtain ⟨pool, claims, -, h⟩ := ready.exists_run op
  rw [h]

theorem network_run (op : Operation) : (d.run op).2.network = d.network := by
  obtain ⟨pool, claims, -, h⟩ := ready.exists_run op
  rw [h]

omit ready in
theorem accepted_of_settled {op : Operation} {changes : List Change}
    (h : (d.settled op).1 = .ok (.accepted changes)) :
    op.check d.network = .ok () ∧ d.context.Admits op changes := by
  unfold settled at h
  split at h
  · cases h
  · cases h
  · next hvalid =>
    refine ⟨check_of_validity hvalid, ?_⟩
    split at h
    · cases h
    · split at h
      · cases h
      · cases hp : ((Processor.start op.kind d.context).process op).1 with
        | ok cs =>
          simp only [hp, Outcome.ofResult] at h
          cases h
          obtain ⟨ctx, hctx, -, hadmits⟩ := Processor.process_eq_ok.1 hp
          cases hctx
          exact hadmits
        | error halt => cases halt <;> simp [hp, Outcome.ofResult] at h

/-- An accepted operation is in order, and the rules admit it on the records that the dispatcher
reads. -/
theorem accepted_of_run {op : Operation} {changes : List Change} {d' : Dispatcher}
    (h : d.run op = (.ok (.accepted changes), d')) :
    op.check d.network = .ok () ∧ d.context.Admits op changes := by
  obtain ⟨pool, filed, hpre⟩ := ready.preProcess_eq op
  have ready' : IsReady { d with pool := pool } := ⟨ready.registry, filed⟩
  obtain ⟨pool', -, hprocess⟩ := ready'.process_eq op
  unfold Dispatcher.run at h
  rw [hpre] at h
  split at h
  · next _ d₁ he =>
    obtain rfl := (Prod.mk.inj he).2
    rw [hprocess] at h
    exact accepted_of_settled (Prod.mk.inj h).1
  · next hother => exact absurd h (hother _ _)

/-- An operation that is in order, admitted and in no conflict with earlier ones is accepted. -/
theorem run_eq_accepted {op : Operation} {changes : List Change} {new : Claims}
    (valid : op.check d.network = .ok ()) (admits : d.context.Admits op changes)
    (hnew : Claims.ofIntent d.strict op.fact.intent = .ok new)
    (free : d.claims.conflict? new = none) :
    ∃ pool : Pool, pool.IsFiled ∧ d.run op =
      (.ok (.accepted changes), { d with pool := pool, claims := d.claims.union new }) := by
  obtain ⟨pool, filed, hpre⟩ := ready.preProcess_eq op
  have ready' : IsReady { d with pool := pool } := ⟨ready.registry, filed⟩
  obtain ⟨pool', filed', hprocess⟩ := ready'.process_eq op
  have hstart : (Processor.start op.kind d.context).contextFor .process = .ok d.context := rfl
  have hchecked : d.checked op = .ok (.accepted []) := by
    have hfirst : ((Processor.start op.kind d.context).preProcess op).1 = .ok () :=
      Processor.preProcess_eq_ok.2 ⟨_, rfl, rfl, admits.fact, admits.check⟩
    rw [checked, validity_of_ok valid, hfirst]
    rfl
  have hsettled : d.settled op = (.ok (.accepted changes), d.claims.union new) := by
    have hsecond : ((Processor.start op.kind d.context).process op).1 = .ok changes :=
      Processor.process_eq_ok.2 ⟨_, hstart, rfl, admits⟩
    simp only [settled, validity_of_ok valid, hnew, free, hsecond, Outcome.ofResult]
  refine ⟨pool', filed', ?_⟩
  unfold Dispatcher.run
  rw [hpre, hchecked]
  change Dispatcher.process { d with pool := pool } op = _
  rw [hprocess]
  change ((d.settled op).1, { d with pool := pool', claims := (d.settled op).2 }) = _
  rw [hsettled]

end IsReady

/-- The states of a dispatcher with a configuration, whatever operations and heights it is given. -/
inductive Reachable (config : EngineConfig) : Dispatcher → Prop
  | start {height : Height} {read : Reader} {d : Dispatcher}
      (h : ofConfig config height read = .ok d) : Reachable config d
  | preProcess {d : Dispatcher} (op : Operation) (h : Reachable config d) :
      Reachable config (d.preProcess op).2
  | process {d : Dispatcher} (op : Operation) (h : Reachable config d) :
      Reachable config (d.process op).2
  | nextHeight {d : Dispatcher} (height : Height) (read : Reader) (h : Reachable config d) :
      Reachable config (d.nextHeight height read)

/-- A dispatcher is ready, with what its configuration sets. -/
structure IsSetUp (d : Dispatcher) (config : EngineConfig) : Prop where
  ready : d.IsReady
  network_eq : d.network = config.networkBytes
  check_eq : config.check = .ok d.context.threshold
  strict_eq : d.strict = config.oneOperationPerSender

namespace Reachable

variable {config : EngineConfig} {d : Dispatcher}

/-- Whatever a dispatcher does, it stays as it was set up. -/
theorem isSetUp (h : Reachable config d) : d.IsSetUp config := by
  induction h with
  | start h =>
    obtain ⟨threshold, hcheck, h⟩ := bind_eq_ok.1 h
    cases h
    exact ⟨⟨rfl, Pool.isFiled_ofCapacity _⟩, rfl, mapError_eq_ok.1 hcheck, rfl⟩
  | preProcess op _ ih =>
    obtain ⟨pool, filed, h⟩ := ih.ready.preProcess_eq op
    rw [h]
    exact ⟨⟨ih.ready.registry, filed⟩, ih.network_eq, ih.check_eq, ih.strict_eq⟩
  | process op _ ih =>
    obtain ⟨pool, filed, h⟩ := ih.ready.process_eq op
    rw [h]
    exact ⟨⟨ih.ready.registry, filed⟩, ih.network_eq, ih.check_eq, ih.strict_eq⟩
  | nextHeight height read _ ih =>
    exact ⟨⟨ih.ready.registry, ih.ready.filed⟩, ih.network_eq, ih.check_eq, ih.strict_eq⟩

theorem isReady (h : Reachable config d) : d.IsReady := h.isSetUp.ready

theorem network_eq (h : Reachable config d) : d.network = config.networkBytes :=
  h.isSetUp.network_eq

theorem run (h : Reachable config d) (op : Operation) : Reachable config (d.run op).2 := by
  unfold Dispatcher.run
  split
  · next _ d' he =>
    have hd : (d.preProcess op).2 = d' := by rw [he]
    exact (hd ▸ h.preProcess op).process op
  · exact h.preProcess op

theorem batch (h : Reachable config d) (ops : List Operation) :
    Reachable config (d.batch ops).2 := by
  suffices hfrom : ∀ done, Reachable config (batchFrom done d ops).2 from hfrom .empty
  induction ops generalizing d with
  | nil => exact fun _ => h
  | cons op rest ih =>
    intro done
    have hrun := h.run op
    unfold batchFrom
    split
    · next _ d' he => exact (by rw [he] at hrun; exact hrun)
    · next _ d' he => exact ih (by rw [he] at hrun; exact hrun) _
    · next _ d' he => exact ih (by rw [he] at hrun; exact hrun) _

end Reachable

/-- The operations of a batch that are accepted, in their order. -/
def acceptedOperations : Dispatcher → List Operation → List Operation
  | _, [] => []
  | d, op :: rest =>
    match d.run op with
    | (.error _, _) => []
    | (.ok (.accepted _), d) => op :: d.acceptedOperations rest
    | (.ok (.rejected _), d) => d.acceptedOperations rest

/-- An entry of the accepted list is made by an operation that is in order and admitted. -/
structure Makes (network : List UInt8) (ctx : Context) (op : Operation)
    (entry : Digest × List Change) : Prop where
  hash : entry.1 = op.hash
  valid : op.check network = .ok ()
  admits : ctx.Admits op entry.2

theorem forall₂_of_batchFrom {d d' : Dispatcher} (ready : d.IsReady) {done result : BatchResult}
    {ops : List Operation} (h : batchFrom done d ops = (.ok result, d')) :
    ∃ entries, result.accepted = done.accepted ++ entries ∧
      List.Forall₂ (Makes d.network d.context) (d.acceptedOperations ops) entries := by
  induction ops generalizing d done with
  | nil =>
    cases h
    exact ⟨[], (List.append_nil _).symm, .nil⟩
  | cons op rest ih =>
    have ready' := ready.run op
    have hcontext := ready.context_run op
    have hnetwork := ready.network_run op
    unfold batchFrom at h
    unfold acceptedOperations
    cases hrun : d.run op with
    | mk outcome middle =>
      rw [hrun] at h ready' hcontext hnetwork
      dsimp only at ready' hcontext hnetwork
      match outcome with
      | .error error => cases h
      | .ok (.accepted changes) =>
        obtain ⟨entries, hentries, hall⟩ := ih ready' h
        rw [hcontext, hnetwork] at hall
        obtain ⟨hvalid, hadmits⟩ := ready.accepted_of_run hrun
        exact ⟨(op.hash, changes) :: entries, by rw [hentries]; simp,
          .cons ⟨rfl, hvalid, hadmits⟩ hall⟩
      | .ok (.rejected reason) =>
        obtain ⟨entries, hentries, hall⟩ := ih ready' h
        rw [hcontext, hnetwork] at hall
        exact ⟨entries, hentries, hall⟩

/-- The accepted list of a batch holds what the accepted operations made, in their order. -/
theorem forall₂_of_batch {config : EngineConfig} {d d' : Dispatcher} (h : Reachable config d)
    {ops : List Operation} {result : BatchResult} (hbatch : d.batch ops = (.ok result, d')) :
    List.Forall₂ (Makes config.networkBytes d.context) (d.acceptedOperations ops)
      result.accepted := by
  obtain ⟨entries, hentries, hall⟩ := forall₂_of_batchFrom h.isReady hbatch
  rw [hentries, ← h.network_eq]
  exact hall

/-- Operations that are in order and admitted, and claim nothing, are all accepted. -/
theorem exists_batchFrom {d : Dispatcher} (ready : d.IsReady) {network : List UInt8}
    (hnetwork : d.network = network) {ctx : Context} (hcontext : d.context = ctx)
    {ops : List Operation} {entries : Store.Accepted}
    (hall : List.Forall₂ (Makes network ctx) ops entries)
    (unclaimed : ∀ op ∈ ops, Claims.ofIntent d.strict op.fact.intent = .ok .none)
    (done : BatchResult) :
    (∃ d', batchFrom done d ops = (.ok ⟨done.accepted ++ entries, done.rejected⟩, d')) ∧
      d.acceptedOperations ops = ops := by
  induction hall generalizing d done with
  | nil => exact ⟨⟨d, by rw [batchFrom, List.append_nil]⟩, rfl⟩
  | @cons op entry rest entries hmakes _ ih =>
    have hclaims := unclaimed op List.mem_cons_self
    obtain ⟨pool, filed, hrun⟩ := ready.run_eq_accepted (hnetwork ▸ hmakes.valid)
      (hcontext ▸ hmakes.admits) hclaims rfl
    have ready' : IsReady { d with pool := pool, claims := d.claims.union .none } :=
      ⟨ready.registry, filed⟩
    obtain ⟨⟨d', hbatch⟩, haccepted⟩ := ih ready' hnetwork hcontext
      (fun op' hop => unclaimed op' (List.mem_cons_of_mem _ hop))
      { done with accepted := done.accepted ++ [(op.hash, entry.2)] }
    have hentry : (op.hash, entry.2) = entry := by rw [← hmakes.hash]
    constructor
    · refine ⟨d', ?_⟩
      simp only [batchFrom, hrun]
      rw [hbatch, hentry, List.append_assoc, List.singleton_append]
    · simp only [acceptedOperations, hrun, haccepted]

end Dispatcher

end CurrencyLedger
