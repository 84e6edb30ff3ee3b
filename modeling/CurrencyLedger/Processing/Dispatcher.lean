import CurrencyLedger.Processing.Claim
import CurrencyLedger.Processing.Pool

/-!
Dispatchers take operations to the processors of their kinds, and see to it that no two operations
of one height claim the same.
-/

namespace CurrencyLedger

inductive Outcome where
  /-- The changes of an operation, none after the first phase. -/
  | accepted (changes : List Change)
  | rejected (reason : Reason)

namespace Outcome

/-- Tells a rejection from an error that stops the height. -/
def ofResult : Result (List Change) → Except LedgerError Outcome
  | .ok changes => .ok (.accepted changes)
  | .error (.rejected reason) => .ok (.rejected reason)
  | .error (.fatal error) => .error error

end Outcome

/-- The kinds that operations can have here, each with the kind of processor that takes them. -/
abbrev Registry := OperationKind → Option OperationKind

def Registry.standard : Registry := some

structure Dispatcher where
  registry : Registry
  pool : Pool
  context : Context
  network : List UInt8
  /-- What the operations of this height have claimed. -/
  claims : Claims
  strict : Bool

/-- Accepted and rejected operations in their order. -/
structure BatchResult where
  accepted : Store.Accepted
  rejected : List (Digest × Reason)

def BatchResult.empty : BatchResult := ⟨[], []⟩

namespace Dispatcher

def start (registry : Registry) (context : Context) (network : List UInt8) (capacity : Nat)
    (strict : Bool) : Dispatcher :=
  ⟨registry, .ofCapacity capacity, context, network, .none, strict⟩

/-- A dispatcher for all kinds. -/
def ofConfig (config : EngineConfig) (height : Height) (read : Reader) :
    Except LedgerError Dispatcher := do
  let threshold ← config.check.mapError .config
  return start .standard ⟨height, read, threshold⟩ config.networkBytes config.poolCapacity.toNat
    config.oneOperationPerSender

/-- Goes on to another height. Idle processors stay, claims do not. -/
def nextHeight (d : Dispatcher) (height : Height) (read : Reader) : Dispatcher :=
  { d with context := ⟨height, read, d.context.threshold⟩, claims := .none }

/-- Takes a processor out of the pool, or makes one. -/
def borrow (d : Dispatcher) (kind : OperationKind) : Except Reason (Processor × Dispatcher) :=
  match d.registry kind with
  | none => .error (.unknownOperation kind)
  | some made =>
    match d.pool.take? kind d.context with
    | some (p, pool) => .ok (p, { d with pool := pool })
    | none => .ok (.start made d.context, d)

/-- Gives a processor back to the pool. -/
def giveBack (d : Dispatcher) (p : Processor) : Dispatcher :=
  { d with pool := (d.pool.put p).2 }

/-- The rejection of an invalid operation. -/
def validity (d : Dispatcher) (op : Operation) : Except LedgerError (Option Reason) :=
  match op.check d.network with
  | .ok () => .ok none
  | .error error => error.verdict.map some

/-- Registers what an operation claims, unless something of it is taken. -/
def claim (d : Dispatcher) (op : Operation) : Except LedgerError (Option Reason) × Dispatcher :=
  match Claims.ofIntent d.strict op.fact.intent with
  | .error error => (.error (.validation error), d)
  | .ok new =>
    match d.claims.conflict? new with
    | some reason => (.ok (some reason), d)
    | none => (.ok none, { d with claims := d.claims.union new })

/-- Does something with a borrowed processor for a valid operation. -/
def withProcessor (d : Dispatcher) (op : Operation)
    (use : Processor → Dispatcher → Except LedgerError Outcome × Processor × Dispatcher) :
    Except LedgerError Outcome × Dispatcher :=
  match d.borrow op.kind with
  | .error reason => (.ok (.rejected reason), d)
  | .ok (p, d) =>
    match d.validity op with
    | .error error => (.error error, d.giveBack p)
    | .ok (some reason) => (.ok (.rejected reason), d.giveBack p)
    | .ok none =>
      let (outcome, p, d) := use p d
      (outcome, d.giveBack p)

/-- The first phase: checks an operation. -/
def preProcess (d : Dispatcher) (op : Operation) : Except LedgerError Outcome × Dispatcher :=
  d.withProcessor op fun p d =>
    let (result, p) := p.preProcess op
    (Outcome.ofResult (result.map fun _ => []), p, d)

/-- The second phase: claims what an operation needs and gives its changes. The claims stay even if
the operation is rejected then. -/
def process (d : Dispatcher) (op : Operation) : Except LedgerError Outcome × Dispatcher :=
  d.withProcessor op fun p d =>
    match d.claim op with
    | (.error error, d) => (.error error, p, d)
    | (.ok (some reason), d) => (.ok (.rejected reason), p, d)
    | (.ok none, d) =>
      let (result, p) := p.process op
      (Outcome.ofResult result, p, d)

/-- Both phases of one operation. -/
def run (d : Dispatcher) (op : Operation) : Except LedgerError Outcome × Dispatcher :=
  match d.preProcess op with
  | (.ok (.accepted _), d) => d.process op
  | other => other

def batchFrom (done : BatchResult) :
    Dispatcher → List Operation → Except LedgerError BatchResult × Dispatcher
  | d, [] => (.ok done, d)
  | d, op :: rest =>
    match d.run op with
    | (.error error, d) => (.error error, d)
    | (.ok (.accepted changes), d) =>
      batchFrom { done with accepted := done.accepted ++ [(op.hash, changes)] } d rest
    | (.ok (.rejected reason), d) =>
      batchFrom { done with rejected := done.rejected ++ [(op.hash, reason)] } d rest

/-- Runs operations in their order. An error that is no rejection stops the batch. -/
def batch (d : Dispatcher) (ops : List Operation) : Except LedgerError BatchResult × Dispatcher :=
  batchFrom .empty d ops

end Dispatcher

end CurrencyLedger
