import CurrencyLedger.Ledger.Change

/-!
Mergers fold the changes of one height to one key into the record that stood there before.
-/

namespace CurrencyLedger

/-- Steps that write to a state. What a step has written stays where a later one fails. -/
abbrev Writing (σ : Type) : Type → Type :=
  ExceptT StateError (StateM σ)

structure Merger where
  height : Height
  key : String
  previous : Option Record
  /-- The payload so far, if there was a change. -/
  payload : Option Payload
  /-- The operations that made changes, each once, the first one first. -/
  operations : List Digest

namespace Merger

def start (height : Height) (key : String) (previous : Option Record) : Merger :=
  ⟨height, key, previous, none, []⟩

/-- The payload that the next change meets. -/
def current (m : Merger) : Option Payload :=
  m.payload.or (m.previous.map Record.payload)

/-- Inserts the items of a set into another, or removes those with the same keys. -/
def applySet {α : Type} {key : α → String} (add : Bool) (base delta : KeyedList key) :
    KeyedList key :=
  delta.toList.foldl (fun m a => if add then m.insert a else m.erase (key a)) base

/-- The set that a change makes of the current payload. A set that is not there yet is empty. -/
def mergeSet? (add : Bool) : Option Payload → Payload → Option Payload
  | none, .members delta => some (.members (applySet add .empty delta))
  | some (.members base), .members delta => some (.members (applySet add base delta))
  | none, .candidates delta => some (.candidates (applySet add .empty delta))
  | some (.candidates base), .candidates delta => some (.candidates (applySet add base delta))
  | _, _ => none

/-- The payload after a change. -/
def nextPayload (m : Merger) (c : Change) : Except StateError Payload :=
  match c.strategy with
  | .replace => .ok c.payload
  | strategy =>
    match mergeSet? (strategy = .insert) m.current c.payload with
    | some p => .ok p
    | none => .error (.noSet m.key strategy.name c.payload.kind (m.current.map Payload.kind))

def addOperation (m : Merger) (operation : Digest) : Merger :=
  { m with
    operations :=
      if operation ∈ m.operations then m.operations else m.operations ++ [operation] }

/-- Writes a change of an operation into the merger. -/
def write (c : Change) (operation : Digest) : Writing Merger Unit := do
  let m ← get
  if c.key ≠ m.key then throw (.foreignChange m.key c.key)
  else do
    let payload ← m.nextPayload c
    modify fun m => { m with payload := some payload }
    modify fun m => m.addOperation operation

/-- A call to a merger that is kept: what it answers, and the merger afterwards. -/
def tryMerge (m : Merger) (call : Digest × Change) : Except StateError Unit × Merger :=
  (write call.2 call.1).run.run m

def merge (m : Merger) (c : Change) (operation : Digest) : Except StateError Merger :=
  match m.tryMerge (operation, c) with
  | (.ok (), m) => .ok m
  | (.error e, _) => .error e

/-- The new record, if there was a change. -/
def close (m : Merger) : Option Record :=
  m.payload.map fun payload =>
    .make m.key payload m.height (m.previous.map Record.hash) m.operations

end Merger

end CurrencyLedger
