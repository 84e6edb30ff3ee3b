import CurrencyLedger.Ledger.Key
import CurrencyLedger.Ledger.Payload

/-!
Records of the ledger. A record names the height it was written at, the record that it took the
place of, and the operations that wrote it; its hash covers all of this.
-/

namespace CurrencyLedger

structure Record where
  hash : Digest
  key : String
  payload : Payload
  height : Height
  /-- The hash of the record that stood there before. -/
  previous : Option Digest
  operations : List Digest

/-- What breaks the rules of the ledger's records. -/
inductive StateError where
  | wrongPayload (key : String) (expected found : Payload.Kind)
  | missing (key : String)
  /-- A change for another key. -/
  | foreignChange (key changed : String)
  /-- A change of a set where there is none. -/
  | noSet (key strategy : String) (delta : Payload.Kind) (current : Option Payload.Kind)
deriving DecidableEq

/-- The name of an error in reports. -/
def StateError.name : StateError → String
  | .wrongPayload .. => "WrongPayload"
  | .missing _ => "Missing"
  | .foreignChange .. | .noSet .. => "InvalidMerge"

def StateError.message : StateError → String
  | .wrongPayload key expected found =>
    "State " ++ key ++ ": expected " ++ expected.name ++ " payload, found " ++ found.name
  | .missing key => "Required state " ++ key ++ " not found"
  | .foreignChange key changed => "Cannot merge into " ++ key ++ ": merge value for " ++ changed
  | .noSet key strategy delta current =>
    "Cannot merge into " ++ key ++ ": " ++ strategy ++ " of " ++ delta.name ++ " into " ++
      (current.map Payload.Kind.name).getD "nothing"

namespace Record

/-- The document that the hash of a record covers. -/
def body (key : String) (payload : Payload) (height : Height) (previous : Option Digest)
    (operations : List Digest) : Doc :=
  .record
    [("key", .text key), ("value", Wire.payload.write payload),
     ("height", Wire.height.write height), ("previous", Wire.digest.optional.write previous),
     ("operations", Wire.digest.list.write operations)]

def hashOf (key : String) (payload : Payload) (height : Height) (previous : Option Digest)
    (operations : List Digest) : Digest :=
  .ofMessage "CurrencyState:" (body key payload height previous operations)

def make (key : String) (payload : Payload) (height : Height) (previous : Option Digest)
    (operations : List Digest) : Record :=
  ⟨hashOf key payload height previous operations, key, payload, height, previous, operations⟩

/-- The hash that the content of a record has. -/
def expectedHash (r : Record) : Digest :=
  hashOf r.key r.payload r.height r.previous r.operations

/-- A record is intact if it has the hash of its content. -/
def IsIntact (r : Record) : Prop :=
  r.expectedHash = r.hash

instance (r : Record) : Decidable r.IsIntact :=
  inferInstanceAs (Decidable (_ = _))

theorem isIntact_make (key : String) (payload : Payload) (height : Height)
    (previous : Option Digest) (operations : List Digest) :
    (make key payload height previous operations).IsIntact := rfl

def wrong {α : Type} (r : Record) (expected : Payload.Kind) : Except StateError α :=
  .error (.wrongPayload r.key expected r.payload.kind)

def account (r : Record) : Except StateError Account :=
  match r.payload with
  | .account a => .ok a
  | _ => r.wrong .account

def balance (r : Record) : Except StateError Amount :=
  match r.payload with
  | .balance a => .ok a
  | _ => r.wrong .balance

def design (r : Record) : Except StateError CurrencyDesign :=
  match r.payload with
  | .design d => .ok d
  | _ => r.wrong .design

def members (r : Record) : Except StateError Members :=
  match r.payload with
  | .members m => .ok m
  | _ => r.wrong .members

def candidates (r : Record) : Except StateError Candidates :=
  match r.payload with
  | .candidates c => .ok c
  | _ => r.wrong .candidates

def networkPolicy (r : Record) : Except StateError NetworkPolicy :=
  match r.payload with
  | .networkPolicy p => .ok p
  | _ => r.wrong .networkPolicy

end Record

def Wire.ledgerRecord : Wire Record :=
  record "struct State"
    (.cons (.of "hash" digest) <| .cons (.of "key" string) <| .cons (.of "value" payload) <|
      .cons (.of "height" height) <|
      .cons { name := "previous", wire := digest.optional, absent := some none,
              absentLast := some none, hides := Option.isNone } <|
      .cons (.of "operations" digest.list) .nil)
    (fun r => (r.hash, r.key, r.payload, r.height, r.previous, r.operations, ()))
    (fun (hash, key, payload, height, previous, operations, ()) =>
      ⟨hash, key, payload, height, previous, operations⟩)

end CurrencyLedger
