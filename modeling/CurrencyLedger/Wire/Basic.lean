import CurrencyLedger.Document.Shape

/-!
Wires: how the values of a type are written as documents and read from nodes.
-/

namespace CurrencyLedger

/-- Why a node holds no value of a type. -/
inductive ReadError where
  /-- The document breaks off, breaks the rules of its format or goes on behind its end. -/
  | malformed
  | mismatch (found expected : String)
  | outOfRange (found expected : String)
  | missing (member : String)
  | repeated (member : String)
  | wrongCount (count : Nat) (expected : String)
  | unknownName (expected : String)
  /-- A tagged document without exactly one tag. -/
  | untagged
  /-- A well-formed document whose content the type does not allow. -/
  | refused (reason : String)
deriving DecidableEq

def ReadError.message : ReadError → String
  | .malformed => "malformed document"
  | .mismatch found expected => "invalid type: " ++ found ++ ", expected " ++ expected
  | .outOfRange found expected => "invalid value: " ++ found ++ ", expected " ++ expected
  | .missing member => "missing field `" ++ member ++ "`"
  | .repeated member => "duplicate field `" ++ member ++ "`"
  | .wrongCount count expected =>
    "invalid length " ++ Decimal.ofNat count ++ ", expected " ++ expected
  | .unknownName expected => "unknown variant, expected " ++ expected
  | .untagged => "missing tag"
  | .refused reason => reason

namespace Node

/-- The error at a node that is of no use where `expected` is wanted. -/
def reject (expected : String) : Node → ReadError
  | .unreadable | .fault => .malformed
  | n => .mismatch n.description expected

/-- The integer that a node denotes. -/
def int? : Node → Option Int
  | .int n => some n
  | .wide n => some n
  | _ => none

end Node

structure Wire (α : Type) where
  write : α → Doc
  read : Form → Node → Except ReadError α
  /-- Where names stand in the documents. -/
  shape : Shape := .any

namespace Wire

def string : Wire String where
  write := .text
  read form n :=
    match n.text? form with
    | some s => .ok s
    | none => .error (n.reject "a string")

/-- A type with a text form. Texts that `parse` does not take are refused. -/
def text {α ε : Type} (print : α → String) (parse : String → Except ε α) (message : ε → String) :
    Wire α where
  write a := .text (print a)
  read form n := do
    match parse (← string.read form n) with
    | .ok a => .ok a
    | .error e => .error (.refused (message e))

def bool : Wire Bool where
  write := .bool
  read
    | _, .bool b => .ok b
    | _, n => .error (n.reject "a boolean")

/-- Numbers up to a limit, which has a name in messages. -/
def nat (limit : Nat) (expected : String) : Wire { n : Nat // n ≤ limit } where
  write n := .int n.val
  read _ n :=
    match n.int? with
    | some i =>
      if h : i.toNat ≤ limit ∧ 0 ≤ i then .ok ⟨i.toNat, h.1⟩
      else .error (.outOfRange n.description expected)
    | none => .error (n.reject expected)

/-- The wire of another type with the same values. -/
def map {α β : Type} (w : Wire α) (make : α → β) (back : β → α) : Wire β where
  write b := w.write (back b)
  read form n := (w.read form n).map make
  shape := w.shape

/-- The wire of a type with fewer values; the others are refused. -/
def refine {α β ε : Type} (w : Wire α) (back : β → α) (make : α → Except ε β)
    (message : ε → String) : Wire β where
  write b := w.write (back b)
  read form n := do
    match make (← w.read form n) with
    | .ok b => .ok b
    | .error e => .error (.refused (message e))
  shape := w.shape

def uint64 : Wire UInt64 :=
  (nat (UInt64.size - 1) "u64").map (fun n => UInt64.ofNat n.val)
    (fun n => ⟨n.toNat, Nat.le_sub_one_of_lt n.toNat_lt⟩)

def uint32 : Wire UInt32 :=
  (nat (UInt32.size - 1) "u32").map (fun n => UInt32.ofNat n.val)
    (fun n => ⟨n.toNat, Nat.le_sub_one_of_lt n.toNat_lt⟩)

def uint8 : Wire UInt8 :=
  (nat (UInt8.size - 1) "u8").map (fun n => UInt8.ofNat n.val)
    (fun n => ⟨n.toNat, Nat.le_sub_one_of_lt n.toNat_lt⟩)

def list {α : Type} (w : Wire α) : Wire (List α) where
  write as := .list (as.map w.write)
  read
    | form, .list items => items.mapM (w.read form)
    | _, n => .error (n.reject "a sequence")
  shape := .list w.shape

/-- A value or null. -/
def optional {α : Type} (w : Wire α) : Wire (Option α) where
  write
    | none => .null
    | some a => w.write a
  read form
    | .null => .ok none
    | .undefined => if form = .buffered then .ok none else .error .malformed
    | n => (w.read form n).map some
  shape := w.shape

/-- Whether a node says that a name has no content. -/
def isUnit (form : Form) : Node → Bool
  | .null => true
  | .undefined => form != .json
  | .map [] => form == .buffered
  | _ => false

/-- The name that a node holds where one of a finite type is wanted: the node itself, or the key of
a map that maps it to nothing. In CBOR such a map is a variant, and bytes and positions are names
also outside of it. -/
def name? (form : Form) : Node → Option Node
  | .text s => some (.text s)
  | .variant name content => if isUnit form content then some name else none
  | .map [(name, content)] => if form ≠ .cbor ∧ isUnit form content then some name else none
  | .map _ => none
  | .list _ => none
  | n => if form = .cbor then some n else none

/-- A finite type whose values are written as names. -/
def choice {α : Type} (expected : String) (all : List α) (name : α → String) : Wire α where
  write a := .text (name a)
  read form n :=
    let found? := (name? form n).bind fun node =>
      all.zipIdx.find? fun (a, i) => node.names form i (name a)
    match found? with
    | some (a, _) => .ok a
    | none => .error (.unknownName expected)
  shape := .choice

end Wire

end CurrencyLedger
