import CurrencyLedger.Wire.Codec
import CurrencyLedger.Wire.Tagged

/-!
Hints: the tags of tagged documents, a type and a version of three numbers.
-/

namespace CurrencyLedger

structure Hint where
  type : String
  major : Nat
  minor : Nat
  patch : Nat
deriving DecidableEq

namespace Hint

/-- The tags that some document can have. -/
def known : List String :=
  ["currency-create-accounts-fact-v0.0.1",
   "currency-transfers-fact-v0.0.1",
   "currency-key-updater-fact-v0.0.1",
   "currency-register-fact-v0.0.1",
   "currency-policy-updater-fact-v0.0.1",
   "currency-mint-fact-v0.0.1",
   "suffrage-candidate-fact-v0.0.1",
   "suffrage-join-fact-v0.0.1",
   "suffrage-disjoin-fact-v0.0.1",
   "currency-genesis-currencies-fact-v0.0.1",
   "account-state-value-v0.0.1",
   "balance-state-value-v0.0.1",
   "currency-design-state-value-v0.0.1",
   "suffrage-nodes-state-value-v0.0.1",
   "suffrage-candidates-state-value-v0.0.1",
   "network-policy-state-value-v0.0.1",
   "nil-feeer-v0.0.1",
   "fixed-feeer-v0.0.1",
   "ratio-feeer-v0.0.1"]

inductive Fault where
  | noVersion (text : String)
  | type (text : String)
  | number (text : String) (fault : Decimal.Fault)
  | version (text : String)
  | unknown (display : String)
deriving DecidableEq

def Fault.message : Fault → String
  | .noVersion s => "hint " ++ Text.quoted s ++ " has no version"
  | .type s => "invalid hint type in " ++ Text.quoted s
  | .number s fault => "invalid hint version in " ++ Text.quoted s ++ ": " ++ fault.message
  | .version s => "hint version in " ++ Text.quoted s ++ " must be major.minor.patch"
  | .unknown s => "unknown hint " ++ s

/-- Splits a text at the last mark in front of a version. -/
def splitVersion? : List Char → Option (List Char × List Char)
  | [] => none
  | c :: rest =>
    match splitVersion? rest, c, rest with
    | some (type, version), _, _ => some (c :: type, version)
    | none, '-', 'v' :: version => some ([], version)
    | none, _, _ => none

/-- The parts between points; there is always at least one. -/
def splitPoints : List Char → List (List Char)
  | [] => [[]]
  | '.' :: rest => [] :: splitPoints rest
  | c :: rest =>
    match splitPoints rest with
    | part :: parts => (c :: part) :: parts
    | [] => [[c]]

def isTypeChar (c : Char) : Bool :=
  c.isLower || c.isDigit || c == '-'

def parse (s : String) : Except Fault Hint :=
  match splitVersion? s.toList with
  | none => .error (.noVersion s)
  | some (type, version) =>
    if type.isEmpty || !type.all isTypeChar then .error (.type s)
    else
      match (splitPoints version).mapM (Decimal.unsigned (UInt32.size - 1)) with
      | .error fault => .error (.number s fault)
      | .ok [major, minor, patch] => .ok ⟨String.ofList type, major, minor, patch⟩
      | .ok _ => .error (.version s)

def text (h : Hint) : String :=
  h.type ++ "-v" ++ Decimal.ofNat h.major ++ "." ++ Decimal.ofNat h.minor ++ "." ++
    Decimal.ofNat h.patch

def isKnown (h : Hint) : Bool :=
  known.contains h.text

end Hint

/-- Reads the tag of a document and nothing else. -/
def Wire.hintText : Wire String :=
  record "struct Hinted" (.cons (.of hintMember string) .nil) (fun s => (s, ()))
    (fun (s, ()) => s)

namespace Hint

inductive PeekFault where
  | document (error : ReadError)
  | hint (fault : Fault)
deriving DecidableEq

/-- The hint of an encoded document, which must be a known one. -/
def peek (format : Format) (bs : List UInt8) : Except PeekFault Hint := do
  let s ← (format.decode Wire.hintText bs).mapError .document
  let h ← (parse s).mapError .hint
  if h.isKnown then .ok h else .error (.hint (.unknown h.text))

end Hint

end CurrencyLedger
