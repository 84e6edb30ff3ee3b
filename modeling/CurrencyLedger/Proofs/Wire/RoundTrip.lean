import CurrencyLedger.Proofs.Cbor.Reading
import CurrencyLedger.Proofs.Json.Reading
import CurrencyLedger.Proofs.Wire.Documents
import CurrencyLedger.Wire.Codec

/-!
Round trips through both document formats. Every value that the ledger writes as a document is read
again from it as it was. In CBOR this asks that lengths have 64 bits, as those of all byte strings
that can be held have.
-/

namespace CurrencyLedger

/-- The compact text of a value is read as the value. -/
theorem Wire.Faithful.ofJson_jsonText {α : Type} {w : Wire α} (h : w.Faithful Node.depthLimit)
    (a : α) : w.ofJson (w.jsonText a) = .ok a := by
  have hread := h.read_write .json Node.keepsValue_int a
  rw [Wire.ofJson, Wire.jsonText, Wire.ofJsonBytes, Json.read_text (h.fits a), Wire.ofReading]
  simp only [hread, bind, Except.bind]
  rfl

namespace Format

/-- The document of the value can be held, as the lengths of byte strings have 64 bits. CBOR writes
such lengths into heads; JSON writes none. -/
def Holds {α : Type} (w : Wire α) (a : α) : Format → Prop
  | json => True
  | cbor => (w.cborBytes a).length < UInt64.size

/-- Reads a document in one format and writes it in another. -/
def recode {α : Type} (w : Wire α) (source target : Format) (document : List UInt8) :
    Except ReadError (List UInt8) :=
  (source.decode w document).map fun a => target.encode w a

theorem decode_encode_of_faithful {α : Type} {w : Wire α} (faithful : w.Faithful Node.depthLimit)
    {a : α} {format : Format} (holds : format.Holds w a) :
    format.decode w (format.encode w a) = .ok a := by
  cases format with
  | json => exact faithful.ofJson_jsonText a
  | cbor =>
    have fits := faithful.fits a
    have hread := faithful.read_write .cbor Cbor.keepsValue_number a
    simp only [decode, encode, Wire.ofCbor, Wire.cborBytes, Cbor.read_bytes fits holds,
      Wire.ofReading, hread, bind, Except.bind]
    rfl

end Format

/-- The kinds of documents that the ledger keeps and exchanges. -/
inductive DocumentKind where
  | fact
  | operation
  | sign
  | ledgerRecord
  | payload
  | change
  | account
  | keySet
  | currencyDesign
  | currencyPolicy
  | feePolicy
  | networkPolicy
  | members
  | candidates
  | amount
deriving DecidableEq

namespace DocumentKind

/-- What a document of the kind stands for. -/
def Value : DocumentKind → Type
  | fact => Fact
  | operation => Operation
  | sign => Sign
  | ledgerRecord => Record
  | payload => Payload
  | change => Change
  | account => Account
  | keySet => KeySet
  | currencyDesign => CurrencyDesign
  | currencyPolicy => CurrencyPolicy
  | feePolicy => FeePolicy
  | networkPolicy => NetworkPolicy
  | members => Members
  | candidates => Candidates
  | amount => Amount

def wire : (kind : DocumentKind) → Wire kind.Value
  | fact => Wire.fact
  | operation => Wire.operation
  | sign => Wire.sign
  | ledgerRecord => Wire.ledgerRecord
  | payload => Wire.payload
  | change => Wire.change
  | account => Wire.account
  | keySet => Wire.keySet
  | currencyDesign => Wire.currencyDesign
  | currencyPolicy => Wire.currencyPolicy
  | feePolicy => Wire.feePolicy
  | networkPolicy => Wire.networkPolicy
  | members => Wire.members
  | candidates => Wire.candidates
  | amount => Wire.amount

theorem faithful_wire (kind : DocumentKind) : kind.wire.Faithful Node.depthLimit := by
  cases kind with
  | fact => exact Wire.faithful_fact
  | operation => exact Wire.faithful_operation
  | sign => exact Wire.faithful_sign
  | ledgerRecord => exact Wire.faithful_ledgerRecord
  | payload => exact Wire.faithful_payload
  | change => exact Wire.faithful_change
  | account => exact Wire.faithful_account
  | keySet => exact Wire.faithful_keySet
  | currencyDesign => exact Wire.faithful_currencyDesign
  | currencyPolicy => exact Wire.faithful_currencyPolicy
  | feePolicy => exact Wire.faithful_feePolicy
  | networkPolicy => exact Wire.faithful_networkPolicy
  | members => exact Wire.faithful_members
  | candidates => exact Wire.faithful_candidates
  | amount => exact Wire.faithful_amount

end DocumentKind

/-- Every value is read as it was written. So a document that is written again in either format
still stands for the same value, and what operations and records are checked for stays as it was. -/
theorem decode_encode :
    (∀ (kind : DocumentKind) (a : kind.Value) (format : Format), format.Holds kind.wire a →
      format.decode kind.wire (format.encode kind.wire a) = .ok a) ∧
    (∀ (kind : DocumentKind) (a : kind.Value) (source target : Format) (document : List UInt8),
      source.decode kind.wire document = .ok a → target.Holds kind.wire a →
      ∃ again, Format.recode kind.wire source target document = .ok again ∧
        target.decode kind.wire again = .ok a) ∧
    (∀ (o : Operation) (format : Format), format.Holds Wire.operation o →
      ∃ o', format.decode Wire.operation (format.encode Wire.operation o) = .ok o' ∧
        o'.hash = o.hash ∧ ∀ network, o'.check network = o.check network) ∧
    (∀ (r : Record) (format : Format), format.Holds Wire.ledgerRecord r →
      ∃ r', format.decode Wire.ledgerRecord (format.encode Wire.ledgerRecord r) = .ok r' ∧
        r'.hash = r.hash ∧ (r'.IsIntact ↔ r.IsIntact)) := by
  have trip (kind : DocumentKind) (a : kind.Value) (format : Format)
      (holds : format.Holds kind.wire a) :
      format.decode kind.wire (format.encode kind.wire a) = .ok a :=
    Format.decode_encode_of_faithful kind.faithful_wire holds
  refine ⟨trip, ?_, ?_, ?_⟩
  · intro kind a source target document read holds
    refine ⟨target.encode kind.wire a, ?_, trip kind a target holds⟩
    rw [Format.recode, read]
    rfl
  · exact fun o format holds => ⟨o, trip .operation o format holds, rfl, fun _ => rfl⟩
  · exact fun r format holds => ⟨r, trip .ledgerRecord r format holds, rfl, Iff.rfl⟩

namespace Sample

def coin : CurrencyId := ⟨"GOLD", by decide +kernel, by decide +kernel⟩

/-- A record with a key of all kinds of characters, at the greatest height, of an account that has
no keys. -/
def filed : Record where
  hash := ⟨List.replicate 32 0xab, rfl⟩
  key := "\"quoted\" \\ \u0001\n é 🦀"
  payload := .account (.zero coin)
  height := ⟨0xffffffffffffffff⟩
  previous := none
  operations := [⟨List.replicate 32 0, rfl⟩]

/-- An unsigned operation for a currency with a great amount and a fee without a cap. -/
def draft : Operation where
  hash := ⟨List.replicate 32 0, rfl⟩
  fact := ⟨[0, 0xff], .currencyRegister
    ⟨⟨-100000000000000000000000000000000, coin⟩, .zero coin,
      ⟨0, .ratio (.zero coin) ⟨250000000, by decide⟩ 1 none⟩, 7⟩⟩
  signs := []

theorem holds_filed : Format.cbor.Holds Wire.ledgerRecord filed := by
  show (Wire.ledgerRecord.cborBytes filed).length < UInt64.size
  decide +kernel

theorem holds_draft : Format.cbor.Holds Wire.operation draft := by
  show (Wire.operation.cborBytes draft).length < UInt64.size
  decide +kernel

end Sample

/-- The record and the operation are read from both formats, and the record again after it has
changed its format. -/
theorem decode_encode_filed :
    Format.cbor.Holds Wire.ledgerRecord Sample.filed ∧
    Format.cbor.Holds Wire.operation Sample.draft ∧
    (∀ format : Format,
      format.decode Wire.ledgerRecord (format.encode Wire.ledgerRecord Sample.filed) =
        .ok Sample.filed ∧
      format.decode Wire.operation (format.encode Wire.operation Sample.draft) =
        .ok Sample.draft) ∧
    (∃ document, Format.recode Wire.ledgerRecord .json .cbor
        (Format.json.encode Wire.ledgerRecord Sample.filed) = .ok document ∧
      Format.cbor.decode Wire.ledgerRecord document = .ok Sample.filed) ∧
    (∃ o, Format.cbor.decode Wire.operation (Format.cbor.encode Wire.operation Sample.draft) =
        .ok o ∧
      o.hash = Sample.draft.hash ∧ ∀ network, o.check network = Sample.draft.check network) ∧
    ∃ r, Format.cbor.decode Wire.ledgerRecord
        (Format.cbor.encode Wire.ledgerRecord Sample.filed) = .ok r ∧
      r.hash = Sample.filed.hash ∧ (r.IsIntact ↔ Sample.filed.IsIntact) := by
  obtain ⟨trip, again, operation, record⟩ := decode_encode
  have holds := Sample.holds_filed
  have holds' := Sample.holds_draft
  refine ⟨holds, holds', fun format => ?_, ?_, operation _ .cbor holds', record _ .cbor holds⟩
  · cases format with
    | json => exact ⟨trip .ledgerRecord _ .json trivial, trip .operation _ .json trivial⟩
    | cbor => exact ⟨trip .ledgerRecord _ .cbor holds, trip .operation _ .cbor holds'⟩
  · exact again .ledgerRecord Sample.filed .json .cbor _ (trip .ledgerRecord _ .json trivial) holds

end CurrencyLedger
