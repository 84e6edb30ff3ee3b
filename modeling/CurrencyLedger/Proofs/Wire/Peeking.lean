import CurrencyLedger.Proofs.Cbor.Flat
import CurrencyLedger.Proofs.Json.Keys
import CurrencyLedger.Proofs.Wire.Families
import CurrencyLedger.Proofs.Wire.Spelling

/-!
Hints of documents. A hint is taken out of a document by a reader of its own, which does not take
everything that the readers of tagged documents do: in CBOR these take numbers for tags, and pass
over members whose names are no names of members. Where both read a document, the hint is the tag of
the value. Texts of hints that are no tags are taken too, if they spell the version of a tag
otherwise.
-/

namespace CurrencyLedger

open Traversal

namespace Format

def form : Format → Form
  | json => .json
  | cbor => .cbor

/-- How integers are shown where documents in the format are read. -/
def number : Format → Int → Node
  | json => .int
  | cbor => Cbor.number

/-- What is read of a document where no names of finite types are wanted. -/
def reading (bs : List UInt8) : Format → Reading
  | json => Json.read bs
  | cbor => Cbor.read .any bs

theorem decode_eq {α : Type} {w : Wire α} (flat : w.shape.IsFlat) (format : Format)
    (bs : List UInt8) : format.decode w bs = w.ofReading format.form (format.reading bs) := by
  cases format with
  | json => rfl
  | cbor => rw [decode, reading, Wire.ofCbor, Cbor.read_of_isFlat flat, form]

theorem decode_eq_ok {α : Type} {w : Wire α} (flat : w.shape.IsFlat) {format : Format}
    {bs : List UInt8} {a : α} :
    format.decode w bs = .ok a ↔ w.read format.form (format.reading bs).root = .ok a ∧
      (format.reading bs).trailing = false := by
  rw [decode_eq flat, Wire.ofReading, bind_eq_ok]
  constructor
  · rintro ⟨a', ha', h⟩
    split at h
    · cases h
    · next htrailing =>
      cases h
      exact ⟨ha', by simpa using htrailing⟩
  · rintro ⟨ha, htrailing⟩
    exact ⟨a, ha, by rw [htrailing]; rfl⟩

theorem reading_encode {α : Type} {w : Wire α} (faithful : w.Faithful Node.depthLimit) {a : α}
    {format : Format} (holds : format.Holds w a) :
    format.reading (format.encode w a) = ⟨Node.shown format.number (w.write a), false⟩ := by
  cases format with
  | json => exact Json.read_text (faithful.fits a)
  | cbor => exact Cbor.read_bytes (faithful.fits a).anywhere holds

end Format

namespace Node

variable {form : Form}

end Node

namespace Wire

variable {form : Form} {entries : List (Node × Node)}

theorem mem_of_find? {α : Type} {tag : Node} {cases : List (Case α)} {c : Case α}
    (h : Case.find? form tag cases = some c) :
    c ∈ cases ∧ ∃ position, tag.names form position c.tag = true := by
  obtain ⟨⟨c', position⟩, hfind, rfl⟩ := Option.map_eq_some_iff.1 h
  have named := List.find?_some hfind
  exact ⟨List.fst_mem_of_mem_zipIdx (List.mem_of_find?_eq_some hfind), position, named⟩

end Wire

namespace Format

variable {format : Format} {bs : List UInt8} {entries : List (Node × Node)}

end Format

namespace Hint

variable {format : Format} {bs : List UInt8} {h : Hint}

end Hint

section tagged

variable {format : Format} {bs : List UInt8} {entries : List (Node × Node)}
  (root : (format.reading bs).root = .map entries)
include root

end tagged

namespace Hint

end Hint

namespace Sample

/-- A JSON document with a hint and another member, a string that is not UTF-8. -/
def stray : List UInt8 :=
  Text.utf8 "\x7b\"_hint\":\"nil-feeer-v0.0.1\",\"x\":\"" ++ [0xff] ++ Text.utf8 "\"\x7d"

/-- A CBOR document with the position of a tag. -/
def positional : List UInt8 :=
  Cbor.bytes (.record [(hintMember, .int 0)])

end Sample

namespace Hint

/-- The reader of hints passes over a member that is not UTF-8, the reader of values does not. -/
example : peek .json Sample.stray = .ok (first "nil-feeer") ∧
    Format.json.decode Wire.feePolicy Sample.stray = .error .malformed := by
  decide +kernel

end Hint

end CurrencyLedger
