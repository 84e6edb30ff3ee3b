import CurrencyLedger.Ledger.Record
import CurrencyLedger.Proofs.Operation.Validity
import CurrencyLedger.Proofs.Processing.Ownership
import CurrencyLedger.Proofs.Wire.RoundTrip

/-!
Hashes bind their content. Facts, operations and records are hashed as different domains before the
texts of documents that read back, so different messages are different byte strings. A hash that is
kept while its content changes is then wrong, or exhibits a collision of the two byte strings.
-/

namespace CurrencyLedger

theorem Wire.Faithful.jsonText_injective {α : Type} {w : Wire α}
    (h : w.Faithful Node.depthLimit) : Function.Injective w.jsonText :=
  Traversal.injective_of_reads h.ofJson_jsonText

/-- Different byte strings with one hash. -/
structure Digest.Collide (x y : List UInt8) : Prop where
  ne : x ≠ y
  hash_eq : Digest.ofBytes x = Digest.ofBytes y

/-- What a hash is taken over. -/
inductive Message where
  | fact (f : Fact)
  | operation (factHash : Digest) (signs : List Sign)
  | record (key : String) (payload : Payload) (height : Height) (previous : Option Digest)
    (operations : List Digest)

/-- The message that the hash of an operation covers. -/
def Operation.message (o : Operation) : Message :=
  .operation o.fact.hash o.signs

/-- The message that the hash of a record covers. -/
def Record.message (r : Record) : Message :=
  .record r.key r.payload r.height r.previous r.operations

namespace Message

inductive Kind where
  | fact
  | operation
  | record
deriving DecidableEq

def Kind.domain : Kind → String
  | fact => "CurrencyFact:"
  | operation => "CurrencyOperation:"
  | record => "CurrencyState:"

def kind : Message → Kind
  | fact _ => .fact
  | operation .. => .operation
  | record .. => .record

def document : Message → Doc
  | fact f => Wire.fact.write f
  | operation factHash signs =>
    .record [("fact_hash", .text factHash.text), ("signs", Wire.sign.list.write signs)]
  | record key payload height previous operations =>
    Record.body key payload height previous operations

/-- The byte string that is hashed. -/
def bytes (m : Message) : List UInt8 :=
  Digest.messageBytes m.kind.domain m.document

def hash : Message → Digest
  | fact f => f.hash
  | operation factHash signs => Operation.hashOf factHash signs
  | record key payload height previous operations =>
    Record.hashOf key payload height previous operations

theorem hash_eq (m : Message) : m.hash = .ofBytes m.bytes := by
  cases m <;> rfl

/-- The first nine bytes of a domain tell the kind, whatever follows. -/
theorem Kind.eq_of_domain_append {k l : Kind} {x y : List UInt8}
    (h : Text.utf8 k.domain ++ x = Text.utf8 l.domain ++ y) : k = l := by
  have long (k : Kind) : 9 ≤ (Text.utf8 k.domain).length := by cases k <;> decide
  have cut (k : Kind) (z : List UInt8) :
      (Text.utf8 k.domain ++ z).take 9 = (Text.utf8 k.domain).take 9 :=
    List.take_append_of_le_length (long k)
  have front := congrArg (List.take 9) h
  rw [cut, cut] at front
  revert front
  cases k <;> cases l <;> decide

/-- The body of an operation as a document that could be read. -/
def operationWire : Wire (Digest × List Sign) :=
  .record "struct OperationBody"
    (.cons (.of "fact_hash" Wire.digest) <| .cons (.of "signs" Wire.sign.list) .nil)
    (fun (factHash, signs) => (factHash, signs, ()))
    (fun (factHash, signs, ()) => (factHash, signs))

/-- The body of a record as a document that could be read. Unlike in the record itself, a missing
predecessor is written as null. -/
def recordWire : Wire (String × Payload × Height × Option Digest × List Digest) :=
  .record "struct StateBody"
    (.cons (.of "key" Wire.string) <| .cons (.of "value" Wire.payload) <|
      .cons (.of "height" Wire.height) <| .cons (.of "previous" Wire.digest.optional) <|
      .cons (.of "operations" Wire.digest.list) .nil)
    (fun (key, payload, height, previous, operations) =>
      (key, payload, height, previous, operations, ()))
    (fun (key, payload, height, previous, operations, ()) =>
      (key, payload, height, previous, operations))

theorem faithful_operationWire : operationWire.Faithful Node.depthLimit :=
  Wire.faithful_record
    (.always (by decide) Wire.faithful_digest <| .always (by decide) Wire.faithful_sign.list .nil)
    fun _ => rfl

theorem faithful_recordWire : recordWire.Faithful Node.depthLimit :=
  Wire.faithful_record
    (.always (by decide) Wire.faithful_string <| .always (by decide) Wire.faithful_payload <|
      .always (by decide) Wire.faithful_height <|
      .always (by decide) (Wire.faithful_digest.optional nofun) <|
      .always (by decide) Wire.faithful_digest.list .nil)
    fun _ => rfl

/-- Messages of one kind are read back from their texts. -/
theorem eq_of_text_eq {m m' : Message} (kinds : m.kind = m'.kind)
    (texts : Json.text m.document = Json.text m'.document) : m = m' := by
  cases m with
  | fact f =>
    cases m' with
    | fact f' => exact congrArg fact (Wire.faithful_fact.jsonText_injective texts)
    | operation => cases kinds
    | record => cases kinds
  | operation factHash signs =>
    cases m' with
    | fact => cases kinds
    | operation factHash' signs' =>
      have h : (factHash, signs) = (factHash', signs') :=
        faithful_operationWire.jsonText_injective texts
      cases h
      rfl
    | record => cases kinds
  | record key payload height previous operations =>
    cases m' with
    | fact => cases kinds
    | operation => cases kinds
    | record key' payload' height' previous' operations' =>
      have h : (key, payload, height, previous, operations) =
          (key', payload', height', previous', operations') :=
        faithful_recordWire.jsonText_injective texts
      cases h
      rfl

theorem bytes_injective : Function.Injective bytes := by
  intro m m' h
  have kinds : m.kind = m'.kind := Kind.eq_of_domain_append h
  refine eq_of_text_eq kinds (Text.utf8_injective ?_)
  rw [bytes, bytes, kinds] at h
  exact List.append_cancel_left h

/-- Messages with one hash are equal or exhibit a collision. -/
theorem eq_or_collide {m m' : Message} (h : m.hash = m'.hash) :
    m = m' ∨ Digest.Collide m.bytes m'.bytes := by
  rw [hash_eq, hash_eq] at h
  by_cases hbytes : m.bytes = m'.bytes
  · exact .inl (bytes_injective hbytes)
  · exact .inr ⟨hbytes, h⟩

end Message

theorem Record.message_eq_or_collide {r : Record} {m : Message} (intact : r.IsIntact)
    (h : r.hash = m.hash) : r.message = m ∨ Digest.Collide r.message.bytes m.bytes :=
  Message.eq_or_collide (Eq.trans intact h)

namespace Operation

/-- An operation whose hash is not the one of its content fails the check, if not before at its
fact. -/
theorem check_of_hash_ne {o : Operation} (h : hashOf o.fact.hash o.signs ≠ o.hash)
    (network : List UInt8) :
    ∃ error, o.check network = .error (.validation error) ∧
      (o.fact.check = .error error ∨
        error = .hashMismatch (hashOf o.fact.hash o.signs) o.hash) := by
  cases hfact : o.fact.check with
  | error error => exact ⟨error, by rw [check, hfact]; rfl, .inl rfl⟩
  | ok =>
    refine ⟨.hashMismatch (hashOf o.fact.hash o.signs) o.hash, ?_, .inr rfl⟩
    rw [check, hfact]
    exact if_pos h

/-- An operation with the hash of a fact and signs holds them, or two byte strings collide. -/
theorem content_eq_or_collide {o : Operation} {fact : Fact} {signs : List Sign}
    (kept : o.hash = hashOf fact.hash signs) (right : hashOf o.fact.hash o.signs = o.hash) :
    (o.fact = fact ∧ o.signs = signs) ∨
      Digest.Collide (Message.fact o.fact).bytes (Message.fact fact).bytes ∨
      Digest.Collide o.message.bytes (Message.operation fact.hash signs).bytes := by
  have bodies : o.message.hash = (Message.operation fact.hash signs).hash := right.trans kept
  rcases Message.eq_or_collide bodies with h | h
  · obtain ⟨hfact, hsigns⟩ := Message.operation.inj h
    have facts : (Message.fact o.fact).hash = (Message.fact fact).hash := hfact
    rcases Message.eq_or_collide facts with h | h
    · exact .inl ⟨Message.fact.inj h, hsigns⟩
    · exact .inr (.inl h)
  · exact .inr (.inr h)

end Operation

/-- Different messages are hashed as different byte strings. So without a collision of the byte
strings at hand a record that differs in anything from what its hash was taken over is not intact,
and an operation whose fact or signs do fails its check. -/
theorem hash_binds_content :
    (∀ m m' : Message, m.bytes = m'.bytes → m = m') ∧
    (∀ m : Message, m.hash = .ofBytes m.bytes) ∧
    (∀ (r : Record) (key : String) (payload : Payload) (height : Height)
      (previous : Option Digest) (operations : List Digest),
      r.hash = Record.hashOf key payload height previous operations →
      (r.key ≠ key ∨ r.payload ≠ payload ∨ r.height ≠ height ∨ r.previous ≠ previous ∨
        r.operations ≠ operations) →
      ¬ Digest.Collide r.message.bytes
        (Message.record key payload height previous operations).bytes →
      ¬ r.IsIntact) ∧
    (∀ (o : Operation) (fact : Fact) (signs : List Sign),
      o.hash = Operation.hashOf fact.hash signs → (o.fact ≠ fact ∨ o.signs ≠ signs) →
      ¬ Digest.Collide (Message.fact o.fact).bytes (Message.fact fact).bytes →
      ¬ Digest.Collide o.message.bytes (Message.operation fact.hash signs).bytes →
      ∀ network, ∃ error, o.check network = .error (.validation error) ∧
        (o.fact.check = .error error ∨
          error = .hashMismatch (Operation.hashOf o.fact.hash o.signs) o.hash)) := by
  refine ⟨fun _ _ h => Message.bytes_injective h, Message.hash_eq, ?_, ?_⟩
  · intro r key payload height previous operations kept changed apart intact
    have bodies :
        r.hash = (Message.record key payload height previous operations).hash := kept
    rcases Record.message_eq_or_collide intact bodies with h | h
    · obtain ⟨hkey, hpayload, hheight, hprevious, hoperations⟩ := Message.record.inj h
      tauto
    · exact apart h
  · intro o fact signs kept changed apart apart' network
    refine Operation.check_of_hash_ne (fun right => ?_) network
    rcases Operation.content_eq_or_collide kept right with ⟨hfact, hsigns⟩ | h | h
    · tauto
    · exact apart h
    · exact apart' h

namespace Sample

/-- A payment of eleven under the signs of one of ten. -/
def overpaid : Operation :=
  { payment with fact := transfer bob 11 }

/-- A record that has been moved to another height. -/
def postdated : Record :=
  { Record.make filed.key filed.payload .genesis none [] with height := ⟨1⟩ }

end Sample

theorem hash_binds_content_overpaid :
    ¬ Sample.postdated.IsIntact ∧
    ∃ error, Sample.overpaid.check Sample.config.networkBytes = .error (.validation error) := by
  obtain ⟨-, -, record, operation⟩ := hash_binds_content
  constructor
  · refine record Sample.postdated Sample.filed.key Sample.filed.payload .genesis none [] rfl
      (.inr (.inr (.inl (by decide)))) fun h => absurd h.hash_eq ?_
    decide +kernel
  · have kept : Sample.overpaid.hash = Operation.hashOf (Sample.transfer Sample.bob 10).hash
        Sample.overpaid.signs := (Operation.check_eq_ok.1 Sample.check_payment).2.1.symm
    have facts : (Message.fact Sample.overpaid.fact).hash ≠
        (Message.fact (Sample.transfer Sample.bob 10)).hash := by decide +kernel
    have bodies : Sample.overpaid.message.hash ≠ Sample.overpaid.hash := by decide +kernel
    obtain ⟨error, failed, -⟩ := operation Sample.overpaid (Sample.transfer Sample.bob 10)
      Sample.overpaid.signs kept (.inl (by decide +kernel)) (fun h => facts h.hash_eq)
      (fun h => bodies (h.hash_eq.trans kept.symm)) Sample.config.networkBytes
    exact ⟨error, failed⟩

end CurrencyLedger
