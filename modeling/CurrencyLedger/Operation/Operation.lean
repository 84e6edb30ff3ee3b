import CurrencyLedger.Error

/-!
Operations: a fact with the signs of those who want it done. A sign is over the network's name and
the hash of the fact, so it is of no use for another network or another fact.
-/

namespace CurrencyLedger

structure Sign where
  signer : PublicKey
  signature : List UInt8
  /-- The member that the signer speaks for. -/
  node : Option Address
deriving DecidableEq

namespace Sign

def digest (network : List UInt8) (factHash : Digest) : Digest :=
  .ofBytes (network ++ factHash.bytes)

def make (key : PrivateKey) (node : Option Address) (network : List UInt8) (factHash : Digest) :
    Sign :=
  ⟨key.publicKey, key.sign (digest network factHash), node⟩

def verify (s : Sign) (network : List UInt8) (factHash : Digest) :
    Except PublicKey.SignatureFault Bool :=
  s.signer.verify (digest network factHash).bytes s.signature

end Sign

structure Operation where
  hash : Digest
  fact : Fact
  signs : List Sign
deriving DecidableEq

namespace Wire

def sign : Wire Sign :=
  record "struct Sign"
    (.cons (.of "signer" publicKey) <| .cons (.of "signature" hexBytes) <|
      .cons { name := "node", wire := address.optional, absent := some none,
              absentLast := some none, hides := Option.isNone } .nil)
    (fun s => (s.signer, s.signature, s.node, ()))
    (fun (signer, signature, node, ()) => ⟨signer, signature, node⟩)

def operation : Wire Operation :=
  record "struct Operation"
    (.cons (.of "hash" digest) <| .cons (.of "fact" fact) <| .cons (.of "signs" sign.list) .nil)
    (fun o => (o.hash, o.fact, o.signs, ())) (fun (hash, fact, signs, ()) => ⟨hash, fact, signs⟩)

end Wire

namespace Operation

/-- The hash over the hash of a fact and the signs. -/
def hashOf (factHash : Digest) (signs : List Sign) : Digest :=
  .ofMessage "CurrencyOperation:"
    (.record [("fact_hash", .text factHash.text), ("signs", Wire.sign.list.write signs)])

def make (fact : Fact) (signs : List Sign) : Operation :=
  ⟨hashOf fact.hash signs, fact, signs⟩

def kind (o : Operation) : OperationKind :=
  o.fact.kind

def signers (o : Operation) : List PublicKey :=
  o.signs.map (·.signer)

/-- A sign of a node-level operation names a node, and every sign verifies. -/
def checkSign (nodeLevel : Bool) (network : List UInt8) (factHash : Digest) (s : Sign) :
    Except LedgerError Unit := do
  if nodeLevel && s.node.isNone then .error (.validation (.sign (.withoutNode s.signer)))
  else if ← (s.verify network factHash).mapError .signature then .ok ()
  else .error (.validation (.sign (.unverified s.signer)))

/-- Checks the fact, the hash and every sign under the name of a network. -/
def check (o : Operation) (network : List UInt8) : Except LedgerError Unit := do
  o.fact.check.mapError .validation
  let factHash := o.fact.hash
  let expected := hashOf factHash o.signs
  if expected ≠ o.hash then .error (.validation (.hashMismatch expected o.hash))
  else if o.signs.isEmpty then .error (.validation (.sign .none))
  else
    Check.distinctFrom (fun s => .ok s.signer)
      (fun signer => .validation (.sign (.signerTwice signer)))
      (checkSign o.kind.isNodeLevel network factHash) [] o.signs

end Operation

end CurrencyLedger
