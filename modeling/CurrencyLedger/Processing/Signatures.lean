import CurrencyLedger.Processing.Context

/-!
Who has to sign: for an account the keys that own it, up to their threshold; for the network its
members, up to their share.
-/

namespace CurrencyLedger

namespace KeySet

/-- The weight of the keys that signed. Signers without a key here have no weight. -/
def signedWeight (keys : KeySet) : List PublicKey → List PublicKey → Except Reason Nat
  | _, [] => .ok 0
  | seen, signer :: rest => do
    if signer ∈ seen then .error (.duplicatedSigner signer.text)
    else
      let weight := ((keys.find? signer).map fun k => k.weight.toNat).getD 0
      return weight + (← keys.signedWeight (signer :: seen) rest)

def checkSigners (keys : KeySet) (signers : List PublicKey) : Except Reason Unit := do
  let weight ← keys.signedWeight [] signers
  if weight < keys.threshold.toNat then
    .error (.insufficientSignature keys.threshold.toNat weight)
  else .ok ()

end KeySet

namespace Members

/-- The member that a sign counts for: the one it names, if it is made with the member's key. -/
def signedBy? (members : Members) (s : Sign) : Option Address := do
  let node ← s.node
  let member ← members.get? node.text
  if member.key = s.signer then some node else none

/-- The members that signed; signs that count for nobody are passed over. -/
def signedMembers (members : Members) : List Address → List Sign → Except Reason (List Address)
  | counted, [] => .ok counted
  | counted, s :: rest =>
    match signedBy? members s with
    | none => signedMembers members counted rest
    | some node =>
      if node ∈ counted then .error (.duplicatedSigner node.text)
      else signedMembers members (node :: counted) rest

/-- Counts are reported by their low 32 bits. -/
def checkQuorum (members : Members) (threshold : Threshold) (signs : List Sign) :
    Except Reason Unit := do
  let counted ← signedMembers members [] signs
  let required := threshold.required members.size
  if counted.length < required then
    .error (.insufficientSignature (required % UInt32.size) (counted.length % UInt32.size))
  else .ok ()

end Members

namespace Context

/-- The account at an address, if enough of its keys signed. -/
def signedAccount (ctx : Context) (address : Address) (op : Operation) : Result Account := do
  match ← ctx.account? address with
  | none => reject (.accountNotFound address)
  | some account =>
    match account.keys with
    | none => reject (.zeroAccount address)
    | some keys =>
      (keys.checkSigners op.signers).mapError .rejected
      return account

/-- Passes if enough members signed. -/
def requireQuorum (ctx : Context) (op : Operation) : Result Unit := do
  let members ← ctx.members
  (Members.checkQuorum members ctx.threshold op.signs).mapError .rejected

/-- Passes if one of the signs is made with a candidate's key in its name. -/
def requireCandidateSign (op : Operation) (address : Address) (key : PublicKey) : Result Unit :=
  if op.signs.any fun s => s.signer = key ∧ s.node = some address then .ok ()
  else reject (.missingCandidateSign address)

end Context

end CurrencyLedger
