import CurrencyLedger.Processing.Settlement

/-!
The rules of each kind of operation: `check` decides against the committed records whether an
operation may be done, `effects` gives the changes of one that passed.
-/

namespace CurrencyLedger

namespace CreateAccounts

def amounts (items : List NewAccount) : List Amount :=
  items.flatMap (·.amounts)

def target (item : NewAccount) : Result Address :=
  item.address.mapError fun fault =>
    .rejected (.invalidOperation (ValidationError.keys fault).message)

/-- An amount must reach what its currency asks of a new account. -/
def checkAmount (ctx : Context) (a : Amount) : Result Unit := do
  let minimum := (← ctx.design a.currency).policy.newAccountMinimum
  if a.magnitude < minimum then reject (.belowMinimumBalance a.currency a.magnitude minimum)
  else return ()

def checkItem (ctx : Context) (item : NewAccount) : Result Unit := do
  ctx.requireNoAccount (← target item)
  Check.forEach (checkAmount ctx) item.amounts

def check (ctx : Context) (op : Operation) (sender : Address) (items : List NewAccount) :
    Result Unit := do
  let _ ← ctx.signedAccount sender op
  Check.forEach (checkItem ctx) items
  let charges ← Charge.ofAmounts ctx (amounts items)
  let _ ← Charge.coverAll ctx sender charges

def itemChanges (item : NewAccount) : Result (List Change) := do
  let address ← target item
  return .account ⟨address, some item.keys⟩ :: item.amounts.map (Change.balance address)

/-- The new accounts are paid for by the sender's debit. -/
def effects (ctx : Context) (sender : Address) (items : List NewAccount) :
    Result (List Change) := do
  let charges ← Charge.ofAmounts ctx (amounts items)
  let balances ← Charge.coverAll ctx sender charges
  let created ← items.mapM itemChanges
  return created.flatten ++ (← Settlement.changes ctx sender balances charges [])

end CreateAccounts

namespace Transfers

def amounts (items : List Transfer) : List Amount :=
  items.flatMap (·.amounts)

def credits (items : List Transfer) : List Settlement.Credit :=
  items.flatMap fun item => item.amounts.map fun a => ⟨item.receiver, a⟩

def check (ctx : Context) (op : Operation) (sender : Address) (items : List Transfer) :
    Result Unit := do
  let _ ← ctx.signedAccount sender op
  Check.forEach (fun item : Transfer => ctx.requireAccount item.receiver .receiverNotFound) items
  let charges ← Charge.ofAmounts ctx (amounts items)
  let _ ← Charge.coverAll ctx sender charges

def effects (ctx : Context) (sender : Address) (items : List Transfer) :
    Result (List Change) := do
  let charges ← Charge.ofAmounts ctx (amounts items)
  let balances ← Charge.coverAll ctx sender charges
  Settlement.changes ctx sender balances charges (credits items)

end Transfers

namespace KeyUpdater

structure Checked where
  account : Account
  charges : List Charge
  balances : List (CurrencyId × Int)

/-- New keys cost the fee on nothing. -/
def checked (ctx : Context) (op : Operation) (target : Address) (keys : KeySet)
    (currency : CurrencyId) : Result Checked := do
  let account ← ctx.signedAccount target op
  if account.keys.any fun old => old.same keys then reject (.sameKeys target)
  else
    let charges ← Charge.ofAmounts ctx [⟨0, currency⟩]
    return ⟨account, charges, ← Charge.coverAll ctx target charges⟩

def check (ctx : Context) (op : Operation) (target : Address) (keys : KeySet)
    (currency : CurrencyId) : Result Unit := do
  let _ ← checked ctx op target keys currency

def effects (ctx : Context) (op : Operation) (target : Address) (keys : KeySet)
    (currency : CurrencyId) : Result (List Change) := do
  let c ← checked ctx op target keys currency
  return .account (c.account.withKeys keys) ::
    (← Settlement.changes ctx target c.balances c.charges [])

end KeyUpdater

namespace CurrencyRegister

/-- A design can be registered if its currency and zero account are free and its fee receiver exists
or is created along with it. -/
def checkDesign (ctx : Context) (created : Option Address) (design : CurrencyDesign) :
    Result Unit := do
  if (← ctx.find (RecordKey.design design.currency) .ok).isSome then
    reject (.currencyAlreadyRegistered design.currency)
  else
    match design.policy.fee.receiver? with
    | some receiver =>
      if created = some receiver then pure ()
      else ctx.requireAccount receiver .feeReceiverNotFound
    | none => pure ()
    ctx.requireNoAccount (.zero design.currency)

/-- The design, the balance of the genesis account, and the zero account with its balance. -/
def register (ctx : Context) (design : CurrencyDesign) : Result (List Change) := do
  let current ← ctx.balance design.genesisAccount design.currency
  let zero := Account.zero design.currency
  return [.design design,
    .balance design.genesisAccount ⟨current + design.amount.magnitude, design.currency⟩,
    .balance zero.address ⟨0, design.currency⟩,
    .account zero]

def check (ctx : Context) (op : Operation) (design : CurrencyDesign) : Result Unit := do
  checkDesign ctx none design
  ctx.requireAccount design.genesisAccount .accountNotFound
  ctx.requireQuorum op

end CurrencyRegister

namespace CurrencyPolicyUpdater

def check (ctx : Context) (op : Operation) (currency : CurrencyId) (policy : CurrencyPolicy) :
    Result Unit := do
  let _ ← ctx.design currency
  match policy.fee.receiver? with
  | some receiver => ctx.requireAccount receiver .feeReceiverNotFound
  | none => pure ()
  ctx.requireQuorum op

def effects (ctx : Context) (currency : CurrencyId) (policy : CurrencyPolicy) :
    Result (List Change) := do
  return [.design ((← ctx.design currency).withPolicy policy)]

end CurrencyPolicyUpdater

namespace Mint

def checkItem (ctx : Context) (item : Issue) : Result Unit := do
  ctx.requireAccount item.receiver .receiverNotFound
  let _ ← ctx.design item.amount.currency

def check (ctx : Context) (op : Operation) (items : List Issue) : Result Unit := do
  ctx.requireQuorum op
  Check.forEach (checkItem ctx) items

def creditChange (ctx : Context) (item : Issue) : Result Change := do
  let current ← ctx.balance item.receiver item.amount.currency
  return .balance item.receiver ⟨current + item.amount.magnitude, item.amount.currency⟩

def designChange (ctx : Context) (sum : Amount) : Result Change := do
  return .design ((← ctx.design sum.currency).issue sum.magnitude)

def effects (ctx : Context) (items : List Issue) : Result (List Change) := do
  let credits ← items.mapM (creditChange ctx)
  let designs ← (Charge.sums (items.map (·.amount))).toList.mapM (designChange ctx)
  return credits ++ designs

end Mint

namespace SuffrageCandidate

def check (ctx : Context) (op : Operation) (address : Address) (key : PublicKey) :
    Result Unit := do
  Context.requireCandidateSign op address key
  if (← ctx.members).contains address.text then reject (.alreadySuffrageNode address)
  else
    let candidates ← ctx.candidates
    if (candidates.get? address.text).any fun c => !c.isExpired ctx.height then
      reject (.candidateExists address)
    else ctx.requireQuorum op

def effects (ctx : Context) (address : Address) (key : PublicKey) : Result (List Change) := do
  let policy ← ctx.networkPolicy
  return [.candidate
    ⟨address, key, ctx.height.next, ctx.height.plus policy.candidateLifespan.toNat⟩ .insert]

end SuffrageCandidate

namespace SuffrageJoin

/-- The candidate that wants to join, if it may still do so. -/
def candidate (ctx : Context) (address : Address) (start : Height) : Result Candidate := do
  match (← ctx.candidates).get? address.text with
  | none => reject (.candidateNotFound address)
  | some c =>
    if c.isExpired ctx.height then reject (.candidateExpired address c.deadline)
    else if c.start ≠ start then reject (.startMismatch address c.start start)
    else return c

def check (ctx : Context) (op : Operation) (address : Address) (start : Height) :
    Result Unit := do
  let c ← candidate ctx address start
  let members ← ctx.members
  if members.contains address.text then reject (.alreadySuffrageNode address)
  else
    let maximum := (← ctx.networkPolicy).maxMembers.toNat
    if maximum ≤ members.size then reject (.suffrageFull maximum)
    else
      Context.requireCandidateSign op c.address c.key
      ctx.requireQuorum op

def effects (ctx : Context) (address : Address) (start : Height) : Result (List Change) := do
  let c ← candidate ctx address start
  return [.member ⟨c.address, c.key, ctx.height.next⟩ .insert, .candidate c .remove]

end SuffrageJoin

namespace SuffrageDisjoin

/-- The member that is to leave, which must not be the only one. -/
def member (ctx : Context) (node : Address) (start : Height) : Result Member := do
  let members ← ctx.members
  match members.get? node.text with
  | none => reject (.notSuffrageNode node)
  | some m =>
    if m.start ≠ start then reject (.startMismatch node m.start start)
    else if members.size ≤ 1 then reject .suffrageEmpty
    else return m

def check (ctx : Context) (op : Operation) (node : Address) (start : Height) : Result Unit := do
  let _ ← member ctx node start
  ctx.requireQuorum op

def effects (ctx : Context) (node : Address) (start : Height) : Result (List Change) := do
  return [.member (← member ctx node start) .remove]

end SuffrageDisjoin

namespace GenesisCurrencies

/-- There are no members yet, so the key of the first node alone has to sign. -/
def check (ctx : Context) (op : Operation) (nodeKey : PublicKey) (keys : KeySet)
    (designs : List CurrencyDesign) : Result Unit := do
  if ctx.height ≠ .genesis then reject (.notGenesisHeight ctx.height)
  else if nodeKey ∉ op.signers then reject (.insufficientSignature 1 0)
  else
    let account := Address.ofKeySet keys
    ctx.requireNoAccount account
    Check.forEach (CurrencyRegister.checkDesign ctx (some account)) designs

def effects (ctx : Context) (keys : KeySet) (designs : List CurrencyDesign) :
    Result (List Change) := do
  let registered ← designs.mapM (CurrencyRegister.register ctx)
  return .account ⟨.ofKeySet keys, some keys⟩ :: registered.flatten

end GenesisCurrencies

namespace Rules

/-- Checks an operation by the rules of a kind, which must be its own. -/
def check (kind : OperationKind) (ctx : Context) (op : Operation) : Result Unit :=
  match kind, op.fact.intent with
  | .createAccounts, .createAccounts sender items => CreateAccounts.check ctx op sender items
  | .transfers, .transfers sender items => Transfers.check ctx op sender items
  | .keyUpdater, .keyUpdater target keys currency => KeyUpdater.check ctx op target keys currency
  | .currencyRegister, .currencyRegister design => CurrencyRegister.check ctx op design
  | .currencyPolicyUpdater, .currencyPolicyUpdater currency policy =>
    CurrencyPolicyUpdater.check ctx op currency policy
  | .mint, .mint items => Mint.check ctx op items
  | .suffrageCandidate, .suffrageCandidate address key => SuffrageCandidate.check ctx op address key
  | .suffrageJoin, .suffrageJoin candidate start => SuffrageJoin.check ctx op candidate start
  | .suffrageDisjoin, .suffrageDisjoin node start => SuffrageDisjoin.check ctx op node start
  | .genesisCurrencies, .genesisCurrencies nodeKey keys designs =>
    GenesisCurrencies.check ctx op nodeKey keys designs
  | _, intent => .error (.fatal (.wrongFact kind intent.kind))

/-- The changes of an operation by the rules of a kind, which must be its own. -/
def effects (kind : OperationKind) (ctx : Context) (op : Operation) : Result (List Change) :=
  match kind, op.fact.intent with
  | .createAccounts, .createAccounts sender items => CreateAccounts.effects ctx sender items
  | .transfers, .transfers sender items => Transfers.effects ctx sender items
  | .keyUpdater, .keyUpdater target keys currency => KeyUpdater.effects ctx op target keys currency
  | .currencyRegister, .currencyRegister design => CurrencyRegister.register ctx design
  | .currencyPolicyUpdater, .currencyPolicyUpdater currency policy =>
    CurrencyPolicyUpdater.effects ctx currency policy
  | .mint, .mint items => Mint.effects ctx items
  | .suffrageCandidate, .suffrageCandidate address key => SuffrageCandidate.effects ctx address key
  | .suffrageJoin, .suffrageJoin candidate start => SuffrageJoin.effects ctx candidate start
  | .suffrageDisjoin, .suffrageDisjoin node start => SuffrageDisjoin.effects ctx node start
  | .genesisCurrencies, .genesisCurrencies _ keys designs =>
    GenesisCurrencies.effects ctx keys designs
  | _, intent => .error (.fatal (.wrongFact kind intent.kind))

end Rules

end CurrencyLedger
