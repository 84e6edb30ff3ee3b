import CurrencyLedger.Proofs.Processing.Accounting
import CurrencyLedger.Proofs.Processing.Batch

/-!
Nobody loses money or keys without signing, however the operations of a batch write over each other.
An account without keys can therefore lose neither in any run.
-/

namespace CurrencyLedger

open Traversal

/-- Whose intent it is, if it is one of an account. -/
def Intent.IsOf : Intent → Address → Prop
  | .createAccounts sender _, a => sender = a
  | .transfers sender _, a => sender = a
  | .keyUpdater target _ _, a => target = a
  | _, _ => False

theorem Intent.isOf_of_payment {intent : Intent} {p : Payment} (hp : intent.payment? = some p) :
    intent.IsOf p.payer := by
  cases intent <;> cases hp <;> rfl

/-- An operation that an account answers for: it is in order, and every sign of it is one of the
network over its fact; nobody signs twice, and the signers have the weight that the account asks
for. -/
structure Operation.IsAuthorized (op : Operation) (network : List UInt8) (store : Store)
    (a : Address) : Prop where
  distinct : op.signers.Nodup
  verified : ∀ s ∈ op.signs, s.verify network op.fact.hash = .ok true
  weight : ∃ acc keys, store.account? a = some acc ∧ acc.keys = some keys ∧
    keys.threshold.toNat ≤ keys.weightOfAll op.signers

namespace Dispatcher

variable {config : EngineConfig} {d : Dispatcher} {ops : List Operation} {store store' : Store}

theorem Wrote.isAuthorized {changes : List Change} {w : Change} {op : Operation} {a : Address}
    (h : d.Wrote config ops store changes w op) (signed : store.Authorizes a op) :
    op.IsAuthorized config.networkBytes store a := by
  obtain ⟨-, -, -, hdistinct, hsigns⟩ := Operation.check_eq_ok.1 h.valid
  obtain ⟨acc, keys, hacc, hkeys, -, hweight⟩ := signed
  exact ⟨hdistinct, fun s hs => (hsigns s hs).2, acc, keys, hacc, hkeys, hweight⟩

/-- A balance that is lower after a batch is that of an account that pays for an accepted
operation. -/
theorem authorized_of_balance_lt (sound : store.IsSound)
    (h : d.Advances config ops store store') {a : Address} {c : CurrencyId}
    (lower : store'.balance a c < store.balance a c) :
    ∃ op ∈ d.acceptedOperations ops, op.fact.intent.IsOf a ∧
      op.IsAuthorized config.networkBytes store a := by
  obtain ⟨changes, hwrote, hat⟩ := h.at?_cases sound.keyed sound.designs
  rcases hat (.balance a c) (by simp) (by simp) with ⟨w, hw, hfor, hpayload⟩ | ⟨-, hsame⟩
  · obtain ⟨op, hop⟩ := hwrote w hw
    obtain ⟨n, hn, -, hgrown | ⟨hsigned, p, hp, rfl⟩⟩ :=
      hop.effect.of_balance sound.owners hfor
    · rw [Store.balance_of_at? (hn ▸ hpayload)] at lower
      omega
    · exact ⟨op, hop.accepted, Intent.isOf_of_payment hp, hop.isAuthorized hsigned⟩
  · rw [Store.balance, Store.balance?, hsame] at lower
    exact absurd lower (Int.lt_irrefl _)

/-- An account that is another after a batch was given new keys by an accepted operation. -/
theorem authorized_of_account_ne (sound : store.IsSound)
    (h : d.Advances config ops store store') {a : Address} {acc : Account}
    (hacc : store.account? a = some acc) (changed : store'.account? a ≠ some acc) :
    ∃ op ∈ d.acceptedOperations ops, (∃ keys c, op.fact.intent = .keyUpdater a keys c) ∧
      op.IsAuthorized config.networkBytes store a := by
  obtain ⟨changes, hwrote, hat⟩ := h.at?_cases sound.keyed sound.designs
  rcases hat (.account a) (by simp) (by simp) with ⟨w, hw, hfor, -⟩ | ⟨-, hsame⟩
  · obtain ⟨op, hop⟩ := hwrote w hw
    obtain ⟨-, -, -, hnone | ⟨keys, c, hintent, hsigned⟩⟩ := hop.effect.of_account hfor
    · rw [hacc] at hnone
      cases hnone
    · exact ⟨op, hop.accepted, ⟨keys, c, hintent⟩, hop.isAuthorized hsigned⟩
  · rw [Store.account?, hsame] at changed
    exact absurd hacc changed

/-- Nobody answers for an operation with an account that has no keys. -/
theorem not_isAuthorized {op : Operation} {network : List UInt8} {a : Address}
    (keyless : store.account? a = some ⟨a, none⟩) : ¬op.IsAuthorized network store a := by
  rintro ⟨-, -, acc, keys, hacc, hkeys, -⟩
  rw [keyless] at hacc
  cases hacc
  cases hkeys

theorem Advances.keyless (sound : store.IsSound) (h : d.Advances config ops store store')
    {a : Address} (keyless : store.account? a = some ⟨a, none⟩) :
    store'.account? a = some ⟨a, none⟩ ∧ ∀ c, store.balance a c ≤ store'.balance a c := by
  constructor
  · by_contra changed
    obtain ⟨op, -, -, hauthorized⟩ := authorized_of_account_ne sound h keyless changed
    exact not_isAuthorized keyless hauthorized
  · intro c
    by_contra lower
    obtain ⟨op, -, -, hauthorized⟩ := authorized_of_balance_lt sound h (Int.not_le.1 lower)
    exact not_isAuthorized keyless hauthorized

end Dispatcher

/-- In any run an account without keys stays as it is, and its balances only grow. -/
theorem Store.keyless_run {store store' : Store} (sound : store.IsSound)
    (run : Relation.ReflTransGen Store.Follows store store') {a : Address}
    (keyless : store.account? a = some ⟨a, none⟩) :
    store'.account? a = some ⟨a, none⟩ ∧ ∀ c, store.balance a c ≤ store'.balance a c := by
  induction run with
  | refl => exact ⟨keyless, fun c => Int.le_refl _⟩
  | tail before step ih =>
    obtain ⟨config, d, ops, h⟩ := step
    obtain ⟨hkeyless, hgrown⟩ := h.keyless (sound.run before) ih.1
    exact ⟨hkeyless, fun c => Int.le_trans (ih.2 c) (hgrown c)⟩

/-- Only owners lose. After any run of batches, an account whose balance is lower or whose keys are
others than before the last batch has signed for it by its keys from before that batch, in an
operation of its own that the batch accepted; an account that had no keys at first has none, and no
less than it had. -/
theorem authorized_of_advances {start store store' : Store} (sound : start.IsSound)
    (run : Relation.ReflTransGen Store.Follows start store) {config : EngineConfig}
    {d : Dispatcher} {ops : List Operation} (h : d.Advances config ops store store') :
    (∀ a c, store'.balance a c < store.balance a c →
      ∃ op ∈ d.acceptedOperations ops, op.fact.intent.IsOf a ∧
        op.IsAuthorized config.networkBytes store a) ∧
    (∀ a acc, store.account? a = some acc → store'.account? a ≠ some acc →
      ∃ op ∈ d.acceptedOperations ops, (∃ keys c, op.fact.intent = .keyUpdater a keys c) ∧
        op.IsAuthorized config.networkBytes store a) ∧
    ∀ a, start.account? a = some ⟨a, none⟩ →
      store'.account? a = some ⟨a, none⟩ ∧ ∀ c, start.balance a c ≤ store'.balance a c := by
  have hsound := sound.run run
  refine ⟨fun a c lower => Dispatcher.authorized_of_balance_lt hsound h lower,
    fun a acc hacc changed => Dispatcher.authorized_of_account_ne hsound h hacc changed,
    fun a keyless => ?_⟩
  exact Store.keyless_run sound (run.tail ⟨config, d, ops, h⟩) keyless

namespace Sample

def config : EngineConfig :=
  { EngineConfig.standard with network := "net" }

def dispatcher : Dispatcher :=
  .start .standard (ledger.context .genesis .standard) config.networkBytes 64 false

theorem reachable_dispatcher : dispatcher.Reachable config :=
  .start (show Dispatcher.ofConfig config .genesis ledger.reader = .ok dispatcher from rfl)

def digest (n : Nat) : Digest :=
  ⟨BigEndian.bytes 32 n, BigEndian.length_bytes 32 n⟩

/-- An operation with one sign by the key of the accounts, in the compact form. -/
def signed (fact : Fact) (hash r s : Nat) : Operation :=
  ⟨digest hash, fact, [⟨key, BigEndian.bytes 32 r ++ BigEndian.bytes 32 s, none⟩]⟩

/-- The transfer under the name of the network, signed by the key whose secret is one. -/
def payment : Operation :=
  signed (transfer bob 10) 0x18fe7af1db5cb4e212d9f46bc34d102e90d8d44a057c94265aa6de41906db418
    0xc644f14680b94c930c2ea81b732e851c8be4b38421327cb3372a791476805ef1
    0x14d27a7cde3ccb7167e1124740abec1f0abd8ebd524e760a8880e2b2c2ba8f95

/-- An operation with one sign is in order if its hash and its sign are, and the sign names a node
where it has to. -/
theorem check_single {fact : Fact} {hash r s : Nat} {node : Option Address} (factHash : Nat)
    (valid : fact.check = .ok ()) (named : fact.kind.isNodeLevel = true → node.isSome = true)
    (hfact : fact.hash = digest factHash)
    (hsigns : Operation.hashOf (digest factHash)
      [⟨key, BigEndian.bytes 32 r ++ BigEndian.bytes 32 s, node⟩] = digest hash)
    (verified : (key.verify (Sign.digest config.networkBytes (digest factHash)).bytes
      (BigEndian.bytes 32 r ++ BigEndian.bytes 32 s)).toOption = some true) :
    Operation.check ⟨digest hash, fact,
      [⟨key, BigEndian.bytes 32 r ++ BigEndian.bytes 32 s, node⟩]⟩ config.networkBytes =
        .ok () := by
  refine Operation.check_eq_ok.2 ⟨valid, ?_, by simp, by simp [Operation.signers],
    fun sign hsign => ?_⟩
  · exact (congrArg (Operation.hashOf · _) hfact).trans hsigns
  · obtain rfl := List.mem_singleton.1 hsign
    refine ⟨named, ?_⟩
    change key.verify (Sign.digest _ fact.hash).bytes _ = _
    rw [hfact]
    exact eq_ok_of_toOption verified

theorem check_signed {fact : Fact} {hash r s : Nat} (factHash : Nat)
    (valid : fact.check = .ok ()) (owned : fact.kind.isNodeLevel = false)
    (hfact : fact.hash = digest factHash)
    (hsigns : Operation.hashOf (digest factHash) (signed fact hash r s).signs = digest hash)
    (verified : (key.verify (Sign.digest config.networkBytes (digest factHash)).bytes
      (BigEndian.bytes 32 r ++ BigEndian.bytes 32 s)).toOption = some true) :
    (signed fact hash r s).check config.networkBytes = .ok () :=
  check_single factHash valid (fun node => absurd (owned.symm.trans node) (by simp)) hfact hsigns
    verified

theorem check_payment : payment.check config.networkBytes = .ok () := by
  refine check_signed
    0x759c67455d0bd09a3980b6715c4a9b0ed337bad595d6368a448fc135e470af79 rfl rfl ?_ ?_ ?_
  · decide +kernel
  · decide +kernel
  · decide +kernel

/-- What an operation writes in a context. -/
def made (ctx : Context) (op : Operation) : List Change :=
  ((Processor.start op.kind ctx).process op).1.toOption.getD []

/-- A store after a commit at the first height. -/
def committed (store : Store) (accepted : Store.Accepted) : Store :=
  ((store.commit .genesis accepted).toOption.map Prod.snd).getD .empty

/-- What a batch accepts that accepts everything. -/
def allAccepted (ctx : Context) (ops : List Operation) : Store.Accepted :=
  ops.map fun op => (op.hash, made ctx op)

theorem commit_committed {store : Store} {accepted : Store.Accepted}
    (h : (store.commit .genesis accepted).isOk = true) :
    ∃ records, store.commit .genesis accepted = .ok (records, committed store accepted) := by
  obtain ⟨⟨records, store'⟩, h⟩ := exists_of_isOk h
  refine ⟨records, ?_⟩
  rw [committed, h]
  rfl

theorem admits_made {ctx : Context} {op : Operation}
    (processed : ((Processor.start op.kind ctx).process op).1.isOk = true) :
    ctx.Admits op (made ctx op) := by
  obtain ⟨changes, hchanges⟩ := exists_of_isOk processed
  have hmade : made ctx op = changes := by
    rw [made, hchanges]
    rfl
  obtain ⟨ctx', hctx, -, hadmits⟩ := Processor.process_eq_ok.1 hchanges
  obtain rfl : ctx = ctx' := Except.ok.inj hctx
  exact hmade ▸ hadmits

section batch

variable {d : Dispatcher} {ops : List Operation}
  (valid : ∀ op ∈ ops, op.check d.network = .ok ())
  (unclaimed : ∀ op ∈ ops, Claims.ofIntent d.strict op.fact.intent = .ok .none)
  (processed : ∀ op ∈ ops, ((Processor.start op.kind d.context).process op).1.isOk = true)
include valid unclaimed processed

theorem exists_batch_made (ready : d.IsReady) :
    (∃ d', d.batch ops = (.ok ⟨allAccepted d.context ops, []⟩, d')) ∧
      d.acceptedOperations ops = ops := by
  have hall : List.Forall₂ (Dispatcher.Makes d.network d.context) ops
      (allAccepted d.context ops) := by
    rw [allAccepted, List.forall₂_map_right_iff]
    exact List.forall₂_same.2 fun op hop => ⟨rfl, valid op hop, admits_made (processed op hop)⟩
  exact Dispatcher.exists_batchFrom ready rfl rfl hall unclaimed .empty

theorem advances_committed {config' : EngineConfig} (reachable : d.Reachable config')
    {store : Store} (reads : d.context.read = store.reader)
    (commits : (store.commit .genesis (allAccepted d.context ops)).isOk = true) :
    d.Advances config' ops store (committed store (allAccepted d.context ops)) ∧
      d.acceptedOperations ops = ops := by
  obtain ⟨⟨d', hbatch⟩, haccepted⟩ :=
    exists_batch_made valid unclaimed processed reachable.isReady
  obtain ⟨records, hcommit⟩ := commit_committed commits
  exact ⟨⟨reachable, reads, _, d', .genesis, records, hbatch, hcommit⟩, haccepted⟩

end batch

theorem advances_single {d : Dispatcher} {config' : EngineConfig} (reachable : d.Reachable config')
    {store : Store} (reads : d.context.read = store.reader) {op : Operation}
    (valid : op.check d.network = .ok ())
    (unclaimed : Claims.ofIntent d.strict op.fact.intent = .ok .none)
    (processed : ((Processor.start op.kind d.context).process op).1.isOk = true)
    (commits : (store.commit .genesis (allAccepted d.context [op])).isOk = true) :
    d.Advances config' [op] store (committed store (allAccepted d.context [op])) :=
  (advances_committed (List.forall_mem_singleton.2 valid) (List.forall_mem_singleton.2 unclaimed)
    (List.forall_mem_singleton.2 processed) reachable reads commits).1

/-- The ledger after operations that are all accepted. -/
def ledgerAfter (ops : List Operation) : Store :=
  committed ledger (allAccepted dispatcher.context ops)

theorem advances_payment :
    dispatcher.Advances config [payment] ledger (ledgerAfter [payment]) :=
  advances_single reachable_dispatcher rfl check_payment rfl rfl rfl

end Sample

/-- A transfer lowers what its sender has. -/
theorem authorized_of_advances_payment :
    ∃ op ∈ Sample.dispatcher.acceptedOperations [Sample.payment],
      op.fact.intent.IsOf Sample.alice ∧
      op.IsAuthorized Sample.config.networkBytes Sample.ledger Sample.alice :=
  (authorized_of_advances Sample.isSound_ledger .refl Sample.advances_payment).1 Sample.alice
    Sample.currency (by decide +kernel)

end CurrencyLedger
