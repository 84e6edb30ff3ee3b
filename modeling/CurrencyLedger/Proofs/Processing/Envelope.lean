import CurrencyLedger.Proofs.Processing.Ownership
import CurrencyLedger.Proofs.Processing.Threshold

/-!
What an operation needs around its fact: its own hash, and signs of different keys that verify. The
order of the signs matters for the hash only. An operation that lacks something of this is rejected,
it never stops the height.
-/

namespace CurrencyLedger

open Traversal

namespace Operation

variable {op : Operation} {network : List UInt8}

theorem nodup_signers_iff : op.signers.Nodup ↔
    (op.signs.map fun s => (s.signer.kind, s.signer.point)).Nodup := by
  have injective : Function.Injective fun key : PublicKey => (key.kind, key.point) := by
    intro key key' h
    obtain ⟨hkind, hpoint⟩ := Prod.mk.inj h
    cases key
    cases key'
    exact PublicKey.mk.injEq .. ▸ ⟨hkind, hpoint⟩
  rw [← List.nodup_map_iff injective, signers, List.map_map]
  rfl

/-- With its signs in another order, and the hash for that, an operation is as good as before. -/
theorem check_make_of_perm {signs' : List Sign} (perm : signs'.Perm op.signs) :
    op.check network = .ok () ↔ op.hash = hashOf op.fact.hash op.signs ∧
      (make op.fact signs').check network = .ok () := by
  have hsigners : (make op.fact signs').signers.Perm op.signers := perm.map _
  rw [check_eq_ok, check_eq_ok, hsigners.nodup_iff]
  constructor
  · rintro ⟨hfact, hhash, hsigns, distinct, hall⟩
    refine ⟨hhash.symm, hfact, rfl, ?_, distinct, fun s hs => hall s (perm.subset hs)⟩
    exact fun hempty : signs' = [] => hsigns (hempty ▸ perm.symm).eq_nil
  · rintro ⟨hhash, hfact, -, hsigns, distinct, hall⟩
    refine ⟨hfact, hhash.symm, ?_, distinct, fun s hs => hall s (perm.symm.subset hs)⟩
    exact fun hempty => hsigns (hempty ▸ perm).eq_nil

/-- Both phases reject an operation that is not in order. -/
theorem rejected_of_error {error : LedgerError} {d : Dispatcher} (orderly : d.IsOrderly)
    (known : (d.registry op.kind).isSome) (h : op.check d.network = .error error) :
    (d.preProcess op).1 = .ok (.rejected (.invalidOperation error.message)) ∧
      (d.process op).1 = .ok (.rejected (.invalidOperation error.message)) := by
  obtain ⟨_, -, hpre⟩ := orderly.preProcess_eq known
  obtain ⟨_, -, hprocess⟩ := orderly.process_eq known
  rw [hpre, hprocess, Dispatcher.checked, Dispatcher.settled, Dispatcher.validity_of_error h]
  exact ⟨rfl, rfl⟩

/-- The check of an operation is exact. It passes if and only if the fact passes, the hash is the
one of the fact and the signs, there are signs, they are made with different keys, they name nodes
where the kind asks for it, and each verifies over the digest of the network's name and the hash of
the fact. It passes with the signs in any other order too, once the hash is made anew. Whatever
error it ends with, the operation is rejected for being invalid. -/
theorem check_exact (op : Operation) (network : List UInt8) :
    (op.check network = .ok () ↔
      op.fact.check = .ok () ∧ op.hash = hashOf op.fact.hash op.signs ∧ op.signs ≠ [] ∧
      (op.signs.map fun s => (s.signer.kind, s.signer.point)).Nodup ∧
      (op.kind.isNodeLevel = true → ∀ s ∈ op.signs, s.node.isSome) ∧
      ∀ s ∈ op.signs, s.signer.verify (Digest.ofBytes (network ++ op.fact.hash.bytes)).bytes
        s.signature = .ok true) ∧
    (∀ signs' : List Sign, signs'.Perm op.signs →
      (op.check network = .ok () ↔ op.hash = hashOf op.fact.hash op.signs ∧
        (make op.fact signs').check network = .ok ())) ∧
    ∀ error, op.check network = .error error →
      error.verdict = .ok (.invalidOperation error.message) ∧
      ∀ d : Dispatcher, d.network = network → d.IsOrderly → (d.registry op.kind).isSome →
        (d.preProcess op).1 = .ok (.rejected (.invalidOperation error.message)) ∧
        (d.process op).1 = .ok (.rejected (.invalidOperation error.message)) := by
  refine ⟨?_, fun signs' => check_make_of_perm, fun error herror =>
    ⟨(check_failsBy op network error herror).verdict_eq, ?_⟩⟩
  · rw [check_eq_ok, nodup_signers_iff, eq_comm (a := hashOf op.fact.hash op.signs)]
    constructor
    · rintro ⟨hfact, hhash, hsigns, distinct, hall⟩
      exact ⟨hfact, hhash, hsigns, distinct, fun node s hs => (hall s hs).1 node,
        fun s hs => (hall s hs).2⟩
    · rintro ⟨hfact, hhash, hsigns, distinct, hnode, hverify⟩
      exact ⟨hfact, hhash, hsigns, distinct, fun s hs => ⟨fun node => hnode node s hs,
        hverify s hs⟩⟩
  · rintro d rfl orderly known
    exact rejected_of_error orderly known herror

end Operation

namespace Sample

/-- The sign of the payment as one of another key. -/
def signBy (key : PublicKey) : Sign :=
  ⟨key, payment.signs.flatMap Sign.signature, none⟩

/-- The payment signed with both keys of a point. -/
def joint : Operation :=
  .make payment.fact [signBy key, signBy ethereumKey]

/-- The same without the signs. -/
def bare : Operation :=
  ⟨joint.hash, joint.fact, []⟩

theorem check_joint : joint.fact.check = .ok () ∧ ∀ s ∈ joint.signs,
    s.verify config.networkBytes joint.fact.hash = .ok true := by
  obtain ⟨hfact, -, -, -, hpaid⟩ := Operation.check_eq_ok.1 check_payment
  obtain ⟨-, hsign⟩ := hpaid (signBy key) List.mem_cons_self
  -- a signature is verified against the point of a key alone
  exact ⟨hfact, List.forall_mem_cons.2 ⟨hsign, List.forall_mem_singleton.2 hsign⟩⟩

end Sample

/-- Two keys with one point are two signers, in any order; without its signs the operation is
rejected. -/
theorem Operation.check_exact_joint :
    Sample.joint.check Sample.config.networkBytes = .ok () ∧
    (make Sample.joint.fact [Sample.signBy Sample.ethereumKey, Sample.signBy Sample.key]).check
      Sample.config.networkBytes = .ok () ∧
    ∃ why, (Sample.dispatcher.preProcess Sample.bare).1 =
      .ok (.rejected (.invalidOperation why)) := by
  obtain ⟨hvalid, horder, -⟩ := check_exact Sample.joint Sample.config.networkBytes
  obtain ⟨hbare, -, hrejected⟩ := check_exact Sample.bare Sample.config.networkBytes
  have valid : Sample.joint.check Sample.config.networkBytes = .ok () := by
    obtain ⟨hfact, hverify⟩ := Sample.check_joint
    refine hvalid.2 ⟨hfact, rfl, by simp [Sample.joint, make], by decide, ?_, hverify⟩
    exact fun node => absurd node (by decide)
  refine ⟨valid, ((horder _ (.swap _ _ [])).1 valid).2, ?_⟩
  cases hcheck : Sample.bare.check Sample.config.networkBytes with
  | ok passed => exact absurd rfl (hbare.1 hcheck).2.2.1
  | error error =>
    obtain ⟨-, hboth⟩ := hrejected error hcheck
    have ready := Sample.reachable_dispatcher.isReady
    exact ⟨error.message, (hboth Sample.dispatcher rfl ready.isOrderly (ready.known _)).1⟩

end CurrencyLedger
