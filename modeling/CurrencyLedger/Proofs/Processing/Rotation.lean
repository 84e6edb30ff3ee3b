import CurrencyLedger.Proofs.Identity.Canonical
import CurrencyLedger.Proofs.Processing.Acceptance
import CurrencyLedger.Proofs.Processing.Threshold
import CurrencyLedger.Proofs.Wire.Messages

/-!
A key set is known by its hash, as long as the bytes at hand do not collide. So an update of keys is
turned down for keys that are the same if and only if it would leave the account as it is:
`KeyUpdater.check_eq_sameKeys_iff`, where nothing is asked of what the ledger reads.
-/

namespace CurrencyLedger

open Traversal

theorem KeySet.same_iff {s t : KeySet} (apart : ¬ Digest.Collide s.hashedBytes t.hashedBytes) :
    s.same t = true ↔ s = t := by
  rw [same, decide_eq_true_iff]
  constructor
  · intro h
    by_contra hne
    exact apart ⟨fun hbytes => hne (hashedBytes_injective hbytes), h⟩
  · rintro rfl
    rfl

/-- Anything but that new keys are those that an account has. -/
def Halt.IsBesidesKeys : Halt → Prop
  | rejected (.sameKeys _) => False
  | _ => True

theorem Halt.IsFatal.isBesidesKeys {halt : Halt} (h : halt.IsFatal) : halt.IsBesidesKeys := by
  cases halt with
  | fatal => trivial
  | rejected => exact h.elim

namespace Context

variable (ctx : Context)

theorem find_besidesKeys {α : Type} (key : String) (content : Record → Except StateError α) :
    FailsBy Halt.IsBesidesKeys (ctx.find key content) :=
  (ctx.find_failsBy key content).mono fun _ h => h.isBesidesKeys

theorem design_besidesKeys (c : CurrencyId) : FailsBy Halt.IsBesidesKeys (ctx.design c) := by
  refine (ctx.find_besidesKeys _ _).bind fun found _ => ?_
  cases found with
  | none => exact .error trivial
  | some d => exact .pure d

theorem requireAccount_besidesKeys (a : Address) {reason : Address → Reason}
    (h : (Halt.rejected (reason a)).IsBesidesKeys) :
    FailsBy Halt.IsBesidesKeys (ctx.requireAccount a reason) := by
  refine .bind ?_ fun found _ => ?_
  · exact (ctx.find_besidesKeys _ _).bind fun _ _ => .pure _
  · split
    · exact .pure ()
    · exact .error h

theorem checkSigners_besidesKeys (keys : KeySet) (signers : List PublicKey) :
    FailsBy (fun reason => (Halt.rejected reason).IsBesidesKeys) (keys.checkSigners signers) := by
  refine .bind (fun reason hreason => ?_) fun weight _ => ?_
  · obtain ⟨signer, -, rfl⟩ := KeySet.signedWeight_eq_error_iff.1 hreason
    trivial
  · split
    · exact .error trivial
    · exact .ok ()

theorem signedAccount_besidesKeys (a : Address) (op : Operation) :
    FailsBy Halt.IsBesidesKeys (ctx.signedAccount a op) := by
  refine (ctx.find_besidesKeys _ _).bind fun found _ => ?_
  cases found with
  | none => exact .error trivial
  | some acc =>
    obtain ⟨address, keys⟩ := acc
    cases keys with
    | none => exact .error trivial
    | some keys =>
      exact .bind (.mapError (checkSigners_besidesKeys keys op.signers)) fun _ _ => .pure _

end Context

namespace Charge

variable (ctx : Context)

theorem ofAmounts_besidesKeys (amounts : List Amount) :
    FailsBy Halt.IsBesidesKeys (ofAmounts ctx amounts) := by
  refine .mapM fun sum _ => ?_
  refine (ctx.design_besidesKeys sum.currency).bind fun d _ => ?_
  refine .bind (.mapError fun _ _ => trivial) fun fee _ => ?_
  cases d.policy.fee.receiver? with
  | none => exact .pure _
  | some a =>
    have hreceiver : (Halt.rejected (.feeReceiverNotFound a)).IsBesidesKeys := trivial
    exact (ctx.requireAccount_besidesKeys a hreceiver).bind fun _ _ => .pure _

theorem coverAll_besidesKeys (sender : Address) (charges : List Charge) :
    FailsBy Halt.IsBesidesKeys (coverAll ctx sender charges) := by
  refine .bind (.mapM fun charge _ => ?_) fun _ _ => .pure _
  refine .bind ?_ fun balance _ => ?_
  · exact (ctx.find_besidesKeys _ _).bind fun _ _ => .pure _
  · split
    · exact .pure none
    · dsimp only
      split
      · exact .error trivial
      · exact .pure _

theorem covering_besidesKeys (sender : Address) (amounts : List Amount) :
    FailsBy Halt.IsBesidesKeys (covering ctx sender amounts) :=
  (ofAmounts_besidesKeys ctx amounts).bind fun charges _ =>
    (coverAll_besidesKeys ctx sender charges).bind fun _ _ => .pure ()

end Charge

/-- An account that can be signed for has keys. -/
theorem Context.keys_of_signedAccount {ctx : Context} {a : Address} {op : Operation} {acc : Account}
    (h : ctx.signedAccount a op = .ok acc) : ∃ keys, acc.keys = some keys := by
  obtain ⟨found, -, h⟩ := bind_eq_ok.1 h
  rcases found with - | ⟨address, - | keys⟩
  · cases h
  · cases h
  · obtain ⟨_, -, h⟩ := bind_eq_ok.1 h
    exact ⟨keys, Except.ok.inj h ▸ rfl⟩

theorem Account.withKeys_eq_iff {acc : Account} {keys : KeySet} :
    acc.withKeys keys = acc ↔ acc.keys = some keys := by
  obtain ⟨address, old⟩ := acc
  simp [withKeys, eq_comm]

namespace KeyUpdater

/-- The account can be signed for, and the new keys would leave it as it is. -/
def IsIdle (ctx : Context) (op : Operation) (target : Address) (keys : KeySet) : Prop :=
  ∃ acc, ctx.signedAccount target op = .ok acc ∧ acc.withKeys keys = acc

variable {ctx : Context} {op : Operation} {target : Address} {keys : KeySet}
  {currency : CurrencyId}

theorem check_eq_sameKeys_iff
    (apart : ∀ acc old, ctx.signedAccount target op = .ok acc → acc.keys = some old →
      ¬ Digest.Collide old.hashedBytes keys.hashedBytes) :
    check ctx op target keys currency = reject (.sameKeys target) ↔ IsIdle ctx op target keys := by
  rw [check_eq, IsIdle]
  cases hacc : ctx.signedAccount target op with
  | error halt =>
    refine iff_of_false (fun h => ?_) nofun
    cases h
    exact ctx.signedAccount_besidesKeys target op _ hacc
  | ok acc =>
    obtain ⟨old, hold⟩ := Context.keys_of_signedAccount hacc
    simp only [Except.ok.injEq, exists_eq_left', Account.withKeys_eq_iff, hold, Option.some.injEq,
      ← KeySet.same_iff (apart acc old hacc hold)]
    show ((if acc.keys.any (fun old => old.same keys) = true then _ else _) >>= _ : Result Unit) =
      _ ↔ _
    rw [hold, Option.any_some]
    cases old.same keys with
    | true => exact iff_of_true rfl rfl
    | false =>
      refine iff_of_false (fun h => ?_) Bool.false_ne_true
      exact Charge.covering_besidesKeys ctx target _ _ h

end KeyUpdater

/-- Effects do not turn down an operation that passed its check. -/
theorem Processor.process_eq_reject_iff {ctx : Context} {op : Operation} {reason : Reason}
    (hfact : op.fact.check = .ok ()) :
    ((start op.kind ctx).process op).1 = reject reason ↔
      Rules.check op.kind ctx op = reject reason := by
  rw [process_start hfact]
  cases hcheck : Rules.check op.kind ctx op with
  | error halt => exact ⟨fun h => by cases h; rfl, fun h => by cases h; rfl⟩
  | ok passed =>
    refine iff_of_false (fun h => ?_) nofun
    exact Rules.effects_failsBy ctx.effectsFailBy_fatal (Fact.check_eq_ok.1 hfact).2 hcheck _ h

/-- A key set does not depend on the order in which its keys are given, and neither do its hash and
its addresses. The bytes that are hashed tell key sets apart, so without a collision of the bytes at
hand key sets that count as the same are equal; and then both phases turn down new keys as the same
if and only if they leave the account as it is. -/
theorem KeySet.hash_identifies :
    (∀ (keys keys' : List WeightedKey) (threshold : UInt32), keys.Perm keys' →
      make keys threshold = make keys' threshold ∧
      ∀ s s', make keys threshold = .ok s → make keys' threshold = .ok s' →
        s.hash = s'.hash ∧ ∀ kind, Address.derive s kind = Address.derive s' kind) ∧
    (∀ s t : KeySet, s.hashedBytes = t.hashedBytes → s = t) ∧
    (∀ s t : KeySet, ¬ Digest.Collide s.hashedBytes t.hashedBytes → (s.same t = true ↔ s = t)) ∧
    ∀ (ctx : Context) (op : Operation) (target : Address) (keys : KeySet) (currency : CurrencyId),
      op.fact.intent = .keyUpdater target keys currency →
      (∀ acc old, ctx.signedAccount target op = .ok acc → acc.keys = some old →
        ¬ Digest.Collide old.hashedBytes keys.hashedBytes) →
      (Rules.check op.kind ctx op = reject (.sameKeys target) ↔
        KeyUpdater.IsIdle ctx op target keys) ∧
      (op.fact.check = .ok () →
        (((Processor.start op.kind ctx).preProcess op).1 = reject (.sameKeys target) ↔
          KeyUpdater.IsIdle ctx op target keys) ∧
        (((Processor.start op.kind ctx).process op).1 = reject (.sameKeys target) ↔
          KeyUpdater.IsIdle ctx op target keys)) := by
  refine ⟨fun keys keys' threshold perm => ?_, fun s t h => hashedBytes_injective h,
    fun s t => same_iff, fun ctx op target keys currency hintent apart => ?_⟩
  · have hmake := make_eq_of_perm perm threshold
    refine ⟨hmake, fun s s' hs hs' => ?_⟩
    rw [hmake, hs'] at hs
    cases hs
    exact ⟨rfl, fun kind => rfl⟩
  · have hcheck : Rules.check op.kind ctx op = KeyUpdater.check ctx op target keys currency := by
      rw [Operation.kind, Fact.kind]
      unfold Rules.check
      rw [hintent]
      rfl
    have rotates : Rules.check op.kind ctx op = reject (.sameKeys target) ↔
        KeyUpdater.IsIdle ctx op target keys := by
      rw [hcheck]
      exact KeyUpdater.check_eq_sameKeys_iff apart
    refine ⟨rotates, fun hfact => ⟨?_, ?_⟩⟩
    · rw [Processor.preProcess_start hfact]
      exact rotates
    · rw [Processor.process_eq_reject_iff hfact]
      exact rotates

namespace Sample

/-- An account that both keys of a point own. -/
def shared : Store :=
  ledger.setAccount ⟨alice, some twofold⟩

/-- Both keys sign for new keys of the account. -/
def rotation (new : KeySet) : Operation :=
  ⟨.ofBytes [], ⟨[1], .keyUpdater alice new currency⟩,
    [⟨ethereumKey, [], none⟩, ⟨key, [], none⟩]⟩

end Sample

theorem Sample.signedAccount_rotation (new : KeySet) :
    (shared.context .genesis .standard).signedAccount alice (rotation new) =
      .ok ⟨alice, some twofold⟩ := by
  have keyed := (isSound_ledger.setAccount ⟨alice, some twofold⟩).keyed
  have hsigners : (rotation new).signers = [ethereumKey, key] := rfl
  refine (Context.signedAccount_eq_ok_iff keyed ?_).2 ⟨by decide +kernel, twofold, rfl, ?_⟩
  · rw [hsigners]
    decide
  · rw [hsigners]
    decide

/-- The keys are the same though they are given the other way round; one of them alone is new. -/
theorem KeySet.hash_identifies_twofold :
    make [⟨Sample.ethereumKey, 40⟩, ⟨Sample.key, 30⟩] 60 = .ok Sample.twofold ∧
    ((Processor.start .keyUpdater (Sample.shared.context .genesis .standard)).preProcess
      (Sample.rotation Sample.twofold)).1 = reject (.sameKeys Sample.alice) ∧
    ((Processor.start .keyUpdater (Sample.shared.context .genesis .standard)).process
      (Sample.rotation Sample.keys)).1 ≠ reject (.sameKeys Sample.alice) := by
  obtain ⟨order, -, -, rotate⟩ := hash_identifies
  have apart {new : KeySet} (h : new = Sample.twofold ∨ Sample.twofold.hash ≠ new.hash) :
      ∀ acc old, (Sample.shared.context .genesis .standard).signedAccount Sample.alice
        (Sample.rotation new) = .ok acc → acc.keys = some old →
        ¬ Digest.Collide old.hashedBytes new.hashedBytes := by
    intro acc old hacc hold collide
    rw [Sample.signedAccount_rotation] at hacc
    cases hacc
    cases hold
    rcases h with rfl | h
    · exact collide.ne rfl
    · exact h collide.hash_eq
  refine ⟨?_, ?_, fun h => ?_⟩
  · exact (order _ _ 60 (List.Perm.swap _ _ _)).1.trans (make_self Sample.twofold)
  · obtain ⟨-, phases⟩ := rotate _ (Sample.rotation Sample.twofold) Sample.alice Sample.twofold
      Sample.currency rfl (apart (.inl rfl))
    exact (phases rfl).1.2 ⟨_, Sample.signedAccount_rotation _, rfl⟩
  · obtain ⟨-, phases⟩ := rotate _ (Sample.rotation Sample.keys) Sample.alice Sample.keys
      Sample.currency rfl (apart (.inr (by decide +kernel)))
    obtain ⟨acc, hacc, hkeys⟩ := (phases rfl).2.1 h
    rw [Sample.signedAccount_rotation] at hacc
    cases hacc
    exact absurd (Account.withKeys_eq_iff.1 hkeys) (by decide)

end CurrencyLedger
