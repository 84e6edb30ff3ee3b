import CurrencyLedger.Proofs.Ledger.Place
import CurrencyLedger.Proofs.Processing.Enrolment
import CurrencyLedger.Proofs.Processing.Failure

/-!
The two phases agree. What the first phase accepts the second does not reject, whatever the snapshot
holds: it makes the changes or stops at a record that the snapshot is short of. What the first phase
fails with the second fails with too.
-/

namespace CurrencyLedger

open Traversal

/-- What the records of a place are to hold. -/
def Place.payload : Place → Payload.Kind
  | account _ => .account
  | balance _ _ => .balance
  | design _ => .design
  | suffrage => .members
  | candidates => .candidates
  | networkPolicy => .networkPolicy

namespace Context

/-- What the snapshot of a context is short of, as the error that tells so. -/
inductive Lacks (ctx : Context) : LedgerError → Prop
  /-- There is no answer to a read. -/
  | answer {key : String} {e : LedgerError} (read : ctx.read key = .error e) : Lacks ctx e
  | networkPolicy (read : ctx.read RecordKey.networkPolicy = .ok none) :
      Lacks ctx (.state (.missing RecordKey.networkPolicy))
  /-- A record holds something else than its place asks for. -/
  | payload {place : Place} {r : Record} (read : ctx.read place.key = .ok (some r))
      (other : r.payload.kind ≠ place.payload) :
      Lacks ctx (.state (.wrongPayload r.key place.payload r.payload.kind))

/-- The snapshot is short of something that the halt tells of. -/
def StopsBy (ctx : Context) (halt : Halt) : Prop :=
  ∃ e, halt = .fatal e ∧ ctx.Lacks e

variable (ctx : Context)

/-- A place is read as its payload: the content is refused only for another payload. -/
theorem find_stopsBy {α : Type} (place : Place) {content : Record → Except StateError α}
    (refuses : ∀ r, FailsBy (fun e => e = .wrongPayload r.key place.payload r.payload.kind ∧
      r.payload.kind ≠ place.payload) (content r)) :
    FailsBy ctx.StopsBy (ctx.find place.key content) := by
  unfold find
  refine .bind (.mapError fun e he => ⟨e, rfl, .answer he⟩) fun found hfound => ?_
  cases found with
  | none => exact .pure none
  | some r =>
    have hread : ctx.read place.key = .ok (some r) := mapError_eq_ok.1 hfound
    refine .bind (.mapError fun e he => ?_) fun a _ => .pure (some a)
    obtain ⟨rfl, other⟩ := refuses r e he
    exact ⟨_, rfl, .payload hread other⟩

theorem balance_stopsBy (a : Address) (c : CurrencyId) : FailsBy ctx.StopsBy (ctx.balance a c) := by
  have hfind : FailsBy ctx.StopsBy (ctx.find (RecordKey.balance a c) Record.balance) := by
    refine ctx.find_stopsBy (.balance a c) fun r => ?_
    unfold Record.balance
    cases hp : r.payload with
    | balance amount => exact .ok amount
    | _ => exact .error ⟨by rw [hp]; rfl, by rw [Payload.kind]; exact nofun⟩
  exact (hfind.bind fun found _ => .pure _).bind fun n _ => .pure _

/-- A read that finds nothing has been answered so. -/
theorem read_of_find_none {α : Type} {key : String} {content : Record → Except StateError α}
    (h : ctx.find key content = .ok none) : ctx.read key = .ok none := by
  rw [find, bind_eq_ok] at h
  obtain ⟨found, hread, h⟩ := h
  cases found with
  | none => exact mapError_eq_ok.1 hread
  | some r =>
    obtain ⟨a, -, h⟩ := bind_eq_ok.1 h
    cases h

theorem networkPolicy_stopsBy : FailsBy ctx.StopsBy ctx.networkPolicy := by
  have hfind : FailsBy ctx.StopsBy (ctx.find RecordKey.networkPolicy Record.networkPolicy) := by
    refine ctx.find_stopsBy .networkPolicy fun r => ?_
    unfold Record.networkPolicy
    cases hp : r.payload with
    | networkPolicy policy => exact .ok policy
    | _ => exact .error ⟨by rw [hp]; rfl, by rw [Payload.kind]; exact nofun⟩
  refine hfind.bind fun found hfound => ?_
  cases found with
  | some policy => exact .pure policy
  | none => exact .error ⟨_, rfl, .networkPolicy (ctx.read_of_find_none hfound)⟩

end Context

section phases

variable {ctx : Context}

/-- A charge is covered by a recorded balance, or requires nothing. -/
theorem Charge.entry_of_cover {sender : Address} {c : Charge} {entry : Option (CurrencyId × Int)}
    (h : cover ctx sender c = .ok entry) :
    (∃ n, entry = some (c.currency, n)) ∨ c.required = 0 := by
  rw [cover, bind_eq_ok] at h
  obtain ⟨balance, -, h⟩ := h
  split at h
  · next hnone => exact .inr hnone.2
  · dsimp only at h
    split at h
    · cases h
    · exact .inl ⟨_, (Except.ok.inj h).symm⟩

/-- Without an entry of its currency a covered charge requires nothing. -/
theorem Charge.required_of_find?_none {sender : Address} {charges : List Charge}
    {balances : List (CurrencyId × Int)} (h : coverAll ctx sender charges = .ok balances)
    {c : Charge} (hc : c ∈ charges)
    (hnone : balances.find? (fun entry => entry.1 = c.currency) = none) : c.required = 0 := by
  rw [coverAll, bind_eq_ok] at h
  obtain ⟨entries, hentries, h⟩ := h
  cases h
  obtain ⟨entry, hmem, hcover⟩ := exists_right (mapM_eq_ok_iff.1 hentries) hc
  rcases entry_of_cover hcover with ⟨n, rfl⟩ | hrequired
  · have hfound := List.find?_eq_none.1 hnone (c.currency, n)
      (List.mem_filterMap.2 ⟨_, hmem, rfl⟩)
    simp at hfound
  · exact hrequired

theorem Charge.amount_nonneg {amounts : List Amount} (nonneg : ∀ a ∈ amounts, 0 ≤ a.magnitude)
    {charges : List Charge} (h : ofAmounts ctx amounts = .ok charges) {c : Charge}
    (hc : c ∈ charges) : 0 ≤ c.amount := by
  obtain ⟨s, hs, hsum⟩ := exists_left (mapM_eq_ok_iff.1 h) hc
  have hamount : c.amount = s.magnitude := by
    simp only [ofSum, bind_eq_ok] at hsum
    obtain ⟨d, -, fee, -, hsum⟩ := hsum
    split at hsum
    · obtain ⟨_, -, hsum⟩ := bind_eq_ok.1 hsum
      cases hsum
      rfl
    · cases hsum
      rfl
  rw [hamount, (mem_sums.1 hs).2]
  exact Amount.sumIn_nonneg nonneg s.currency

/-- A charge that requires nothing debits nothing: a fee above zero would need an amount below. -/
theorem Settlement.debit_eq_zero {sender : Address} {c : Charge} (required : c.required = 0)
    (nonneg : 0 ≤ c.amount) : debit sender c = 0 := by
  unfold debit
  cases hdue : c.due? with
  | none => exact required
  | some due =>
    obtain ⟨receiver, fee⟩ := due
    obtain ⟨hfee, -, -⟩ := Charge.due?_eq_some.1 hdue
    have hrequired : c.amount + c.fee = 0 := required
    omega

/-- Whatever the records are, effects that cannot be made tell what the snapshot is short of. -/
theorem Context.effectsFailBy_stopsBy (ctx : Context) : ctx.EffectsFailBy ctx.StopsBy where
  balance := ctx.balance_stopsBy
  networkPolicy := ctx.networkPolicy_stopsBy
  debit {sender amounts charges balances} nonneg hcharges hbalances charge hc := by
    unfold Settlement.debitChange
    split
    · exact .ok _
    · next hnone =>
      have hrequired := Charge.required_of_find?_none hbalances hc hnone
      have hamount := Charge.amount_nonneg nonneg hcharges hc
      rw [if_pos (Settlement.debit_eq_zero hrequired hamount)]
      exact .ok none

end phases

/-- The snapshot of a store answers every read. -/
theorem Store.lacks_context {store : Store} {height : Height} {threshold : Threshold}
    {e : LedgerError} (h : (store.context height threshold).Lacks e) :
    (store.get? RecordKey.networkPolicy = none ∧
      e = .state (.missing RecordKey.networkPolicy)) ∨
    ∃ (place : Place) (r : Record), store.get? place.key = some r ∧
      r.payload.kind ≠ place.payload ∧
      e = .state (.wrongPayload r.key place.payload r.payload.kind) := by
  cases h with
  | answer read => cases read
  | networkPolicy read => exact .inl ⟨Except.ok.inj read, rfl⟩
  | @payload place r read other => exact .inr ⟨place, r, Except.ok.inj read, other, rfl⟩

namespace Processor

/-- A processor that has come so far with a context. -/
def bound (kind : OperationKind) (ctx : Context) (progress : Progress) : Processor :=
  ⟨kind, some ⟨ctx, progress⟩⟩

variable {kind : OperationKind} {ctx : Context} {op : Operation} {progress : Progress}

/-- What both phases begin with. -/
def admission (kind : OperationKind) (ctx : Context) (op : Operation) : Result Unit := do
  (start kind ctx).accept op
  Rules.check kind ctx op

theorem preProcess_start_eq :
    (start kind ctx).preProcess op = match admission kind ctx op with
      | .ok () => (.ok (), bound kind ctx .preProcessed)
      | .error halt => (.error halt, start kind ctx) := by
  have hcontext : (start kind ctx).contextFor .preProcess = .ok ctx := rfl
  unfold preProcess admission
  rw [hcontext]
  cases (start kind ctx).accept op with
  | error halt => rfl
  | ok =>
    cases hcheck : Rules.check kind ctx op <;>
      simp [start, bound, advance, hcheck, bind, Except.bind, pure, Except.pure]

theorem preProcess_start_fst :
    ((start kind ctx).preProcess op).1 = admission kind ctx op := by
  rw [preProcess_start_eq]
  cases admission kind ctx op <;> rfl

theorem process_bound_fst (unused : progress ≠ .processed) :
    ((bound kind ctx progress).process op).1 =
      (do admission kind ctx op; Rules.effects kind ctx op) := by
  have hcontext : (bound kind ctx progress).contextFor .process = .ok ctx := by
    cases progress with
    | created => rfl
    | preProcessed => rfl
    | processed => exact absurd rfl unused
  have haccept : (bound kind ctx progress).accept op = (start kind ctx).accept op := rfl
  unfold process admission
  rw [hcontext, haccept]
  cases (start kind ctx).accept op with
  | error halt => rfl
  | ok =>
    cases hcheck : Rules.check kind ctx op with
    | error halt => simp [bound, hcheck, bind, Except.bind]
    | ok =>
      cases heffects : Rules.effects kind ctx op <;>
        simp [bound, hcheck, heffects, bind, Except.bind, pure, Except.pure]

theorem admission_eq_ok : admission kind ctx op = .ok () ↔
    op.kind = kind ∧ op.fact.check = .ok () ∧ Rules.check kind ctx op = .ok () := by
  rw [admission, check_bind_eq_ok, accept_eq_ok, and_assoc]
  rfl

/-- A processor that has accepted an operation can process it. -/
theorem preProcess_start_snd (accepted : ((start kind ctx).preProcess op).1 = .ok ()) :
    ((start kind ctx).preProcess op).2 = bound kind ctx .preProcessed := by
  rw [preProcess_start_fst] at accepted
  rw [preProcess_start_eq, accepted]

/-- What the first phase accepts the second can only stop at. -/
theorem process_of_preProcess (accepted : ((start kind ctx).preProcess op).1 = .ok ())
    (unused : progress ≠ .processed) :
    FailsBy ctx.StopsBy ((bound kind ctx progress).process op).1 := by
  rw [preProcess_start_fst] at accepted
  rw [process_bound_fst unused]
  refine .bind_of_ok accepted ?_
  obtain ⟨rfl, hfact, hcheck⟩ := admission_eq_ok.1 accepted
  exact Rules.effects_failsBy ctx.effectsFailBy_stopsBy (Fact.check_eq_ok.1 hfact).2 hcheck

/-- What the first phase fails with the second fails with too. -/
theorem process_of_preProcess_error {halt : Halt}
    (failed : ((start kind ctx).preProcess op).1 = .error halt) (unused : progress ≠ .processed) :
    ((bound kind ctx progress).process op).1 = .error halt := by
  rw [preProcess_start_fst] at failed
  rw [process_bound_fst unused, failed]
  rfl

theorem process_processed :
    ((bound kind ctx .processed).process op).1 =
      .error (.fatal (.wrongStage kind .process .processed)) := rfl

end Processor

/-- An operation that the first phase accepts is not rejected by the second, on any processor that
is bound to the same context: it gives changes, or stops at what the snapshot is short of. In a
store that is the network policy, or a record with another payload than its place asks for. What the
first phase fails with, rejections among it, the second fails with too. -/
theorem process_agrees_with_preProcess (kind : OperationKind) (ctx : Context) (op : Operation) :
    (((Processor.start kind ctx).preProcess op).1 = .ok () →
      ((Processor.start kind ctx).preProcess op).2 = .bound kind ctx .preProcessed ∧
      (∀ progress reason,
        ((Processor.bound kind ctx progress).process op).1 ≠ .error (.rejected reason)) ∧
      ∀ progress, progress ≠ .processed →
        (∃ changes, ((Processor.bound kind ctx progress).process op).1 = .ok changes) ∨
        ∃ e, ((Processor.bound kind ctx progress).process op).1 = .error (.fatal e) ∧
          ctx.Lacks e) ∧
    (∀ halt, ((Processor.start kind ctx).preProcess op).1 = .error halt →
      ∀ progress, progress ≠ .processed →
        ((Processor.bound kind ctx progress).process op).1 = .error halt) ∧
    ∀ (store : Store) (height : Height) (threshold : Threshold) (e : LedgerError),
      (store.context height threshold).Lacks e →
      (store.get? RecordKey.networkPolicy = none ∧
        e = .state (.missing RecordKey.networkPolicy)) ∨
      ∃ (place : Place) (r : Record), store.get? place.key = some r ∧
        r.payload.kind ≠ place.payload ∧
        e = .state (.wrongPayload r.key place.payload r.payload.kind) := by
  refine ⟨fun accepted => ⟨Processor.preProcess_start_snd accepted, ?_, ?_⟩, ?_, ?_⟩
  · intro progress reason rejected
    by_cases unused : progress = .processed
    · subst unused
      rw [Processor.process_processed] at rejected
      cases rejected
    · obtain ⟨e, he, -⟩ := Processor.process_of_preProcess accepted unused _ rejected
      cases he
  · intro progress unused
    cases h : ((Processor.bound kind ctx progress).process op).1 with
    | ok changes => exact .inl ⟨changes, rfl⟩
    | error halt =>
      obtain ⟨e, rfl, lacks⟩ := Processor.process_of_preProcess accepted unused _ h
      exact .inr ⟨e, rfl, lacks⟩
  · intro halt failed progress unused
    exact Processor.process_of_preProcess_error failed unused
  · intro store height threshold e lacks
    exact Store.lacks_context lacks

namespace Sample

/-- A ledger with a member, but without a network policy. -/
def unruled : Context :=
  (Store.setMembers .empty (.ofList [⟨bob, key, .genesis⟩])).context .genesis .standard

/-- A candidature that the candidate and the member have signed. Processors leave it to others
whether signatures verify. -/
def candidature : Operation :=
  ⟨digest 0, ⟨[1], .suffrageCandidate carol carolKey⟩,
    [⟨key, [], some bob⟩, ⟨carolKey, [], some carol⟩]⟩

end Sample

/-- The candidature is accepted and then stops at the network policy; a payment without signs is
rejected in both phases. -/
theorem process_agrees_with_preProcess_candidature :
    ((Processor.start .suffrageCandidate Sample.unruled).preProcess Sample.candidature).1 =
      .ok () ∧
    (∃ e, ((Processor.bound .suffrageCandidate Sample.unruled .preProcessed).process
      Sample.candidature).1 = .error (.fatal e) ∧ Sample.unruled.Lacks e) ∧
    ((Processor.bound .transfers (Sample.ledger.context .genesis .standard) .created).process
      { Sample.payment with signs := [] }).1 =
        .error (.rejected (.insufficientSignature 100 0)) := by
  obtain ⟨agrees, -, -⟩ := process_agrees_with_preProcess .suffrageCandidate Sample.unruled
    Sample.candidature
  obtain ⟨-, fails, -⟩ := process_agrees_with_preProcess .transfers
    (Sample.ledger.context .genesis .standard) { Sample.payment with signs := [] }
  have accepted : ((Processor.start .suffrageCandidate Sample.unruled).preProcess
      Sample.candidature).1 = .ok () := rfl
  refine ⟨accepted, ?_, fails _ rfl .created nofun⟩
  obtain ⟨-, -, ends⟩ := agrees accepted
  rcases ends .preProcessed nofun with ⟨changes, h⟩ | stops
  · cases h
  · exact stops

end CurrencyLedger
