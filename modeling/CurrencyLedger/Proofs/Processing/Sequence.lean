import CurrencyLedger.Proofs.Processing.Failure
import CurrencyLedger.Proofs.Processing.Ownership
import Mathlib.Data.Finset.Basic
import Mathlib.Data.List.Basic

/-!
What a batch comes to, without dispatchers. `Terms.judge` decides on one operation by the records
and by the claims of operations accepted before it, and `Terms.walk` goes through a list. A
dispatcher decides in two phases, with pooled processors and with claims that it makes before the
changes are known; `IsOrderly.runs` says that it comes to the same on one operation,
`IsOrderly.batchFrom_eq` on a list.
-/

namespace CurrencyLedger

open Traversal

/-- Something that only one operation of a height may claim. -/
inductive Claim where
  | address (a : Address)
  | sender (a : Address)
  | currency (c : CurrencyId)
deriving DecidableEq

/-- Why an operation is rejected that claims what is taken. -/
def Claim.reason : Claim → Reason
  | address a => .duplicatedAddress a
  | sender a => .duplicatedSender a
  | currency c => .duplicatedCurrency c

namespace Claims

/-- The claims in the order in which they are looked at. -/
def toList (claims : Claims) : List Claim :=
  claims.addresses.map .address ++ claims.senders.map .sender ++ claims.currencies.map .currency

def held (claims : Claims) : Finset Claim :=
  claims.toList.toFinset

theorem mem_held {claims : Claims} {claim : Claim} :
    claim ∈ claims.held ↔ match claim with
      | .address a => a ∈ claims.addresses
      | .sender a => a ∈ claims.senders
      | .currency c => c ∈ claims.currencies := by
  cases claim <;> simp [held, toList]

theorem held_union (taken new : Claims) :
    (taken.union new).held = taken.held ∪ new.toList.toFinset := by
  ext claim
  rw [Finset.mem_union, ← held, mem_held, mem_held, mem_held]
  cases claim <;> simp [union, or_comm]

/-- Claims conflict in the first of the new ones that is taken. -/
theorem conflict?_eq (taken new : Claims) :
    taken.conflict? new = (new.toList.find? (· ∈ taken.held)).map Claim.reason := by
  simp only [conflict?, toList, List.find?_append, List.find?_map, mem_held, Function.comp_def,
    Option.map_or, Option.map_map, Option.or_assoc]
  rfl

/-- The claims of an intent in order can be told. -/
theorem exists_ofIntent (strict : Bool) {intent : Intent} (h : intent.check = .ok ()) :
    ∃ new, ofIntent strict intent = .ok new := by
  cases intent
  case createAccounts sender items =>
    obtain ⟨targets, hitems, -⟩ := Intent.check_createAccounts h
    have htargets : Intent.targets items = .ok targets :=
      mapM_eq_ok_iff.2 (hitems.imp fun _ _ hitem => hitem.1)
    simp only [ofIntent, htargets]
    exact ⟨_, rfl⟩
  all_goals exact ⟨_, rfl⟩

end Claims

namespace Outcome

def changes? : Outcome → Option (List Change)
  | accepted changes => some changes
  | rejected _ => none

def reason? : Outcome → Option Reason
  | accepted _ => none
  | rejected reason => some reason

end Outcome

namespace BatchResult

/-- What is reported of operations with their outcomes: each is either in the one list or in the
other, with its hash. -/
def ofOutcomes (ops : List Operation) (outcomes : List Outcome) : BatchResult where
  accepted := (ops.zip outcomes).filterMap fun (op, outcome) => outcome.changes?.map (op.hash, ·)
  rejected := (ops.zip outcomes).filterMap fun (op, outcome) => outcome.reason?.map (op.hash, ·)

def append (done more : BatchResult) : BatchResult :=
  ⟨done.accepted ++ more.accepted, done.rejected ++ more.rejected⟩

theorem append_accepted (done : BatchResult) (op : Operation) (changes : List Change)
    (ops : List Operation) (outcomes : List Outcome) :
    append { done with accepted := done.accepted ++ [(op.hash, changes)] }
        (ofOutcomes ops outcomes) =
      done.append (ofOutcomes (op :: ops) (.accepted changes :: outcomes)) := by
  simp [append, ofOutcomes, Outcome.changes?, Outcome.reason?]

theorem append_rejected (done : BatchResult) (op : Operation) (reason : Reason)
    (ops : List Operation) (outcomes : List Outcome) :
    append { done with rejected := done.rejected ++ [(op.hash, reason)] }
        (ofOutcomes ops outcomes) =
      done.append (ofOutcomes (op :: ops) (.rejected reason :: outcomes)) := by
  simp [append, ofOutcomes, Outcome.changes?, Outcome.reason?]

/-- The operations that are accepted, in their order. -/
def acceptedOf (ops : List Operation) (outcomes : List Outcome) : List Operation :=
  (ops.zip outcomes).filterMap fun (op, outcome) => outcome.changes?.map fun _ => op

end BatchResult

/-- What the operations of a height are judged by. -/
structure Terms where
  registry : Registry
  context : Context
  network : List UInt8
  strict : Bool

namespace Terms

/-- What an operation claims, the claims that are looked at first in front. -/
def claims (t : Terms) (op : Operation) : List Claim :=
  match Claims.ofIntent t.strict op.fact.intent with
  | .ok new => new.toList
  | .error _ => []

/-- Decides on an operation by the records and by the claims taken before it. -/
def judge (t : Terms) (taken : Finset Claim) (op : Operation) : Result (List Change) :=
  if t.registry op.kind = none then reject (.unknownOperation op.kind)
  else do
    (op.check t.network).mapError fun error => .rejected (.invalidOperation error.message)
    Rules.check op.kind t.context op
    match (t.claims op).find? (· ∈ taken) with
    | some claim => reject claim.reason
    | none => Rules.effects op.kind t.context op

section judge

variable {t : Terms} {taken : Finset Claim} {op : Operation}

theorem judge_unknown (h : t.registry op.kind = none) :
    t.judge taken op = reject (.unknownOperation op.kind) :=
  if_pos h

variable (known : t.registry op.kind ≠ none)
include known

theorem judge_invalid {error : LedgerError} (h : op.check t.network = .error error) :
    t.judge taken op = reject (.invalidOperation error.message) := by
  rw [judge, if_neg known, h]
  rfl

theorem judge_unfit (valid : op.check t.network = .ok ()) {halt : Halt}
    (h : Rules.check op.kind t.context op = .error halt) : t.judge taken op = .error halt := by
  rw [judge, if_neg known, valid, h]
  rfl

theorem judge_fit (valid : op.check t.network = .ok ())
    (h : Rules.check op.kind t.context op = .ok ()) :
    t.judge taken op = match (t.claims op).find? (· ∈ taken) with
      | some claim => reject claim.reason
      | none => Rules.effects op.kind t.context op := by
  rw [judge, if_neg known, valid, h]
  rfl

end judge

/-- Why an operation is rejected. Each reason stands only where those before it do not; the making
of the effects is no reason. -/
inductive Rejects (t : Terms) (taken : Finset Claim) (op : Operation) : Reason → Prop
  | unknown (unknown : t.registry op.kind = none) : Rejects t taken op (.unknownOperation op.kind)
  | invalid {error : LedgerError} (known : t.registry op.kind ≠ none)
      (invalid : op.check t.network = .error error) :
      Rejects t taken op (.invalidOperation error.message)
  | unfit {reason : Reason} (known : t.registry op.kind ≠ none)
      (valid : op.check t.network = .ok ())
      (unfit : Rules.check op.kind t.context op = .error (.rejected reason)) :
      Rejects t taken op reason
  | taken {claim : Claim} (known : t.registry op.kind ≠ none)
      (valid : op.check t.network = .ok ()) (fit : Rules.check op.kind t.context op = .ok ())
      (first : (t.claims op).find? (· ∈ taken) = some claim) : Rejects t taken op claim.reason

theorem judge_eq_rejected_iff {t : Terms} {taken : Finset Claim} {op : Operation}
    {reason : Reason} :
    t.judge taken op = .error (.rejected reason) ↔ t.Rejects taken op reason := by
  constructor
  · intro h
    by_cases known : t.registry op.kind = none
    · rw [judge_unknown known] at h
      cases h
      exact .unknown known
    cases valid : op.check t.network with
    | error error =>
      rw [judge_invalid known valid] at h
      cases h
      exact .invalid known valid
    | ok _ =>
      cases fit : Rules.check op.kind t.context op with
      | error halt =>
        rw [judge_unfit known valid fit] at h
        cases h
        exact .unfit known valid fit
      | ok _ =>
        rw [judge_fit known valid fit] at h
        split at h
        · next claim first =>
          cases h
          exact .taken known valid fit first
        · have hintent := (Fact.check_eq_ok.1 (Operation.check_eq_ok.1 valid).1).2
          exact (Rules.effects_failsBy t.context.effectsFailBy_fatal hintent fit _ h).elim
  · intro h
    cases h with
    | unknown unknown => exact judge_unknown unknown
    | invalid known invalid => exact judge_invalid known invalid
    | unfit known valid unfit => exact judge_unfit known valid unfit
    | taken known valid fit first => rw [judge_fit known valid fit, first]; rfl

/-- The outcomes of operations in their order, and the claims in the end. Accepted operations add
theirs to those taken before. -/
def walk (t : Terms) : Finset Claim → List Operation →
    Except LedgerError (List Outcome × Finset Claim)
  | taken, [] => .ok ([], taken)
  | taken, op :: rest =>
    match t.judge taken op with
    | .ok changes =>
      (t.walk (taken ∪ (t.claims op).toFinset) rest).map fun (outcomes, held) =>
        (.accepted changes :: outcomes, held)
    | .error (.rejected reason) =>
      (t.walk taken rest).map fun (outcomes, held) => (.rejected reason :: outcomes, held)
    | .error (.fatal error) => .error error

/-- A walk that is not stopped, step by step. -/
inductive Walks (t : Terms) :
    Finset Claim → List Operation → List Outcome → Finset Claim → Prop
  | nil {taken : Finset Claim} : Walks t taken [] [] taken
  | accepted {taken held : Finset Claim} {op : Operation} {rest : List Operation}
      {changes : List Change} {outcomes : List Outcome} (judged : t.judge taken op = .ok changes)
      (walks : Walks t (taken ∪ (t.claims op).toFinset) rest outcomes held) :
      Walks t taken (op :: rest) (.accepted changes :: outcomes) held
  | rejected {taken held : Finset Claim} {op : Operation} {rest : List Operation}
      {reason : Reason} {outcomes : List Outcome}
      (judged : t.judge taken op = .error (.rejected reason))
      (walks : Walks t taken rest outcomes held) :
      Walks t taken (op :: rest) (.rejected reason :: outcomes) held

theorem walk_eq_ok {t : Terms} {taken held : Finset Claim} {ops : List Operation}
    {outcomes : List Outcome} :
    t.walk taken ops = .ok (outcomes, held) ↔ t.Walks taken ops outcomes held := by
  constructor
  · intro h
    induction ops generalizing taken outcomes with
    | nil =>
      cases h
      exact .nil
    | cons op rest ih =>
      unfold walk at h
      split at h
      · next changes judged =>
        obtain ⟨⟨_, _⟩, hrest, he⟩ := map_eq_ok.1 h
        cases he
        exact .accepted judged (ih hrest)
      · next reason judged =>
        obtain ⟨⟨_, _⟩, hrest, he⟩ := map_eq_ok.1 h
        cases he
        exact .rejected judged (ih hrest)
      · cases h
  · intro h
    induction h with
    | nil => rfl
    | accepted judged _ ih => rw [walk, judged]; dsimp only; rw [ih]; rfl
    | rejected judged _ ih => rw [walk, judged]; dsimp only; rw [ih]; rfl

/-- An accepted operation claims nothing that is taken. -/
theorem not_mem_of_judge {t : Terms} {taken : Finset Claim} {op : Operation}
    {changes : List Change} (h : t.judge taken op = .ok changes) :
    ∀ claim ∈ t.claims op, claim ∉ taken := by
  unfold judge at h
  split at h
  · cases h
  · simp only [check_bind_eq_ok] at h
    obtain ⟨-, -, h⟩ := h
    split at h
    · cases h
    · next hfree => simpa using hfree

namespace Walks

open BatchResult

variable {t : Terms} {taken held : Finset Claim} {ops : List Operation} {outcomes : List Outcome}
  (walks : t.Walks taken ops outcomes held)
include walks

theorem length_eq : outcomes.length = ops.length := by
  induction walks with
  | nil => rfl
  | accepted _ _ ih => rw [List.length_cons, List.length_cons, ih]
  | rejected _ _ ih => rw [List.length_cons, List.length_cons, ih]

/-- What is claimed in the end is what was taken before and what accepted operations claim. -/
theorem mem_held (claim : Claim) :
    claim ∈ held ↔ claim ∈ taken ∨ ∃ op ∈ acceptedOf ops outcomes, claim ∈ t.claims op := by
  induction walks with
  | nil => simp [acceptedOf]
  | accepted judged _ ih =>
    rw [ih]
    simp [acceptedOf, Outcome.changes?, or_assoc]
  | rejected judged _ ih =>
    rw [ih]
    simp [acceptedOf, Outcome.changes?]

theorem not_taken {op : Operation} (hop : op ∈ acceptedOf ops outcomes) :
    ∀ claim ∈ t.claims op, claim ∉ taken := by
  induction walks with
  | nil => cases hop
  | accepted judged _ ih =>
    rcases List.mem_cons.1 hop with rfl | hop
    · exact not_mem_of_judge judged
    · intro claim hclaim htaken
      exact ih hop claim hclaim (Finset.mem_union_left _ htaken)
  | rejected judged _ ih => exact ih hop

/-- No two accepted operations claim the same. -/
theorem pairwise_disjoint :
    (acceptedOf ops outcomes).Pairwise fun a b => (t.claims a).Disjoint (t.claims b) := by
  induction walks with
  | nil => exact .nil
  | @accepted _ _ op rest changes outcomes judged walks ih =>
    refine List.pairwise_cons.2 ⟨fun later hlater claim hclaim hlaterClaim => ?_, ih⟩
    exact walks.not_taken hlater claim hlaterClaim
      (Finset.mem_union_right _ (List.mem_toFinset.2 hclaim))
  | rejected judged _ ih => exact ih

/-- Without an operation that is rejected the others end as they do with it. -/
theorem eraseIdx {i : Nat} {reason : Reason} (h : outcomes[i]? = some (.rejected reason)) :
    t.Walks taken (ops.eraseIdx i) (outcomes.eraseIdx i) held := by
  induction walks generalizing i with
  | nil => cases h
  | accepted judged _ ih =>
    cases i with
    | zero => cases h
    | succ i => exact .accepted judged (ih h)
  | rejected judged walks ih =>
    cases i with
    | zero => exact walks
    | succ i => exact .rejected judged (ih h)

end Walks

end Terms

namespace Processor

/-- A new processor checks an operation by the rules of its kind. -/
theorem preProcess_start {ctx : Context} {op : Operation} (hfact : op.fact.check = .ok ()) :
    ((start op.kind ctx).preProcess op).1 = Rules.check op.kind ctx op := by
  have haccept : (start op.kind ctx).accept op = .ok () := accept_eq_ok.2 ⟨rfl, hfact⟩
  have hcontext : (start op.kind ctx).contextFor .preProcess = .ok ctx := rfl
  unfold preProcess
  rw [haccept, hcontext]
  cases h : Rules.check op.kind ctx op <;>
    simp [h, start, bind, Except.bind, pure, Except.pure]

/-- It checks the operation again before it makes the effects. -/
theorem process_start {ctx : Context} {op : Operation} (hfact : op.fact.check = .ok ()) :
    ((start op.kind ctx).process op).1 =
      Rules.check op.kind ctx op >>= fun _ => Rules.effects op.kind ctx op := by
  have haccept : (start op.kind ctx).accept op = .ok () := accept_eq_ok.2 ⟨rfl, hfact⟩
  have hcontext : (start op.kind ctx).contextFor .process = .ok ctx := rfl
  unfold process
  rw [haccept, hcontext]
  cases hcheck : Rules.check op.kind ctx op with
  | error halt => simp [hcheck, start, bind, Except.bind]
  | ok passed =>
    cases h : Rules.effects op.kind ctx op <;>
      simp [h, hcheck, start, bind, Except.bind, pure, Except.pure]

end Processor

namespace Dispatcher

/-- What a dispatcher judges by. -/
abbrev terms (d : Dispatcher) : Terms :=
  ⟨d.registry, d.context, d.network, d.strict⟩

/-- How a dispatcher runs an operation that is judged in some way. Only an accepted operation leaves
claims. -/
inductive Runs (d : Dispatcher) (op : Operation) :
    Result (List Change) → Except LedgerError Outcome × Dispatcher → Prop
  | accepted {changes : List Change} {pool : Pool} {claims : Claims} (filed : pool.IsFiled)
      (held : claims.held = d.claims.held ∪ (d.terms.claims op).toFinset) :
      Runs d op (.ok changes) (.ok (.accepted changes), { d with pool := pool, claims := claims })
  | rejected {reason : Reason} {pool : Pool} (filed : pool.IsFiled) :
      Runs d op (.error (.rejected reason)) (.ok (.rejected reason), { d with pool := pool })
  | stopped {error : LedgerError} {d' : Dispatcher} :
      Runs d op (.error (.fatal error)) (.error error, d')

variable {d : Dispatcher} {op : Operation}

theorem run_of_checked_rejected {pool : Pool} {reason : Reason}
    (h : d.preProcess op = (.ok (.rejected reason), { d with pool := pool })) :
    d.run op = (.ok (.rejected reason), { d with pool := pool }) := by
  rw [run, h]

/-- The first phase of a valid operation is the check by the rules of its kind. -/
theorem checked_eq (hvalid : op.check d.network = .ok ()) :
    d.checked op = Outcome.ofResult ((Rules.check op.kind d.context op).map fun _ => []) := by
  have hfact := (Operation.check_eq_ok.1 hvalid).1
  simp only [checked, validity_of_ok hvalid, Processor.preProcess_start hfact]

/-- The second phase of an operation that passed its checks. -/
theorem settled_eq (hvalid : op.check d.network = .ok ())
    (hcheck : Rules.check op.kind d.context op = .ok ()) :
    ∃ new, d.terms.claims op = new.toList ∧ d.settled op =
      match d.claims.conflict? new with
      | some reason => (.ok (.rejected reason), d.claims)
      | none => (Outcome.ofResult (Rules.effects op.kind d.context op), d.claims.union new) := by
  have hfact := (Operation.check_eq_ok.1 hvalid).1
  obtain ⟨new, hnew⟩ := Claims.exists_ofIntent d.strict (Fact.check_eq_ok.1 hfact).2
  refine ⟨new, ?_, ?_⟩
  · simp only [Terms.claims, hnew]
  · simp only [settled, validity_of_ok hvalid, hnew, Processor.process_start hfact,
      hcheck]
    rfl

/-- The two phases come to what is judged at once. -/
theorem IsOrderly.runs (orderly : d.IsOrderly) (op : Operation) :
    d.Runs op (d.terms.judge d.claims.held op) (d.run op) := by
  by_cases unknown : d.registry op.kind = none
  · have hpre : d.preProcess op =
        (.ok (.rejected (.unknownOperation op.kind)), { d with pool := d.pool }) := by
      unfold preProcess withProcessor Dispatcher.borrow
      rw [unknown]
    rw [Terms.judge_unknown (t := d.terms) unknown, run_of_checked_rejected hpre]
    exact .rejected orderly.filed
  have known : (d.registry op.kind).isSome := Option.isSome_iff_ne_none.2 unknown
  obtain ⟨pool, filed, hpre⟩ := orderly.preProcess_eq known
  cases hvalid : op.check d.network with
  | error error =>
    have hchecked : d.checked op = .ok (.rejected (.invalidOperation error.message)) := by
      simp only [checked, validity_of_error hvalid]
    rw [hchecked] at hpre
    rw [Terms.judge_invalid (t := d.terms) unknown hvalid, run_of_checked_rejected hpre]
    exact .rejected filed
  | ok passed =>
    cases passed
    have hfact := (Operation.check_eq_ok.1 hvalid).1
    rw [checked_eq hvalid] at hpre
    cases hcheck : Rules.check op.kind d.context op with
    | error halt =>
      rw [hcheck] at hpre
      rw [Terms.judge_unfit (t := d.terms) unknown hvalid hcheck]
      cases halt with
      | rejected reason =>
        rw [run_of_checked_rejected hpre]
        exact .rejected filed
      | fatal error =>
        rw [run, hpre]
        exact .stopped
    | ok passed =>
      cases passed
      rw [hcheck] at hpre
      have orderly' : IsOrderly { d with pool := pool } := ⟨orderly.own, filed⟩
      obtain ⟨pool', filed', hprocess⟩ := orderly'.process_eq known
      obtain ⟨new, hclaims, hsettled⟩ := settled_eq hvalid hcheck
      have hrun : d.run op =
          ((d.settled op).1, { d with pool := pool', claims := (d.settled op).2 }) := by
        rw [run, hpre]
        exact hprocess
      rw [hrun, hsettled, Terms.judge_fit (t := d.terms) unknown hvalid hcheck,
        Claims.conflict?_eq, ← hclaims]
      cases (d.terms.claims op).find? (· ∈ d.claims.held) with
      | some claim => exact .rejected filed'
      | none =>
        have hunion := Claims.held_union d.claims new
        rw [← hclaims] at hunion
        -- the check has passed, so effects that cannot be made stop the height
        have hfatal := Rules.effects_failsBy d.context.effectsFailBy_fatal
          (Fact.check_eq_ok.1 hfact).2 hcheck
        cases heffects : Rules.effects op.kind d.context op with
        | ok changes => exact .accepted filed' hunion
        | error halt =>
          cases halt with
          | rejected reason => exact (hfatal _ heffects).elim
          | fatal error => exact .stopped

/-- A dispatcher has come through operations as a walk does: to the same result, and with the same
claims in the end. -/
structure Reaches (walked : Except LedgerError (List Outcome × Finset Claim)) (done : BatchResult)
    (ops : List Operation) (ran : Except LedgerError BatchResult × Dispatcher) : Prop where
  result : ran.1 = walked.map fun (outcomes, _) => done.append (.ofOutcomes ops outcomes)
  held : ∀ outcomes held, walked = .ok (outcomes, held) → ran.2.claims.held = held

theorem Reaches.cons {walked : Except LedgerError (List Outcome × Finset Claim)}
    {done done' : BatchResult} {ops : List Operation}
    {ran : Except LedgerError BatchResult × Dispatcher} {outcome : Outcome}
    (h : Reaches walked done' ops ran)
    (hdone : ∀ outcomes, done'.append (.ofOutcomes ops outcomes) =
      done.append (.ofOutcomes (op :: ops) (outcome :: outcomes))) :
    Reaches (walked.map fun (outcomes, held) => (outcome :: outcomes, held)) done (op :: ops)
      ran := by
  cases walked with
  | error e =>
    refine ⟨h.result, ?_⟩
    rintro _ _ ⟨⟩
  | ok walked =>
    refine ⟨h.result.trans (congrArg _ (hdone _)), ?_⟩
    rintro _ _ ⟨⟩
    exact h.held _ _ rfl

/-- A dispatcher comes to the same on a list as a walk from the claims that it holds. -/
theorem IsOrderly.batchFrom_eq (orderly : d.IsOrderly) (done : BatchResult)
    (ops : List Operation) :
    Reaches (d.terms.walk d.claims.held ops) done ops (batchFrom done d ops) := by
  induction ops generalizing d done with
  | nil =>
    constructor
    case result =>
      simp [batchFrom, Terms.walk, Except.map, BatchResult.append, BatchResult.ofOutcomes]
    case held =>
      rintro _ _ ⟨⟩
      rfl
  | cons op rest ih =>
    have hruns := orderly.runs op
    unfold batchFrom Terms.walk
    generalize d.terms.judge d.claims.held op = judged at hruns
    generalize d.run op = ran at hruns
    cases hruns with
    | stopped =>
      refine ⟨rfl, ?_⟩
      rintro _ _ ⟨⟩
    | @rejected reason pool filed =>
      have orderly' : IsOrderly { d with pool := pool } := ⟨orderly.own, filed⟩
      exact (ih orderly' _).cons (BatchResult.append_rejected done op reason rest)
    | @accepted changes pool claims filed held =>
      have orderly' : IsOrderly { d with pool := pool, claims := claims } := ⟨orderly.own, filed⟩
      have hrest := ih orderly' { done with accepted := done.accepted ++ [(op.hash, changes)] }
      rw [held] at hrest
      exact hrest.cons (BatchResult.append_accepted done op changes rest)

/-- A batch of a new dispatcher, whose kinds go to processors of their own, is a walk with no claims
taken. An operation is rejected for the first reason that there is, the claims last; each has one
outcome; those that are accepted hold all claims, no two of them the same; and one that is rejected
makes no difference to the others. -/
theorem batch_eq_walk {registry : Registry}
    (own : ∀ kind made, registry kind = some made → made = kind) (ctx : Context)
    (network : List UInt8) (capacity : Nat) (strict : Bool) (ops : List Operation) :
    let t : Terms := ⟨registry, ctx, network, strict⟩
    let ran := (start registry ctx network capacity strict).batch ops
    ran.1 = (t.walk ∅ ops).map (fun (outcomes, _) => .ofOutcomes ops outcomes) ∧
    (∀ taken op reason,
      t.judge taken op = .error (.rejected reason) ↔ t.Rejects taken op reason) ∧
    ∀ outcomes held, t.walk ∅ ops = .ok (outcomes, held) →
      outcomes.length = ops.length ∧
      ran.2.claims.held = held ∧
      (∀ claim, claim ∈ held ↔
        ∃ op ∈ BatchResult.acceptedOf ops outcomes, claim ∈ t.claims op) ∧
      (BatchResult.acceptedOf ops outcomes).Pairwise
        (fun a b => (t.claims a).Disjoint (t.claims b)) ∧
      ∀ i reason, outcomes[i]? = some (.rejected reason) →
        t.walk ∅ (ops.eraseIdx i) = .ok (outcomes.eraseIdx i, held) := by
  intro t ran
  have orderly : (start registry ctx network capacity strict).IsOrderly :=
    ⟨own, Pool.isFiled_ofCapacity capacity⟩
  have reaches : Reaches (t.walk ∅ ops) .empty ops ran := orderly.batchFrom_eq .empty ops
  refine ⟨reaches.result, fun taken op reason => Terms.judge_eq_rejected_iff, ?_⟩
  intro outcomes held h
  have walks := Terms.walk_eq_ok.1 h
  refine ⟨walks.length_eq, reaches.held _ _ h, fun claim => ?_, walks.pairwise_disjoint, ?_⟩
  · simpa using walks.mem_held claim
  · intro i reason hrejected
    exact Terms.walk_eq_ok.2 (walks.eraseIdx hrejected)

end Dispatcher

namespace Sample

/-- An operation without signs, whose hash is wrong. -/
def unsigned : Operation :=
  ⟨digest 0, ⟨[1], .mint []⟩, []⟩

/-- Nothing but transfers, and one of each sender. -/
def terms : Terms :=
  ⟨fun kind => if kind = .transfers then some kind else none, ledger.context .genesis .standard,
    config.networkBytes, true⟩

theorem walks_payments : terms.Walks ∅ [unsigned, payment, payment]
    [.rejected (.unknownOperation .mint), .accepted (made terms.context payment),
      .rejected (.duplicatedSender alice)] {.sender alice} := by
  have hadmits : terms.context.Admits payment (made terms.context payment) := admits_made rfl
  have hjudge : ∀ taken, terms.judge taken payment =
      match (terms.claims payment).find? (· ∈ taken) with
        | some claim => reject claim.reason
        | none => Rules.effects payment.kind terms.context payment :=
    fun _ => Terms.judge_fit (by decide) check_payment hadmits.check
  have hclaims : terms.claims payment = [.sender alice] := rfl
  refine .rejected (Terms.judge_unknown rfl) (.accepted ?_ ?_)
  · rw [hjudge, hclaims]
    exact hadmits.effects
  · refine .rejected ?_ ?_
    · rw [hjudge, hclaims]
      rfl
    · rw [hclaims]
      exact .nil

end Sample

/-- Of three operations one is of a kind that is not registered, and of two by one sender the second
is rejected. -/
theorem Dispatcher.batch_eq_walk_payments :
    ((start Sample.terms.registry Sample.terms.context Sample.terms.network 64 true).batch
      [Sample.unsigned, Sample.payment, Sample.payment]).1 =
      .ok ⟨[(Sample.payment.hash, Sample.made Sample.terms.context Sample.payment)],
        [(Sample.unsigned.hash, .unknownOperation .mint),
          (Sample.payment.hash, .duplicatedSender Sample.alice)]⟩ ∧
    Sample.terms.walk ∅ [Sample.unsigned, Sample.payment] =
      .ok ([.rejected (.unknownOperation .mint),
        .accepted (Sample.made Sample.terms.context Sample.payment)],
        {.sender Sample.alice}) := by
  have own : ∀ kind made, Sample.terms.registry kind = some made → made = kind := by
    intro kind made h
    simp only [Sample.terms] at h
    split at h
    · exact (Option.some.inj h).symm
    · cases h
  have hwalk := Terms.walk_eq_ok.2 Sample.walks_payments
  obtain ⟨hresult, -, hwalked⟩ := batch_eq_walk own Sample.terms.context Sample.terms.network 64
    true [Sample.unsigned, Sample.payment, Sample.payment]
  obtain ⟨-, -, -, -, herased⟩ := hwalked _ _ hwalk
  refine ⟨hresult.trans ?_, herased 2 _ rfl⟩
  exact congrArg (Except.map _) hwalk

end CurrencyLedger
