import CurrencyLedger.Proofs.Processing.Sequence
import Mathlib.Logic.Relation

/-!
Pooling is invisible. A dispatcher answers every call as one without a pool does, which makes a new
processor each time (`Agrees`). Whenever it is looked at, also in the middle of a call, its pool
holds nothing but closed processors under their own kinds, no more than it has room for
(`Step.isTidy`).
-/

namespace CurrencyLedger

/-- A dispatcher that keeps no processors. -/
structure Unpooled where
  registry : Registry
  context : Context
  network : List UInt8
  claims : Claims
  strict : Bool

namespace Unpooled

def start (registry : Registry) (context : Context) (network : List UInt8) (strict : Bool) :
    Unpooled :=
  ⟨registry, context, network, .none, strict⟩

def nextHeight (u : Unpooled) (height : Height) (read : Reader) : Unpooled :=
  { u with context := ⟨height, read, u.context.threshold⟩, claims := .none }

/-- Does something with the processor that the registry makes, for a valid operation. -/
def withNew (u : Unpooled) (op : Operation)
    (use : Processor → Except LedgerError Outcome × Unpooled) :
    Except LedgerError Outcome × Unpooled :=
  match u.registry op.kind with
  | none => (.ok (.rejected (.unknownOperation op.kind)), u)
  | some made =>
    match op.check u.network with
    | .ok () => use (.start made u.context)
    | .error error => (error.verdict.map .rejected, u)

def preProcess (u : Unpooled) (op : Operation) : Except LedgerError Outcome × Unpooled :=
  u.withNew op fun p => (Outcome.ofResult ((p.preProcess op).1.map fun _ => []), u)

def process (u : Unpooled) (op : Operation) : Except LedgerError Outcome × Unpooled :=
  u.withNew op fun p =>
    match Claims.ofIntent u.strict op.fact.intent with
    | .error error => (.error (.validation error), u)
    | .ok new =>
      match u.claims.conflict? new with
      | some reason => (.ok (.rejected reason), u)
      | none => (Outcome.ofResult (p.process op).1, { u with claims := u.claims.union new })

def run (u : Unpooled) (op : Operation) : Except LedgerError Outcome × Unpooled :=
  match u.preProcess op with
  | (.ok (.accepted _), u) => u.process op
  | other => other

def batchFrom (done : BatchResult) :
    Unpooled → List Operation → Except LedgerError BatchResult × Unpooled
  | u, [] => (.ok done, u)
  | u, op :: rest =>
    match u.run op with
    | (.error error, u) => (.error error, u)
    | (.ok (.accepted changes), u) =>
      batchFrom { done with accepted := done.accepted ++ [(op.hash, changes)] } u rest
    | (.ok (.rejected reason), u) =>
      batchFrom { done with rejected := done.rejected ++ [(op.hash, reason)] } u rest

def batch (u : Unpooled) (ops : List Operation) : Except LedgerError BatchResult × Unpooled :=
  batchFrom .empty u ops

end Unpooled

/-- The calls of a dispatcher. -/
inductive Call where
  | preProcess (op : Operation)
  | process (op : Operation)
  | batch (ops : List Operation)
  | nextHeight (height : Height) (read : Reader)

inductive Answer where
  | outcome (outcome : Except LedgerError Outcome)
  | batch (result : Except LedgerError BatchResult)
  | moved

namespace Unpooled

def call (u : Unpooled) : Call → Answer × Unpooled
  | .preProcess op => (u.preProcess op).map .outcome id
  | .process op => (u.process op).map .outcome id
  | .batch ops => (u.batch ops).map .batch id
  | .nextHeight height read => (.moved, u.nextHeight height read)

def calls : Unpooled → List Call → List Answer
  | _, [] => []
  | u, c :: rest => (u.call c).1 :: (u.call c).2.calls rest

end Unpooled

namespace Dispatcher

def call (d : Dispatcher) : Call → Answer × Dispatcher
  | .preProcess op => (d.preProcess op).map .outcome id
  | .process op => (d.process op).map .outcome id
  | .batch ops => (d.batch ops).map .batch id
  | .nextHeight height read => (.moved, d.nextHeight height read)

def calls : Dispatcher → List Call → List Answer
  | _, [] => []
  | d, c :: rest => (d.call c).1 :: (d.call c).2.calls rest

/-- The dispatcher after some calls. -/
def after : Dispatcher → List Call → Dispatcher
  | d, [] => d
  | d, c :: rest => (d.call c).2.after rest

/-- A dispatcher but for its pool. -/
def unpooled (d : Dispatcher) : Unpooled :=
  ⟨d.registry, d.context, d.network, d.claims, d.strict⟩

/-- Both end with one answer and, but for the pool, in one state. -/
structure Agrees {α : Type} (x : α × Dispatcher) (y : α × Unpooled) : Prop where
  answer : x.1 = y.1
  state : x.2.unpooled = y.2
  orderly : x.2.IsOrderly

theorem Agrees.map {α β : Type} {x : α × Dispatcher} {y : α × Unpooled} (h : Agrees x y)
    (f : α → β) : Agrees (x.map f id) (y.map f id) :=
  ⟨congrArg f h.answer, h.state, h.orderly⟩

namespace IsOrderly

variable {d : Dispatcher} (orderly : d.IsOrderly)
include orderly

theorem agrees_unknown {op : Operation} (unknown : d.registry op.kind = none)
    (use : Processor → Dispatcher → Except LedgerError Outcome × Processor × Dispatcher)
    (use' : Processor → Except LedgerError Outcome × Unpooled) :
    Agrees (d.withProcessor op use) (d.unpooled.withNew op use') := by
  have hleft : d.withProcessor op use = (.ok (.rejected (.unknownOperation op.kind)), d) := by
    unfold withProcessor Dispatcher.borrow
    rw [unknown]
  have hright : d.unpooled.withNew op use' =
      (.ok (.rejected (.unknownOperation op.kind)), d.unpooled) := by
    unfold Unpooled.withNew
    rw [show d.unpooled.registry op.kind = none from unknown]
  rw [hleft, hright]
  exact ⟨rfl, rfl, orderly⟩

theorem agrees_preProcess (op : Operation) :
    Agrees (d.preProcess op) (d.unpooled.preProcess op) := by
  cases hmade : d.registry op.kind with
  | none => exact orderly.agrees_unknown hmade _ _
  | some made =>
    obtain rfl := orderly.own _ _ hmade
    obtain ⟨pool, filed, hpre⟩ := orderly.preProcess_eq (Option.isSome_iff_exists.2 ⟨_, hmade⟩)
    have hnew : d.unpooled.preProcess op = (d.checked op, d.unpooled) := by
      simp only [Unpooled.preProcess, Unpooled.withNew, checked, validity, unpooled, hmade]
      cases op.check d.network with
      | ok passed => rfl
      | error error =>
        dsimp only
        cases error.verdict <;> rfl
    rw [hpre, hnew]
    exact ⟨rfl, rfl, orderly.own, filed⟩

theorem agrees_process (op : Operation) : Agrees (d.process op) (d.unpooled.process op) := by
  cases hmade : d.registry op.kind with
  | none => exact orderly.agrees_unknown hmade _ _
  | some made =>
    obtain rfl := orderly.own _ _ hmade
    obtain ⟨pool, filed, hprocess⟩ := orderly.process_eq (Option.isSome_iff_exists.2 ⟨_, hmade⟩)
    have hnew : d.unpooled.process op =
        ((d.settled op).1, { d.unpooled with claims := (d.settled op).2 }) := by
      simp only [Unpooled.process, Unpooled.withNew, settled, validity, unpooled, hmade]
      cases op.check d.network with
      | error error =>
        dsimp only
        cases error.verdict <;> rfl
      | ok passed =>
        cases Claims.ofIntent d.strict op.fact.intent with
        | error error => rfl
        | ok new => cases hconflict : d.claims.conflict? new <;> simp only [hconflict]
    rw [hprocess, hnew]
    exact ⟨rfl, rfl, orderly.own, filed⟩

theorem agrees_run (op : Operation) : Agrees (d.run op) (d.unpooled.run op) := by
  have hfirst := orderly.agrees_preProcess op
  unfold run Unpooled.run
  cases hd : d.preProcess op with
  | mk outcome d' =>
    cases hu : d.unpooled.preProcess op with
    | mk outcome' u' =>
      rw [hd, hu] at hfirst
      obtain ⟨rfl, rfl, orderly'⟩ := hfirst
      match outcome with
      | .ok (.accepted _) => exact orderly'.agrees_process op
      | .ok (.rejected reason) => exact ⟨rfl, rfl, orderly'⟩
      | .error error => exact ⟨rfl, rfl, orderly'⟩

theorem agrees_batchFrom (done : BatchResult) (ops : List Operation) :
    Agrees (batchFrom done d ops) (d.unpooled.batchFrom done ops) := by
  induction ops generalizing d done with
  | nil => exact ⟨rfl, rfl, orderly⟩
  | cons op rest ih =>
    have hrun := orderly.agrees_run op
    unfold batchFrom Unpooled.batchFrom
    cases hd : d.run op with
    | mk outcome d' =>
      cases hu : d.unpooled.run op with
      | mk outcome' u' =>
        rw [hd, hu] at hrun
        obtain ⟨rfl, rfl, orderly'⟩ := hrun
        cases outcome with
        | error error => exact ⟨rfl, rfl, orderly'⟩
        | ok outcome => cases outcome with
          | accepted changes => exact ih orderly' _
          | rejected reason => exact ih orderly' _

theorem agrees_call (c : Call) : Agrees (d.call c) (d.unpooled.call c) := by
  cases c with
  | preProcess op => exact (orderly.agrees_preProcess op).map Answer.outcome
  | process op => exact (orderly.agrees_process op).map Answer.outcome
  | batch ops => exact (orderly.agrees_batchFrom .empty ops).map Answer.batch
  | nextHeight height read => exact ⟨rfl, rfl, orderly.own, orderly.filed⟩

theorem calls_eq (cs : List Call) : d.calls cs = d.unpooled.calls cs := by
  induction cs generalizing d with
  | nil => rfl
  | cons c rest ih =>
    obtain ⟨answer, state, orderly'⟩ := orderly.agrees_call c
    rw [calls, Unpooled.calls, answer, ih orderly', state]

end IsOrderly

end Dispatcher

namespace Pool

/-- Idle processors are closed and kept under their kinds, no more than there is room for. -/
structure IsTidy (capacity : Nat) (pool : Pool) : Prop where
  capacity_eq : pool.capacity = capacity
  room : ∀ kind, (pool.idle kind).length ≤ capacity
  closed : ∀ kind, ∀ p ∈ pool.idle kind, p = ⟨kind, none⟩

theorem isTidy_ofCapacity (capacity : Nat) : (ofCapacity capacity).IsTidy capacity :=
  ⟨rfl, fun _ => Nat.zero_le _, fun _ _ h => absurd h List.not_mem_nil⟩

variable {capacity : Nat} {pool pool' : Pool}

theorem IsTidy.isFiled (tidy : pool.IsTidy capacity) : pool.IsFiled := by
  intro kind p hp
  rw [tidy.closed kind p hp]

theorem IsTidy.setIdle (tidy : pool.IsTidy capacity) {kind : OperationKind}
    {processors : List Processor} (room : processors.length ≤ capacity)
    (closed : ∀ p ∈ processors, p = ⟨kind, none⟩) :
    (pool.setIdle kind processors).IsTidy capacity := by
  refine ⟨tidy.capacity_eq, fun k => ?_, fun k p hp => ?_⟩
  · simp only [Pool.setIdle]
    split
    · exact room
    · exact tidy.room k
  · simp only [Pool.setIdle] at hp
    split at hp
    · next he => exact he ▸ closed p hp
    · exact tidy.closed k p hp

theorem IsTidy.take? (tidy : pool.IsTidy capacity) {kind : OperationKind} {ctx : Context}
    {p : Processor} (h : pool.take? kind ctx = some (p, pool')) : pool'.IsTidy capacity := by
  unfold Pool.take? at h
  split at h
  · cases h
  · next q rest hidle =>
    cases h
    have room := hidle ▸ tidy.room kind
    have closed := hidle ▸ tidy.closed kind
    refine tidy.setIdle ?_ fun p hp => closed p (List.mem_cons_of_mem _ hp)
    exact Nat.le_trans (Nat.le_succ _) room

/-- A processor is closed when it is put back, whatever it has done. -/
theorem IsTidy.put (tidy : pool.IsTidy capacity) (p : Processor) :
    (pool.put p).2.IsTidy capacity := by
  unfold Pool.put
  split
  · next room =>
    refine tidy.setIdle (tidy.capacity_eq ▸ room) fun q hq => ?_
    rcases List.mem_cons.1 hq with rfl | hq
    · rfl
    · exact tidy.closed p.kind q hq
  · exact tidy

end Pool

namespace Dispatcher

/-- The steps that calls are made of, between which a dispatcher can be looked at. -/
inductive Step : Dispatcher → Dispatcher → Prop
  | borrow {d d' : Dispatcher} {kind : OperationKind} {p : Processor}
      (h : d.borrow kind = .ok (p, d')) : Step d d'
  | claim (d : Dispatcher) (op : Operation) : Step d (d.claim op).2
  /-- Any processor can be given back, in whatever stage a success or a failure has left it. -/
  | giveBack (d : Dispatcher) (p : Processor) : Step d (d.giveBack p)
  | nextHeight (d : Dispatcher) (height : Height) (read : Reader) :
      Step d (d.nextHeight height read)

abbrev Steps : Dispatcher → Dispatcher → Prop :=
  Relation.ReflTransGen Step

theorem steps_withProcessor (d : Dispatcher) (op : Operation)
    {use : Processor → Dispatcher → Except LedgerError Outcome × Processor × Dispatcher}
    (h : ∀ p d', Steps d' (use p d').2.2) : Steps d (d.withProcessor op use).2 := by
  unfold withProcessor
  split
  · exact .refl
  · next p d' hborrow =>
    have first : Steps d d' := .single (.borrow hborrow)
    split
    · exact first.tail (.giveBack d' p)
    · exact first.tail (.giveBack d' p)
    · exact (first.trans (h p d')).tail (.giveBack _ _)

theorem steps_preProcess (d : Dispatcher) (op : Operation) : Steps d (d.preProcess op).2 :=
  d.steps_withProcessor op fun _ _ => .refl

theorem steps_process (d : Dispatcher) (op : Operation) : Steps d (d.process op).2 := by
  refine d.steps_withProcessor op fun p d' => ?_
  have hclaim : Steps d' (d'.claim op).2 := .single (.claim d' op)
  split <;> next h => rw [h] at hclaim; exact hclaim

theorem steps_run (d : Dispatcher) (op : Operation) : Steps d (d.run op).2 := by
  have first := d.steps_preProcess op
  unfold run
  split
  · next h =>
    rw [h] at first
    exact first.trans (steps_process _ op)
  · exact first

theorem steps_batchFrom (d : Dispatcher) (done : BatchResult) (ops : List Operation) :
    Steps d (batchFrom done d ops).2 := by
  induction ops generalizing d done with
  | nil => exact .refl
  | cons op rest ih =>
    have first := d.steps_run op
    unfold batchFrom
    cases hrun : d.run op with
    | mk outcome d' =>
      rw [hrun] at first
      cases outcome with
      | error error => exact first
      | ok outcome => cases outcome with
        | accepted changes => exact first.trans (ih _ _)
        | rejected reason => exact first.trans (ih _ _)

theorem steps_call (d : Dispatcher) (c : Call) : Steps d (d.call c).2 := by
  cases c with
  | preProcess op => exact d.steps_preProcess op
  | process op => exact d.steps_process op
  | batch ops => exact d.steps_batchFrom .empty ops
  | nextHeight height read => exact .single (.nextHeight d height read)

theorem steps_after (d : Dispatcher) (cs : List Call) : Steps d (d.after cs) := by
  induction cs generalizing d with
  | nil => exact .refl
  | cons c rest ih => exact (d.steps_call c).trans (ih _)

variable {d d' : Dispatcher}

/-- A processor that is borrowed has been taken out of the pool or made. -/
theorem borrow_cases {kind : OperationKind} {p : Processor} (h : d.borrow kind = .ok (p, d')) :
    d' = d ∨
      ∃ pool, d.pool.take? kind d.context = some (p, pool) ∧ d' = { d with pool := pool } := by
  unfold Dispatcher.borrow at h
  split at h
  · cases h
  · split at h
    · next taken =>
      cases h
      exact .inr ⟨_, taken, rfl⟩
    · cases h
      exact .inl rfl

theorem claim_cases (d : Dispatcher) (op : Operation) :
    ∃ claims, (d.claim op).2 = { d with claims := claims } := by
  unfold claim
  split
  · exact ⟨d.claims, rfl⟩
  · split
    · exact ⟨d.claims, rfl⟩
    · exact ⟨_, rfl⟩

theorem Step.registry_eq (h : Step d d') : d'.registry = d.registry := by
  cases h with
  | borrow h =>
    rcases borrow_cases h with rfl | ⟨pool, -, rfl⟩
    · rfl
    · rfl
  | claim op =>
    obtain ⟨claims, h⟩ := d.claim_cases op
    rw [h]
  | giveBack p => rfl
  | nextHeight height read => rfl

theorem Step.isTidy {capacity : Nat} (h : Step d d') (tidy : d.pool.IsTidy capacity) :
    d'.pool.IsTidy capacity := by
  cases h with
  | borrow h =>
    rcases borrow_cases h with rfl | ⟨pool, taken, rfl⟩
    · exact tidy
    · exact tidy.take? taken
  | claim op =>
    obtain ⟨claims, h⟩ := d.claim_cases op
    rw [h]
    exact tidy
  | giveBack p => exact tidy.put p
  | nextHeight height read => exact tidy

theorem Steps.registry_eq (h : Steps d d') : d'.registry = d.registry := by
  induction h with
  | refl => rfl
  | tail _ step ih => exact step.registry_eq.trans ih

theorem Steps.isTidy {capacity : Nat} (h : Steps d d') (tidy : d.pool.IsTidy capacity) :
    d'.pool.IsTidy capacity := by
  induction h with
  | refl => exact tidy
  | tail _ step ih => exact step.isTidy ih

/-- Whatever has been done with it before, a borrowed processor is as good as a new one for the
present context. -/
theorem IsOrderly.eq_of_borrow (orderly : d.IsOrderly) {kind : OperationKind} {p : Processor}
    (h : d.borrow kind = .ok (p, d')) : p = .start kind d.context := by
  have known : (d.registry kind).isSome := by
    unfold Dispatcher.borrow at h
    split at h
    · cases h
    · next made => rw [made]; rfl
  obtain ⟨pool, -, hborrow⟩ := orderly.borrow known
  rw [hborrow] at h
  exact (Prod.mk.inj (Except.ok.inj h)).1.symm

end Dispatcher

/-- A dispatcher answers all calls as one without a pool does. At every moment its pool holds
nothing but closed processors under their own kinds, as many as it has room for, and what is taken
out of it is bound to the context of the moment. -/
theorem Dispatcher.calls_eq_unpooled {registry : Registry}
    (own : ∀ kind made, registry kind = some made → made = kind) (context : Context)
    (network : List UInt8) (capacity : Nat) (strict : Bool) :
    (∀ cs, (start registry context network capacity strict).calls cs =
      (Unpooled.start registry context network strict).calls cs) ∧
    (∀ cs, Steps (start registry context network capacity strict)
      ((start registry context network capacity strict).after cs)) ∧
    ∀ d, Steps (start registry context network capacity strict) d →
      (∀ kind, (d.pool.idle kind).length ≤ capacity) ∧
      (∀ kind p, p ∈ d.pool.idle kind →
        p.kind = kind ∧ p.stage = .closed ∧ p.binding = none) ∧
      ∀ kind p d', d.borrow kind = .ok (p, d') → p = .start kind d.context := by
  have orderly : (start registry context network capacity strict).IsOrderly :=
    ⟨own, Pool.isFiled_ofCapacity capacity⟩
  refine ⟨orderly.calls_eq, steps_after _, fun d steps => ?_⟩
  have tidy : d.pool.IsTidy capacity := steps.isTidy (Pool.isTidy_ofCapacity capacity)
  refine ⟨tidy.room, fun kind p hp => ?_, fun kind p d' h => ?_⟩
  · rw [tidy.closed kind p hp]
    exact ⟨rfl, rfl, rfl⟩
  · have orderly' : d.IsOrderly := by
      refine ⟨?_, tidy.isFiled⟩
      rw [steps.registry_eq]
      exact own
    exact orderly'.eq_of_borrow h

namespace Sample

/-- Transfers only. -/
def transfersOnly : Registry :=
  fun kind => if kind = .transfers then some kind else none

/-- A dispatcher that keeps one processor of a kind. -/
def cashier : Dispatcher :=
  .start transfersOnly (ledger.context .genesis .standard) config.networkBytes 1 true

end Sample

/-- An operation of an unknown kind, one that is checked, processed and run again, and the next
height. -/
theorem calls_eq_unpooled_cashier :
    Sample.cashier.calls [.batch [Sample.unsigned, Sample.payment], .process Sample.payment,
      .nextHeight ⟨1⟩ Sample.ledger.reader, .preProcess Sample.payment] =
    (Unpooled.start Sample.transfersOnly (Sample.ledger.context .genesis .standard)
      Sample.config.networkBytes true).calls [.batch [Sample.unsigned, Sample.payment],
        .process Sample.payment, .nextHeight ⟨1⟩ Sample.ledger.reader,
        .preProcess Sample.payment] ∧
    ∀ d, Sample.cashier.Steps d → ∀ kind, (d.pool.idle kind).length ≤ 1 := by
  have own : ∀ kind made, Sample.transfersOnly kind = some made → made = kind := by
    intro kind made h
    unfold Sample.transfersOnly at h
    split at h
    · exact (Option.some.inj h).symm
    · cases h
  obtain ⟨answers, -, moments⟩ := Dispatcher.calls_eq_unpooled own
    (Sample.ledger.context .genesis .standard) Sample.config.networkBytes 1 true
  exact ⟨answers _, fun d steps => (moments d steps).1⟩

end CurrencyLedger
