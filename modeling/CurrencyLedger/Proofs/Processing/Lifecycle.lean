import CurrencyLedger.Proofs.Processing.Ownership

/-!
The life cycle of a processor, whose calls come in any order and may fail. `Step` says all that a
call can do. A phase can be passed as long as there is a chance of it, which is then used up; only a
reset gives chances (`countP_add_chances_le`). Of what came before a reset nothing is left but the
kind (`Serves`), so a processor passes a phase as a new one does.
-/

namespace CurrencyLedger

open Traversal

namespace Phase

/-- The stages in which a phase can be passed. -/
def stages : Phase → List Stage
  | preProcess => [.created]
  | process => [.created, .preProcessed]

/-- The stage that a phase leads to. -/
def next : Phase → Stage
  | preProcess => .preProcessed
  | process => .processed

end Phase

namespace Processor

/-- The calls of a processor. -/
inductive Call where
  | reset (ctx : Context)
  | preProcess (op : Operation)
  | process (op : Operation)
  | close

inductive Answer where
  | preProcessed (result : Result Unit)
  | processed (result : Result (List Change))
  /-- To a call that cannot fail. -/
  | done

def Call.IsReset : Call → Prop
  | reset _ => True
  | _ => False

/-- The context of the latest reset after a call, from the one before it. -/
def Call.latest (ctx : Context) : Call → Context
  | reset ctx' => ctx'
  | _ => ctx

/-- The answer is to a call by which a phase is passed. -/
def Answer.passes (phase : Phase) : Answer → Bool
  | preProcessed (.ok _) => phase = .preProcess
  | processed (.ok _) => phase = .process
  | _ => false

/-- What a call fails by. -/
def Answer.halt? : Answer → Option Halt
  | preProcessed (.error halt) => some halt
  | processed (.error halt) => some halt
  | _ => none

def call (p : Processor) : Call → Answer × Processor
  | .reset ctx => (.done, p.reset ctx)
  | .preProcess op => (p.preProcess op).map .preProcessed id
  | .process op => (p.process op).map .processed id
  | .close => (.done, p.close)

def answers : Processor → List Call → List Answer
  | _, [] => []
  | p, c :: rest => (p.call c).1 :: (p.call c).2.answers rest

/-- The processor after some calls. -/
def after : Processor → List Call → Processor
  | p, [] => p
  | p, c :: rest => (p.call c).2.after rest

/-- The context of the latest reset, or else the one that the processor was made for. -/
def latestContext (ctx : Context) (calls : List Call) : Context :=
  calls.foldl Call.latest ctx

/-- How often a phase can be passed until the next reset. -/
def chances (p : Processor) (phase : Phase) : Nat :=
  if p.stage ∈ phase.stages then 1 else 0

/-- What a call can do to a processor. -/
inductive Step (p : Processor) : Call → Answer → Processor → Prop
  | reset (ctx : Context) : Step p (.reset ctx) .done (start p.kind ctx)
  | close : Step p .close .done p.close
  | preProcessFails (op : Operation) (halt : Halt) :
      Step p (.preProcess op) (.preProcessed (.error halt)) p
  | processFails (op : Operation) (halt : Halt) :
      Step p (.process op) (.processed (.error halt)) p
  | preProcessed (op : Operation) {ctx : Context} (h : p.contextFor .preProcess = .ok ctx) :
      Step p (.preProcess op) (.preProcessed (.ok ())) (p.advance ctx .preProcessed)
  | processed (op : Operation) (changes : List Change) {ctx : Context}
      (h : p.contextFor .process = .ok ctx) :
      Step p (.process op) (.processed (.ok changes)) (p.advance ctx .processed)

/-- A processor of a kind that is closed or bound to a context. -/
inductive Serves (kind : OperationKind) (ctx : Context) : Processor → Prop
  | closed : Serves kind ctx ⟨kind, none⟩
  | bound (progress : Progress) : Serves kind ctx ⟨kind, some ⟨ctx, progress⟩⟩

variable {p p' : Processor} {kind : OperationKind} {ctx : Context} {op : Operation} {phase : Phase}
  {c : Call} {answer : Answer} {calls : List Call}

theorem preProcess_cases (p : Processor) (op : Operation) :
    (∃ halt, p.preProcess op = (.error halt, p)) ∨
    ∃ ctx, p.contextFor .preProcess = .ok ctx ∧
      p.preProcess op = (.ok (), p.advance ctx .preProcessed) := by
  rw [preProcess]
  split
  · next ctx houtcome =>
    simp only [bind_eq_ok] at houtcome
    obtain ⟨ctx', hctx, _, -, _, -, hpure⟩ := houtcome
    obtain rfl := pure_eq_ok.1 hpure
    exact .inr ⟨ctx', hctx, rfl⟩
  · next halt _ => exact .inl ⟨halt, rfl⟩

theorem process_cases (p : Processor) (op : Operation) :
    (∃ halt, p.process op = (.error halt, p)) ∨
    ∃ ctx changes, p.contextFor .process = .ok ctx ∧
      p.process op = (.ok changes, p.advance ctx .processed) := by
  rw [process]
  split
  · next ctx changes houtcome =>
    simp only [bind_eq_ok] at houtcome
    obtain ⟨ctx', hctx, _, -, _, -, _, -, hpure⟩ := houtcome
    obtain ⟨rfl, rfl⟩ := Prod.mk.inj (pure_eq_ok.1 hpure)
    exact .inr ⟨ctx', _, hctx, rfl⟩
  · next halt _ => exact .inl ⟨halt, rfl⟩

theorem step_call (p : Processor) (c : Call) : p.Step c (p.call c).1 (p.call c).2 := by
  cases c with
  | reset ctx => exact .reset ctx
  | close => exact .close
  | preProcess op =>
    rcases p.preProcess_cases op with ⟨halt, h⟩ | ⟨ctx, hctx, h⟩
    · rw [call, h]
      exact .preProcessFails op halt
    · rw [call, h]
      exact .preProcessed op hctx
  | process op =>
    rcases p.process_cases op with ⟨halt, h⟩ | ⟨ctx, changes, hctx, h⟩
    · rw [call, h]
      exact .processFails op halt
    · rw [call, h]
      exact .processed op changes hctx

theorem stage_of_contextFor (h : p.contextFor phase = .ok ctx) : p.stage ∈ phase.stages := by
  obtain ⟨kind, _ | ⟨ctx', progress⟩⟩ := p
  · cases phase <;> cases h
  · cases phase <;> cases progress <;> simp_all [contextFor, stage, Phase.stages]

theorem Step.stage_of_passes (h : p.Step c answer p') (passed : answer.passes phase) :
    p'.stage = phase.next := by
  cases h with
  | preProcessed op h =>
    obtain rfl := of_decide_eq_true passed
    rfl
  | processed op changes h =>
    obtain rfl := of_decide_eq_true passed
    rfl
  | _ => cases passed

theorem Step.eq_of_fails {halt : Halt} (h : p.Step c answer p')
    (failed : answer.halt? = some halt) : p' = p := by
  cases h with
  | preProcessFails op halt => rfl
  | processFails op halt => rfl
  | _ => cases failed

theorem chances_le_one (p : Processor) (phase : Phase) : p.chances phase ≤ 1 := by
  unfold chances
  split
  · exact Nat.le_refl 1
  · exact Nat.zero_le 1

theorem chances_close (p : Processor) (phase : Phase) : p.close.chances phase = 0 := by
  cases phase <;> rfl

theorem chances_processed (h : p.stage = .processed) (phase : Phase) : p.chances phase = 0 := by
  cases phase <;> simp [chances, h, Phase.stages]

/-- A pass uses up the chance of its phase, and only a reset gives chances. -/
theorem Step.chances_le (h : p.Step c answer p') (unreset : ¬ c.IsReset) (phase : Phase) :
    p'.chances phase + (if answer.passes phase then 1 else 0) ≤ p.chances phase := by
  cases h with
  | reset ctx => exact absurd trivial unreset
  | close => simp [Answer.passes, chances_close]
  | preProcessFails op halt => simp [Answer.passes]
  | processFails op halt => simp [Answer.passes]
  | @preProcessed op ctx h =>
    have hstage : p.stage = .created := by simpa [Phase.stages] using stage_of_contextFor h
    have hnext : (p.advance ctx .preProcessed).stage = .preProcessed := rfl
    -- The chance of the second phase stays, which could be passed from the first stage as well.
    cases phase <;> simp [chances, hstage, hnext, Phase.stages, Answer.passes]
  | @processed op changes ctx h =>
    rw [chances_processed rfl]
    cases phase with
    | preProcess => simp [Answer.passes]
    | process => simp [chances, stage_of_contextFor h, Answer.passes]

theorem countP_add_chances_le (unreset : ∀ c ∈ calls, ¬ c.IsReset) (p : Processor)
    (phase : Phase) :
    (p.answers calls).countP (Answer.passes phase) + (p.after calls).chances phase ≤
      p.chances phase := by
  induction calls generalizing p with
  | nil => simp [answers, after]
  | cons c rest ih =>
    obtain ⟨hc, hrest⟩ := List.forall_mem_cons.1 unreset
    have hstep := (p.step_call c).chances_le hc phase
    have hlater := ih hrest (p.call c).2
    rw [answers, after, List.countP_cons]
    omega

/-- Without a chance a phase is not passed until the next reset. -/
theorem not_passes_of_chances (unreset : ∀ c ∈ calls, ¬ c.IsReset) (never : p.chances phase = 0)
    (h : answer ∈ p.answers calls) : ¬ answer.passes phase := by
  have hcount := countP_add_chances_le unreset p phase
  have hzero : (p.answers calls).countP (Answer.passes phase) = 0 := by omega
  exact List.countP_eq_zero.1 hzero answer h

/-- Only a reset opens a closed processor. -/
theorem Step.eq_of_close (h : p.close.Step c answer p') (unreset : ¬ c.IsReset) : p' = p.close := by
  cases h with
  | reset ctx => exact absurd trivial unreset
  | close => rfl
  | preProcessFails op halt => rfl
  | processFails op halt => rfl
  | preProcessed op h => cases h
  | processed op changes h => cases h

theorem after_close (unreset : ∀ c ∈ calls, ¬ c.IsReset) (p : Processor) :
    p.close.after calls = p.close := by
  induction calls with
  | nil => rfl
  | cons c rest ih =>
    obtain ⟨hc, hrest⟩ := List.forall_mem_cons.1 unreset
    rw [after, (p.close.step_call c).eq_of_close hc]
    exact ih hrest

theorem stage_start_mem : (start kind ctx).stage ∈ phase.stages := by
  cases phase <;> simp [start, stage, Phase.stages]

theorem serves_start (kind : OperationKind) (ctx : Context) : Serves kind ctx (start kind ctx) :=
  .bound .created

namespace Serves

variable (serves : Serves kind ctx p)
include serves

theorem kind_eq : p.kind = kind := by
  cases serves <;> rfl

theorem close : Serves kind ctx p.close := by
  cases serves with
  | closed => exact .closed
  | bound progress => exact .closed

theorem contextFor_eq_ok {ctx' : Context} :
    p.contextFor phase = .ok ctx' ↔ p.stage ∈ phase.stages ∧ ctx' = ctx := by
  cases serves with
  | closed => cases phase <;> simp [contextFor, stage, Phase.stages]
  | bound progress =>
    cases phase <;> cases progress <;> simp [contextFor, stage, Phase.stages, eq_comm]

theorem advance {ctx' : Context} (h : p.contextFor phase = .ok ctx') (progress : Progress) :
    Serves kind ctx (p.advance ctx' progress) := by
  obtain ⟨-, rfl⟩ := serves.contextFor_eq_ok.1 h
  obtain rfl := serves.kind_eq
  exact .bound progress

theorem step (h : p.Step c answer p') : Serves kind (c.latest ctx) p' := by
  cases h with
  | reset ctx' =>
    rw [serves.kind_eq]
    exact serves_start kind ctx'
  | close => exact serves.close
  | preProcessFails op halt => exact serves
  | processFails op halt => exact serves
  | preProcessed op h => exact serves.advance h .preProcessed
  | processed op changes h => exact serves.advance h .processed

theorem after (calls : List Call) : Serves kind (latestContext ctx calls) (p.after calls) := by
  induction calls generalizing p ctx with
  | nil => exact serves
  | cons c rest ih => exact ih (serves.step (p.step_call c))

/-- A phase that needs something of its context needs it of this one. -/
theorem exists_contextFor_iff {P : Context → Prop} :
    (∃ ctx', p.contextFor phase = .ok ctx' ∧ P ctx') ↔ p.stage ∈ phase.stages ∧ P ctx := by
  simp only [serves.contextFor_eq_ok, and_assoc, exists_and_left, exists_eq_left]

theorem preProcess_eq_ok : (p.preProcess op).1 = .ok () ↔
    p.stage ∈ Phase.preProcess.stages ∧ ((start kind ctx).preProcess op).1 = .ok () := by
  have new := serves_start kind ctx
  simp only [Processor.preProcess_eq_ok, serves.exists_contextFor_iff, new.exists_contextFor_iff,
    serves.kind_eq, new.kind_eq, stage_start_mem, true_and]

theorem process_eq_ok {changes : List Change} : (p.process op).1 = .ok changes ↔
    p.stage ∈ Phase.process.stages ∧ ((start kind ctx).process op).1 = .ok changes := by
  have new := serves_start kind ctx
  simp only [Processor.process_eq_ok, serves.exists_contextFor_iff, new.exists_contextFor_iff,
    serves.kind_eq, new.kind_eq, stage_start_mem, true_and]

end Serves

/-- What can be relied on about a processor of a kind whose latest reset was to a context, whatever
it has been through. -/
structure LifeCycle (kind : OperationKind) (ctx : Context) (p : Processor) : Prop where
  /-- Until the next reset each phase is passed at most once. -/
  once (phase : Phase) {later : List Call} : (∀ c ∈ later, ¬ c.IsReset) →
    (p.answers later).countP (Answer.passes phase) ≤ 1
  /-- After the second phase none is passed until the next reset. -/
  last {c : Call} {later : List Call} : (p.call c).1.passes .process →
    (∀ c ∈ later, ¬ c.IsReset) →
      ∀ answer ∈ (p.call c).2.answers later, ∀ phase, ¬ answer.passes phase
  /-- A call that fails, by a rejection or a fatal error, leaves stage and context as they were. -/
  fails {c : Call} {halt : Halt} : (p.call c).1.halt? = some halt → (p.call c).2 = p
  /-- After a close all phases end in fatal errors until the next reset, and to close again changes
  nothing. -/
  closed {later : List Call} : (∀ c ∈ later, ¬ c.IsReset) →
    (p.close.after later).close = p.close.after later ∧ ∀ op,
      ((p.close.after later).preProcess op).1 =
        .error (.fatal (.wrongStage kind .preProcess .closed)) ∧
      ((p.close.after later).process op).1 = .error (.fatal (.wrongStage kind .process .closed))
  /-- In a stage that allows it a phase is passed as by a new processor for the context, and with
  the same result. -/
  preProcess_eq_ok (op : Operation) : (p.preProcess op).1 = .ok () ↔
    p.stage ∈ Phase.preProcess.stages ∧ ((start kind ctx).preProcess op).1 = .ok ()
  process_eq_ok (op : Operation) (changes : List Change) : (p.process op).1 = .ok changes ↔
    p.stage ∈ Phase.process.stages ∧ ((start kind ctx).process op).1 = .ok changes
  /-- A phase that is passed moves the stage on. -/
  moves {c : Call} {phase : Phase} : (p.call c).1.passes phase → (p.call c).2.stage = phase.next
  /-- A reset makes the processor as good as a new one. -/
  reset (ctx' : Context) : p.reset ctx' = start kind ctx'

theorem Serves.lifeCycle (serves : Serves kind ctx p) : LifeCycle kind ctx p where
  once phase _ unreset := by
    have hcount := countP_add_chances_le unreset p phase
    have hone := p.chances_le_one phase
    omega
  last {c _} passed unreset answer hanswer phase := by
    have hstage := (p.step_call c).stage_of_passes passed
    exact not_passes_of_chances unreset (chances_processed hstage phase) hanswer
  fails {c _} failed := (p.step_call c).eq_of_fails failed
  closed unreset := by
    obtain rfl := serves.kind_eq
    rw [after_close unreset p]
    exact ⟨rfl, fun op => ⟨rfl, rfl⟩⟩
  preProcess_eq_ok op := serves.preProcess_eq_ok
  process_eq_ok op changes := serves.process_eq_ok
  moves {c _} passed := (p.step_call c).stage_of_passes passed
  reset ctx' := by rw [Processor.reset, serves.kind_eq]

theorem lifeCycle_of_calls (kind : OperationKind) (ctx : Context) (calls : List Call) :
    LifeCycle kind (latestContext ctx calls) ((start kind ctx).after calls) :=
  ((serves_start kind ctx).after calls).lifeCycle

end Processor

namespace Sample

/-- A close, a reset to the ledger, a rejection and the first phase. -/
def trials : List Processor.Call :=
  [.close, .process payment, .reset (ledger.context .genesis .standard),
    .process { payment with signs := [] }, .preProcess payment]

/-- A processor that was made for accounts without money, after the trials. -/
def veteran : Processor :=
  (Processor.start .transfers (accounts.context .genesis .standard)).after trials

end Sample

/-- The payment is made from the ledger, but only once, and not after a close. -/
theorem Processor.lifeCycle_of_calls_veteran :
    (∃ changes, (Sample.veteran.process Sample.payment).1 = .ok changes) ∧
    (Sample.veteran.answers [.process Sample.payment, .process Sample.payment]).countP
      (Answer.passes .process) ≤ 1 ∧
    ((Sample.veteran.close.after [.preProcess Sample.payment, .close]).process
      Sample.payment).1 = .error (.fatal (.wrongStage .transfers .process .closed)) := by
  have cycle : LifeCycle .transfers (Sample.ledger.context .genesis .standard) Sample.veteran :=
    lifeCycle_of_calls .transfers (Sample.accounts.context .genesis .standard) Sample.trials
  have hstage : Sample.veteran.stage = .preProcessed := by decide +kernel
  have hnew : ((start .transfers (Sample.ledger.context .genesis .standard)).process
      Sample.payment).1.isOk = true := by decide +kernel
  obtain ⟨changes, hchanges⟩ := exists_of_isOk hnew
  refine ⟨⟨changes, (cycle.process_eq_ok _ _).2 ⟨?_, hchanges⟩⟩, cycle.once .process ?_,
    ((cycle.closed ?_).2 _).2⟩
  · rw [hstage]
    decide
  · simp [Call.IsReset]
  · simp [Call.IsReset]

end CurrencyLedger
