import CurrencyLedger.Processing.Rules

/-!
Processors: the life cycle around the rules of a kind. A processor is bound to a context, checks and
processes an operation once, and can be bound again. A call that fails leaves it as it was.
-/

namespace CurrencyLedger

/-- How far a bound processor has come. -/
inductive Progress where
  | created
  | preProcessed
  | processed
deriving DecidableEq

structure Binding where
  context : Context
  progress : Progress

/-- A processor without a binding is closed. -/
structure Processor where
  kind : OperationKind
  binding : Option Binding

namespace Processor

def start (kind : OperationKind) (ctx : Context) : Processor :=
  ⟨kind, some ⟨ctx, .created⟩⟩

def stage (p : Processor) : Stage :=
  match p.binding with
  | none => .closed
  | some ⟨_, .created⟩ => .created
  | some ⟨_, .preProcessed⟩ => .preProcessed
  | some ⟨_, .processed⟩ => .processed

/-- Binds a processor to a new context. -/
def reset (p : Processor) (ctx : Context) : Processor :=
  start p.kind ctx

def close (p : Processor) : Processor :=
  { p with binding := none }

/-- The operation must be of the processor's kind, and its fact in order. -/
def accept (p : Processor) (op : Operation) : Result Unit :=
  if op.kind ≠ p.kind then .error (.fatal (.wrongKind p.kind op.kind))
  else op.fact.check.mapError fun e => .rejected (.invalidOperation e.message)

/-- The context for a call, if the stage allows it. -/
def contextFor (p : Processor) (phase : Phase) : Result Context :=
  match phase, p.binding with
  | _, some ⟨ctx, .created⟩ => .ok ctx
  | .process, some ⟨ctx, .preProcessed⟩ => .ok ctx
  | _, _ => .error (.fatal (.wrongStage p.kind phase p.stage))

/-- The processor after a call that succeeded. -/
def advance (p : Processor) (ctx : Context) (progress : Progress) : Processor :=
  { p with binding := some ⟨ctx, progress⟩ }

def preProcess (p : Processor) (op : Operation) : Result Unit × Processor :=
  let outcome : Result Context := do
    let ctx ← p.contextFor .preProcess
    p.accept op
    Rules.check p.kind ctx op
    return ctx
  match outcome with
  | .ok ctx => (.ok (), p.advance ctx .preProcessed)
  | .error halt => (.error halt, p)

def process (p : Processor) (op : Operation) : Result (List Change) × Processor :=
  let outcome : Result (Context × List Change) := do
    let ctx ← p.contextFor .process
    p.accept op
    Rules.check p.kind ctx op
    return (ctx, ← Rules.effects p.kind ctx op)
  match outcome with
  | .ok (ctx, changes) => (.ok changes, p.advance ctx .processed)
  | .error halt => (.error halt, p)

end Processor

end CurrencyLedger
