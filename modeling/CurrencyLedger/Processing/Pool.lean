import CurrencyLedger.Processing.Processor

/-!
Pools of idle processors, which are kept by kind up to a capacity. Only closed processors are kept.
-/

namespace CurrencyLedger

structure Pool where
  capacity : Nat
  /-- The idle processors of a kind, the last one put first. -/
  idle : OperationKind → List Processor

namespace Pool

def ofCapacity (capacity : Nat) : Pool :=
  ⟨capacity, fun _ => []⟩

def setIdle (pool : Pool) (kind : OperationKind) (processors : List Processor) : Pool :=
  { pool with idle := fun k => if k = kind then processors else pool.idle k }

/-- Takes an idle processor out and binds it to a context. -/
def take? (pool : Pool) (kind : OperationKind) (ctx : Context) : Option (Processor × Pool) :=
  match pool.idle kind with
  | [] => none
  | p :: rest => some (p.reset ctx, pool.setIdle kind rest)

/-- Closes a processor and keeps it, if there is room. -/
def put (pool : Pool) (p : Processor) : Bool × Pool :=
  if (pool.idle p.kind).length < pool.capacity then
    (true, pool.setIdle p.kind (p.close :: pool.idle p.kind))
  else (false, pool)

def clear (pool : Pool) : Pool :=
  ofCapacity pool.capacity

end Pool

end CurrencyLedger
