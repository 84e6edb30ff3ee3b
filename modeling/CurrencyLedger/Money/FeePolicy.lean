import CurrencyLedger.Money.Ratio
import CurrencyLedger.Wire.Tagged

/-!
Fee policies: no fee, a fixed fee, or a share of the amount between a minimum and a maximum.
-/

namespace CurrencyLedger

inductive FeePolicy where
  | nil
  | fixed (receiver : Address) (amount : Int)
  /-- Without a maximum the fee is not capped. -/
  | ratio (receiver : Address) (ratio : Ratio) (minimum : Int) (maximum : Option Int)
deriving DecidableEq

inductive FeeError where
  | negativeAmount (amount : Int)
deriving DecidableEq

def FeeError.message : FeeError → String
  | .negativeAmount amount => "Fee of negative amount: " ++ Decimal.ofInt amount

namespace FeePolicy

def name : FeePolicy → String
  | .nil => "nil"
  | .fixed .. => "fixed"
  | .ratio .. => "ratio"

/-- The account that collects the fees. -/
def receiver? : FeePolicy → Option Address
  | .nil => none
  | .fixed receiver _ => some receiver
  | .ratio receiver .. => some receiver

def minimum : FeePolicy → Int
  | .nil => 0
  | .fixed _ amount => amount
  | .ratio _ _ minimum _ => minimum

def cap (maximum : Option Int) (fee : Int) : Int :=
  match maximum with
  | some limit => if limit < fee then limit else fee
  | none => fee

/-- The share of an amount, rounded down, between the bounds. -/
def share (r : Ratio) (minimum : Int) (maximum : Option Int) (amount : Int) : Int :=
  let part := if r.parts = Ratio.scale then amount else Amount.fraction amount r.parts Ratio.scale
  cap maximum (if part < minimum then minimum else part)

/-- The fee on an amount. -/
def fee (policy : FeePolicy) (amount : Int) : Except FeeError Int :=
  if amount < 0 then .error (.negativeAmount amount)
  else
    match policy with
    | .nil => .ok 0
    | .fixed _ flat => .ok (if 0 < flat then flat else 0)
    | .ratio _ r minimum maximum =>
      if r.parts = 0 then .ok 0
      else if amount = 0 then .ok minimum
      else .ok (share r minimum maximum amount)

def check : FeePolicy → Except ValidationError Unit
  | .nil => .ok ()
  | .fixed _ amount => if amount < 0 then .error (.fee (.negativeFixed amount)) else .ok ()
  | .ratio _ _ minimum maximum =>
    if minimum < 0 then .error (.fee (.negativeMinimum minimum))
    else
      match maximum with
      | some limit =>
        if limit < minimum then .error (.fee (.maximumUnderMinimum limit minimum)) else .ok ()
      | none => .ok ()

/-- The policy itself if it is in order. -/
def checked (policy : FeePolicy) : Except ValidationError FeePolicy :=
  policy.check.map fun _ => policy

def cases : List (Case FeePolicy) :=
  [.single "nil-feeer-v0.0.1" "unit variant Feeer::Nil" .nil (· = .nil),
   .record "fixed-feeer-v0.0.1" "struct variant Feeer::Fixed"
    (.cons (.of "receiver" Wire.address) <| .cons (.of "amount" Wire.magnitude) .nil)
    (fun
      | .fixed receiver amount => some (receiver, amount, ())
      | _ => none)
    (fun (receiver, amount, ()) => .fixed receiver amount),
   .record "ratio-feeer-v0.0.1" "struct variant Feeer::Ratio"
    (.cons (.of "receiver" Wire.address) <| .cons (.of "ratio" Wire.ratio) <|
      .cons (.of "min" Wire.magnitude) <|
      .cons { name := "max", wire := Wire.magnitude.optional, absent := some none,
              absentLast := some none } .nil)
    (fun
      | .ratio receiver part minimum maximum => some (receiver, part, minimum, maximum, ())
      | _ => none)
    (fun (receiver, part, minimum, maximum, ()) => .ratio receiver part minimum maximum)]

end FeePolicy

def Wire.feePolicy : Wire FeePolicy :=
  tagged FeePolicy.cases

end CurrencyLedger
