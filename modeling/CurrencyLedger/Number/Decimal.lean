/-!
Decimal numerals.

`ofNat` and `ofInt` write numbers, `value?` reads a run of digits, `unsigned` and `signed` read the
two numeral forms that the ledger's texts use. `value?_digits` says that a written number reads
back.
-/

namespace CurrencyLedger.Decimal

def digitChar (d : Nat) : Char :=
  Char.ofNat (48 + d)

def digitValue? (c : Char) : Option Nat :=
  if 48 ≤ c.toNat ∧ c.toNat ≤ 57 then some (c.toNat - 48) else none

theorem digitValue?_digitChar {d : Nat} (h : d < 10) : digitValue? (digitChar d) = some d := by
  revert d; decide

def digits (n : Nat) : List Char :=
  if n < 10 then [digitChar n] else digits (n / 10) ++ [digitChar (n % 10)]

def ofNat (n : Nat) : String :=
  String.ofList (digits n)

def intChars (n : Int) : List Char :=
  if n < 0 then '-' :: digits n.natAbs else digits n.natAbs

def ofInt (n : Int) : String :=
  String.ofList (intChars n)

/-- The digits to the right of `lead`, a number read so far. -/
def valueFrom? (lead : Nat) : List Char → Option Nat
  | [] => some lead
  | c :: rest => do valueFrom? (10 * lead + (← digitValue? c)) rest

/-- The number that a non-empty run of digits denotes. -/
def value? : List Char → Option Nat
  | [] => none
  | cs => valueFrom? 0 cs

theorem valueFrom?_append (lead : Nat) (cs ds : List Char) :
    valueFrom? lead (cs ++ ds) = (valueFrom? lead cs).bind (valueFrom? · ds) := by
  induction cs generalizing lead with
  | nil => rfl
  | cons c cs ih =>
    cases h : digitValue? c with
    | none => simp [valueFrom?, h]
    | some d => simp [valueFrom?, h, ih]

theorem valueFrom?_digits (n : Nat) : valueFrom? 0 (digits n) = some n := by
  induction n using Nat.strongRecOn with
  | _ n ih =>
    rw [digits]
    split
    · next h => simp [valueFrom?, digitValue?_digitChar h]
    · next h =>
      rw [valueFrom?_append, ih (n / 10) (by omega)]
      simp only [valueFrom?, digitValue?_digitChar (Nat.mod_lt n (by decide : 10 > 0)),
        Option.bind_some, bind, Option.some.injEq]
      omega

theorem digits_ne_nil (n : Nat) : digits n ≠ [] := by
  rw [digits]; split <;> simp

theorem value?_digits (n : Nat) : value? (digits n) = some n := by
  have h := valueFrom?_digits n
  cases hd : digits n with
  | nil => exact absurd hd (digits_ne_nil n)
  | cons c cs => rw [hd] at h; exact h

inductive Fault where
  | empty
  | digit
  | overflow
deriving DecidableEq

def Fault.message : Fault → String
  | .empty => "cannot parse integer from empty string"
  | .digit => "invalid digit found in string"
  | .overflow => "number too large to fit in target type"

/-- Reads digits up to the first one that is none or that takes the number over `limit`. -/
def bounded (limit lead : Nat) : List Char → Except Fault Nat
  | [] => .ok lead
  | c :: rest =>
    match digitValue? c with
    | none => .error .digit
    | some d =>
      if limit < 10 * lead + d then .error .overflow else bounded limit (10 * lead + d) rest

/-- A number up to `limit`, with one plus sign allowed in front of at least one digit. -/
def unsigned (limit : Nat) : List Char → Except Fault Nat
  | [] => .error .empty
  | ['+'] => .error .digit
  | '+' :: rest => bounded limit 0 rest
  | cs => bounded limit 0 cs

/-- Digits of an unbounded number; underscores may stand after the first digit. -/
def grouped : List Char → Except Fault Nat
  | [] => .error .empty
  | '_' :: _ => .error .digit
  | cs =>
    match valueFrom? 0 (cs.filter (· ≠ '_')) with
    | some n => .ok n
    | none => .error .digit

/-- An unbounded number with one sign allowed in front. -/
def signed : List Char → Except Fault Int
  | '-' :: rest => do return -(← grouped rest : Nat)
  | '+' :: rest => do return (← grouped rest : Nat)
  | cs => do return (← grouped cs : Nat)

end CurrencyLedger.Decimal
