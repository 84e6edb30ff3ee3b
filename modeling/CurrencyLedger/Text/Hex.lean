import CurrencyLedger.Number.Decimal
import CurrencyLedger.Text.Quoted
import CurrencyLedger.Text.Utf8

/-!
Bytes as pairs of hexadecimal digits. Writing uses lower case, reading takes either case.
`decode_text` says that written bytes read back.
-/

namespace CurrencyLedger.Hex

def encode (bytes : List UInt8) : List Char :=
  bytes.flatMap fun b => [Text.hexDigit (b.toNat / 16), Text.hexDigit (b.toNat % 16)]

def text (bytes : List UInt8) : String :=
  String.ofList (encode bytes)

inductive Fault where
  | oddLength
  /-- A byte of the text, counted from 0, that is no digit. -/
  | character (byte : UInt8) (position : Nat)
deriving DecidableEq

def Fault.message : Fault → String
  | .oddLength => "Odd number of digits"
  | .character byte position =>
    "Invalid character " ++ Text.quotedChar (Char.ofNat byte.toNat) ++ " at position " ++
      Decimal.ofNat position

def nibble? (b : UInt8) : Option Nat :=
  if 48 ≤ b.toNat ∧ b.toNat ≤ 57 then some (b.toNat - 48)
  else if 97 ≤ b.toNat ∧ b.toNat ≤ 102 then some (b.toNat - 87)
  else if 65 ≤ b.toNat ∧ b.toNat ≤ 70 then some (b.toNat - 55)
  else none

def nibble (position : Nat) (b : UInt8) : Except Fault Nat :=
  match nibble? b with
  | some n => .ok n
  | none => .error (.character b position)

/-- Reads pairs of digits, the first of which stands at `position`. -/
def pairs (position : Nat) : List UInt8 → Except Fault (List UInt8)
  | a :: b :: rest => do
    let high ← nibble position a
    let low ← nibble (position + 1) b
    return UInt8.ofNat (16 * high + low) :: (← pairs (position + 2) rest)
  | _ => .ok []

def decodeBytes (digits : List UInt8) : Except Fault (List UInt8) :=
  if digits.length % 2 = 1 then .error .oddLength else pairs 0 digits

def decode (s : String) : Except Fault (List UInt8) :=
  decodeBytes (Text.utf8 s)

theorem utf8EncodeChar_hexDigit {n : Nat} (h : n < 16) :
    String.utf8EncodeChar (Text.hexDigit n) = [UInt8.ofNat (Text.hexDigit n).toNat] := by
  revert n; decide

theorem nibble?_hexDigit {n : Nat} (h : n < 16) :
    nibble? (UInt8.ofNat (Text.hexDigit n).toNat) = some n := by
  revert n; decide

theorem utf8_text_cons (b : UInt8) (rest : List UInt8) :
    Text.utf8 (text (b :: rest)) =
      UInt8.ofNat (Text.hexDigit (b.toNat / 16)).toNat ::
        UInt8.ofNat (Text.hexDigit (b.toNat % 16)).toNat :: Text.utf8 (text rest) := by
  have h1 : b.toNat / 16 < 16 := by have := b.toNat_lt; omega
  have h2 : b.toNat % 16 < 16 := Nat.mod_lt _ (by decide)
  rw [text, text, Text.utf8_ofList, Text.utf8_ofList]
  simp [encode, utf8EncodeChar_hexDigit h1, utf8EncodeChar_hexDigit h2]

theorem length_utf8_text (bytes : List UInt8) :
    (Text.utf8 (text bytes)).length = 2 * bytes.length := by
  induction bytes with
  | nil => rfl
  | cons b rest ih => rw [utf8_text_cons]; simp [ih]; omega

theorem pairs_utf8_text (position : Nat) (bytes : List UInt8) :
    pairs position (Text.utf8 (text bytes)) = .ok bytes := by
  induction bytes generalizing position with
  | nil => rfl
  | cons b rest ih =>
    have h1 : b.toNat / 16 < 16 := by have := b.toNat_lt; omega
    have h2 : b.toNat % 16 < 16 := Nat.mod_lt _ (by decide)
    rw [utf8_text_cons, pairs]
    simp only [nibble, nibble?_hexDigit h1, nibble?_hexDigit h2, bind, Except.bind, ih, pure,
      Except.pure, Nat.div_add_mod, UInt8.ofNat_toNat]

theorem decode_text (bytes : List UInt8) : decode (text bytes) = .ok bytes := by
  rw [decode, decodeBytes, if_neg, pairs_utf8_text]
  rw [length_utf8_text]
  omega

end CurrencyLedger.Hex
