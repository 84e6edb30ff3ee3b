import CurrencyLedger.Text.Invisible

/-!
Text between quotes, as it stands in messages. A quote, a backslash and a character that would not
show are escaped; every other character stands for itself.
-/

namespace CurrencyLedger.Text

def hexDigit (n : Nat) : Char :=
  if n < 10 then Char.ofNat (48 + n) else Char.ofNat (87 + n)

def hexNumber (n : Nat) : List Char :=
  if n < 16 then [hexDigit n] else hexNumber (n / 16) ++ [hexDigit (n % 16)]

def escape (mark c : Char) : List Char :=
  if c = mark ∨ c = '\\' then ['\\', c]
  else if c = '\n' then ['\\', 'n']
  else if c = '\r' then ['\\', 'r']
  else if c = '\t' then ['\\', 't']
  else if c.toNat = 0 then ['\\', '0']
  else if IsInvisible c then
    ['\\', 'u', '\x7b'] ++ hexNumber c.toNat ++ ['\x7d']
  else [c]

def quoted (s : String) : String :=
  String.ofList ('"' :: s.toList.flatMap (escape '"') ++ ['"'])

def apostrophe : Char := Char.ofNat 39

def quotedChar (c : Char) : String :=
  String.ofList (apostrophe :: escape apostrophe c ++ [apostrophe])

example : quoted "a\"b\n" = "\"a\\\"b\\n\"" := by cbv

end CurrencyLedger.Text
