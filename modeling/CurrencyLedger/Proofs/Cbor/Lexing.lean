import CurrencyLedger.Cbor.Token
import CurrencyLedger.Cbor.Writer
import CurrencyLedger.Proofs.Document.Shown

/-!
Tokens of written CBOR. A head is one byte, which holds the major type and either the argument or
the width of the argument behind it; so it is read without regard to what follows.
-/

namespace CurrencyLedger.Cbor

/-- What the first byte of a head says of an argument. -/
def info (argument : Nat) : Nat :=
  if argument < 24 then argument
  else if argument < UInt8.size then 24
  else if argument < UInt16.size then 25
  else if argument < UInt32.size then 26
  else 27

/-- The bytes of an argument behind the first byte of a head. -/
def wideBytes (argument : Nat) : List UInt8 :=
  if argument < 24 then []
  else if argument < UInt8.size then BigEndian.bytes 1 argument
  else if argument < UInt16.size then BigEndian.bytes 2 argument
  else if argument < UInt32.size then BigEndian.bytes 4 argument
  else BigEndian.bytes 8 argument

theorem head_eq (major argument : Nat) :
    head major argument = UInt8.ofNat (32 * major + info argument) :: wideBytes argument := by
  unfold head info wideBytes
  simp only
  split
  · rfl
  split
  · rfl
  split
  · rfl
  split <;> rfl

theorem info_lt (argument : Nat) : info argument < 28 := by
  unfold info
  grind

/-- A written head never leaves a length open. -/
theorem info_ne_open (argument : Nat) : info argument ≠ 31 :=
  Nat.ne_of_lt (Nat.lt_trans (info_lt argument) (by decide))

/-- The node of a written integer: the reader marks those of two or four bytes. -/
def number (i : Int) : Node :=
  if 256 ≤ i ∧ i < 4294967296 then .wide i.toNat else .int i

theorem keepsValue_number : Node.KeepsValue number := fun i => by
  unfold number
  split
  · simp only [Node.int?, Option.some.injEq]
    omega
  · rfl

namespace Token

variable {n major : Nat} {bs rest : List UInt8}

theorem take?_append (h : bs.length = n) (rest : List UInt8) :
    take? n (bs ++ rest) = some (bs, rest) := by
  subst h
  simp [take?]

theorem wide?_bytes {width : Nat} (h : n < Nat.pow 256 width) (rest : List UInt8) :
    wide? width (BigEndian.bytes width n ++ rest) = some (n, rest) := by
  simp only [wide?, take?_append (BigEndian.length_bytes width n), Option.map_some,
    BigEndian.number_bytes h]

theorem argument?_info (h : n < UInt64.size) (rest : List UInt8) :
    argument? (info n) (wideBytes n ++ rest) = some (n, rest) := by
  unfold info wideBytes
  split
  · next small =>
    unfold argument?
    split <;> first | omega | skip
    rw [if_pos small]
    rfl
  split
  · next lt => exact wide?_bytes lt rest
  split
  · next lt => exact wide?_bytes lt rest
  split
  · next lt => exact wide?_bytes lt rest
  · exact wide?_bytes h rest

theorem positive_info (n : Nat) : positive (info n) n = number n := by
  unfold positive number info
  simp only [UInt8.size, UInt16.size, UInt32.size]
  grind

/-- A head is read as its major type says. -/
theorem list_head (hmajor : major < 8) {t : Token} {more : List UInt8}
    (h : ofHead? major (info n) (wideBytes n ++ rest) = some (t, more)) :
    list (head major n ++ rest) = t :: list more := by
  have hinfo := info_lt n
  have hbyte : (UInt8.ofNat (32 * major + info n)).toNat = 32 * major + info n := by
    rw [UInt8.toNat_ofNat']
    omega
  have hdiv : (32 * major + info n) / 32 = major := by omega
  have hmod : (32 * major + info n) % 32 = info n := by omega
  rw [head_eq, List.cons_append, list]
  split
  · next heq =>
    rw [hbyte, hdiv, hmod, h] at heq
    cases heq
    rfl
  · next heq =>
    rw [hbyte, hdiv, hmod, h] at heq
    cases heq

/-- A byte that is a token of its own. -/
theorem list_simple {b : UInt8} {t : Token}
    (h : ofHead? (b.toNat / 32) (b.toNat % 32) rest = some (t, rest)) :
    list (b :: rest) = t :: list rest := by
  rw [list]
  split
  · next heq => rw [h] at heq; cases heq; rfl
  · next heq => rw [h] at heq; cases heq

theorem list_nat (h : n < UInt64.size) (rest : List UInt8) :
    list (head 0 n ++ rest) = .atom (number n) :: list rest := by
  apply list_head (by decide)
  simp only [ofHead?, argument?_info h, Option.map_some, positive_info]

theorem list_negative (h : n < UInt64.size / 2) (rest : List UInt8) :
    list (head 1 n ++ rest) = .atom (.int (-1 - n)) :: list rest := by
  apply list_head (by decide)
  simp only [ofHead?, argument?_info (Nat.lt_of_lt_of_le h (Nat.div_le_self _ _)), Option.map_some,
    negative, if_pos h]

theorem list_openList (h : n < UInt64.size) (rest : List UInt8) :
    list (head 4 n ++ rest) = .openList (some n) :: list rest := by
  apply list_head (by decide)
  rw [ofHead?, if_neg (info_ne_open n), argument?_info h, Option.map_some]

theorem list_openMap (h : n < UInt64.size) (rest : List UInt8) :
    list (head 5 n ++ rest) = .openMap (info n < 24) (some n) :: list rest := by
  apply list_head (by decide)
  rw [ofHead?, if_neg (info_ne_open n), argument?_info h, Option.map_some]

theorem list_text {s : String} (h : s.utf8ByteSize < UInt64.size) (rest : List UInt8) :
    list (textBytes s ++ rest) = .atom (.text s) :: list rest := by
  have hcontent : content? (info s.utf8ByteSize)
      (wideBytes s.utf8ByteSize ++ (Text.utf8 s ++ rest)) = some (Text.utf8 s, rest) :=
    Option.bind_eq_some_iff.2 ⟨_, argument?_info h _, take?_append (Text.length_utf8 s) rest⟩
  rw [textBytes, List.append_assoc]
  apply list_head (by decide)
  rw [ofHead?, if_neg (info_ne_open _), hcontent]
  simp only [Option.map_some, text, Text.ofUtf8?_utf8]

theorem list_int {i : Int} (least : -9223372036854775808 ≤ i)
    (greatest : i < 18446744073709551616) (rest : List UInt8) :
    list (bytes (.int i) ++ rest) = .atom (number i) :: list rest := by
  rw [bytes]
  split
  · next neg =>
    have hvalue : (-1 - (i.natAbs - 1 : Nat) : Int) = i := by omega
    have hnumber : number i = .int i := if_neg (by omega)
    rw [list_negative (by simp only [UInt64.size]; omega), hvalue, hnumber]
  · next nonneg =>
    have hvalue : (i.natAbs : Int) = i := by omega
    rw [list_nat (by simp only [UInt64.size]; omega), hvalue]

end Token

end CurrencyLedger.Cbor
