import CurrencyLedger.Json.Number
import CurrencyLedger.Text.Hex

/-!
Tokens of JSON. `Token.list` cuts bytes into tokens; at the first place where no token starts it
ends with the token `bad`. Bytes outside of ASCII can stand in strings only. Whether they are UTF-8
does not matter for the tokens: a string with other bytes has no value, but can be passed over.
-/

namespace CurrencyLedger.Json

inductive Token where
  | openList
  | closeList
  | openRecord
  | closeRecord
  | comma
  | colon
  /-- A value without parts. -/
  | atom (n : Node)
  | bad

namespace Token

/-- One written part of a string: a byte, or a 16-bit unit given by its number. -/
inductive Piece where
  | byte (b : UInt8)
  | unit (n : Nat)

/-- The byte that the byte after a backslash stands for. -/
def unescape? (b : UInt8) : Option UInt8 :=
  match Char.ofUInt8 b with
  | '"' | '\\' | '/' => some b
  | 'b' => some 8
  | 'f' => some 12
  | 'n' => some 10
  | 'r' => some 13
  | 't' => some 9
  | _ => none

/-- A byte that stands for itself in a string. -/
def isPlain (b : UInt8) : Bool :=
  32 ≤ b && b != '"'.toUInt8 && b != '\\'.toUInt8

/-- Reads the pieces up to the closing quote and returns them with what follows it. In numbers, 34
is a quote, 92 a backslash and 117 the letter of units. -/
def pieces? : List UInt8 → Option (List Piece × List UInt8)
  | [] => none
  | 34 :: rest => some ([], rest)
  | 92 :: 117 :: a :: b :: c :: d :: rest => do
    let high := 16 * (← Hex.nibble? a) + (← Hex.nibble? b)
    let n := 256 * high + (16 * (← Hex.nibble? c) + (← Hex.nibble? d))
    let (ps, rest) ← pieces? rest
    return (.unit n :: ps, rest)
  | 92 :: e :: rest => do
    let b ← unescape? e
    let (ps, rest) ← pieces? rest
    return (.byte b :: ps, rest)
  | b :: rest =>
    if isPlain b then do
      let (ps, rest) ← pieces? rest
      return (.byte b :: ps, rest)
    else none

theorem length_of_pieces? {bs rest : List UInt8} {ps : List Piece}
    (h : pieces? bs = some (ps, rest)) : rest.length < bs.length := by
  induction bs using pieces?.induct generalizing ps rest with
  | case1 => simp [pieces?] at h
  | case2 => simp [pieces?] at h; simp [h]
  | case3 a b c d tail ih =>
    simp only [pieces?, Option.bind_eq_bind, Option.bind_eq_some_iff] at h
    obtain ⟨_, _, _, _, _, _, _, _, ⟨qs, more⟩, hq, h⟩ := h
    simp at h
    have := ih hq
    simp [← h.2]; omega
  | case4 e tail _ ih =>
    rw [pieces?] at h <;> try assumption
    simp only [Option.bind_eq_bind, Option.bind_eq_some_iff] at h
    obtain ⟨_, _, ⟨qs, more⟩, hq, h⟩ := h
    simp at h
    have := ih hq
    simp [← h.2]; omega
  | case5 b tail _ _ _ plain ih =>
    rw [pieces?] at h <;> try assumption
    simp only [plain, if_true, Option.bind_eq_bind, Option.bind_eq_some_iff] at h
    obtain ⟨⟨qs, more⟩, hq, h⟩ := h
    simp at h
    have := ih hq
    simp [← h.2]; omega
  | case6 b tail _ _ _ other =>
    rw [pieces?] at h <;> try assumption
    simp [other] at h

def isSurrogate (n : Nat) : Bool :=
  0xd800 ≤ n && n < 0xe000

/-- The bytes of a string. Units are joined to characters, a surrogate only with its partner. -/
def join? : List Piece → Option (List UInt8)
  | [] => some []
  | .byte b :: rest => do return b :: (← join? rest)
  | .unit high :: .unit low :: rest =>
    if isSurrogate high then
      if high < 0xdc00 ∧ 0xdc00 ≤ low ∧ low < 0xe000 then do
        let c := Char.ofNat (0x10000 + 0x400 * (high - 0xd800) + (low - 0xdc00))
        return String.utf8EncodeChar c ++ (← join? rest)
      else none
    else do return String.utf8EncodeChar (Char.ofNat high) ++ (← join? (.unit low :: rest))
  | .unit n :: rest =>
    if isSurrogate n then none
    else do return String.utf8EncodeChar (Char.ofNat n) ++ (← join? rest)

/-- A string, which has a value if its bytes are UTF-8. -/
def ofPieces (ps : List Piece) : Node :=
  match (join? ps).bind Text.ofUtf8? with
  | some s => .text s
  | none => .unreadable

/-- A byte that numerals can be written with. -/
def isNumeric (b : UInt8) : Bool :=
  let c := Char.ofUInt8 b
  Numeral.isDigit c || c == '-' || c == '+' || c == '.' || c == 'e' || c == 'E'

def number? (bs : List UInt8) : Option (Token × List UInt8) :=
  (Numeral.read? ((bs.takeWhile isNumeric).map Char.ofUInt8)).map fun (n, left) =>
    (.atom (numberNode n), left.map Char.toUInt8 ++ bs.dropWhile isNumeric)

theorem length_of_number? {bs rest : List UInt8} {t : Token} (h : number? bs = some (t, rest)) :
    rest.length < bs.length := by
  obtain ⟨⟨n, left⟩, hn, h⟩ := Option.map_eq_some_iff.1 h
  have hleft := Numeral.length_of_read? hn
  have hbs := congrArg List.length (List.takeWhile_append_dropWhile (p := isNumeric) (l := bs))
  simp only [Prod.mk.injEq] at h
  rw [List.length_append] at hbs
  rw [List.length_map] at hleft
  rw [← h.2, List.length_append, List.length_map]
  omega

/-- A value that is written as a word, of which the first letter has been read. -/
def word? (n : Node) (letters : List Char) (bs : List UInt8) : Option (Token × List UInt8) :=
  let word := letters.map Char.toUInt8
  if word.isPrefixOf bs then some (.atom n, bs.drop word.length) else none

theorem length_of_word? {n : Node} {letters : List Char} {bs rest : List UInt8} {t : Token}
    (h : word? n letters bs = some (t, rest)) : rest.length ≤ bs.length := by
  simp only [word?] at h
  split at h
  · cases h
    rw [List.length_drop]
    exact Nat.sub_le _ _
  · cases h

/-- The token that starts with a byte, which is no blank, and what follows it. -/
def next? (b : UInt8) (rest : List UInt8) : Option (Token × List UInt8) :=
  match Char.ofUInt8 b with
  | '[' => some (.openList, rest)
  | ']' => some (.closeList, rest)
  | '\x7b' => some (.openRecord, rest)
  | '\x7d' => some (.closeRecord, rest)
  | ',' => some (.comma, rest)
  | ':' => some (.colon, rest)
  | '"' => (pieces? rest).map fun (ps, rest) => (.atom (ofPieces ps), rest)
  | 'n' => word? .null ['u', 'l', 'l'] rest
  | 't' => word? (.bool true) ['r', 'u', 'e'] rest
  | 'f' => word? (.bool false) ['a', 'l', 's', 'e'] rest
  | _ => number? (b :: rest)

theorem length_of_next? {b : UInt8} {bs rest : List UInt8} {t : Token}
    (h : next? b bs = some (t, rest)) : rest.length ≤ bs.length := by
  unfold next? at h
  split at h
  case h_7 =>
    obtain ⟨⟨ps, more⟩, hp, h⟩ := Option.map_eq_some_iff.1 h
    cases h
    exact Nat.le_of_lt (length_of_pieces? hp)
  case h_8 => exact length_of_word? h
  case h_9 => exact length_of_word? h
  case h_10 => exact length_of_word? h
  case h_11 => exact Nat.le_of_lt_succ (length_of_number? h)
  all_goals
    cases h
    exact Nat.le_refl _

def isBlank (b : UInt8) : Bool :=
  let c := Char.ofUInt8 b
  c == ' ' || c == '\n' || c == '\t' || c == '\r'

/-- All tokens of a text. -/
def list (bs : List UInt8) : List Token :=
  match bs with
  | [] => []
  | b :: rest =>
    if isBlank b then list rest
    else
      match _h : next? b rest with
      | some (t, more) => t :: list more
      | none => [.bad]
termination_by bs.length
decreasing_by
  · simp
  · exact Nat.lt_succ_of_le (length_of_next? ‹_›)

end Token

end CurrencyLedger.Json
