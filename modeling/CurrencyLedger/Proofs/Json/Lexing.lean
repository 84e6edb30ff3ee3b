import CurrencyLedger.Json.Printer
import CurrencyLedger.Json.Token
import CurrencyLedger.Proofs.Number.Decimal
import CurrencyLedger.Proofs.Text.Bytes
import Mathlib.Data.List.TakeWhile

/-!
Tokens of written JSON. A sign is a token of its own, a quoted text is one token whatever characters
it holds, and an integer is one token where nothing follows it that numerals are written with.
-/

namespace CurrencyLedger

namespace Numeral

theorem digits?_digits (n : Nat) :
    digits? (Decimal.digits n) = some (Decimal.digits n, []) := by
  have hall : ∀ c ∈ Decimal.digits n, isDigit c = true := fun _ => Decimal.isDigit_of_mem_digits
  unfold digits?
  rw [List.takeWhile_eq_self_iff.2 hall, List.dropWhile_eq_nil_iff.2 hall]
  split
  · exact absurd ‹_› (Decimal.digits_ne_nil n)
  · rfl

theorem unsigned?_digits (negative : Bool) (n : Nat) :
    unsigned? negative (Decimal.digits n) =
      some (⟨negative, Decimal.digits n, none, none⟩, []) := by
  have hzero : ¬((Decimal.digits n).head? = some '0' ∧ 1 < (Decimal.digits n).length) :=
    fun h => Nat.lt_irrefl 1 (Decimal.length_digits_of_head? h.1 ▸ h.2)
  simp only [unsigned?, digits?_digits n, bind, Option.bind_some, if_neg hzero, part?, exponent?,
    pure]

/-- A written integer taken apart. -/
def ofInt (i : Int) : Numeral :=
  ⟨i < 0, Decimal.digits i.natAbs, none, none⟩

theorem read?_intChars (i : Int) : read? (Decimal.intChars i) = some (ofInt i, []) := by
  unfold Decimal.intChars ofInt
  split
  · next h => simp only [read?, unsigned?_digits true, h, decide_true]
  · next h =>
    have hminus : '-' ∉ Decimal.digits i.natAbs := Decimal.not_mem_digits (by decide) _
    unfold read?
    split
    · next hcs => exact absurd (hcs ▸ List.mem_cons_self) hminus
    · simp only [unsigned?_digits false, h, decide_false]

theorem integer_ofInt (i : Int) : (ofInt i).integer = i := by
  simp only [integer, ofInt, value, Decimal.valueFrom?_digits, Option.getD_some, decide_eq_true_eq]
  split <;> omega

/-- What integers are written with. -/
theorem of_mem_intChars {i : Int} {c : Char} (h : c ∈ Decimal.intChars i) :
    isDigit c = true ∨ c = '-' := by
  unfold Decimal.intChars at h
  split at h
  · rcases List.mem_cons.1 h with rfl | h
    · exact .inr rfl
    · exact .inl (Decimal.isDigit_of_mem_digits h)
  · exact .inl (Decimal.isDigit_of_mem_digits h)

theorem isAscii_of_numeral {c : Char} (h : isDigit c = true ∨ c = '-') : Text.IsAscii c := by
  rcases h with h | rfl
  · rw [isDigit, Decimal.digitValue?] at h
    split at h
    · next range => exact Nat.lt_of_le_of_lt range.2 (by decide)
    · cases h
  · decide

end Numeral

namespace Json

theorem numberNode_ofInt {i : Int} (least : -9223372036854775808 ≤ i)
    (greatest : i < 18446744073709551616) : numberNode (Numeral.ofInt i) = .int i := by
  have negative : (Numeral.ofInt i).negative = true → i ≠ 0 := fun h =>
    Int.ne_of_lt (of_decide_eq_true h)
  have hcond : (Numeral.ofInt i).part.isNone = true ∧ (Numeral.ofInt i).exponent.isNone = true ∧
      ((Numeral.ofInt i).negative = true → i ≠ 0) ∧ -9223372036854775808 ≤ i ∧
      i < 18446744073709551616 := ⟨rfl, rfl, negative, least, greatest⟩
  simp only [numberNode, Numeral.integer_ofInt]
  exact if_pos hcond

namespace Token

open Text (bytes IsAscii)

/-- A control character as a unit of its own is joined to nothing. -/
theorem join?_unit {n : Nat} (h : n < 32) (ps : List Piece) :
    join? (.unit n :: ps) = (join? ps).map (String.utf8EncodeChar (Char.ofNat n) ++ ·) := by
  have hplain : isSurrogate n = false := by
    simp [isSurrogate]
    omega
  rw [Option.map_eq_bind]
  cases ps with
  | nil => simp only [join?, hplain, Bool.false_eq_true, if_false]; rfl
  | cons p ps =>
    cases p <;> simp only [join?, hplain, Bool.false_eq_true, if_false] <;> rfl

theorem join?_bytes (raw : List UInt8) (ps : List Piece) :
    join? (raw.map .byte ++ ps) = (join? ps).map (raw ++ ·) := by
  induction raw with
  | nil => cases h : join? ps <;> rw [List.map_nil, List.nil_append, h] <;> rfl
  | cons b raw ih =>
    rw [List.map_cons, List.cons_append, join?, ih]
    cases join? ps <;> rfl

theorem pieces?_backslash {e b : UInt8} (h : unescape? e = some b) (bs : List UInt8) :
    pieces? (92 :: e :: bs) = (pieces? bs).map fun (ps, rest) => (.byte b :: ps, rest) := by
  have hu : e ≠ 117 := fun hu => by
    rw [hu, show unescape? 117 = none by decide] at h
    cases h
  rw [pieces?, h, Option.map_eq_bind]
  · rfl
  · simp [hu]

theorem pieces?_unit {n : Nat} (h : n < 32) (bs : List UInt8) :
    pieces? (bytes ['\\', 'u', '0', '0', Text.hexDigit (n / 16), Text.hexDigit (n % 16)] ++ bs) =
      (pieces? bs).map fun (ps, rest) => (.unit n :: ps, rest) := by
  have high : Hex.nibble? (Text.hexDigit (n / 16)).toUInt8 = some (n / 16) :=
    Hex.nibble?_hexDigit (by omega)
  have low : Hex.nibble? (Text.hexDigit (n % 16)).toUInt8 = some (n % 16) :=
    Hex.nibble?_hexDigit (by omega)
  have zero : Hex.nibble? '0'.toUInt8 = some 0 := by decide
  have value : 256 * (16 * 0 + 0) + (16 * (n / 16) + n % 16) = n := by omega
  have ascii : ∀ n < 16, IsAscii (Text.hexDigit n) := by decide
  have hbytes : bytes ['\\', 'u', '0', '0', Text.hexDigit (n / 16), Text.hexDigit (n % 16)] ++ bs =
      92 :: 117 :: '0'.toUInt8 :: '0'.toUInt8 :: (Text.hexDigit (n / 16)).toUInt8 ::
        (Text.hexDigit (n % 16)).toUInt8 :: bs := by
    rw [Text.bytes_of_isAscii]
    · rfl
    · simp only [List.forall_mem_cons]
      exact ⟨by decide, by decide, by decide, by decide, ascii _ (by omega), ascii _ (by omega),
        nofun⟩
  simp only [hbytes, pieces?, high, low, zero, bind, Option.bind_some, value]
  rw [Option.map_eq_bind]
  rfl

theorem pieces?_plain {b : UInt8} (plain : isPlain b = true) (bs : List UInt8) :
    pieces? (b :: bs) = (pieces? bs).map fun (ps, rest) => (.byte b :: ps, rest) := by
  have quote : b ≠ 34 := fun h => by rw [h] at plain; exact absurd plain (by decide)
  have backslash : b ≠ 92 := fun h => by rw [h] at plain; exact absurd plain (by decide)
  rw [pieces?, if_pos plain, Option.map_eq_bind]
  · rfl
  all_goals simp [quote, backslash]

theorem pieces?_bytes {raw : List UInt8} (plain : ∀ b ∈ raw, isPlain b = true) (bs : List UInt8) :
    pieces? (raw ++ bs) = (pieces? bs).map fun (ps, rest) => (raw.map .byte ++ ps, rest) := by
  induction raw with
  | nil => cases h : pieces? bs <;> rw [List.nil_append, h] <;> rfl
  | cons b raw ih =>
    obtain ⟨hb, hraw⟩ := List.forall_mem_cons.1 plain
    rw [List.cons_append, pieces?_plain hb, ih hraw]
    cases pieces? bs <;> rfl

/-- The pieces as which a written character is read. -/
structure Spells (c : Char) (ps : List Piece) : Prop where
  pieces : ∀ bs, pieces? (bytes (escape c) ++ bs) =
    (pieces? bs).map fun (qs, rest) => (ps ++ qs, rest)
  join : ∀ qs, join? (ps ++ qs) = (join? qs).map (String.utf8EncodeChar c ++ ·)

theorem isPlain_of_plain {c : Char} (quote : c ≠ '"') (backslash : c ≠ '\\') (h : ¬c.toNat < 32) :
    ∀ b ∈ String.utf8EncodeChar c, isPlain b = true := by
  have plain (b : UInt8) (range : 32 ≤ b.toNat) (hquote : b ≠ '"'.toUInt8)
      (hbackslash : b ≠ '\\'.toUInt8) : isPlain b = true := by
    simp only [isPlain, bne_iff_ne, Bool.and_eq_true, decide_eq_true_eq]
    exact ⟨⟨UInt8.le_iff_toNat_le.2 range, hquote⟩, hbackslash⟩
  intro b hb
  by_cases ascii : IsAscii c
  · rw [Text.utf8EncodeChar_of_isAscii ascii, List.mem_singleton] at hb
    have back (d : Char) (hd : IsAscii d) (h : c.toUInt8 = d.toUInt8) : c = d := by
      rw [← Text.ofUInt8_toUInt8 ascii, h, Text.ofUInt8_toUInt8 hd]
    subst hb
    refine plain _ ?_ (fun h => quote (back _ (by decide) h))
      fun h => backslash (back _ (by decide) h)
    rw [Text.toNat_toUInt8 ascii]
    exact Nat.not_lt.1 h
  · have high := Text.le_of_mem_utf8EncodeChar ascii hb
    refine plain b (Nat.le_trans (by decide) high) ?_ ?_ <;>
      · rintro rfl
        exact absurd high (by decide)

theorem exists_spells (c : Char) : ∃ ps, Spells c ps := by
  have short (e : Char) (ascii : IsAscii c ∧ IsAscii e) (he : unescape? e.toUInt8 = some c.toUInt8)
      (hc : escape c = ['\\', e]) : ∃ ps, Spells c ps := by
    refine ⟨[.byte c.toUInt8], fun bs => ?_, fun qs => ?_⟩
    · have hbytes : bytes (escape c) ++ bs = 92 :: e.toUInt8 :: bs := by
        rw [hc, Text.bytes_cons_of_isAscii (by decide), Text.bytes_cons_of_isAscii ascii.2]
        rfl
      rw [hbytes, pieces?_backslash he]
      rfl
    · rw [Text.utf8EncodeChar_of_isAscii ascii.1]
      exact join?_bytes [c.toUInt8] qs
  have named (n : Nat) (h : c.toNat = n) : c = Char.ofNat n := by rw [← h, Char.ofNat_toNat]
  by_cases quote : c = '"'
  · subst quote; exact short '"' (by decide) (by decide) (by decide)
  by_cases backslash : c = '\\'
  · subst backslash; exact short '\\' (by decide) (by decide) (by decide)
  by_cases newline : c = '\n'
  · subst newline; exact short 'n' (by decide) (by decide) (by decide)
  by_cases carriage : c = '\r'
  · subst carriage; exact short 'r' (by decide) (by decide) (by decide)
  by_cases tab : c = '\t'
  · subst tab; exact short 't' (by decide) (by decide) (by decide)
  by_cases backspace : c.toNat = 8
  · cases named 8 backspace; exact short 'b' (by decide) (by decide) (by decide)
  by_cases feed : c.toNat = 12
  · cases named 12 feed; exact short 'f' (by decide) (by decide) (by decide)
  have hescape : escape c = if c.toNat < 32 then
      ['\\', 'u', '0', '0', Text.hexDigit (c.toNat / 16), Text.hexDigit (c.toNat % 16)]
      else [c] := by
    simp only [escape, quote, backslash, newline, carriage, tab, backspace, feed, if_false]
  by_cases control : c.toNat < 32
  · rw [if_pos control] at hescape
    refine ⟨[.unit c.toNat], fun bs => ?_, fun qs => ?_⟩
    · rw [hescape, pieces?_unit control]
      rfl
    · rw [List.singleton_append, join?_unit control, Char.ofNat_toNat]
  · rw [if_neg control] at hescape
    refine ⟨(String.utf8EncodeChar c).map .byte, fun bs => ?_, join?_bytes _⟩
    rw [hescape, Text.bytes_cons, Text.bytes_nil, List.append_nil,
      pieces?_bytes (isPlain_of_plain quote backslash control)]

/-- Written characters are read up to the closing quote. -/
theorem exists_pieces (cs : List Char) (rest : List UInt8) :
    ∃ ps, pieces? (bytes (cs.flatMap escape) ++ 34 :: rest) = some (ps, rest) ∧
      join? ps = some (bytes cs) := by
  induction cs with
  | nil => exact ⟨[], rfl, rfl⟩
  | cons c cs ih =>
    obtain ⟨ps, hps, hjoin⟩ := ih
    obtain ⟨qs, spells⟩ := exists_spells c
    refine ⟨qs ++ ps, ?_, by rw [spells.join, hjoin, Text.bytes_cons]; rfl⟩
    rw [List.flatMap_cons, Text.bytes_append, List.append_assoc, spells.pieces, hps]
    rfl

/-- The tokens of a text are the first one and those of what follows it. -/
theorem list_of_next? {b : UInt8} {bs rest : List UInt8} {t : Token} (visible : isBlank b = false)
    (h : next? b bs = some (t, rest)) : list (b :: bs) = t :: list rest := by
  rw [list, visible]
  simp only [Bool.false_eq_true, if_false]
  split
  · next heq =>
    rw [h] at heq
    cases heq
    rfl
  · next heq =>
    rw [h] at heq
    cases heq

theorem list_blank {b : UInt8} (blank : isBlank b = true) (bs : List UInt8) :
    list (b :: bs) = list bs := by
  rw [list, if_pos blank]

theorem list_quote (s : String) (bs : List UInt8) :
    list (bytes (quote s) ++ bs) = .atom (.text s) :: list bs := by
  obtain ⟨ps, hps, hjoin⟩ := exists_pieces s.toList bs
  have happend : bytes (quote s) ++ bs = 34 :: (bytes (s.toList.flatMap escape) ++ 34 :: bs) := by
    rw [quote, List.cons_append, Text.bytes_cons_of_isAscii (by decide), Text.bytes_append,
      List.cons_append, List.append_assoc]
    rfl
  have hvalue : ofPieces ps = .text s := by
    rw [ofPieces, hjoin, ← Text.utf8_ofList_eq_bytes, String.ofList_toList, Option.bind_some,
      Text.ofUtf8?_utf8]
  have hnext : next? 34 (bytes (s.toList.flatMap escape) ++ 34 :: bs) =
      some (.atom (.text s), bs) := by
    show (pieces? _).map _ = _
    rw [hps, Option.map_some, ← hvalue]
  rw [happend, list_of_next? (by decide) hnext]

section signs

variable (bs : List UInt8)

/-- A sign that is a token of its own. -/
theorem list_sign {b : UInt8} {t : Token} (visible : isBlank b = false)
    (alone : ∀ bs, next? b bs = some (t, bs)) : list (b :: bs) = t :: list bs :=
  list_of_next? visible (alone bs)

theorem list_openList : list ('['.toUInt8 :: bs) = .openList :: list bs :=
  list_sign bs (by decide) fun _ => rfl

theorem list_closeList : list (']'.toUInt8 :: bs) = .closeList :: list bs :=
  list_sign bs (by decide) fun _ => rfl

theorem list_openRecord : list ('\x7b'.toUInt8 :: bs) = .openRecord :: list bs :=
  list_sign bs (by decide) fun _ => rfl

theorem list_closeRecord : list ('\x7d'.toUInt8 :: bs) = .closeRecord :: list bs :=
  list_sign bs (by decide) fun _ => rfl

theorem list_comma : list (','.toUInt8 :: bs) = .comma :: list bs :=
  list_sign bs (by decide) fun _ => rfl

theorem list_colon : list (':'.toUInt8 :: bs) = .colon :: list bs :=
  list_sign bs (by decide) fun _ => rfl

theorem list_null : list (bytes "null".toList ++ bs) = .atom .null :: list bs :=
  list_of_next? (b := 'n'.toUInt8) (by decide) rfl

theorem list_bool (b : Bool) :
    list (bytes (if b then "true".toList else "false".toList) ++ bs) =
      .atom (.bool b) :: list bs := by
  cases b with
  | false => exact list_of_next? (b := 'f'.toUInt8) (by decide) rfl
  | true => exact list_of_next? (b := 't'.toUInt8) (by decide) rfl

end signs

/-- Nothing stands here that could go on a numeral. -/
def Ended (bs : List UInt8) : Prop :=
  ∀ b, bs.head? = some b → isNumeric b = false

theorem ended_nil : Ended [] :=
  nofun

theorem ended_cons {b : UInt8} (h : isNumeric b = false) (bs : List UInt8) : Ended (b :: bs) :=
  fun _ hb => Option.some.inj hb ▸ h

theorem isNumeric_toUInt8 {c : Char} (h : Numeral.isDigit c = true ∨ c = '-') :
    isNumeric c.toUInt8 = true := by
  simp only [isNumeric, Text.ofUInt8_toUInt8 (Numeral.isAscii_of_numeral h), Bool.or_eq_true,
    beq_iff_eq]
  exact .inl (.inl (.inl (.inl h)))

theorem number?_intChars (i : Int) {rest : List UInt8} (ended : Ended rest) :
    number? (bytes (Decimal.intChars i) ++ rest) =
      some (.atom (numberNode (Numeral.ofInt i)), rest) := by
  have ascii : ∀ c ∈ Decimal.intChars i, IsAscii c := fun c hc =>
    Numeral.isAscii_of_numeral (Numeral.of_mem_intChars hc)
  have numeric : ∀ b ∈ bytes (Decimal.intChars i), isNumeric b = true := by
    rw [Text.bytes_of_isAscii ascii]
    intro b hb
    obtain ⟨c, hc, rfl⟩ := List.mem_map.1 hb
    exact isNumeric_toUInt8 (Numeral.of_mem_intChars hc)
  have hrest : rest.takeWhile isNumeric = [] ∧ rest.dropWhile isNumeric = rest := by
    cases rest with
    | nil => exact ⟨rfl, rfl⟩
    | cons b rest => simp [ended b rfl]
  have back : (bytes (Decimal.intChars i)).map Char.ofUInt8 = Decimal.intChars i := by
    rw [Text.bytes_of_isAscii ascii, List.map_map]
    exact (List.map_congr_left fun c hc => Text.ofUInt8_toUInt8 (ascii c hc)).trans (List.map_id _)
  rw [number?, List.takeWhile_append_of_pos numeric, List.dropWhile_append_of_pos numeric, hrest.1,
    hrest.2, List.append_nil, back, Numeral.read?_intChars]
  rfl

/-- What starts like an integer is read as a number. -/
theorem next?_numeral {c : Char} (h : Numeral.isDigit c = true ∨ c = '-') (bs : List UInt8) :
    next? c.toUInt8 bs = number? (c.toUInt8 :: bs) := by
  rw [next?, Text.ofUInt8_toUInt8 (Numeral.isAscii_of_numeral h)]
  split
  case h_11 => rfl
  all_goals exact absurd h (by decide)

theorem isBlank_of_numeral {c : Char} (h : Numeral.isDigit c = true ∨ c = '-') :
    isBlank c.toUInt8 = false := by
  rw [isBlank, Text.ofUInt8_toUInt8 (Numeral.isAscii_of_numeral h), Bool.eq_false_iff]
  intro blank
  simp only [Bool.or_eq_true, beq_iff_eq] at blank
  rcases blank with ((rfl | rfl) | rfl) | rfl <;> exact absurd h (by decide)

/-- An integer of any size is one token. -/
theorem list_intChars (i : Int) {rest : List UInt8} (ended : Ended rest) :
    list (bytes (Decimal.intChars i) ++ rest) =
      .atom (numberNode (Numeral.ofInt i)) :: list rest := by
  have hnumber := number?_intChars i ended
  cases hchars : Decimal.intChars i with
  | nil =>
    unfold Decimal.intChars at hchars
    split at hchars
    · cases hchars
    · exact absurd hchars (Decimal.digits_ne_nil _)
  | cons c cs =>
    have hc : Numeral.isDigit c = true ∨ c = '-' :=
      Numeral.of_mem_intChars (hchars ▸ List.mem_cons_self)
    rw [hchars, Text.bytes_cons_of_isAscii (Numeral.isAscii_of_numeral hc), List.cons_append]
      at hnumber
    rw [Text.bytes_cons_of_isAscii (Numeral.isAscii_of_numeral hc), List.cons_append]
    refine list_of_next? (isBlank_of_numeral hc) ?_
    rw [next?_numeral hc, hnumber]

end Token

end Json

end CurrencyLedger
