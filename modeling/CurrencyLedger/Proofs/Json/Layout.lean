import CurrencyLedger.Proofs.Json.Reading

/-!
The indented text of a document reads as the compact one: `read_prettyText` says that both have the
same tokens. What follows a document need not be the same text behind both forms, only of the same
tokens, so that line breaks can be passed over on one side.
-/

namespace CurrencyLedger.Json

open Text (bytes)
open Token

theorem list_lineBreak (indent : Nat) (bs : List UInt8) :
    Token.list (bytes (lineBreak indent) ++ bs) = Token.list bs := by
  rw [lineBreak, Text.bytes_cons_of_isAscii (by decide), List.cons_append, list_blank (by decide)]
  induction 2 * indent with
  | zero => rfl
  | succ n ih =>
    rw [List.replicate_succ, Text.bytes_cons_of_isAscii (by decide), List.cons_append,
      list_blank (by decide), ih]

section

variable {rest : List UInt8}

theorem ended_lineBreak (indent : Nat) (rest : List UInt8) :
    Ended (bytes (lineBreak indent) ++ rest) :=
  ended_cons (by decide) _

theorem ended_indentedItems (indent : Nat) (items : List Doc) (ended : Ended rest) :
    Ended (bytes (indentedItems indent items) ++ rest) := by
  cases items with
  | nil => exact ended
  | cons d items => exact ended_cons (by decide) _

theorem ended_indentedMembers (indent : Nat) (members : List (String × Doc))
    (ended : Ended rest) : Ended (bytes (indentedMembers indent members) ++ rest) := by
  cases members with
  | nil => exact ended
  | cons m members => exact ended_cons (by decide) _

end

mutual

theorem list_indented : ∀ (d : Doc) (indent : Nat) {rest rest' : List UInt8},
    Ended rest → Ended rest' → Token.list rest = Token.list rest' →
    Token.list (bytes (indented indent d) ++ rest) = Token.list (bytes (chars d) ++ rest')
  | .null, _, _, _, _, _, h => by
    rw [indented, chars, list_null, list_null, h]
  | .bool b, _, _, _, _, _, h => by
    rw [indented, chars, list_bool, list_bool, h]
  | .int i, _, _, _, ended, ended', h => by
    rw [indented, chars, list_intChars i ended, list_intChars i ended', h]
  | .text s, _, _, _, _, _, h => by
    rw [indented, chars, list_quote, list_quote, h]
  | .list [], _, rest, rest', _, _, h => by
    simp (disch := decide) only [indented, chars, Text.bytes_cons_of_isAscii, Text.bytes_nil,
      List.cons_append, List.nil_append, list_openList, list_closeList, h]
  | .list (d :: items), indent, rest, rest', _, _, h => by
    have hclose : Token.list (bytes (lineBreak indent) ++ ']'.toUInt8 :: rest) =
        Token.list (']'.toUInt8 :: rest') := by
      rw [list_lineBreak, list_closeList, list_closeList, h]
    have ended := ended_lineBreak indent (']'.toUInt8 :: rest)
    have ended' : Ended (']'.toUInt8 :: rest') := ended_cons (by decide) _
    have hitems := list_indentedItems items indent ended ended' hclose
    have hitem := list_indented d (indent + 1) (ended_indentedItems indent items ended)
      (ended_itemChars items ended') hitems
    simp (disch := decide) only [indented, chars, Text.bytes_cons_of_isAscii, Text.bytes_append,
      Text.bytes_nil, List.cons_append, List.append_assoc, List.nil_append, list_openList,
      list_lineBreak, hitem]
  | .record [], _, rest, rest', _, _, h => by
    simp (disch := decide) only [indented, chars, Text.bytes_cons_of_isAscii, Text.bytes_nil,
      List.cons_append, List.nil_append, list_openRecord, list_closeRecord, h]
  | .record ((name, d) :: members), indent, rest, rest', _, _, h => by
    have hclose : Token.list (bytes (lineBreak indent) ++ '\x7d'.toUInt8 :: rest) =
        Token.list ('\x7d'.toUInt8 :: rest') := by
      rw [list_lineBreak, list_closeRecord, list_closeRecord, h]
    have ended := ended_lineBreak indent ('\x7d'.toUInt8 :: rest)
    have ended' : Ended ('\x7d'.toUInt8 :: rest') := ended_cons (by decide) _
    have hmembers := list_indentedMembers members indent ended ended' hclose
    have hmember := list_indented d (indent + 1) (ended_indentedMembers indent members ended)
      (ended_memberChars members ended') hmembers
    simp (disch := decide) only [indented, chars, Text.bytes_cons_of_isAscii, Text.bytes_append,
      Text.bytes_nil, List.cons_append, List.append_assoc, List.nil_append, list_openRecord,
      list_lineBreak, list_quote, list_colon, list_blank, hmember]

theorem list_indentedItems : ∀ (items : List Doc) (indent : Nat) {rest rest' : List UInt8},
    Ended rest → Ended rest' → Token.list rest = Token.list rest' →
    Token.list (bytes (indentedItems indent items) ++ rest) =
      Token.list (bytes (itemChars items) ++ rest')
  | [], _, _, _, _, _, h => h
  | d :: items, indent, _, _, ended, ended', h => by
    have hitems := list_indentedItems items indent ended ended' h
    have hitem := list_indented d (indent + 1) (ended_indentedItems indent items ended)
      (ended_itemChars items ended') hitems
    simp (disch := decide) only [indentedItems, itemChars, Text.bytes_cons_of_isAscii,
      Text.bytes_append, List.cons_append, List.append_assoc, list_comma, list_lineBreak, hitem]

theorem list_indentedMembers :
    ∀ (members : List (String × Doc)) (indent : Nat) {rest rest' : List UInt8},
    Ended rest → Ended rest' → Token.list rest = Token.list rest' →
    Token.list (bytes (indentedMembers indent members) ++ rest) =
      Token.list (bytes (memberChars members) ++ rest')
  | [], _, _, _, _, _, h => h
  | (name, d) :: members, indent, _, _, ended, ended', h => by
    have hmembers := list_indentedMembers members indent ended ended' h
    have hmember := list_indented d (indent + 1) (ended_indentedMembers indent members ended)
      (ended_memberChars members ended') hmembers
    simp (disch := decide) only [indentedMembers, memberChars, Text.bytes_cons_of_isAscii,
      Text.bytes_append, List.cons_append, List.append_assoc, list_comma, list_lineBreak,
      list_quote, list_colon, list_blank, hmember]

end

/-- The indented text, with a line break at its end, reads as the compact one. -/
theorem read_prettyText (d : Doc) :
    read (Text.utf8 (prettyText d ++ "\n")) = read (Text.utf8 (text d)) := by
  have hbreak : Token.list (bytes ['\n']) = Token.list [] := list_blank (by decide) []
  have hlist : Token.list (bytes (indented 0 d) ++ bytes ['\n']) =
      Token.list (bytes (chars d) ++ []) :=
    list_indented d 0 (ended_cons (by decide) _) ended_nil hbreak
  have hpretty : Text.utf8 (prettyText d ++ "\n") = bytes (indented 0 d) ++ bytes ['\n'] := by
    rw [Text.utf8_append, prettyText, Text.utf8_ofList_eq_bytes, ← Text.utf8_ofList_eq_bytes ['\n']]
  rw [read, read, hpretty, hlist, text, Text.utf8_ofList_eq_bytes, List.append_nil]

end CurrencyLedger.Json
