import CurrencyLedger.Document.Node
import CurrencyLedger.Number.BigEndian
import CurrencyLedger.Text.Utf8

/-!
Tokens of CBOR bytes. `Token.list` cuts a byte string into tokens; at the first place where no token
starts it ends with the token `bad`. Arguments need not be in their shortest form.
-/

namespace CurrencyLedger.Cbor

inductive Token where
  /-- The start of a list of so many items, or of one that goes on to its end mark. -/
  | openList (count : Option Nat)
  /-- The start of a map of so many members; `short` if their number stands in the first byte. -/
  | openMap (short : Bool) (count : Option Nat)
  | endMark
  | tag
  /-- A value without parts. -/
  | atom (n : Node)
  | bad

namespace Token

/-- The next bytes, of the given number. -/
def take? (n : Nat) (rest : List UInt8) : Option (List UInt8 × List UInt8) :=
  if rest.length < n then none else some (rest.take n, rest.drop n)

def wide? (width : Nat) (rest : List UInt8) : Option (Nat × List UInt8) :=
  (take? width rest).map fun (bs, rest) => (BigEndian.number bs, rest)

def argument? (info : Nat) (rest : List UInt8) : Option (Nat × List UInt8) :=
  match info with
  | 24 => wide? 1 rest
  | 25 => wide? 2 rest
  | 26 => wide? 4 rest
  | 27 => wide? 8 rest
  | _ => if info < 24 then some (info, rest) else none

/-- The next bytes, as many as the argument says. -/
def content? (info : Nat) (rest : List UInt8) : Option (List UInt8 × List UInt8) := do
  let (n, rest) ← argument? info rest
  take? n rest

theorem length_of_take? {n : Nat} {rest bs more : List UInt8}
    (h : take? n rest = some (bs, more)) : more.length ≤ rest.length := by
  simp only [take?, Option.ite_none_left_eq_some, Option.some.injEq, Prod.mk.injEq] at h
  simp [← h.2.2]

theorem length_of_wide? {width n : Nat} {rest more : List UInt8}
    (h : wide? width rest = some (n, more)) : more.length ≤ rest.length := by
  obtain ⟨⟨bs, tail⟩, hb, h⟩ := Option.map_eq_some_iff.1 h
  have := length_of_take? hb
  simp at h
  rw [← h.2]; exact this

theorem length_of_argument? {info n : Nat} {rest more : List UInt8}
    (h : argument? info rest = some (n, more)) : more.length ≤ rest.length := by
  unfold argument? at h
  split at h
  case h_5 => simp at h; simp [h.2.2]
  all_goals exact length_of_wide? h

theorem length_of_content? {info : Nat} {rest content more : List UInt8}
    (h : content? info rest = some (content, more)) : more.length ≤ rest.length := by
  simp only [content?, Option.bind_eq_bind, Option.bind_eq_some_iff] at h
  obtain ⟨⟨n, tail⟩, hn, h⟩ := h
  exact Nat.le_trans (length_of_take? h) (length_of_argument? hn)

/-- Pieces of the given major type up to the end mark, joined. -/
def chunks? (major : Nat) (bs : List UInt8) : Option (List UInt8 × List UInt8) :=
  match bs with
  | [] => none
  | b :: rest =>
    if b = 0xff then some ([], rest)
    else if b.toNat / 32 ≠ major then none
    else
      match _h : content? (b.toNat % 32) rest with
      | none => none
      | some (content, rest) =>
        (chunks? major rest).map fun (joined, rest) => (content ++ joined, rest)
termination_by bs.length
decreasing_by exact Nat.lt_succ_of_le (length_of_content? ‹_›)

theorem length_of_chunks? {major : Nat} {bs content more : List UInt8}
    (h : chunks? major bs = some (content, more)) : more.length < bs.length := by
  induction bs using chunks?.induct major generalizing content more with
  | case1 => simp [chunks?] at h
  | case2 rest => simp [chunks?] at h; simp [h]
  | case3 b rest hb hm => simp [chunks?, hb, hm] at h
  | case4 b rest hb hm hc => rw [chunks?] at h; simp [hb, hm] at h; split at h <;> simp_all
  | case5 b rest hb hm piece tail hc ih =>
    rw [chunks?] at h
    simp only [hb, hm, if_false] at h
    split at h
    · simp at h
    · next p t hpt =>
      rw [hc] at hpt
      cases hpt
      obtain ⟨⟨joined, last⟩, hj, h⟩ := Option.map_eq_some_iff.1 h
      have a := ih hj
      have b := length_of_content? hc
      simp at h
      rw [← h.2]; simp; omega

def text (content : List UInt8) : Token :=
  match Text.ofUtf8? content with
  | some s => .atom (.text s)
  | none => .bad

/-- A floating-point number of sixteen bits. -/
def halfFloat (n : Nat) : Float :=
  let exponent : Nat := n / 1024 % 32
  let fraction : Nat := n % 1024
  let magnitude : Float :=
    if exponent = 31 then (if fraction = 0 then 1 / 0 else 0 / 0)
    else if exponent = 0 then (Float.ofNat fraction).scaleB (-24)
    else (Float.ofNat (1024 + fraction)).scaleB ((exponent : Int) - 25)
  if 32768 ≤ n then -magnitude else magnitude

/-- The values of the last major type. -/
def simple? (info : Nat) (rest : List UInt8) : Option (Token × List UInt8) :=
  match info with
  | 20 => some (.atom (.bool false), rest)
  | 21 => some (.atom (.bool true), rest)
  | 22 => some (.atom .null, rest)
  | 23 => some (.atom .undefined, rest)
  | 25 => (argument? 25 rest).map fun (n, rest) => (.atom (.number (halfFloat n)), rest)
  | 26 =>
    (argument? 26 rest).map fun (n, rest) =>
      (.atom (.number (Float32.ofBits (UInt32.ofNat n)).toFloat), rest)
  | 27 =>
    (argument? 27 rest).map fun (n, rest) => (.atom (.number (Float.ofBits (UInt64.ofNat n))), rest)
  | 31 => some (.endMark, rest)
  | _ => none

/-- A number with the mark of its width. -/
def positive (info n : Nat) : Node :=
  if info = 25 ∨ info = 26 then .wide n else .int n

/-- A number below the range of 64 bits has no value. -/
def negative (n : Nat) : Token :=
  if n < UInt64.size / 2 then .atom (.int (-1 - n)) else .atom .unreadable

/-- The token that starts with a major type, and what follows it. -/
def ofHead? (major info : Nat) (rest : List UInt8) : Option (Token × List UInt8) :=
  match major with
  | 0 => (argument? info rest).map fun (n, rest) => (.atom (positive info n), rest)
  | 1 => (argument? info rest).map fun (n, rest) => (negative n, rest)
  | 2 =>
    (if info = 31 then chunks? 2 rest else content? info rest).map fun (content, rest) =>
      (.atom (.bytes content), rest)
  | 3 =>
    (if info = 31 then chunks? 3 rest else content? info rest).map fun (content, rest) =>
      (text content, rest)
  | 4 =>
    if info = 31 then some (.openList none, rest)
    else (argument? info rest).map fun (n, rest) => (.openList (some n), rest)
  | 5 =>
    if info = 31 then some (.openMap false none, rest)
    else (argument? info rest).map fun (n, rest) => (.openMap (info < 24) (some n), rest)
  | 6 => (argument? info rest).map fun (_, rest) => (.tag, rest)
  | _ => simple? info rest

theorem length_of_simple? {info : Nat} {rest more : List UInt8} {t : Token}
    (h : simple? info rest = some (t, more)) : more.length ≤ rest.length := by
  unfold simple? at h
  split at h <;> try (simp at h; simp [← h.2])
  all_goals
    first
    | (obtain ⟨⟨n, tail⟩, hn, h⟩ := Option.map_eq_some_iff.1 h
       have := length_of_argument? hn
       simp at h
       rw [← h.2]; exact this)
    | simp at h

theorem length_of_ofHead? {major info : Nat} {rest more : List UInt8} {t : Token}
    (h : ofHead? major info rest = some (t, more)) : more.length ≤ rest.length := by
  have text? {m : Nat} {content tail : List UInt8}
      (h : (if info = 31 then chunks? m rest else content? info rest) = some (content, tail)) :
      tail.length ≤ rest.length := by
    split at h
    · exact Nat.le_of_lt (length_of_chunks? h)
    · exact length_of_content? h
  unfold ofHead? at h
  split at h
  case h_3 | h_4 =>
    obtain ⟨⟨content, tail⟩, hc, h⟩ := Option.map_eq_some_iff.1 h
    simp at h
    rw [← h.2]; exact text? hc
  case h_8 => exact length_of_simple? h
  case h_5 | h_6 =>
    split at h
    · simp at h; simp [h.2]
    · obtain ⟨⟨n, tail⟩, hn, h⟩ := Option.map_eq_some_iff.1 h
      have := length_of_argument? hn
      simp at h
      rw [← h.2]; exact this
  all_goals
    obtain ⟨⟨n, tail⟩, hn, h⟩ := Option.map_eq_some_iff.1 h
    have := length_of_argument? hn
    simp at h
    rw [← h.2]; exact this

/-- All tokens of a byte string. -/
def list (bs : List UInt8) : List Token :=
  match bs with
  | [] => []
  | b :: rest =>
    match _h : ofHead? (b.toNat / 32) (b.toNat % 32) rest with
    | some (t, more) => t :: list more
    | none => [.bad]
termination_by bs.length
decreasing_by have := length_of_ofHead? ‹_›; simp; omega

end Token

end CurrencyLedger.Cbor
