import CurrencyLedger.Number.Decimal

/-!
Numerals with a point and an exponent, as both JSON and TOML write them: digits without a needless
zero in front, then a part behind a point and an exponent, if they are there.
-/

namespace CurrencyLedger

/-- A numeral taken apart. -/
structure Numeral where
  negative : Bool
  whole : List Char
  /-- Digits after the point. -/
  part : Option (List Char)
  exponent : Option Int

namespace Numeral

def isDigit (c : Char) : Bool :=
  (Decimal.digitValue? c).isSome

/-- A run of digits; at least one must stand there. -/
def digits? (cs : List Char) : Option (List Char × List Char) :=
  match cs.takeWhile isDigit, cs.dropWhile isDigit with
  | [], _ => none
  | ds, rest => some (ds, rest)

def part? : List Char → Option (Option (List Char) × List Char)
  | '.' :: rest => (digits? rest).map fun (ds, rest) => (some ds, rest)
  | cs => some (none, cs)

def value (ds : List Char) : Nat :=
  (Decimal.valueFrom? 0 ds).getD 0

def power? (negative : Bool) (cs : List Char) : Option (Option Int × List Char) :=
  (digits? cs).map fun (ds, rest) =>
    (some (if negative then -(value ds : Int) else value ds), rest)

def exponent? : List Char → Option (Option Int × List Char)
  | c :: rest =>
    if c = 'e' ∨ c = 'E' then
      match rest with
      | '+' :: rest => power? false rest
      | '-' :: rest => power? true rest
      | _ => power? false rest
    else some (none, c :: rest)
  | [] => some (none, [])

def unsigned? (negative : Bool) (cs : List Char) : Option (Numeral × List Char) := do
  let (whole, rest) ← digits? cs
  if whole.head? = some '0' ∧ 1 < whole.length then none
  else
    let (part, rest) ← part? rest
    let (exponent, rest) ← exponent? rest
    return (⟨negative, whole, part, exponent⟩, rest)

def read? : List Char → Option (Numeral × List Char)
  | '-' :: rest => unsigned? true rest
  | cs => unsigned? false cs

theorem length_of_digits? {cs ds rest : List Char} (h : digits? cs = some (ds, rest)) :
    rest.length < cs.length := by
  have happ := List.takeWhile_append_dropWhile (p := isDigit) (l := cs)
  unfold digits? at h
  split at h
  · simp at h
  · next hne =>
    simp at h
    rw [← happ, ← h.2, List.length_append]
    have : 0 < (cs.takeWhile isDigit).length := List.length_pos_iff.2 (by simpa using hne)
    omega

theorem length_of_part? {cs rest : List Char} {p : Option (List Char)}
    (h : part? cs = some (p, rest)) : rest.length ≤ cs.length := by
  unfold part? at h
  split at h
  · next tail =>
    obtain ⟨⟨ds, more⟩, hd, h⟩ := Option.map_eq_some_iff.1 h
    have := length_of_digits? hd
    simp at h
    simp [← h.2]; omega
  · simp at h; simp [h]

theorem length_of_power? {negative : Bool} {cs rest : List Char} {e : Option Int}
    (h : power? negative cs = some (e, rest)) : rest.length < cs.length := by
  obtain ⟨⟨ds, more⟩, hd, h⟩ := Option.map_eq_some_iff.1 h
  simp at h
  have := length_of_digits? hd
  rw [← h.2]; exact this

theorem length_of_exponent? {cs rest : List Char} {e : Option Int}
    (h : exponent? cs = some (e, rest)) : rest.length ≤ cs.length := by
  unfold exponent? at h
  split at h
  · split at h
    · split at h <;> have := length_of_power? h <;> simp at this ⊢ <;> omega
    · simp at h; simp [← h.2]
  · simp at h; simp [h]

theorem length_of_unsigned? {negative : Bool} {cs rest : List Char} {n : Numeral}
    (h : unsigned? negative cs = some (n, rest)) : rest.length < cs.length := by
  simp only [unsigned?, Option.bind_eq_bind, Option.bind_eq_some_iff] at h
  obtain ⟨⟨ds, r1⟩, h1, h⟩ := h
  split at h
  · simp at h
  · simp only [Option.bind_eq_some_iff] at h
    obtain ⟨⟨p, r2⟩, h2, ⟨e, r3⟩, h3, h⟩ := h
    simp at h
    have a := length_of_digits? h1
    have b := length_of_part? h2
    have c := length_of_exponent? h3
    rw [← h.2]; simp at a b c; omega

theorem length_of_read? {cs rest : List Char} {n : Numeral}
    (h : read? cs = some (n, rest)) : rest.length < cs.length := by
  unfold read? at h
  split at h
  · have := length_of_unsigned? h
    simp; omega
  · exact length_of_unsigned? h

/-- The floating-point value, which a numeral out of range has not. -/
def float? (n : Numeral) : Option Float :=
  let part := n.part.getD []
  let mantissa := value (n.whole ++ part)
  let exponent := n.exponent.getD 0 - part.length
  let places := (Decimal.digits mantissa).length + exponent
  let magnitude : Float :=
    if mantissa = 0 ∨ places < -400 then 0
    else if 400 < places then 1 / 0
    else Float.ofScientific mantissa (exponent < 0) exponent.natAbs
  if magnitude.isInf then none else some (if n.negative then -magnitude else magnitude)

def integer (n : Numeral) : Int :=
  if n.negative then -(value n.whole : Int) else value n.whole

end Numeral

end CurrencyLedger
