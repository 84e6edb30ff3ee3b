/-!
Byte strings as numbers, the most significant byte first. `number_bytes` says that a number of at
most the given width reads back. Powers are written as `Nat.pow`, since `^` is another operation
where the monoid of numbers is in scope.
-/

namespace CurrencyLedger.BigEndian

def number (bytes : List UInt8) : Nat :=
  bytes.foldl (fun n b => 256 * n + b.toNat) 0

/-- The low `width` bytes of a number. -/
def bytes : Nat → Nat → List UInt8
  | 0, _ => []
  | width + 1, n => bytes width (n / 256) ++ [UInt8.ofNat (n % 256)]

@[simp] theorem length_bytes (width n : Nat) : (bytes width n).length = width := by
  induction width generalizing n with
  | zero => rfl
  | succ width ih => simp [bytes, ih]

theorem number_append_singleton (bs : List UInt8) (b : UInt8) :
    number (bs ++ [b]) = 256 * number bs + b.toNat := by
  simp [number]

theorem number_bytes {width n : Nat} (h : n < Nat.pow 256 width) :
    number (bytes width n) = n := by
  induction width generalizing n with
  | zero =>
    have : n = 0 := Nat.lt_one_iff.1 h
    subst this; rfl
  | succ width ih =>
    have : n / 256 < Nat.pow 256 width := (Nat.div_lt_iff_lt_mul (by decide)).2 h
    rw [bytes, number_append_singleton, ih this, UInt8.toNat_ofNat']
    omega

theorem foldl_eq_add (lead : Nat) (bs : List UInt8) :
    bs.foldl (fun n b => 256 * n + b.toNat) lead =
      lead * Nat.pow 256 bs.length + number bs := by
  induction bs generalizing lead with
  | nil => simp [number]
  | cons b rest ih =>
    have hpow : Nat.pow 256 (rest.length + 1) = 256 * Nat.pow 256 rest.length := Nat.pow_succ'
    simp only [number, List.foldl_cons, List.length_cons]
    rw [ih, ih (256 * 0 + b.toNat), hpow, Nat.mul_zero, Nat.zero_add, Nat.add_mul,
      ← Nat.add_assoc, Nat.mul_comm 256 lead, Nat.mul_assoc]

theorem number_cons (b : UInt8) (rest : List UInt8) :
    number (b :: rest) = b.toNat * Nat.pow 256 rest.length + number rest := by
  have h := foldl_eq_add b.toNat rest
  simpa [number] using h

theorem number_lt (bs : List UInt8) : number bs < Nat.pow 256 bs.length := by
  induction bs with
  | nil => exact Nat.one_pos
  | cons b rest ih =>
    have hpow : Nat.pow 256 (rest.length + 1) = 256 * Nat.pow 256 rest.length := Nat.pow_succ'
    rw [number_cons, List.length_cons, hpow]
    have hb : b.toNat ≤ 255 := Nat.le_of_lt_succ b.toNat_lt
    have : b.toNat * Nat.pow 256 rest.length ≤ 255 * Nat.pow 256 rest.length :=
      Nat.mul_le_mul_right _ hb
    omega

end CurrencyLedger.BigEndian
