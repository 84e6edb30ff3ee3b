import CurrencyLedger.Wire.Basic

/-!
Heights of the ledger. A sum that goes beyond the greatest height stays there.
-/

namespace CurrencyLedger

structure Height where
  value : UInt64
deriving DecidableEq

namespace Height

def genesis : Height := ⟨0⟩

def toNat (h : Height) : Nat :=
  h.value.toNat

def text (h : Height) : String :=
  Decimal.ofNat h.toNat

/-- The height so many steps further on. -/
def plus (h : Height) (n : Nat) : Height :=
  ⟨UInt64.ofNat (min (h.toNat + n) (UInt64.size - 1))⟩

def next (h : Height) : Height :=
  h.plus 1

instance : LT Height := ⟨fun a b => a.toNat < b.toNat⟩

instance (a b : Height) : Decidable (a < b) :=
  inferInstanceAs (Decidable (a.toNat < b.toNat))

theorem toNat_plus (h : Height) (n : Nat) :
    (h.plus n).toNat = min (h.toNat + n) (UInt64.size - 1) := by
  simp only [plus, toNat, UInt64.toNat_ofNat', UInt64.size]
  omega

end Height

def Wire.height : Wire Height :=
  uint64.map Height.mk Height.value

end CurrencyLedger
