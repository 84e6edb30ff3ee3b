import CurrencyLedger.Identity.Address

/-!
Accounts of the ledger. The zero account of a currency has no keys, so nobody can sign for it.
-/

namespace CurrencyLedger

structure Account where
  address : Address
  keys : Option KeySet
deriving DecidableEq

namespace Account

def zero (currency : CurrencyId) : Account :=
  ⟨.zero currency, none⟩

/-- The same address with new keys. -/
def withKeys (a : Account) (keys : KeySet) : Account :=
  { a with keys := some keys }

end Account

def Wire.account : Wire Account :=
  record "struct Account"
    (.cons (.of "address" address) <|
      .cons { name := "keys", wire := keySet.optional, absent := some none } .nil)
    (fun a => (a.address, a.keys, ())) (fun (address, keys, ()) => ⟨address, keys⟩)

end CurrencyLedger
