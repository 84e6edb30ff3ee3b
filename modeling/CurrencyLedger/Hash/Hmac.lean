import CurrencyLedger.Hash.Sha256

/-!
Keyed hashing of byte strings with SHA-256.
-/

namespace CurrencyLedger.Hmac

/-- A key longer than a block is hashed first; a shorter one is filled up with zeros. -/
def blockKey (key : List UInt8) : List UInt8 :=
  let short := if 64 < key.length then sha256 key else key
  short ++ List.replicate (64 - short.length) 0

def hash (key message : List UInt8) : List UInt8 :=
  let key := blockKey key
  sha256 (key.map (· ^^^ 0x5c) ++ sha256 (key.map (· ^^^ 0x36) ++ message))

end CurrencyLedger.Hmac
