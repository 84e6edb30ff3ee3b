import CurrencyLedger.Identity.Address

/-!
Keys of the ledger's records. Accounts, balances and designs have keys made of addresses and
currencies; the suffrage, the candidates and the network policy have one key each.
-/

namespace CurrencyLedger.RecordKey

def accountEnding : String := ":account"

def balanceEnding : String := ":balance"

def designStart : String := "currencydesign:"

def suffrage : String := "suffrage"

def candidates : String := "suffrage_candidate"

def networkPolicy : String := "network_policy"

def account (address : Address) : String :=
  address.text ++ accountEnding

def balance (address : Address) (currency : CurrencyId) : String :=
  address.text ++ "-" ++ currency.text ++ balanceEnding

def design (currency : CurrencyId) : String :=
  designStart ++ currency.text

def isAccount (key : String) : Bool :=
  accountEnding.toList.isSuffixOf key.toList

def isBalance (key : String) : Bool :=
  balanceEnding.toList.isSuffixOf key.toList

def isDesign (key : String) : Bool :=
  designStart.toList.isPrefixOf key.toList

end CurrencyLedger.RecordKey
