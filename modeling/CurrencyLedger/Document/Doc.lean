/-!
Documents to be written: the values that both document formats can express. A record keeps the order
of its members.
-/

namespace CurrencyLedger

inductive Doc where
  | null
  | bool (b : Bool)
  | int (n : Int)
  | text (s : String)
  | list (items : List Doc)
  | record (members : List (String × Doc))

end CurrencyLedger
