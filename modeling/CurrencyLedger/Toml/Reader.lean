import CurrencyLedger.Toml.Section

/-!
Reading of TOML text: the sections one after the other fill the tables.
-/

namespace CurrencyLedger.Toml

def addSection? (t : Table) (s : Section) : Option Table :=
  let fill := Table.insertAll? s.values
  match s.header with
  | .table path => t.atHeader? (Table.define? fill) path
  | .item path => t.atHeader? (Table.append? fill) path

/-- A mark that may stand in front of a text. -/
def dropMark : List Char → List Char
  | c :: rest => if c.toNat = 0xfeff then rest else c :: rest
  | [] => []

def read? (s : String) : Option Node := do
  let cs := dropMark s.toList
  let (values, sections) ← sections? (cs.length + 1) cs
  let first ← Table.insertAll? values []
  return (← sections.foldlM addSection? first).node

end CurrencyLedger.Toml
