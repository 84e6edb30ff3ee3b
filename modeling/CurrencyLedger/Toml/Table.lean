import CurrencyLedger.Document.Node

/-!
Tables of TOML while they are put together. A table may be extended only in the way it came about,
so it remembers its origin.
-/

namespace CurrencyLedger.Toml

inductive Origin where
  /-- Has a header of its own. -/
  | header
  /-- Stands in front of a point in a header. -/
  | implied
  /-- Stands in front of a point in a key. -/
  | dotted
deriving DecidableEq

inductive Entry where
  | value (n : Node)
  | table (origin : Origin) (entries : List (String × Entry))
  /-- Tables with the same repeated header, the last one apart. -/
  | tables (before : List (List (String × Entry))) (last : List (String × Entry))

abbrev Table := List (String × Entry)

namespace Entry

mutual

def node : Entry → Node
  | .value n => n
  | .table _ entries => .map (nodes entries)
  | .tables before last => .list (tableNodes before ++ [.map (nodes last)])

def nodes : List (String × Entry) → List (Node × Node)
  | [] => []
  | (key, e) :: rest => (.text key, node e) :: nodes rest

def tableNodes : List (List (String × Entry)) → List Node
  | [] => []
  | t :: rest => .map (nodes t) :: tableNodes rest

end

end Entry

namespace Table

/-- Changes the entry under a key, or makes one. -/
def update? (key : String) (change : Option Entry → Option Entry) : Table → Option Table
  | [] => (change none).map fun e => [(key, e)]
  | (k, e) :: rest =>
    if k = key then (change (some e)).map fun e => (key, e) :: rest
    else (update? key change rest).map ((k, e) :: ·)

/-- Adds a value under a dotted key, which must not be taken. Only tables that came about by dotted
keys can get a value in this way. -/
def insert? (n : Node) : List String → Table → Option Table
  | [], _ => none
  | [key], t =>
    t.update? key fun
      | none => some (.value n)
      | some _ => none
  | key :: next :: rest, t =>
    t.update? key fun
      | none => (insert? n (next :: rest) []).map (.table .dotted)
      | some (.table .dotted entries) => (insert? n (next :: rest) entries).map (.table .dotted)
      | some (.table .implied entries) =>
        if rest.isEmpty then none
        else (insert? n (next :: rest) entries).map (.table .implied)
      | some (.tables before last) =>
        if rest.isEmpty then none else (insert? n (next :: rest) last).map (.tables before)
      | some _ => none

/-- Changes the entry that a header names. Tables on the way to it are made if they are missing. -/
def atHeader? (change : Option Entry → Option Entry) : List String → Table → Option Table
  | [], _ => none
  | [key], t => t.update? key change
  | key :: next :: rest, t =>
    t.update? key fun
      | none => (atHeader? change (next :: rest) []).map (.table .implied)
      | some (.table origin entries) =>
        (atHeader? change (next :: rest) entries).map (.table origin)
      | some (.tables before last) => (atHeader? change (next :: rest) last).map (.tables before)
      | some (.value _) => none

/-- Gives a table its header and its values; `fill` adds the values. -/
def define? (fill : Table → Option Table) : Option Entry → Option Entry
  | none => (fill []).map (.table .header)
  | some (.table .implied entries) => (fill entries).map (.table .header)
  | some _ => none

/-- Appends a table under a repeated header. -/
def append? (fill : Table → Option Table) : Option Entry → Option Entry
  | none => (fill []).map (.tables [])
  | some (.tables before last) => (fill []).map (.tables (before ++ [last]))
  | some _ => none

/-- Adds values under their keys. -/
def insertAll? (values : List (List String × Node)) (t : Table) : Option Table :=
  values.foldlM (fun t (path, n) => t.insert? n path) t

def node (t : Table) : Node :=
  .map (Entry.nodes t)

end Table

end CurrencyLedger.Toml
