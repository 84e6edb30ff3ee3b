import CurrencyLedger.Ledger.Merger

/-!
Stores hold the records of a ledger under their keys.
-/

namespace CurrencyLedger

abbrev Store := KeyedList Record.key

namespace Store

/-- The changes of an accepted operation. -/
abbrev Accepted := List (Digest × List Change)

/-- The first record that is not intact stops the list; of several records with one key the last
stays. -/
def ofRecords (records : List Record) : Except Record Store :=
  records.foldlM (fun (store : Store) r => if r.IsIntact then .ok (store.insert r) else .error r)
    KeyedList.empty

/-- Writes a payload at the first height, behind the record that stands there. -/
def set (store : Store) (key : String) (payload : Payload) : Store :=
  store.insert (.make key payload .genesis ((store.get? key).map Record.hash) [])

def setAccount (store : Store) (a : Account) : Store :=
  store.set (RecordKey.account a.address) (.account a)

def setBalance (store : Store) (address : Address) (amount : Amount) : Store :=
  store.set (RecordKey.balance address amount.currency) (.balance amount)

def setDesign (store : Store) (d : CurrencyDesign) : Store :=
  store.set (RecordKey.design d.currency) (.design d)

def setMembers (store : Store) (m : Members) : Store :=
  store.set RecordKey.suffrage (.members m)

def setCandidates (store : Store) (c : Candidates) : Store :=
  store.set RecordKey.candidates (.candidates c)

def setNetworkPolicy (store : Store) (p : NetworkPolicy) : Store :=
  store.set RecordKey.networkPolicy (.networkPolicy p)

abbrev Mergers := KeyedList Merger.key

def mergeChange (store : Store) (height : Height) (operation : Digest) (mergers : Mergers)
    (c : Change) : Except StateError Mergers := do
  let m := (mergers.get? c.key).getD (.start height c.key (store.get? c.key))
  return mergers.insert (← m.merge c operation)

def mergeOperation (store : Store) (height : Height) (mergers : Mergers)
    (accepted : Digest × List Change) : Except StateError Mergers :=
  accepted.2.foldlM (store.mergeChange height accepted.1) mergers

/-- The new records, in the order of their keys. -/
def newRecords (store : Store) (height : Height) (accepted : Accepted) :
    Except StateError (List Record) := do
  let mergers ← accepted.foldlM (store.mergeOperation height) KeyedList.empty
  return mergers.toList.filterMap Merger.close

/-- Writes the records that the changes of accepted operations make. -/
def write (height : Height) (accepted : Accepted) : Writing Store (List Record) := do
  let store ← get
  let records ← store.newRecords height accepted
  records.forM fun r => modify fun store => store.insert r
  return records

/-- A commit to a store that is kept: what it answers, and what the store holds afterwards. -/
def tryCommit (store : Store) (height : Height) (accepted : Accepted) :
    Except StateError (List Record) × Store :=
  (write height accepted).run.run store

def commit (store : Store) (height : Height) (accepted : Accepted) :
    Except StateError (List Record × Store) :=
  match store.tryCommit height accepted with
  | (.ok records, store) => .ok (records, store)
  | (.error e, _) => .error e

end Store

end CurrencyLedger
