import CurrencyLedger.Command.Run
import CurrencyLedger.Proofs.Json.Layout
import CurrencyLedger.Proofs.Processing.Restart

/-!
Chains of commands. Each command processes one batch on the records of a file and prints what it
has written; the next one is given the old records with the written ones over them. Such a chain
tells what one store in memory would (`Desk.run_eq`).
-/

namespace CurrencyLedger

namespace Command

open Traversal

/-- What a report says: the operations that were accepted and those that were rejected, each by its
hash, and the records that were written. -/
structure Report where
  height : Height
  accepted : List Digest
  rejected : List (Digest × String)
  records : List Record

def Report.ofBatch (height : Height) (result : BatchResult) (records : List Record) : Report :=
  ⟨height, result.accepted.map Prod.fst,
    result.rejected.map fun (hash, reason) => (hash, reason.message), records⟩

end Command

namespace Wire

def rejection : Wire (Digest × String) :=
  record "rejection" (.cons (.of "operation" digest) <| .cons (.of "reason" string) .nil)
    (fun (hash, reason) => (hash, reason, ()))
    (fun (hash, reason, ()) => (hash, reason))

def report : Wire Command.Report :=
  record "report"
    (.cons (.of "height" height) <| .cons (.of "accepted" digest.list) <|
      .cons (.of "rejected" rejection.list) <| .cons (.of "states" ledgerRecord.list) .nil)
    (fun r => (r.height, r.accepted, r.rejected, r.records, ()))
    (fun (height, accepted, rejected, records, ()) => ⟨height, accepted, rejected, records⟩)

variable {depth : Nat}

theorem faithful_rejection : rejection.Faithful (depth + 1) :=
  faithful_record (.always (by decide) faithful_digest <| .always (by decide) faithful_string .nil)
    fun _ => rfl

theorem faithful_report : report.Faithful (depth + 8) :=
  faithful_record
    (.always (by decide) faithful_height <| .always (by decide) faithful_digest.list <|
      .always (by decide) faithful_rejection.list <|
      .always (by decide) faithful_ledgerRecord.list .nil)
    fun _ => rfl

/-- The indented text of a value is read as the value. -/
theorem Faithful.ofJson_prettyText {α : Type} {w : Wire α} (h : w.Faithful Node.depthLimit)
    (a : α) : w.ofJson (Json.prettyText (w.write a) ++ "\n") = .ok a := by
  rw [ofJson, ofJsonBytes, Json.read_prettyText]
  exact h.ofJson_jsonText a

end Wire

namespace Command

open Traversal

theorem report_eq (height : Height) (result : BatchResult) (records : List Record) :
    report height result records = Wire.report.write (.ofBatch height result records) := by
  have hrejected : result.rejected.map (fun (hash, reason) => Doc.record
      [("operation", Wire.digest.write hash), ("reason", .text reason.message)]) =
      (result.rejected.map fun (hash, reason) => (hash, reason.message)).map
        Wire.rejection.write := by
    rw [List.map_map]
    rfl
  rw [report, hrejected]
  show Doc.record [_, ("accepted", .list (result.accepted.map (Wire.digest.write ∘ Prod.fst))),
    _, _] = _
  rw [← List.map_map]
  rfl

/-- What the command prints of a batch. -/
def printedReport (height : Height) (result : BatchResult) (records : List Record) : String :=
  Json.prettyText (report height result records) ++ "\n"

theorem ofJson_printedReport (height : Height) (result : BatchResult) (records : List Record) :
    Wire.report.ofJson (printedReport height result records) =
      .ok (.ofBatch height result records) := by
  rw [printedReport, report_eq]
  exact Wire.faithful_report.ofJson_prettyText _

/-- The files that commands are given: two that change from one to the next, and those that stay. -/
structure Desk where
  recordsPath : String
  operationsPath : String
  configPath : Option String
  others : Files
  apart : operationsPath ≠ recordsPath
  configApart : ∀ path ∈ configPath, path ≠ recordsPath ∧ path ≠ operationsPath

namespace Desk

def files (desk : Desk) (records operations : String) : Files := fun path =>
  if path = desk.recordsPath then some records
  else if path = desk.operationsPath then some operations
  else desk.others path

/-- The command for a turn on given records. -/
def command (desk : Desk) (records : List Record) (t : Turn) : Except Failure String :=
  Command.process
    (desk.files (Wire.ledgerRecord.list.jsonText records)
      (Wire.operation.list.jsonText t.operations))
    desk.recordsPath desk.operationsPath t.height desk.configPath

/-- The records for the next command: the old ones with those of the report over them. A command
that fails reports none. -/
def following (old : List Record) : Except Failure String → List Record
  | .error _ => old
  | .ok printed =>
    match Wire.report.ofJson printed with
    | .error _ => old
    | .ok report => Store.overwrite old report.records

/-- What the commands for one turn after another print, and the records after them. -/
def run (desk : Desk) : List Record → List Turn → List (Except Failure String) × List Record
  | old, [] => ([], old)
  | old, t :: rest =>
    let later := desk.run (following old (desk.command old t)) rest
    (desk.command old t :: later.1, later.2)

/-- What the command prints if it tells the same as a turn. There has to be an operation. -/
def printed (desk : Desk) (t : Turn) (told : Told) : Except Failure String :=
  if t.operations.isEmpty then .error (.noOperations desk.operationsPath)
  else (told.mapError .ledger).map fun (result, records) => printedReport t.height result records

theorem files_recordsPath (desk : Desk) (records operations : String) :
    desk.files records operations desk.recordsPath = some records :=
  if_pos rfl

theorem files_operationsPath (desk : Desk) (records operations : String) :
    desk.files records operations desk.operationsPath = some operations :=
  (if_neg desk.apart).trans (if_pos rfl)

theorem config_files (desk : Desk) (records operations : String) :
    Command.config (desk.files records operations) desk.configPath =
      Command.config desk.others desk.configPath := by
  cases hpath : desk.configPath with
  | none => rfl
  | some path =>
    obtain ⟨notRecords, notOperations⟩ := desk.configApart path hpath
    have hfile : desk.files records operations path = desk.others path :=
      (if_neg notRecords).trans (if_neg notOperations)
    simp only [Command.config, file, hfile]

theorem document_of_file {α : Type} {w : Wire α} {files : Files} {path content : String} {a : α}
    (hfile : files path = some content) (read : w.ofJson content = .ok a) :
    document files w path = .ok a := by
  rw [document, file, hfile]
  exact mapError_eq_ok.2 read

variable {desk : Desk} {config : EngineConfig} {s : Session} {old : List Record}

/-- The command tells what a turn in memory does, if its records give the same store. -/
theorem command_eq (configured : Command.config desk.others desk.configPath = .ok config)
    (reachable : s.dispatcher.Reachable config) (taken : Store.ofRecords old = .ok s.store)
    (t : Turn) : desk.command old t = desk.printed t (s.turn t).1 := by
  obtain ⟨d, made⟩ := reachable.exists_ofConfig t.height s.store.reader
  -- A new dispatcher answers as the one in memory does once that has gone to the height.
  have hbatch := (Dispatcher.Reachable.start made).batch_nextHeight reachable t.height
    s.store.reader t.operations
  rw [Dispatcher.nextHeight_ofConfig made] at hbatch
  have hrecords := document_of_file (desk.files_recordsPath (Wire.ledgerRecord.list.jsonText old)
    (Wire.operation.list.jsonText t.operations)) (Store.ofJson_records old)
  have hoperations := document_of_file (desk.files_operationsPath
    (Wire.ledgerRecord.list.jsonText old) (Wire.operation.list.jsonText t.operations))
    (Wire.faithful_operation.list.ofJson_jsonText t.operations)
  rw [command, Command.process, config_files, configured, hrecords, hoperations, printed]
  refine if_congr Iff.rfl rfl ?_
  rw [taken, Session.told_turn, ← hbatch]
  simp only [bind, Except.bind, Except.mapError, made]
  cases (d.batch t.operations).1 with
  | error error => rfl
  | ok result =>
    dsimp only
    cases s.store.commit t.height result.accepted <;> rfl

/-- After a command the records give the store that the turn in memory leaves. -/
theorem ofRecords_following (desk : Desk) (taken : Store.ofRecords old = .ok s.store) (t : Turn) :
    Store.ofRecords (following old (desk.printed t (s.turn t).1)) = .ok (s.turn t).2.store := by
  unfold printed
  split
  -- The command stops at an empty list, which in memory is a batch that writes nothing.
  · next hempty =>
    rw [Session.store_turn_of_nil (List.isEmpty_iff.1 hempty)]
    exact taken
  · cases told : (s.turn t).1 with
    | error error =>
      rw [Session.store_turn_of_error told]
      exact taken
    | ok answer =>
      obtain ⟨result, records⟩ := answer
      have committed := Session.commit_of_turn told
      have hreport := ofJson_printedReport t.height result records
      simp only [following, Except.map, Except.mapError, hreport]
      rw [(Store.commit_eq_ok_iff.1 committed).2]
      exact Store.ofRecords_overwrite taken (Store.isIntact_of_committed committed)

/-- Commands that hand their records on print what turns on one store in memory tell, and leave
records that give the store after the turns. -/
theorem run_eq (configured : Command.config desk.others desk.configPath = .ok config)
    (reachable : s.dispatcher.Reachable config) (taken : Store.ofRecords old = .ok s.store)
    (ts : List Turn) :
    (desk.run old ts).1 = List.zipWith desk.printed ts (s.turns ts).1 ∧
      Store.ofRecords (desk.run old ts).2 = .ok (s.turns ts).2 := by
  induction ts generalizing s old with
  | nil => exact ⟨rfl, taken⟩
  | cons t rest ih =>
    obtain ⟨answers, records⟩ :=
      ih (Session.reachable_turn reachable t) (desk.ofRecords_following taken t)
    rw [run, command_eq configured reachable taken, Session.turns, List.zipWith_cons_cons]
    exact ⟨congrArg _ answers, records⟩

end Desk

end Command

open Command

/-- Dumps and restores are transparent. The dump of a store that was built gives the store again,
and turns tell and write the same with restarts between them. So do commands that put the records
of each report over their old ones, and what a report says can be read from what is printed. -/
theorem restored_turns_eq :
    (∀ store : Store, store.IsBuilt → Store.restore store.dump = .ok store) ∧
    (∀ (config : EngineConfig) (s : Session), s.store.IsBuilt → s.dispatcher.Reachable config →
      ∀ ts, s.interruptedTurns config ts = .ok (s.turns (ts.map Prod.snd))) ∧
    (∀ (config : EngineConfig) (s : Session) (desk : Desk) (old : List Record),
      s.dispatcher.Reachable config → Command.config desk.others desk.configPath = .ok config →
      Store.ofRecords old = .ok s.store →
      ∀ ts, (desk.run old ts).1 = List.zipWith desk.printed ts (s.turns ts).1 ∧
        Store.ofRecords (desk.run old ts).2 = .ok (s.turns ts).2) ∧
    ∀ height result records, Wire.report.ofJson (printedReport height result records) =
      .ok (.ofBatch height result records) := by
  refine ⟨fun store built => Store.restore_dump built, ?_, ?_, ofJson_printedReport⟩
  · intro config s built reachable ts
    exact Session.Alike.interruptedTurns ⟨rfl, built, reachable, reachable⟩ ts
  · intro config s desk old reachable configured taken ts
    exact Desk.run_eq configured reachable taken ts

namespace Sample

theorem isBuilt_ledger : ledger.IsBuilt :=
  ((((Store.IsBuilt.empty.set _ _).set _ _).set _ _).set _ _).set _ _

/-- Files with the configuration of the network of the payment. -/
def till : Desk where
  recordsPath := "records.json"
  operationsPath := "operations.json"
  configPath := some "engine.toml"
  others path := if path = "engine.toml" then some config.toToml else none
  apart := by decide
  configApart := by decide

theorem config_till : Command.config till.others till.configPath = .ok config :=
  Traversal.eq_ok_of_toOption (by decide +kernel)

def session : Session :=
  ⟨ledger, dispatcher⟩

/-- The payment once more after it was made, and an operation that has no sign. -/
def evening : List Turn :=
  [⟨⟨1⟩, [payment, unsigned]⟩, ⟨⟨2⟩, []⟩, ⟨⟨3⟩, [payment]⟩]

end Sample

theorem restored_turns_eq_evening :
    Store.restore Sample.ledger.dump = .ok Sample.ledger ∧
    Sample.session.interruptedTurns Sample.config ([true, false, true].zip Sample.evening) =
      .ok (Sample.session.turns Sample.evening) ∧
    (Sample.till.run Sample.ledger.toList Sample.evening).1 =
      List.zipWith Sample.till.printed Sample.evening (Sample.session.turns Sample.evening).1 ∧
    ∃ records, Wire.report.ofJson (printedReport .genesis .empty records) =
      .ok ⟨.genesis, [], [], records⟩ := by
  obtain ⟨restored, interrupted, chained, read⟩ := restored_turns_eq
  have reachable := Sample.reachable_dispatcher
  refine ⟨restored _ Sample.isBuilt_ledger, ?_, ?_, Sample.ledger.toList, read _ _ _⟩
  · exact interrupted _ Sample.session Sample.isBuilt_ledger reachable _
  · exact (chained _ Sample.session _ _ reachable Sample.config_till
      Sample.isBuilt_ledger.ofRecords_toList _).1

end CurrencyLedger
