import CurrencyLedger.Hint
import CurrencyLedger.Main
import CurrencyLedger.Proofs.Money.Design
import CurrencyLedger.Proofs.Processing.Reading
import CurrencyLedger.Proofs.Processing.Charge
import CurrencyLedger.Proofs.Processing.Settlement
import CurrencyLedger.Proofs.Operation.Validity
import CurrencyLedger.Proofs.Processing.Payment
import CurrencyLedger.Proofs.Processing.Signatures
import CurrencyLedger.Proofs.Processing.Paid
import CurrencyLedger.Proofs.Ledger.Total
import CurrencyLedger.Proofs.Processing.Accounting
import CurrencyLedger.Proofs.Processing.Effect
import CurrencyLedger.Proofs.Processing.Dispatcher
import CurrencyLedger.Proofs.Processing.Batch
import CurrencyLedger.Proofs.Processing.Ownership
import CurrencyLedger.Proofs.Ledger.Overwrite
import CurrencyLedger.Proofs.Processing.Conservation
import CurrencyLedger.Proofs.Ledger.WellFormed
import CurrencyLedger.Proofs.Processing.Integrity
import CurrencyLedger.Proofs.Processing.Failure
import CurrencyLedger.Proofs.Processing.Progress
import CurrencyLedger.Proofs.Processing.Rejection
import CurrencyLedger.Proofs.Processing.Sequence
import CurrencyLedger.Proofs.Ledger.Referential
import CurrencyLedger.Proofs.Processing.References
import CurrencyLedger.Proofs.Ledger.Membership
import CurrencyLedger.Proofs.Ledger.Roster
import CurrencyLedger.Proofs.Processing.Suffrage
import CurrencyLedger.Proofs.Processing.Amendment
import CurrencyLedger.Proofs.Processing.Enrolment
import CurrencyLedger.Proofs.Processing.Replay
import CurrencyLedger.Proofs.Processing.Quorum
import CurrencyLedger.Proofs.Processing.Redesign
import CurrencyLedger.Proofs.Ledger.Ordering
import CurrencyLedger.Proofs.Processing.Distinctness
import CurrencyLedger.Proofs.Processing.Creation
import CurrencyLedger.Proofs.Processing.Commutation
import CurrencyLedger.Proofs.Wire.RoundTrip
import CurrencyLedger.Proofs.Wire.Messages
import CurrencyLedger.Proofs.Processing.Pooling
import CurrencyLedger.Proofs.Processing.Phases
import CurrencyLedger.Proofs.Json.Layout
import CurrencyLedger.Proofs.Ledger.Dump
import CurrencyLedger.Proofs.Processing.Restart
import CurrencyLedger.Proofs.Command.Chain
import CurrencyLedger.Proofs.Ledger.Atomic
import CurrencyLedger.Proofs.Processing.Minting
import CurrencyLedger.Proofs.Processing.Supply
import CurrencyLedger.Proofs.Processing.Acceptance
import CurrencyLedger.Proofs.Money.Fee
import CurrencyLedger.Proofs.Processing.Threshold
import CurrencyLedger.Proofs.Processing.Tally
import CurrencyLedger.Proofs.Processing.Envelope
import CurrencyLedger.Proofs.Cbor.Flat
import CurrencyLedger.Proofs.Identity.Canonical
import CurrencyLedger.Proofs.Identity.Schemes
import CurrencyLedger.Proofs.Json.Keys
import CurrencyLedger.Proofs.Money.Ratio
import CurrencyLedger.Proofs.Processing.Rotation
import CurrencyLedger.Proofs.Wire.Spelling
import CurrencyLedger.Proofs.Wire.Peeking
import CurrencyLedger.Proofs.Ledger.KeySpace
import CurrencyLedger.Proofs.Collection.KeyedList
import CurrencyLedger.Proofs.Governance.Roll
import CurrencyLedger.Proofs.Ledger.Merging
import CurrencyLedger.Proofs.Operation.Items
import CurrencyLedger.Proofs.Processing.Lifecycle
