import CurrencyLedger.Governance.Policy

/-!
Configuration of an engine that processes operations.
-/

namespace CurrencyLedger

structure EngineConfig where
  /-- Mixed into what is signed. -/
  network : String
  suffrageThreshold : UInt8
  /-- Idle processors that are kept of each kind. -/
  poolCapacity : UInt64
  oneOperationPerSender : Bool
  logFormat : String
  logLevel : String
deriving DecidableEq

inductive ConfigFault where
  | emptyNetwork
  | threshold (percent : Nat)
  | noPool
  | logFormat (format : String)
  | malformed
deriving DecidableEq

def ConfigFault.message : ConfigFault → String
  | .emptyNetwork => "network_id must not be empty"
  | .threshold percent => (ValidationError.threshold percent).message
  | .noPool => "pool_capacity must be over zero"
  | .logFormat format => "unknown log_format " ++ Text.quoted format
  | .malformed => "malformed configuration"

namespace EngineConfig

def standard : EngineConfig :=
  ⟨"currency-local", 67, 64, false, "human", "info"⟩

def threshold (c : EngineConfig) : Except ConfigFault Threshold :=
  (Threshold.make c.suffrageThreshold.toNat).mapError fun _ =>
    .threshold c.suffrageThreshold.toNat

def networkBytes (c : EngineConfig) : List UInt8 :=
  Text.utf8 c.network

/-- Checks the configuration and gives its threshold. -/
def check (c : EngineConfig) : Except ConfigFault Threshold := do
  if c.network.isEmpty then .error .emptyNetwork
  else
    let threshold ← c.threshold
    if c.poolCapacity = 0 then .error .noPool
    else if c.logFormat = "human" ∨ c.logFormat = "json" then .ok threshold
    else .error (.logFormat c.logFormat)

end EngineConfig

/-- A member with a value that takes its place where it is absent. -/
def Field.defaulted {α : Type} (name : String) (wire : Wire α) (value : α) : Field α where
  name := name
  wire := wire
  absent := some value
  absentLast := some value

def Wire.engineConfig : Wire EngineConfig :=
  record "struct EngineConfig"
    (.cons (.defaulted "network_id" string EngineConfig.standard.network) <|
      .cons (.defaulted "suffrage_threshold" uint8 EngineConfig.standard.suffrageThreshold) <|
      .cons (.defaulted "pool_capacity" uint64 EngineConfig.standard.poolCapacity) <|
      .cons (.defaulted "one_operation_per_sender" bool
        EngineConfig.standard.oneOperationPerSender) <|
      .cons (.defaulted "log_format" string EngineConfig.standard.logFormat) <|
      .cons (.defaulted "log_level" string EngineConfig.standard.logLevel) .nil)
    (fun c => (c.network, c.suffrageThreshold, c.poolCapacity, c.oneOperationPerSender,
      c.logFormat, c.logLevel, ()))
    (fun (network, threshold, capacity, single, format, level, ()) =>
      ⟨network, threshold, capacity, single, format, level⟩)

end CurrencyLedger
