import CurrencyLedger.Config.Engine
import CurrencyLedger.Json.Printer
import CurrencyLedger.Toml.Reader

/-!
Configuration files: TOML text with a value under the name of each member. Other names are passed
over, and members without a value have their standard values.
-/

namespace CurrencyLedger.EngineConfig

/-- Reads a configuration, which must be in order. -/
def ofToml (s : String) : Except ConfigFault EngineConfig :=
  match (Toml.read? s).map (Wire.engineConfig.read .json) with
  | some (.ok c) => c.check.map fun _ => c
  | _ => .error .malformed

def tomlValue : Doc → String
  | .text s => Toml.quote s
  | d => Json.text d

def toToml (c : EngineConfig) : String :=
  match Wire.engineConfig.write c with
  | .record members =>
    String.join (members.map fun (name, d) => name ++ " = " ++ tomlValue d ++ "\n")
  | _ => ""

end CurrencyLedger.EngineConfig
