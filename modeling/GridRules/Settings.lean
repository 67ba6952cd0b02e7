import GridRules.Fault

/-! Tunable settings of the controller and the ranges they must keep. -/
namespace GridRules

structure Settings where
  /-- Milliseconds between two ticks. -/
  reasonInterval : UInt32
  maxRules : UInt16
  maxModules : UInt8
  /-- Seconds between two telemetry reports. -/
  telemetryInterval : UInt32
  deriving DecidableEq

namespace Settings

def initial : Settings := ⟨1000, 32, 8, 60⟩

/-- The first setting out of its range, if any. -/
def check (s : Settings) : Except ConfigFault Unit :=
  if s.reasonInterval < 100 ∨ 60000 < s.reasonInterval then
    .error (.invalid "reason_interval_ms must be 100-60000")
  else if s.maxRules = 0 ∨ 128 < s.maxRules then
    .error (.invalid "max_rules_per_engine must be 1-128")
  else if s.maxModules = 0 ∨ 32 < s.maxModules then
    .error (.invalid "max_modules must be 1-32")
  else if s.telemetryInterval = 0 ∨ 86400 < s.telemetryInterval then
    .error (.invalid "telemetry_interval_secs must be 1-86400")
  else .ok ()

def tickSeconds (s : Settings) : Float32 := s.reasonInterval.toFloat32 / 1000

end Settings
end GridRules
