import KeyRemap.Fault
import KeyRemap.Json

/-!
# Faults as JSON
-/
namespace KeyRemap

def Fault.toJson (f : Fault) : Json := .object (Json.present [
  ("line", some (.int f.position.line)), ("column", some (.int f.position.column)),
  ("message", some (.string f.message)), ("suggestion", f.hint.map .string)])

end KeyRemap
