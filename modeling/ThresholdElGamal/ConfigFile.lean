import ThresholdElGamal.Json.Parse
import ThresholdElGamal.Wire.Session

/-! # Settings files -/

namespace ThresholdElGamal.ConfigFile

inductive Failure where
  | unopened (cause : IO.Error)
  /-- The file cannot be read to its end, or it holds no settings. -/
  | malformed

def Failure.message : Failure → String
  | unopened cause => s!"I/O error: {cause}"
  | malformed => "JSON error: malformed settings"

def parse (text : String) : Except Failure DecryptionConfig :=
  match (Json.parse? text).bind Wire.decode with
  | some config => .ok config
  | none => .error .malformed

def load (path : String) : EIO Failure DecryptionConfig := do
  let file ← EIO.adapt .unopened (IO.FS.Handle.mk path .read)
  -- A directory opens, but there is no text in it.
  let text ← EIO.adapt (fun _ => .malformed) file.readToEnd
  EIO.ofExcept (parse text)

end ThresholdElGamal.ConfigFile
