import ThresholdElGamal.ConfigFile
import ThresholdElGamal.Json.Indent
import ThresholdElGamal.Simulation
import ThresholdElGamal.Wire.Ballot

/-! # The command line

Simulates an election and prints its tally with the counters of the decryptor and the guardians.
-/

namespace ThresholdElGamal

namespace CommandLine

structure Options where
  configPath : Option String := none
  parameters : Simulation.Parameters := {}
deriving DecidableEq

def usage : String :=
  "usage: [-c|--config FILE] [-n|--guardians COUNT] [-k|--quorum COUNT] [-p|--present X,X,...] " ++
    "[-b|--ballots COUNT] [--selections COUNT] [--seed SEED]"

def word? (s : String) : Option UInt32 := do
  let n ← s.toNat?
  if n < UInt32.size then some (UInt32.ofNat n) else none

def seed? (s : String) : Option UInt64 := do
  let n ← s.toNat?
  if n < UInt64.size then some (UInt64.ofNat n) else none

def Options.set? (o : Options) (name value : String) : Option Options := do
  let p := o.parameters
  match name with
  | "-c" | "--config" => return { o with configPath := some value }
  | "-n" | "--guardians" => return { o with parameters := { p with guardians := ← word? value } }
  | "-k" | "--quorum" => return { o with parameters := { p with quorum := ← word? value } }
  | "-p" | "--present" =>
    let xs ← (value.splitOn ",").mapM word?
    return { o with parameters := { p with present := p.present ++ xs } }
  | "-b" | "--ballots" => return { o with parameters := { p with ballots := ← value.toNat? } }
  | "--selections" => return { o with parameters := { p with selections := ← value.toNat? } }
  | "--seed" => return { o with parameters := { p with seed := ← seed? value } }
  | _ => none

/-- Reads options, each followed by its value. -/
def Options.read? (o : Options) : List String → Option Options
  | [] => some o
  | name :: value :: rest => (o.set? name value).bind (·.read? rest)
  | [_] => none

def encodeReport (r : Simulation.Report) : Json.Value :=
  .record
    [("tally", Wire.encode r.tally), ("decryptor", Wire.encode r.decryptor),
      ("guardians", Wire.encode r.guardians)]

def loadConfig : Option String → EIO ConfigFile.Failure DecryptionConfig
  | none => return {}
  | some path => ConfigFile.load path

/-- Runs the simulation that the arguments describe; the result is the exit code. -/
def run (args : List String) : IO UInt32 := do
  match ({} : Options).read? args with
  | none =>
    IO.eprintln usage
    return 1
  | some options =>
    match ← EIO.toBaseIO (loadConfig options.configPath) with
    | .error failure =>
      IO.eprintln s!"Error: {failure.message}"
      return 1
    | .ok config =>
      match Simulation.simulate options.parameters config with
      | .ok report =>
        IO.println (encodeReport report).toLines
        return 0
      | .error failure =>
        IO.eprint s!"Error: {failure.message}"
        return 1

end CommandLine

end ThresholdElGamal

def main (args : List String) : IO UInt32 := ThresholdElGamal.CommandLine.run args
