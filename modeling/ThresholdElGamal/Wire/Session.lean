import ThresholdElGamal.Decryption.Config
import ThresholdElGamal.Decryption.Decryptions
import ThresholdElGamal.Json.Parse
import ThresholdElGamal.Record.Metrics
import ThresholdElGamal.Wire.Ciphertext

/-! # Session records and settings on the wire

Flags are an object whose keys are positions. A position is read from the spelling of its key:
decimal digits without sign, leading zero or escape. Of a repeated position the last entry
counts.
-/

namespace ThresholdElGamal.Wire

open Json (Value Key)

def decodePosition (k : Key) : Option UInt64 :=
  if k.escaped then none
  else do
    let cs := (← k.text).toList
    match Json.integerPart? cs with
    | some (ds, []) =>
      let n := Json.ofDigits ds
      if n < UInt64.size then some (UInt64.ofNat n) else none
    | _ => none

def decodeFlag (flags : Flags) (member : Key × Value) : Option Flags := do
  return flags.set (← decodePosition member.1) (← decode member.2)

instance : Wire Flags where
  encode flags := .record (flags.entries.map fun (i, reasons) =>
    (String.ofList (Json.printNat i.toNat), encode reasons))
  decode
    | .object members => members.foldlM decodeFlag .empty
    | _ => none

instance : Wire Decryptions where
  encode d := .record
    [("items", encode d.items), ("flagged", encode d.flagged),
      ("guardian_ids", encode d.guardianIds)]
  decode v := do
    match ← v.slots? ["items", "flagged", "guardian_ids"] with
    | [items, flagged, guardianIds] =>
      return ⟨← required decode items, ← required decode flagged, ← required decode guardianIds⟩
    | _ => none

instance : Wire Metrics where
  encode m := .record
    [("exponentiations", encode m.exponentiations), ("trustee_calls", encode m.trusteeCalls),
      ("sessions", encode m.sessions)]
  decode v := do
    match ← v.slots? ["exponentiations", "trustee_calls", "sessions"] with
    | [exponentiations, trusteeCalls, sessions] =>
      return ⟨← required decode exponentiations, ← required decode trusteeCalls,
        ← required decode sessions⟩
    | _ => none

/-- Every setting that is left out has its default. -/
instance : Wire DecryptionConfig where
  encode c := .record
    [("workers", encode c.workers), ("trustee_timeout_ms", encode c.trusteeTimeoutMs),
      ("session_ttl_secs", encode c.sessionTtlSecs), ("max_dlog", encode c.maxDlog),
      ("check_individual_responses", encode c.checkIndividualResponses)]
  decode v := do
    let default : DecryptionConfig := {}
    match ← v.slots? ["workers", "trustee_timeout_ms", "session_ttl_secs", "max_dlog",
        "check_individual_responses"] with
    | [workers, timeout, ttl, maxDlog, check] =>
      return ⟨← orDefault default.workers decode workers,
        ← orDefault default.trusteeTimeoutMs decode timeout,
        ← orDefault default.sessionTtlSecs decode ttl,
        ← orDefault default.maxDlog decode maxDlog,
        ← orDefault default.checkIndividualResponses decode check⟩
    | _ => none

end ThresholdElGamal.Wire
