/-! # Settings of a decryptor -/

namespace ThresholdElGamal

@[ext]
structure DecryptionConfig where
  /-- The number of threads for trustee calls; zero for one per trustee. -/
  workers : UInt64 := 0
  /-- How long a round waits for its answers. -/
  trusteeTimeoutMs : UInt64 := 30000
  /-- How long a trustee keeps a batch that is not challenged. -/
  sessionTtlSecs : UInt64 := 600
  /-- The largest count that is looked for. -/
  maxDlog : UInt32 := 1000
  /-- Whether each response is checked against the commitments of its trustee. -/
  checkIndividualResponses : Bool := true
deriving DecidableEq

end ThresholdElGamal
