import ThresholdElGamal.Hash.Sha256

/-! # HMAC-SHA-256

A key longer than a block is replaced by its digest; a shorter one is filled up with zeros.
-/

namespace ThresholdElGamal.Hmac

/-- A keyed hash: key, message, digest. -/
abbrev Mac := Bytes → Bytes → Digest

def blockKey (key : Bytes) : Bytes :=
  let key := if 64 < key.length then (Sha256.digest key).bytes else key
  key ++ List.replicate (64 - key.length) 0

def mac (key message : Bytes) : Digest :=
  let key := blockKey key
  let inner := Sha256.digest (key.map (· ^^^ 0x36) ++ message)
  Sha256.digest (key.map (· ^^^ 0x5c) ++ inner.bytes)

end ThresholdElGamal.Hmac
