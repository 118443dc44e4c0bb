import ThresholdElGamal.Nonces
import ThresholdElGamal.Record.Metrics
import ThresholdElGamal.Trustee.Tickets

/-! # Key holders

A trustee that holds a key share. In round one it draws a seed, answers with commitments to the
nonces of the seed and keeps the seed under a ticket; in round two it regenerates the nonces
and answers the challenges.
-/

namespace ThresholdElGamal

structure TrusteeProfile where
  id : String
  xCoordinate : UInt32
  publicKey : Element
deriving DecidableEq

structure KeyHolder where
  profile : TrusteeProfile
  keyShare : Exponent
  tickets : Tickets
  metrics : Metrics := {}

/-- The contribution of a key share for one pad, under a nonce. -/
def PartialDecryption.ofShare (share nonce : Exponent) (pad : Element) : PartialDecryption :=
  ⟨pad ^ share, genPow nonce, pad ^ nonce⟩

/-- The response of a key share to a challenge, under a nonce. -/
def Exponent.respond (share nonce challenge : Exponent) : Exponent := nonce - challenge * share

/-- The positions of the pads that are not valid residues. -/
def invalidPads (pads : List Element) : List UInt64 :=
  pads.zipIdx.filterMap fun (pad, i) => if pad.isResidue then none else some (UInt64.ofNat i)

namespace KeyHolder

def new (profile : TrusteeProfile) (keyShare : Exponent) (ttl : Nat) : KeyHolder :=
  { profile, keyShare, tickets := { ttl } }

def nonces (t : KeyHolder) (seed : Exponent) : Nonces := ⟨seed, t.profile.id⟩

def openSessions (t : KeyHolder) : Nat := t.tickets.size

def expire (t : KeyHolder) (now : Nat) : Nat × KeyHolder :=
  let (dropped, tickets) := t.tickets.expire now
  (dropped, { t with tickets })

/-- Round one with a fresh seed; none if no candidate can be the batch id. -/
def decrypt (t : KeyHolder) (now : Nat) (candidates : List BatchId) (seed : Exponent)
    (pads : List Element) : Option (PartialDecryptions × KeyHolder) :=
  let called := t.metrics.addTrusteeCalls 1
  if pads.isEmpty then some (⟨.none, [], []⟩, { t with metrics := called })
  else
    let nonces := t.nonces seed
    (t.tickets.issue now candidates seed pads.length).map fun (batchId, tickets) =>
      ({ batchId
         partials := pads.zipIdx.map fun (pad, i) =>
           .ofShare t.keyShare (nonces.atPosition i) pad
         invalidPads := invalidPads pads },
       { t with tickets, metrics := called.addExponentiations (3 * UInt64.ofNat pads.length) })

/-- Round two. -/
def challenge (t : KeyHolder) (now : Nat) (batchId : BatchId) (challenges : List Exponent) :
    Except TrusteeError ChallengeResponses × KeyHolder :=
  let (seed, tickets) := t.tickets.redeem now batchId challenges.length
  let answer := seed.map fun seed =>
    let nonces := t.nonces seed
    { batchId
      responses := challenges.zipIdx.map fun (c, i) =>
        t.keyShare.respond (nonces.atPosition i) c }
  (answer, { t with tickets, metrics := t.metrics.addTrusteeCalls 1 })

end KeyHolder

end ThresholdElGamal
