import ThresholdElGamal.Trustee.Message

/-! # Single-use tickets

Between the rounds a trustee keeps the seed of every open batch under the batch id. A ticket is
redeemed once; tickets that have reached the age limit are dropped on every access.
-/

namespace ThresholdElGamal

structure Ticket where
  seed : Exponent
  /-- The number of ciphertexts of the batch. -/
  size : Nat
  created : Nat
deriving DecidableEq

structure Tickets where
  /-- The age at which a ticket is stale. -/
  ttl : Nat
  entries : List (BatchId × Ticket) := []
deriving DecidableEq

namespace Tickets

def size (s : Tickets) : Nat := s.entries.length

def get? (s : Tickets) (id : BatchId) : Option Ticket := s.entries.lookup id

def erase (s : Tickets) (id : BatchId) : Tickets :=
  { s with entries := s.entries.filter (·.1 != id) }

def sweep (s : Tickets) (now : Nat) : Tickets :=
  { s with entries := s.entries.filter fun e => now - e.2.created < s.ttl }

def expire (s : Tickets) (now : Nat) : Nat × Tickets :=
  let swept := s.sweep now
  (s.size - swept.size, swept)

/-- Whether an id can be given to a new ticket. -/
def isFree (s : Tickets) (id : BatchId) : Bool := id != .none && (s.get? id).isNone

/-- Issues a ticket under the first candidate that is free. -/
def issue (s : Tickets) (now : Nat) (candidates : List BatchId) (seed : Exponent) (size : Nat) :
    Option (BatchId × Tickets) :=
  let s := s.sweep now
  (candidates.find? s.isFree).map fun id =>
    (id, { s with entries := (id, ⟨seed, size, now⟩) :: s.entries })

/-- Redeems a ticket for the seed; a wrong number of challenges leaves it in place. -/
def redeem (s : Tickets) (now : Nat) (id : BatchId) (size : Nat) :
    Except TrusteeError Exponent × Tickets :=
  let s := s.sweep now
  match s.get? id with
  | none => (.error (.unknownBatch id), s)
  | some t =>
    if t.size = size then (.ok t.seed, s.erase id)
    else (.error (.lengthMismatch id (UInt64.ofNat t.size) (UInt64.ofNat size)), s)

end Tickets

end ThresholdElGamal
