/-! # Counters

What a component has spent so far. Counters wrap around.
-/

namespace ThresholdElGamal

@[ext]
structure Metrics where
  exponentiations : UInt64 := 0
  trusteeCalls : UInt64 := 0
  sessions : UInt64 := 0
deriving DecidableEq

namespace Metrics

def addExponentiations (m : Metrics) (n : UInt64) : Metrics :=
  { m with exponentiations := m.exponentiations + n }

def addTrusteeCalls (m : Metrics) (n : UInt64) : Metrics :=
  { m with trusteeCalls := m.trusteeCalls + n }

def addSession (m : Metrics) : Metrics := { m with sessions := m.sessions + 1 }

instance : Sub Metrics where
  sub later earlier :=
    { exponentiations := later.exponentiations - earlier.exponentiations
      trusteeCalls := later.trusteeCalls - earlier.trusteeCalls
      sessions := later.sessions - earlier.sessions }

end Metrics

end ThresholdElGamal
