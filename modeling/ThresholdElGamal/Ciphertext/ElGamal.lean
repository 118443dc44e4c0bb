import ThresholdElGamal.Group.Element

/-! # Exponential ElGamal

A count is encrypted as a power of the public key under a mask, so that multiplying ciphertexts
adds counts.
-/

namespace ThresholdElGamal

@[ext]
structure Ciphertext where
  pad : Element
  data : Element
deriving DecidableEq

namespace Ciphertext

def encrypt (publicKey : Element) (count : UInt32) (nonce : Exponent) : Ciphertext :=
  ⟨genPow nonce, publicKey ^ (nonce + Exponent.ofNat count.toNat)⟩

/-- Encrypts the count zero under every key. -/
def zero : Ciphertext := ⟨.one, .one⟩

instance : Add Ciphertext := ⟨fun a b => ⟨a.pad * b.pad, a.data * b.data⟩⟩

/-- Takes the mask off: what is left is the public key to the power of the count. -/
def unmask (c : Ciphertext) (mask : Element) : Element := c.data / mask

def decrypt (c : Ciphertext) (secret : Exponent) : Element := c.unmask (c.pad ^ secret)

theorem add_def (a b : Ciphertext) : a + b = ⟨a.pad * b.pad, a.data * b.data⟩ := rfl

end Ciphertext

end ThresholdElGamal
