/-! # The group parameters and modular powers

The modulus is the 1536-bit MODP safe prime, so half of the modulus less one is prime too and
is the order of the subgroup that four generates.
-/

namespace ThresholdElGamal

/-- The prime `p`: arithmetic on group elements is modulo it. -/
def modulus : Nat :=
  0xFFFFFFFFFFFFFFFFC90FDAA22168C234C4C6628B80DC1CD129024E088A67CC74020BBEA63B139B22514A08798E3404DDEF9519B3CD3A431B302B0A6DF25F14374FE1356D6D51C245E485B576625E7EC6F44C42E9A637ED6B0BFF5CB6F406B7EDEE386BFB5A899FA5AE9F24117C4B1FE649286651ECE45B3DC2007CB8A163BF0598DA48361C55D39A69163FA8FD24CF5F83655D23DCA3AD961C62F356208552BB9ED529077096966D670C354E4ABC9804F1746C08CA237327FFFFFFFFFFFFFFFF

/-- The prime `q`: arithmetic on exponents is modulo it. -/
def order : Nat := (modulus - 1) / 2

def width : Nat := 192

/-- Square and multiply over the lowest `bits` bits of the exponent. -/
def powModBits (m : Nat) : (bits base exponent : Nat) → Nat
  | 0, _, _ => 1 % m
  | bits + 1, base, exponent =>
    let rest := powModBits m bits (base * base % m) (exponent / 2)
    if exponent % 2 = 1 then base * rest % m else rest

def powMod (m base exponent : Nat) : Nat :=
  powModBits m (exponent.log2 + 1) base exponent

end ThresholdElGamal
