import ThresholdElGamal.Decryption.Cipher
import ThresholdElGamal.Decryption.Flags

/-! # The record of a session

One decryption for each ciphertext, except where a trustee flagged the pad.
-/

namespace ThresholdElGamal

structure Decryptions where
  items : List (Option Decryption) := []
  flagged : Flags := .empty
  /-- The trustees that took part, in the order of the trustee list. -/
  guardianIds : List String := []
deriving DecidableEq

namespace Decryptions

def isFlagged (d : Decryptions) (position : Nat) : Bool := d.flagged.contains position

def get? (d : Decryptions) (position : Nat) : Option Decryption := d.items[position]?.join

/-- Every unflagged item carries a proof that verifies, and every flagged item carries none. -/
def verify (d : Decryptions) (texts : List Cipher) (context : ElectionContext) : Bool :=
  d.items.length == texts.length &&
    (d.items.zip texts).zipIdx.all fun ((item, text), i) =>
      match item with
      | some item => !d.isFlagged i && item.verify text context
      | none => d.isFlagged i

end Decryptions

end ThresholdElGamal
