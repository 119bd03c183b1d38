import ShellSale.Bytes.Hex

/-!
# Block hashes
-/

namespace ShellSale

/-- The hash of a block: 32 bytes. -/
structure BlockHash where
  bytes : Vector UInt8 32
deriving DecidableEq

namespace BlockHash

/-- The hash of exactly 32 bytes. -/
def ofList? (bytes : List UInt8) : Option BlockHash :=
  if h : bytes.length = 32 then some ⟨⟨bytes.toArray, h⟩⟩ else none

/-- The hash with a number as its bytes, most significant first. -/
def ofNat (n : Nat) : BlockHash :=
  ⟨Bytes.bigEndianVector 32 n⟩

/-- The hash in hexadecimal, in full. -/
def hex (b : BlockHash) : String :=
  Bytes.toHex b.bytes.toList

instance : Inhabited BlockHash := ⟨ofNat 0⟩

instance : ToString BlockHash := ⟨hex⟩

end BlockHash

end ShellSale
