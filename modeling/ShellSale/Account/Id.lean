import ShellSale.Bytes.Hex

/-!
# Account ids

An account is known to the chain by 32 bytes. Accounts are ordered as the byte strings are.
-/

namespace ShellSale

/-- The id of an account: 32 bytes. -/
structure AccountId where
  bytes : Vector UInt8 32
deriving DecidableEq

namespace AccountId

/-- The bytes as a list. -/
def toList (a : AccountId) : List UInt8 :=
  a.bytes.toList

/-- The account of exactly 32 bytes. -/
def ofList? (bytes : List UInt8) : Option AccountId :=
  if h : bytes.length = 32 then some ⟨⟨bytes.toArray, h⟩⟩ else none

/-- The account whose bytes are all the same. -/
def filled (b : UInt8) : AccountId :=
  ⟨Vector.replicate 32 b⟩

/-- The account with a 256-bit number as its bytes, most significant first. -/
def ofNat (n : Nat) : AccountId :=
  ⟨Bytes.bigEndianVector 32 n⟩

/-- The bytes as one number, which orders accounts as their byte strings. -/
def toNat (a : AccountId) : Nat :=
  Bytes.ofBigEndian a.toList

/-- The bytes in hexadecimal. -/
def hex (a : AccountId) : String :=
  Bytes.toHex a.toList

instance : Inhabited AccountId := ⟨filled 0⟩

@[simp] theorem length_toList (a : AccountId) : a.toList.length = 32 := by
  simp [toList]

theorem toList_injective {a b : AccountId} (h : a.toList = b.toList) : a = b := by
  cases a; cases b
  simp only [toList, Vector.toList_inj] at h
  rw [h]

end AccountId

end ShellSale
