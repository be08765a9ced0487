import AnchorHarness.Text.Radix

/-!
# Program addresses

An address is thirty-two bytes, written in base 58. A zero byte in front is written as a `1`, and
the remaining bytes as one number. A text is refused before it is read if it is longer than any
address can be.
-/

namespace AnchorHarness.Program

/-- The digits of base 58: neither `0`, `O`, `I` nor `l` is one. -/
def alphabet : List Char :=
  "123456789ABCDEFGHJKLMNPQRSTUVWXYZabcdefghijkmnopqrstuvwxyz".toList

def digitValue? (c : Char) : Option Nat := alphabet.findIdx? (· == c)

def digitOfValue (n : Nat) : Char := (alphabet[n]?).getD '1'

/-- The values of the digits of a text, if all of its characters are digits. -/
def digitValues? (cs : List Char) : Option (List Nat) := cs.mapM digitValue?

def bytesOfValues (values : List Nat) : List Nat := Text.recode 56 254 values

def valuesOfBytes (bytes : List Nat) : List Nat := Text.recode 254 56 bytes

/-- Thirty-two bytes that name a program. -/
structure Address where
  bytes : List Nat
  size : bytes.length = 32

/-- Why a text is no address. -/
inductive AddressFault where
  | wrongSize
  | notBase58
  deriving DecidableEq, Repr

def AddressFault.message : AddressFault → String
  | .wrongSize => "String is the wrong size"
  | .notBase58 => "Invalid Base58 string"

def longestText : Nat := 44

def Address.parse (text : String) : Except AddressFault Address :=
  if longestText < text.utf8ByteSize then .error .wrongSize
  else match digitValues? text.toList with
    | none => .error .notBase58
    | some values =>
      if h : (bytesOfValues values).length = 32 then .ok ⟨bytesOfValues values, h⟩
      else .error .wrongSize

def Address.text (a : Address) : String := String.ofList ((valuesOfBytes a.bytes).map digitOfValue)

end AnchorHarness.Program
