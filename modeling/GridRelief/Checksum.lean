/-!
# Cyclic redundancy check

The thirty-two bit check value of a text with the reflected polynomial `0xEDB88320`, over the
bytes of its UTF-8 form. Combinations of remedial actions of equal rank are told apart by it.

## Main definitions

* `Checksum.ofString`: the check value of a text.
* `Checksum.signed`: the same bits read as a signed number.
-/

namespace GridRelief.Checksum

/-- Shift a register out by one bit. -/
def shift (register : UInt32) : UInt32 :=
  if register &&& 1 = 1 then (register >>> 1) ^^^ 0xEDB88320 else register >>> 1

/-- Take one byte into a register. -/
def feed (register : UInt32) (byte : UInt8) : UInt32 :=
  Nat.repeat shift 8 (register ^^^ byte.toUInt32)

/-- The check value of a list of bytes. -/
def ofBytes (bytes : List UInt8) : UInt32 :=
  bytes.foldl feed 0xFFFFFFFF ^^^ 0xFFFFFFFF

/-- The check value of a text. -/
def ofString (text : String) : UInt32 := ofBytes text.toUTF8.toList

/-- The check value of a text, read as a signed number. -/
def signed (text : String) : Int := (ofString text).toNat.toInt32.toInt

end GridRelief.Checksum
