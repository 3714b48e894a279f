/-! # The CRC-32 checksum

The remainder of a message by the reflected polynomial of IEEE 802.3, taken bit by bit, with all
bits set before the first byte and inverted after the last.
-/

namespace ArtifactLayout.Checksum
set_option autoImplicit false

/-- The polynomial, lowest power in the highest bit. -/
def polynomial : UInt32 := 0xedb88320

def shift (remainder : UInt32) : UInt32 :=
  if remainder &&& 1 == 1 then (remainder >>> 1) ^^^ polynomial else remainder >>> 1

/-- Takes one byte into the remainder: one shift for each of its bits. -/
def step (remainder : UInt32) (byte : UInt8) : UInt32 :=
  shift (shift (shift (shift (shift (shift (shift (shift (remainder ^^^ byte.toUInt32))))))))

def crc32 (message : List UInt8) : UInt32 := ~~~ message.foldl step 0xffffffff

end ArtifactLayout.Checksum
