/-!
# Text of numbers

Addresses and offsets are written in hexadecimal, and the columns of a heap map are padded to a width. Every text the
allocator prints is built from these three functions and decimal numbers.
-/

namespace SegregatedFit

/-- A number in hexadecimal: `0x`, then the lower-case digits without leading zeros, padded with zeros to `digits`
digits. -/
def hexPadded (digits n : Nat) : String :=
  "0x" ++ String.ofList ((Nat.toDigits 16 n).leftpad digits '0')

/-- A number in hexadecimal with as many digits as it needs. -/
def hex (n : Nat) : String := hexPadded 1 n

/-- A text moved to the right end of a column of `width` characters; a longer text keeps all its characters. -/
def alignRight (width : Nat) (text : String) : String :=
  String.ofList (text.toList.leftpad width ' ')

/-- A text moved to the left end of a column of `width` characters; a longer text keeps all its characters. -/
def alignLeft (width : Nat) (text : String) : String :=
  String.ofList (text.toList.rightpad width ' ')

end SegregatedFit
