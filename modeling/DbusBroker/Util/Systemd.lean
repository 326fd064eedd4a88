import DbusBroker.Util.Strings

/-!
# Unit names

The escaping of a string as a part of the name of a systemd unit, from `util/systemd.c`.
-/

namespace DbusBroker

/-- The characters that `needs_escape` looks for. -/
def unitAlphabet : Bytes :=
  lit "0123456789abcdefghijklmnopqrstuvwxyzABCDEFGHIJKLMNOPQRSTUVWXYZ:_."

/-- `needs_escape` of a byte of a string. -/
def needsEscape (c : UInt8) : Bool := !unitAlphabet.contains c

/-- The digit of a number below sixteen. -/
def hexDigit (n : UInt8) : UInt8 := (lit "0123456789abcdef").getD n.toNat 0

/-- `escape_char`. -/
def escapeChar (c : UInt8) : Bytes :=
  [byte '\\', byte 'x', hexDigit ((c >>> 4) &&& 0x0f), hexDigit (c &&& 0x0f)]

/-- One turn of the loop of `systemd_escape_unit`. -/
def escapeUnitByte (c : UInt8) : Bytes :=
  if c = byte '/' then [byte '-'] else if needsEscape c then escapeChar c else [c]

/-- `systemd_escape_unit`: a leading dot is escaped too. -/
def systemdEscapeUnit : Bytes → Bytes
  | [] => []
  | c :: rest =>
    if c = byte '.' then escapeChar c ++ rest.flatMap escapeUnitByte else (c :: rest).flatMap escapeUnitByte

end DbusBroker
