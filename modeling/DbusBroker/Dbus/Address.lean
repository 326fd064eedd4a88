import DbusBroker.Dbus.Protocol

/-!
# Addresses

The classification of destination and sender strings in `dbus/address.c`. A unique name is
an id when `strtoull` accepts everything behind `:1.`; this function also skips white space,
takes a sign and does not mind leading zeros.
-/

namespace DbusBroker

/-- An address: an id of a peer, a well-known name, or something else. -/
inductive Address where
  | other
  | id (id : ℕ)
  | name (name : Bytes)
  deriving DecidableEq, Repr

/-- What `strtoull` reports: the value, the unread rest, and whether it was out of range. -/
structure Strtoull where
  value : ℕ
  rest : Bytes
  range : Bool

/-- The white space of `isspace`. -/
def isSpace (c : UInt8) : Bool := c = byte ' ' || (9 ≤ c && c ≤ 13)

/-- The value of decimal digits behind a number. -/
def decimalFrom (digits : Bytes) (n : ℕ) : ℕ := digits.foldl (fun n c => n * 10 + (c - byte '0').toNat) n

/-- The number that decimal digits stand for. -/
def decimal (digits : Bytes) : ℕ := decimalFrom digits 0

/-- Read decimal digits onto a value. -/
def readDigits : Bytes → ℕ → ℕ × Bytes
  | [], value => (value, [])
  | c :: rest, value =>
    if isDigit c then readDigits rest (value * 10 + (c - byte '0').toNat) else (value, c :: rest)

/-- `strtoull` with base 10; nothing is read where there are no digits. -/
def strtoull (string : Bytes) : Strtoull :=
  let trimmed := string.dropWhile isSpace
  let (negative, digits) := match trimmed with
    | c :: rest => if c = byte '-' then (true, rest) else if c = byte '+' then (false, rest) else (false, trimmed)
    | [] => (false, trimmed)
  let (value, rest) := readDigits digits 0
  if rest.length = digits.length then ⟨0, string, false⟩
  else if 2 ^ 64 ≤ value then ⟨2 ^ 64 - 1, rest, true⟩
  else if negative then ⟨(2 ^ 64 - value) % 2 ^ 64, rest, false⟩
  else ⟨value, rest, false⟩

/-- `address_from_string`. -/
def addressFromString (string : Bytes) : Address :=
  match string with
  | [] => .other
  | c :: _ =>
    if c = byte ':' then
      match stringPrefix string (lit ":1.") with
      | none => .other
      | some digits =>
        let r := strtoull digits
        if r.rest.length = digits.length || !r.rest.isEmpty || r.range || r.value == 2 ^ 64 - 1 then .other
        else .id r.value
    else .name string

/-- `address_to_string` of an id. -/
def addressIdToString (id : ℕ) : Bytes := lit ":1." ++ lit (toString id)

/-- The id a string denotes, if it is one. -/
def addressId (string : Bytes) : Option ℕ :=
  match addressFromString string with
  | .id id => some id
  | _ => none

example : addressFromString (lit ":1.42") = .id 42 := by decide
example : addressFromString (lit ":1.05") = .id 5 := by decide
example : addressFromString (lit ":2.5") = .other := by decide
example : addressFromString (lit "com.example") = .name (lit "com.example") := by decide

end DbusBroker
