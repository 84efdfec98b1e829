import Dnt.Core.ConfAction

/-!
# Constants in Configuration Lines

`read_constant` of `conf_utils.c`: a text is read as a value for a field. Numbers have to
fit into the bits of the field. An address can have a prefix length behind a slash, which
becomes the number of bits of the value.

## Main definitions

* `TextLibrary`: What the C library makes of a text, which is left open.
* `readConstant`: The value of a text, depending on the type of the field.
-/

namespace Dnt

/-- Octets of an address, as many as it has. -/
abbrev Octets (n : Nat) : Type := { octets : List UInt8 // octets.length = n }

/-- What `strtoull` finds: a number, the length of its text, and whether `errno` is `ERANGE`
afterwards. -/
structure ScannedNumber where
  num : UInt64
  len : Nat
  erange : Bool
  deriving DecidableEq, Repr

/-- The functions of the C library that read texts. `scanUnsigned` is `sscanf` for one number
with nothing behind it, and `etherPton` for six octets in hexadecimal. -/
structure TextLibrary where
  strtoull : String → ScannedNumber
  scanUnsigned : String → Option Nat
  etherPton : String → Option (Octets 6)
  inetPton : String → Option (Octets 4)
  inetPton6 : String → Option (Octets 16)

def constantError (string msg : String) : CompileError :=
  .rejected ("read_constant '" ++ string ++ "': " ++ msg)

def readBoolean (string : String) : Option Nat :=
  if string = "1" ∨ string = "true" ∨ string = "yes" then some 1
  else if string = "0" ∨ string = "false" ∨ string = "no" then some 0
  else none

def readNumber (lib : TextLibrary) (bitcount : Nat) (string : String) : Compile Nat :=
  if bitcount = 1 then orThrow (readBoolean string) (constantError string "invalid boolean")
  else if bitcount > 64 then
    .error (constantError string ("numbers are only supported up to 64 bits, " ++
      toString bitcount ++ " is too large"))
  else
    let scanned := lib.strtoull string
    if scanned.len = 0 then .error (constantError string "number is invalid")
    else if scanned.num.toNat = 2 ^ 64 - 1 ∧ scanned.erange = true then
      .error (constantError string "number is too big")
    else
      match string.toList.drop scanned.len with
      | c :: _ =>
        .error (constantError string ("invalid character '" ++ c.toString ++ "' after number"))
      | [] => .ok scanned.num.toNat

def numberConstant (val : Value) (num : Nat) (e : CompileError) : Compile Value :=
  orThrow (prepareConstantNumber val.bitoffset val.bitcount num) e

def readNumberConstant (lib : TextLibrary) (val : Value) (string : String) : Compile Value := do
  let num ← readNumber lib val.bitcount string
  numberConstant val num
    (constantError string ("number doesn't fit into " ++ toString val.bitcount ++ " bits"))

def readNexthdrConstant (val : Value) (proto : ProtocolID) (string : String) : Compile Value := do
  let getNexthdr ← orThrow (protocolFromId proto).getNexthdr
    (constantError string
      ("protocol " ++ protocolTypeFromId proto ++ " doesn't have nexthdr field"))
  let nexthdr ← orThrow (getNexthdr (protocolIdFromType string))
    (constantError string ("invalid nexthdr type '" ++ string ++ "' for protocol " ++
      protocolTypeFromId proto))
  numberConstant val nexthdr
    (constantError string ("invalid nexthdr value 0x" ++ String.ofList (Nat.toDigits 16 nexthdr) ++
      " for protocol " ++ protocolTypeFromId proto))

/-- `ZERO_SUFFIX`: only the first `n` bits are kept. -/
def zeroSuffix : List UInt8 → Nat → List UInt8
  | [], _ => []
  | a :: rest, n =>
    if n ≥ 8 then a :: zeroSuffix rest (n - 8)
    else
      (if n = 0 then 0 else a &&& UInt8.ofNat (255 * 2 ^ (8 - n))) ::
        List.replicate rest.length 0

/-- The text in front of a slash, or all of it. -/
def addressText (string : String) : String :=
  String.ofList (string.toList.takeWhile (· ≠ '/'))

def prefixText (string : String) : Option String :=
  match string.toList.dropWhile (· ≠ '/') with
  | [] => none
  | _ :: behind => some (String.ofList behind)

/-- `PROCESS_PREFIX`: the number of bits that count. -/
def readPrefixLength (lib : TextLibrary) (label : String) (maxlen : Nat) (string : String) :
    Compile Nat :=
  match prefixText string with
  | none => .ok maxlen
  | some text => do
    let n ← orThrow (lib.scanUnsigned text)
      (constantError string ("invalid " ++ label ++ " prefix"))
    require (n ≤ maxlen) (constantError string (label ++ " prefix too big"))
    return n

/-- An address of `n` octets, which has to fill its field. -/
def readAddress (lib : TextLibrary) (label name : String) (n : Nat)
    (pton : String → Option (Octets n)) (val : Value) (string : String) : Compile Value := do
  require (val.bitoffset % 8 = 0 ∧ val.bitcount = n * 8)
    (constantError string ("bitoffset " ++ toString (val.bitoffset % 8) ++ " bitcount " ++
      toString val.bitcount ++ " invalid for " ++ name))
  let bitcount ← readPrefixLength lib label (n * 8) string
  let octets ← orThrow (pton (addressText string)) (constantError string ("invalid " ++ name))
  return ⟨zeroSuffix octets.val bitcount, 0, bitcount⟩

def readMacAddress (lib : TextLibrary) : Value → String → Compile Value :=
  readAddress lib "MAC" "Ethernet address" 6 lib.etherPton

def readIpv4Address (lib : TextLibrary) : Value → String → Compile Value :=
  readAddress lib "IPv4" "IPv4 address" 4 lib.inetPton

def readIpv6Address (lib : TextLibrary) : Value → String → Compile Value :=
  readAddress lib "IPv6" "IPv6 address" 16 lib.inetPton6

def readConstant (lib : TextLibrary) (val : Value) (proto : ProtocolID) (type : ProtocolFieldType)
    (string : String) : Compile Value :=
  match type with
  | .unknown => .error (constantError string "constant cannot be unknown type")
  | .macAddress => readMacAddress lib val string
  | .ipv4Address => readIpv4Address lib val string
  | .ipv6Address => readIpv6Address lib val string
  | .nextHeader =>
    if protocolTypeValid string = true then readNexthdrConstant val proto string
    else readNumberConstant lib val string
  | .number | .tsnSeq | .srv6Seq | .tsnTstamp | .ttl | .checksum =>
    readNumberConstant lib val string

end Dnt
