import Dnt.Core.Json
import Dnt.Core.Packet
import Dnt.Library.Pieces

/-!
# Notification Messages

How `notification.c` sends a message. The message is a text in JSON and is sent as a
member of another JSON object, so its quotes get a backslash on the way and count
twice for the length of a packet. A message that is too long is sent in fragments,
with a member that says which one it is.

Of the text of a packet only the length matters here: a payload that is too long for
the buffer of a packet gets no header, and is copied nevertheless.

## Main definitions

* `escapedWeight`, `serializedLength`: The characters that `json_serialize` writes.
* `sendPacket`: Whether a packet has room for an object.
* `fragmentLength`, `sendFragments`: The loops that measure and send the fragments.
* `sendNotificationMessage`: What is sent for a message.
-/

namespace Dnt

def maxNotificationLen : Nat := 1200

def quoteOctet : UInt8 := 34

inductive NotifValue where
  | number (x : ℚ)
  | string (text : List UInt8)
  deriving DecidableEq, Repr

abbrev NotifObject := HashMap NotifValue

/-- The static variables, and what the system calls say. `printf` writes a double with
17 digits in at most 24 characters. -/
structure Notifier where
  notifSessionid : Int
  notifSeq : Nat
  hostname : List UInt8
  now : ℚ
  numberLength : ℚ → Nat
  numberLength_le : ∀ x, numberLength x ≤ 24

/-- How many characters `serialize_string` writes for an octet: five control characters
have an escape of their own, and the others are written as `\u00xx`. -/
def escapedWeight (c : UInt8) : Nat :=
  if c ≤ 31 then if c = 8 ∨ c = 9 ∨ c = 10 ∨ c = 12 ∨ c = 13 then 2 else 6
  else if c = quoteOctet ∨ c = 92 then 2 else 1

def escapedLength (text : List UInt8) : Nat :=
  Pieces.weight escapedWeight text

variable (s : Notifier) (msg : List UInt8)

def NotifValue.serializedLength : NotifValue → Nat
  | .number x => s.numberLength x
  | .string text => escapedLength text + 2

/-- The length of the text of an object: its braces, and every member with its key in
quotes, a colon, and a comma if there is one more. -/
def serializedLength (pkt : NotifObject) : Nat :=
  2 + (pkt.map fun e => escapedLength (asciiOctets e.1) + 3 + e.2.serializedLength s).sum +
    (pkt.length - 1)

/-- An object that was handed to `send_packet`, and whether it went well. -/
structure SentPacket where
  object : NotifObject
  accepted : Bool

/-- The scratch space of an empty packet is its whole buffer. A payload that does not fit
is copied over the end of the buffer, and no header says where it is. From 2^32 on the
length does not fit an `unsigned`, and it is the serializer that writes over an end. -/
def sendPacket (pkt : NotifObject) : SentPacket :=
  ⟨pkt, decide (serializedLength s pkt < packetBufLen)⟩

/-- The octet at an index, and the zero that ends the text. -/
def octetAt (i : Nat) : UInt8 :=
  msg.getD i 0

def countQuotes (len : Nat) : Nat :=
  (List.range len).countP fun i => octetAt msg i = quoteOctet

/-- The loop that measures a fragment: its octets so far, and the quotes among them.
A fragment has at most 1200 octets, so it makes at most as many rounds. -/
def fragmentLength (msg : List UInt8) (fragBegin : Nat) : Nat → Nat → Nat → Nat
  | 0, l, _ => l
  | fuel + 1, l, q =>
    if l + q < maxNotificationLen then
      let c := octetAt msg ((fragBegin + l) % 2 ^ 32)
      if c = 0 then l
      else fragmentLength msg fragBegin fuel (l + 1) (if c = quoteOctet then q + 1 else q)
    else l

/-- `"%u/%u"`. -/
def fragmentLabel (i fragments : Nat) : List UInt8 :=
  asciiOctets (toString i ++ "/" ++ toString fragments)

/-- The loop over the fragments, of which `rounds` are left. -/
def sendFragments (s : Notifier) (msg : List UInt8) (fragments : Nat) :
    Nat → NotifObject → Nat → Nat → List SentPacket
  | 0, _, _, _ => []
  | rounds + 1, pkt, i, fragBegin =>
    let pkt := hashmapInsert pkt "notif_fragment" (.string (fragmentLabel (i + 1) fragments))
    let l := fragmentLength msg fragBegin maxNotificationLen 0 0
    -- `strncpy`, with a zero behind it
    let msgFrag := (msg.drop fragBegin).take l
    let pkt := hashmapInsert pkt "notif_msg" (.string msgFrag)
    sendPacket s pkt ::
      sendFragments s msg fragments rounds pkt (i + 1) ((fragBegin + l) % 2 ^ 32)

def notificationHeader : NotifObject :=
  let pkt := hashmapInsert [] "notif_session" (.number s.notifSessionid)
  let pkt := hashmapInsert pkt "notif_seq" (.number s.notifSeq)
  let pkt := hashmapInsert pkt "notif_tstamp" (.number s.now)
  hashmapInsert pkt "notif_hostname" (.string s.hostname)

/-- What is left of a length in an `unsigned`. -/
def unsignedLength : Nat :=
  msg.length % 2 ^ 32

def fragmentCount (total : Nat) : Nat :=
  let fragments := total / maxNotificationLen
  fragments + if total > fragments * maxNotificationLen then 1 else 0

/-- The packets in the order in which they are sent, and the next number. -/
def sendNotificationMessage : Notifier × List SentPacket :=
  let len := unsignedLength msg
  let pkt := notificationHeader s
  let quotes := countQuotes msg len
  let total := (len + quotes) % 2 ^ 32
  let s' := { s with notifSeq := (s.notifSeq + 1) % 2 ^ 32 }
  if total ≤ maxNotificationLen then
    (s', [sendPacket s (hashmapInsert pkt "notif_msg" (.string msg))])
  else (s', sendFragments s msg (fragmentCount total) (fragmentCount total) pkt 0 0)

end Dnt
