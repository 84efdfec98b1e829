import Mathlib.Data.List.DropRight
import Dnt.Library.Memory
import Dnt.Library.Scanf
import Dnt.Core.Json

/-!
# Commands of the Maintenance Layer

How command lines are read, after the loop of `oam_command.c` and the parsers of
`oam_request.c`. A line comes from a telnet connection, or, for a ping, in a message
of another node. What a command does once it has been read is not part of this.

## Main definitions

* `telnetScan`, `handleTelnetBuffer`: Taking telnet commands out of what was received.
* `Command`: What the first word of a line stands for.
* `NameBuffer`, `nameStores`: The buffers of fixed sizes that names are stored in, and the
  stores of a scan.
-/

namespace Dnt

open Scanf (Directive)

/-! ## Buffers -/

/-- The buffers that words of a command are stored in. The first three are those
of the parsers, the others are in the loop. -/
inductive NameBuffer where
  | startName
  | ifaceName
  | mepStop
  | ifname
  | mpname
  | objname
  | modulename
  | newlevel
  | target
  | type
  | cmd
  | ttyname
  | streamname
  deriving DecidableEq, Repr

def NameBuffer.size : NameBuffer → Nat
  | .startName => 64
  | .ifaceName => 64
  | .mepStop => 32
  | .ifname => 64
  | .mpname => 64
  | .objname => 64
  | .modulename => 64
  | .newlevel => 16
  | .target => 32
  | .type => 16
  | .cmd => 16
  | .ttyname => 64
  | .streamname => 32

/-- The stores of a scan: every word from the start of its buffer on, with the
zero that closes it. -/
def nameStores (scanned : Scanf.Result NameBuffer) : List (NameBuffer × Store UInt8) :=
  scanned.words.map fun e => (e.1, ⟨0, e.2 ++ [0]⟩)

/-! ## Requests -/

structure RequestArguments where
  ifaceName : List UInt8
  startName : List UInt8
  mepStop : List UInt8
  level : UInt8
  /-- The text behind the arguments. -/
  options : List UInt8
  deriving DecidableEq, Repr

structure ParsedCommand where
  scanned : Scanf.Result NameBuffer
  arguments : Except String RequestArguments

/-- `"@%s %s %s %hhd%n"`. -/
def returnFormat : List (Directive NameBuffer) :=
  [.literal 64, .word .ifaceName, .white, .word .startName, .white, .word .mepStop, .white,
   .number, .consumed]

/-- `" %s %s %hhd%n"`. -/
def plainFormat : List (Directive NameBuffer) :=
  [.white, .word .startName, .white, .word .mepStop, .white, .number, .consumed]

/-- A number that `%hhd` stores: it is read as a long, and its low octet is kept. -/
def storedOctet (value : Int) : UInt8 :=
  UInt8.ofInt (max (-9223372036854775808) (min value 9223372036854775807))

def requestArguments (type : String) (text : List UInt8) (scanned : Scanf.Result NameBuffer)
    (wanted : Nat) : Except String RequestArguments :=
  if scanned.count.getD 0 < wanted then .error (type ++ " arguments invalid")
  else .ok
    { ifaceName := (scanned.word .ifaceName).getD []
      startName := (scanned.word .startName).getD []
      mepStop := (scanned.word .mepStop).getD []
      level := storedOctet (scanned.numbers.headD 0)
      options := text.drop (scanned.consumed.getD 0) }

/-- The common part of the parsers: a return interface may come first. -/
def parseRequest (type : String) (text : List UInt8) : ParsedCommand :=
  if text.head? = some 64 then
    let scanned := Scanf.sscanf text returnFormat
    ⟨scanned, requestArguments type text scanned 4⟩
  else
    let scanned := Scanf.sscanf text plainFormat
    ⟨scanned, requestArguments type text scanned 3⟩

def parsePingCommand (oamCommand : List UInt8) (allowReturniface : Bool) : ParsedCommand :=
  if oamCommand.head? = some 64 ∧ allowReturniface = false then
    ⟨.ended false, .error "ping return interface is not allowed"⟩
  else parseRequest "ping" oamCommand

def parseRpingCommand (oamCommand : List UInt8) : ParsedCommand :=
  parseRequest "rping" oamCommand

/-- A trigger has no return interface. -/
def parseTriggerCommand (oamCommand : List UInt8) : ParsedCommand :=
  let scanned := Scanf.sscanf oamCommand plainFormat
  ⟨scanned, requestArguments "notif_trigger" oamCommand scanned 3⟩

def parseRlistCommand (oamCommand : List UInt8) : ParsedCommand :=
  parseRequest "rlist" oamCommand

/-! ## Lines -/

def telnetIac : UInt8 := 0xff

def telnetInterrupt : UInt8 := 0xf4

def telnetDo : UInt8 := 0xfd

/-- Skip telnet commands, and say whether an interrupt was one of them. A command
that is cut off ends the text. -/
def skipTelnetCommands : List UInt8 → Bool × List UInt8
  | [] => (false, [])
  | [c] => if c = telnetIac then (false, []) else (false, [c])
  | [c, d] =>
    if c ≠ telnetIac then (false, [c, d])
    else (decide (d = telnetInterrupt), [])
  | c :: d :: e :: rest =>
    if c ≠ telnetIac then (false, c :: d :: e :: rest)
    else if d = telnetInterrupt then (true, (skipTelnetCommands (e :: rest)).2)
    -- the option is part of the command
    else if d = telnetDo then skipTelnetCommands rest
    else skipTelnetCommands (e :: rest)

/-- `handle_telnet_command`. An interrupt becomes a command to stop. -/
def handleTelnetCommand (chunk : List UInt8) : List UInt8 :=
  let (stop, rest) := skipTelnetCommands chunk
  if stop then asciiOctets "stop" ++ rest else rest

def telnetWill : UInt8 := 0xfb

def telnetTimingMark : UInt8 := 6

/-- What `handle_telnet_command` has found in the buffer: how many octets belong to commands,
whether one was an interrupt, what it has answered, and the positions it has read. -/
structure TelnetScan where
  k : Nat
  stop : Bool
  reply : List UInt8
  seen : List Nat
  deriving DecidableEq, Repr

/-- The command at `k`. Of a truncated one to do something, the log shows the next octet. -/
def telnetCommand (m : Nat → UInt8) (n k : Nat) : TelnetScan :=
  if n > k + 1 then
    if m (k + 1) = telnetInterrupt then ⟨k + 2, true, [], [k, k + 1]⟩
    else if m (k + 1) = telnetDo then
      if n > k + 2 then
        ⟨k + 3, false,
          if m (k + 2) = telnetTimingMark then [telnetIac, telnetWill, telnetTimingMark] else [],
          [k, k + 1, k + 2]⟩
      else ⟨k + 2, false, [], [k, k + 1, k + 2]⟩
    else ⟨k + 2, false, [], [k, k + 1]⟩
  else ⟨k + 1, false, [], [k]⟩

theorem lt_telnetCommand (m : Nat → UInt8) (n k : Nat) : k < (telnetCommand m n k).k := by
  unfold telnetCommand
  split_ifs <;> simp

def telnetScan (m : Nat → UInt8) (n k : Nat) : TelnetScan :=
  if m k = telnetIac then
    if n ≤ (telnetCommand m n k).k then telnetCommand m n k
    else
      let first := telnetCommand m n k
      let rest := telnetScan m n first.k
      ⟨rest.k, first.stop || rest.stop, first.reply ++ rest.reply, first.seen ++ rest.seen⟩
  else ⟨k, false, [], [k]⟩
termination_by n - k
decreasing_by
  have := lt_telnetCommand m n k
  omega

/-- The buffer of a command, its length, and the positions that were read or written. -/
structure TelnetBuffer where
  octets : Nat → UInt8
  n : Nat
  touched : List Nat

/-- The text behind the commands is moved to the front, with the closing zero. -/
def moveForward (m : Nat → UInt8) (n : Nat) (scan : TelnetScan) : TelnetBuffer :=
  if scan.k > 0 then
    ⟨Memory.store m ⟨0, Memory.load m scan.k (n - scan.k + 1)⟩, n - scan.k,
      scan.seen ++ List.range' scan.k (n - scan.k + 1) ++ List.range' 0 (n - scan.k + 1)⟩
  else ⟨m, n, scan.seen⟩

def handleTelnetBuffer (m : Nat → UInt8) (n : Nat) : TelnetBuffer :=
  let scan := telnetScan m n 0
  let moved := moveForward m n scan
  if scan.stop then
    ⟨Memory.store (Memory.store moved.octets ⟨4, Memory.load moved.octets 0 (moved.n + 1)⟩)
        ⟨0, asciiOctets "stop"⟩, moved.n + 4,
      moved.touched ++ List.range' 0 (moved.n + 1) ++ List.range' 4 (moved.n + 1) ++
        List.range' 0 4⟩
  else moved

/-- A text ends at its first zero. -/
def cString (octets : List UInt8) : List UInt8 :=
  octets.takeWhile (· ≠ 0)

def upKey : List UInt8 :=
  [0x1b, 0x5b, 0x41]

/-- The line to carry out after some octets have been read, if there is one. The
up key asks for the last one. -/
def commandLine (lastCommand chunk : List UInt8) : Option (List UInt8) :=
  let text := if chunk.head? = some telnetIac then handleTelnetCommand chunk else chunk
  let trimmed := text.rdropWhile Scanf.isSpace
  if trimmed = [] then none
  else if cString trimmed = upKey then some lastCommand
  else if (cString trimmed).all Scanf.isSpace then none
  else some (cString trimmed)

inductive Command where
  | exit
  | mode
  | help
  | list
  | iface
  | mp
  | object
  | log
  | notify
  | sysmon
  | ue
  | sessions
  | stop
  | returns
  | ping
  | rping
  | notifTrigger
  | notifPull
  | rlist
  | mask
  | unmask
  | unknown
  deriving DecidableEq, Repr

/-- A test of the loop: `strcmp` with a text, or `strncmp` with all of it. -/
inductive LineTest where
  | equals (text : String)
  | begins (text : String)
  deriving DecidableEq, Repr

def LineTest.holds (line : List UInt8) : LineTest → Bool
  | .equals text => line == asciiOctets text
  | .begins text => (asciiOctets text).isPrefixOf line

/-- The tests, in the order they are made. -/
def lineTests : List (LineTest × Command) :=
  [(.equals "exit", .exit), (.equals "quit", .exit),
   -- end of transmission
   (.begins "\x04", .exit),
   (.begins "mode", .mode), (.equals "help", .help), (.equals "?", .help), (.equals "list", .list),
   (.begins "iface", .iface), (.begins "mp", .mp), (.begins "object", .object),
   (.begins "log", .log), (.begins "notify", .notify), (.begins "sysmon", .sysmon),
   (.begins "ue", .ue), (.begins "sessions", .sessions), (.begins "stop", .stop),
   (.equals "returns", .returns), (.begins "ping", .ping), (.begins "rping", .rping),
   (.begins "notif_trigger", .notifTrigger), (.begins "notif_pull", .notifPull),
   (.begins "rlist", .rlist), (.begins "mask", .mask), (.begins "unmask", .unmask)]

def Command.ofLine (line : List UInt8) : Command :=
  match lineTests.find? fun t => t.1.holds line with
  | none => .unknown
  | some t => t.2

/-- The format a command is scanned by in the loop: the text it begins with, and
the rest. -/
def Command.format : Command → Option (String × List (Directive NameBuffer))
  | .iface => some ("iface", [.white, .word .ifname])
  | .mp => some ("mp", [.white, .word .mpname])
  | .object => some ("object", [.white, .word .objname])
  | .log => some ("log", [.white, .word .modulename, .white, .word .newlevel])
  | .notify => some ("notify", [.white, .word .target, .white, .word .newlevel])
  | .sysmon =>
    some ("sysmon", [.white, .word .cmd, .white, .word .type, .white, .word .target, .white,
      .number])
  | .ue => some ("ue", [.white, .word .ttyname])
  | .sessions => some ("sessions", [.white, .word .streamname])
  | .stop => some ("stop", [.white, .word .streamname, .white, .number])
  | .mask => some ("mask", [.white, .word .streamname])
  | .unmask => some ("unmask", [.white, .word .streamname])
  | _ => none

def formatScan (command : Command) (line : List UInt8) : Scanf.Result NameBuffer :=
  match command.format with
  | none => .ended false
  | some (text, arguments) =>
    Scanf.sscanf line (Scanf.literals (asciiOctets text) ++ arguments)

def lineScan (line : List UInt8) : Scanf.Result NameBuffer :=
  match Command.ofLine line with
  | .ping => (parsePingCommand (line.drop 4) true).scanned
  | .rping => (parseRpingCommand (line.drop 5)).scanned
  | .notifTrigger => (parseTriggerCommand (line.drop 13)).scanned
  | .rlist => (parseRlistCommand (line.drop 5)).scanned
  | command => formatScan command line

/-! ## Connections -/

/-- What the loop keeps. Before the first line, the last command is whatever is in
its buffer. -/
structure CommandConnection where
  lastCommand : List UInt8
  closed : Bool
  deriving DecidableEq, Repr

/-- One round of `command_loop`: some octets are read, or none at the end. -/
def commandStep (conn : CommandConnection) (chunk : List UInt8) :
    CommandConnection × List (NameBuffer × Store UInt8) :=
  if conn.closed = true then (conn, [])
  else if chunk = [] then (⟨conn.lastCommand, true⟩, [])
  else match commandLine conn.lastCommand chunk with
    | none => (conn, [])
    | some line =>
      (⟨line, decide (Command.ofLine line = .exit)⟩, nameStores (lineScan line))

/-- The command in a message, if `process_rping_request` gets as far as to read
it. -/
def rpingCommand (js : JsonObject) : Option (List UInt8) :=
  if jsonObjectGetString js "code" = some "request" ∧
      (jsonObjectGetObject js "return").isSome = true ∧
      (jsonObjectGetString js "stream").isSome = true ∧
      (jsonObjectGetNumber js "session").isSome = true then
    (jsonObjectGetString js "command").map fun s => cString s.toUTF8.data.toList
  else none

/-- What the command in a message stores. -/
def rpingStores (js : JsonObject) : List (NameBuffer × Store UInt8) :=
  match rpingCommand js with
  | none => []
  | some command => nameStores (parsePingCommand command false).scanned

end Dnt
