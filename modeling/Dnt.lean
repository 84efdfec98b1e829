import Dnt.Theory.Recovery.Hitless
import Dnt.Theory.Recovery.Seamless
import Dnt.Theory.Recovery.Mask
import Dnt.Theory.Streams.Related
import Dnt.Theory.Pof.Restart
import Dnt.Theory.Pof.Wrap
import Dnt.Theory.Delay.Arrival
import Dnt.Theory.Delay.Shutdown
import Dnt.Theory.Packet.Lines
import Dnt.Theory.Packet.Classify
import Dnt.Theory.Actions.TtlCheck
import Dnt.Theory.Oam.Bounds
import Dnt.Theory.Oam.Chain
import Dnt.Theory.Command.Names
import Dnt.Theory.Command.Telnet
import Dnt.Theory.Interface.Release
import Dnt.Theory.Oam.Holders
import Dnt.Theory.Threads.Queue
import Dnt.Theory.Interface.Fifo
import Dnt.Theory.Interface.Lifetime
import Dnt.Theory.Oam.Counters
import Dnt.Theory.Oam.Accounting
import Dnt.Theory.Recovery.Sessions
import Dnt.Theory.Notification.Sizes
import Dnt.Theory.Fields.Property
import Dnt.Theory.Packet.Coverage
import Dnt.Theory.Packet.Ttl
import Dnt.Theory.Recovery.Losses
import Dnt.Theory.Actions.AutoMip
import Dnt.Theory.Delay.Punctual
import Dnt.Theory.Packet.MatchLines
import Dnt.Theory.Recovery.Diagnostic
import Dnt.Theory.Recovery.Timeout
import Dnt.Theory.Recovery.Cells
import Dnt.Theory.Oam.Marks
import Dnt.Theory.Packet.Serialize
import Dnt.Theory.Packet.Linear
import Dnt.Theory.Fields.Constant
import Dnt.Theory.Oam.Definitions
import Dnt.Theory.Oam.AutoName
import Dnt.Theory.Oam.Inject
import Dnt.Theory.Actions.Order
import Dnt.Theory.Interface.SourceAddress
import Dnt.Theory.Interface.Destination
import Dnt.Theory.Pipeline.Isolation
