import SikMimuw.Lib.Run
import SikMimuw.Lib.Containers
import SikMimuw.Lib.Words
import SikMimuw.Lib.Progression
import SikMimuw.Lib.Window
import SikMimuw.Model.Buffor
import SikMimuw.Proof.Buffor
import SikMimuw.Proof.Loop
import SikMimuw.Proof.Eviction
import SikMimuw.Proof.Shape
import SikMimuw.Proof.Ahead
import SikMimuw.Proof.Termination
import SikMimuw.Proof.Duplicate
import SikMimuw.Model.Playback
import SikMimuw.Proof.Playback
import SikMimuw.Lib.Mutex
import SikMimuw.Model.Threads
import SikMimuw.Proof.Receiver
import SikMimuw.Proof.Threads
import SikMimuw.Proof.Provenance
import SikMimuw.Proof.Prefill
import SikMimuw.Proof.Lifetime
import SikMimuw.Proof.Snapshot
import SikMimuw.Lib.CString
import SikMimuw.Lib.Scanf
import SikMimuw.Model.Ctrl
import SikMimuw.Model.Discovery
import SikMimuw.Proof.Requests
import SikMimuw.Proof.Handshake
import SikMimuw.Proof.Reply
import SikMimuw.Model.Menu
import SikMimuw.Proof.Menu
import SikMimuw.Proof.Preferred
import SikMimuw.Proof.Navigation
import SikMimuw.Proof.Order
import SikMimuw.Proof.Expiry
import SikMimuw.Model.Terminal
import SikMimuw.Proof.Terminal
import SikMimuw.Model.Lookup
import SikMimuw.Proof.Lookup
import SikMimuw.Model.Wire
import SikMimuw.Model.Datagram
import SikMimuw.Proof.Length
import SikMimuw.Proof.Session
import SikMimuw.Model.Sender
import SikMimuw.Proof.Sender
import SikMimuw.Proof.Blocks
import SikMimuw.Proof.Replay
import SikMimuw.Proof.Stdin
import SikMimuw.Lib.Memory
import SikMimuw.Model.Connection
import SikMimuw.Proof.Connection
import SikMimuw.Model.Server
import SikMimuw.Proof.Server
import SikMimuw.Model.Transfer
import SikMimuw.Proof.Transfer
import SikMimuw.Proof.Codec
import SikMimuw.Model.Big.Set
import SikMimuw.Proof.Big.Set
import SikMimuw.Model.Big.Fifo
import SikMimuw.Proof.Big.Fifo
import SikMimuw.Proof.Segments
import SikMimuw.Lib.Getopt
import SikMimuw.Model.Arguments
import SikMimuw.Proof.Arguments
import SikMimuw.Proof.Grammar
import SikMimuw.Lib.Ring
import SikMimuw.Model.Big.Buffor
import SikMimuw.Proof.Big.CheckSet
import SikMimuw.Proof.Big.Packages
import SikMimuw.Model.Output
import SikMimuw.Proof.Output
import SikMimuw.Lib.Transducer
import SikMimuw.Model.Telnet
import SikMimuw.Proof.Telnet
import SikMimuw.Proof.Negotiation
import SikMimuw.Model.Message
import SikMimuw.Proof.Message
import SikMimuw.Lib.Simulation
import SikMimuw.Model.Atomic
import SikMimuw.Proof.Sections
import SikMimuw.Model.Broadcast
import SikMimuw.Proof.Broadcast
import SikMimuw.Proof.Contiguous
import SikMimuw.Proof.Reassembly
import SikMimuw.Proof.Repair
import SikMimuw.Lib.Descent
import SikMimuw.Proof.Shutdown
import SikMimuw.Model.Big.Reassembly
import SikMimuw.Proof.Big.Memory
import SikMimuw.Proof.Big.Layout
import SikMimuw.Proof.Big.Reassembly
import SikMimuw.Proof.Big.Playing
import SikMimuw.Proof.Big.Rewrite
import SikMimuw.Proof.Exit
import SikMimuw.Lib.Screen
import SikMimuw.Proof.Screen
import SikMimuw.Lib.Checksum
import SikMimuw.Model.Ping
import SikMimuw.Proof.Ping
import SikMimuw.Lib.Relay
import SikMimuw.Model.Echo
import SikMimuw.Proof.Echo
import SikMimuw.Lib.Framing
import SikMimuw.Model.Nums
import SikMimuw.Proof.Nums
