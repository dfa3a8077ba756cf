import EgosNet.Foundation.Run
import EgosNet.Foundation.Memory
import EgosNet.Foundation.Fifo
import EgosNet.Foundation.Words
import EgosNet.Foundation.Queue
import EgosNet.Foundation.Bits
import EgosNet.Foundation.Fallible
import EgosNet.Foundation.Text
import EgosNet.Foundation.Int32
import EgosNet.Foundation.LineEdit
import EgosNet.Foundation.OnesComplement
import EgosNet.Foundation.Pieces
import EgosNet.Foundation.Cache
import EgosNet.Foundation.Parts
import EgosNet.Foundation.Loop
import EgosNet.Earth.RxRing
import EgosNet.Earth.TxRing
import EgosNet.Earth.PageTable
import EgosNet.Earth.Ownership
import EgosNet.Earth.Mapping
import EgosNet.Earth.Release
import EgosNet.Earth.AddressSpaces
import EgosNet.Earth.Custody
import EgosNet.Earth.Tables
import EgosNet.Earth.Region
import EgosNet.Grass.Mlfq
import EgosNet.Grass.Discipline
import EgosNet.Grass.Keeping
import EgosNet.Grass.Choice
import EgosNet.Grass.Waiting
import EgosNet.Files.Directory
import EgosNet.Files.RoundTrip
import EgosNet.Files.Soundness
import EgosNet.Apps.SysProc
import EgosNet.Syscall.TermRead
import EgosNet.Uip.State
import EgosNet.Uip.Output
import EgosNet.Uip.Input
import EgosNet.Uip.Transitions
import EgosNet.Uip.Delivery
import EgosNet.Uip.Arp
import EgosNet.Uip.Options
import EgosNet.Uip.Connection
import EgosNet.Uip.Checksum
import EgosNet.Uip.Wire
import EgosNet.Uip.Timer
import EgosNet.Service.Httpd
import EgosNet.Service.SysNet
import EgosNet.Service.Poll
import EgosNet.Service.Bridge
import EgosNet.Service.Served
import EgosNet.Service.Peer
import EgosNet.Service.ReceiveStream
import EgosNet.Service.Close
import EgosNet.Service.Isolation
import EgosNet.Service.Resume
import EgosNet.Service.Effect
import EgosNet.Service.Coherence
import EgosNet.Service.Kick
import EgosNet.Service.Listen
import EgosNet.Service.Lifecycle
import EgosNet.Service.Acceptance
import EgosNet.Service.Sequence
import EgosNet.Service.Shutdown
import EgosNet.Service.SendStream
import EgosNet.Service.Handover
import EgosNet.Service.Receipt
import EgosNet.Service.StopAndWait
import EgosNet.Service.Buffers
import EgosNet.Service.Malformed
import EgosNet.Service.PartialReads
import EgosNet.Service.Provenance
import EgosNet.Service.Overlay
import EgosNet.Service.Table
import EgosNet.Service.Told
import EgosNet.Service.InOrder
import EgosNet.Service.WireFormat
import EgosNet.Service.ArpCache
import EgosNet.Service.ArpAge
import EgosNet.Service.Answers
import EgosNet.Service.Host
import EgosNet.Service.Strangers
import EgosNet.Service.Timeout
import EgosNet.Apps.Http
