import UnixAncillary.Lib.ByteCodec
import UnixAncillary.Lib.HandleTable
import UnixAncillary.Lib.Program
import UnixAncillary.Lib.Retry
import UnixAncillary.Lib.Sealing
import UnixAncillary.Lib.Machine
import UnixAncillary.Lib.Custody
import UnixAncillary.Lib.Marked
import UnixAncillary.Lib.GrowVec
import UnixAncillary.Lib.Liveness
import UnixAncillary.Lib.Channel
import UnixAncillary.Layout
import UnixAncillary.RawMessages
import UnixAncillary.World
import UnixAncillary.Received
import UnixAncillary.Format
import UnixAncillary.Ancillary
import UnixAncillary.ParserSafety
import UnixAncillary.Truncation
import UnixAncillary.Building
import UnixAncillary.Platform
import UnixAncillary.Cmsg
import UnixAncillary.Lowlevel
import UnixAncillary.Messages
import UnixAncillary.Ownership
import UnixAncillary.Ext
import UnixAncillary.Sockets
import UnixAncillary.Transparency
import UnixAncillary.Policy
import UnixAncillary.Capacity
import UnixAncillary.Sends
import UnixAncillary.SendAll
import UnixAncillary.Modes
import UnixAncillary.Receives
import UnixAncillary.Handoff
import UnixAncillary.Acceptance
import UnixAncillary.FlatReceive
import UnixAncillary.Cloexec
import UnixAncillary.PayloadRule
import UnixAncillary.Sizing
import UnixAncillary.Receptions
import UnixAncillary.Transmissions
import UnixAncillary.Process
import UnixAncillary.Vectored
import UnixAncillary.BufferRuns
import UnixAncillary.ByHand
import UnixAncillary.Migration
import UnixAncillary.Arrivals
import UnixAncillary.SingleSends
import UnixAncillary.Exchange
import UnixAncillary.Streams
import UnixAncillary.FairRuns
import UnixAncillary.Inheritance
import UnixAncillary.Readings
import UnixAncillary.Inbox
import UnixAncillary.Multiprocess
import UnixAncillary.Taps
