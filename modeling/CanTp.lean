import CanTp.Library.Mealy
import CanTp.Library.Buffer
import CanTp.Library.Reentrant
import CanTp.Dispatch
import CanTp.Sender.Blocks
import CanTp.Sender.Announcement
import CanTp.Sender.Ports
import CanTp.Receiver.Wire
import CanTp.Link.Blocks
import CanTp.Flow.Trace
import CanTp.Flow.Failure
import CanTp.Flow.Separation
import CanTp.Flow.Pacing
import CanTp.Tasks.WakeUp
import CanTp.Tasks.EarlyFlow
import CanTp.Sender.Arithmetic
import CanTp.Sender.Refusal
import CanTp.Receiver.Timer
import CanTp.Receiver.Source
import CanTp.Receiver.Tables
import CanTp.Timer.Notifications
import CanTp.Demo.Command
import CanTp.Receiver.Lifetime
import CanTp.Sender.Requests
import CanTp.Timer.Current
import CanTp.Link.Lossy
import CanTp.Pdu.Reading
import CanTp.Pdu.Sending
import CanTp.FakeCan.Reports
import CanTp.FakeCan.Dropping
import CanTp.FakeCan.WaitRuns
