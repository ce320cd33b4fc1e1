import EmbeddedInfra.Sesame.WindowProgress
import EmbeddedInfra.Sesame.CobsRoundTrip
import EmbeddedInfra.Bootloader.SlotFaults
import EmbeddedInfra.Configuration.PowerLoss
import EmbeddedInfra.Echo.RequestsGranted
import EmbeddedInfra.Echo.TracesCalls
import EmbeddedInfra.Configuration.OperationDone
import EmbeddedInfra.Json.BrokenStrings
import EmbeddedInfra.Json.CleanContents
import EmbeddedInfra.Fsm.Completions
import EmbeddedInfra.Fsm.DeadParts
import EmbeddedInfra.Timer.ScalableDerivedTimerService
import EmbeddedInfra.Json.StreamingAccepts
import EmbeddedInfra.MessageCommunication.WindowedDelivery
import EmbeddedInfra.Mqtt.SendOperations
import EmbeddedInfra.Mqtt.PacketsReported
import EmbeddedInfra.Sequencing.StructuredRuns
import EmbeddedInfra.Dns.ParsingEnds
import EmbeddedInfra.Ble.BondsSynchronised
import EmbeddedInfra.Util.StepsRunOnce
import EmbeddedInfra.Timer.TicksNotLost
import EmbeddedInfra.Sesame.PrefixDelivered
import EmbeddedInfra.Ble.LongOperations
import EmbeddedInfra.Dns.KeepsAdvertising
import EmbeddedInfra.Dns.LookupsAnswered
import EmbeddedInfra.PackBuilder.WriteOnce
import EmbeddedInfra.Event.ClaimsInTurn
import EmbeddedInfra.Timer.FiresInOrder
import EmbeddedInfra.Util.ForwardListRefines
import EmbeddedInfra.Util.ListRefines
import EmbeddedInfra.Util.SetsFindElements
import EmbeddedInfra.Util.OwnedOnce
import EmbeddedInfra.Mqtt.Formatting
import EmbeddedInfra.Flash.FlashAlign
import EmbeddedInfra.Flash.FlashRegion
import EmbeddedInfra.Sntp.SntpClient
import EmbeddedInfra.Stream.BufferingStreamReader
import EmbeddedInfra.Flash.ExactAreas
import EmbeddedInfra.Util.PriorityQueueHeap
import EmbeddedInfra.Util.ErasedHeaps
import EmbeddedInfra.Stream.AtomicByteQueue
import EmbeddedInfra.Network.Address
import EmbeddedInfra.Util.Crc
import EmbeddedInfra.Util.IntrusiveListRefines
import EmbeddedInfra.Util.ObserversNotified
import EmbeddedInfra.Util.TerminalShows
import EmbeddedInfra.Util.VectorRefines
import EmbeddedInfra.Bootloader.PatchesHex
import EmbeddedInfra.Stream.Base64
import EmbeddedInfra.Timer.Calendar
import EmbeddedInfra.Json.EscapedSize
import EmbeddedInfra.Json.Integers
import EmbeddedInfra.Util.CyclicBuffer
