import Logbook.Appender.LineWriter
import Logbook.Appender.MemoryLog
import Logbook.Logger
import Logbook.Proofs.Record.Layout
import Logbook.Proofs.Render.Bounded
import Logbook.Text.Aligned
import Logbook.Proofs.Record.Kept
import Logbook.Proofs.Render.Partition
import Logbook.Proofs.Number.Lexeme
import Logbook.Proofs.Render.Fields
import Logbook.Proofs.Render.Block
import Logbook.Proofs.Record.Reuse
import Logbook.Proofs.Line.Reuse
import Logbook.Proofs.Render.AnyBytes
import Logbook.Proofs.Line.Bounded
import Logbook.Proofs.Record.Skip
import Logbook.Proofs.Memory
import Logbook.Proofs.Render.Skip
import Logbook.Proofs.Render.Memory
import Logbook.Proofs.Line.Memory
import Logbook.Proofs.Delivery.Order
import Logbook.Proofs.Delivery.Conservation
import Logbook.Proofs.Delivery.Requests
import Logbook.Proofs.Delivery.Shutdown
import Logbook.Proofs.Delivery.Lifecycle
import Logbook.Proofs.Delivery.Producers
import Logbook.Proofs.Delivery.Strategies
import Logbook.Proofs.Delivery.Failure
import Logbook.Proofs.Delivery.Isolation
import Logbook.Proofs.Delivery.Discipline
import Logbook.Proofs.Delivery.Notice
import Logbook.Proofs.Delivery.Reports
import Logbook.Proofs.Delivery.Fates
import Logbook.Proofs.Render.Breaking
import Logbook.Proofs.Render.Stamps
import Logbook.Proofs.Text.Whole
import Logbook.Proofs.Delivery.Losses
import Logbook.Proofs.Appender.WholeLines
import Logbook.Proofs.Delivery.Reconfiguration
import Logbook.Proofs.Render.Unformatted
import Logbook.Proofs.Record.Decoded
import Logbook.Proofs.Text.Quotes
import Logbook.Proofs.Render.StaleFields
import Logbook.Proofs.Number.Grouping
import Logbook.Proofs.Number.Integers
import Logbook.Proofs.Calendar.Durations
import Logbook.Proofs.Line.Heading
import Logbook.Proofs.Render.Enums
import Logbook.Proofs.Regions
import Logbook.Proofs.Pool
import Logbook.Proofs.Render.Decimals
import Logbook.Proofs.Render.Copies
