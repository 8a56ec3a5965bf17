import AnalysePcap.Run
import AnalysePcap.NestedTable
import AnalysePcap.Ledger
import AnalysePcap.Diameter
import AnalysePcap.Interface
import AnalysePcap.Outcome
import AnalysePcap.Window
import AnalysePcap.Balance
import AnalysePcap.Origin
import AnalysePcap.Attempts
import AnalysePcap.Conservation
import AnalysePcap.Rollover
import AnalysePcap.ReportTime
import AnalysePcap.ProtocolTCP
import AnalysePcap.Isolation
import AnalysePcap.Matching
import AnalysePcap.ObjectTable
import AnalysePcap.Digits
import AnalysePcap.Session
import AnalysePcap.Decode
import AnalysePcap.Encode
import AnalysePcap.StaleMemory
import AnalysePcap.DisplayStats
import AnalysePcap.Totals
import AnalysePcap.FlowKey
import AnalysePcap.RenameQueue
import AnalysePcap.TakenFiles
import AnalysePcap.Delivery
import AnalysePcap.ScanOrder
import AnalysePcap.NameRegistry
import AnalysePcap.NodeTables
import AnalysePcap.SharedRequests
import AnalysePcap.PairCount
import AnalysePcap.Reorder
import AnalysePcap.Transactions
import AnalysePcap.EraseLoop
import AnalysePcap.SweepLoops
import AnalysePcap.BitField
import AnalysePcap.WhileLoop
import AnalysePcap.AvpLoop
import AnalysePcap.PayloadReads
import AnalysePcap.TwoSlots
import AnalysePcap.Insertion
import AnalysePcap.ResultCode
import AnalysePcap.FlatDashboard
import AnalysePcap.SharedPacket
import AnalysePcap.SignedBytes
import AnalysePcap.Gtp
import AnalysePcap.GtpHeader
import AnalysePcap.GtpCounters
import AnalysePcap.GtpCopies
import AnalysePcap.FileShares
import AnalysePcap.Bandwidth
import AnalysePcap.ShiftCounts
import AnalysePcap.CString
import AnalysePcap.CounterMap
import AnalysePcap.Sip
import AnalysePcap.HostDpi
import AnalysePcap.AppReports
import AnalysePcap.TicketLock
import AnalysePcap.RwLock
import AnalysePcap.RwLockProgress
import AnalysePcap.ByteMemory
import AnalysePcap.Postcondition
import AnalysePcap.ShfTab
import AnalysePcap.ShfWindow
import AnalysePcap.Shelf
import AnalysePcap.ShfFile
import AnalysePcap.Calls
import AnalysePcap.SharedStore
import AnalysePcap.LinkedQueue
import AnalysePcap.Footprint
import AnalysePcap.BatchQueue
import AnalysePcap.ShfQueue
import AnalysePcap.ShfQueueFrame
import AnalysePcap.Deposits
import AnalysePcap.MainLoop
import AnalysePcap.DrainBuffer
import AnalysePcap.ShfLog
import AnalysePcap.ShfLogProgress
import AnalysePcap.ShfLogText
import AnalysePcap.ShfRace
