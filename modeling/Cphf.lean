import Cphf.CLib.Integers
import Cphf.CLib.Text
import Cphf.CLib.Runs
import Cphf.CLib.OrderedMap
import Cphf.CLib.Lists
import Cphf.CLib.Growth
import Cphf.CLib.Lockstep
import Cphf.CLib.Interleave
import Cphf.CLib.Gather
import Cphf.CLib.SearchTree
import Cphf.CLib.Hexadecimal
import Cphf.CLib.Scanf
import Cphf.CLib.Fields
import Cphf.CLib.Numerals
import Cphf.CLib.Stream
import Cphf.CLib.Lines
import Cphf.CLib.Buffer
import Cphf.Common
import Cphf.System
import Cphf.Store
import Cphf.Lsof.Reader
import Cphf.Lsof.Records
import Cphf.Lsof.Steps
import Cphf.Lsof.Agreement
import Cphf.Lsof.Ledger
import Cphf.Lsof.Order
import Cphf.Lsof.CutRecord
import Cphf.Lsof.ProcessSets
import Cphf.Lsof.Flags
import Cphf.Lsof.OneEntry
import Cphf.Lsof.Safety
import Cphf.Lsof.Census
import Cphf.Readers.Base
import Cphf.Readers.Drivers
import Cphf.Readers.DriverTable
import Cphf.Readers.DriverMap
import Cphf.Readers.Proc
import Cphf.Readers.FileStat
import Cphf.Readers.Options
import Cphf.Readers.StatFile
import Cphf.Readers.Stored
import Cphf.Readers.Filtering
import Cphf.Readers.FileName
import Cphf.Readers.NullSafety
import Cphf.Readers.Numbers
import Cphf.Readers.Times
import Cphf.Readers.CpuTime
import Cphf.Readers.StartTimes
import Cphf.Readers.Regions
import Cphf.Readers.Modes
import Cphf.Readers.MinorRanges
import Cphf.Readers.StatLine
import Cphf.Readers.Members
import Cphf.Readers.KernelStat
import Cphf.Readers.CommandName
import Cphf.Readers.Isolation
import Cphf.Readers.Leak
import Cphf.Report
import Cphf.ReadBack
import Cphf.Stored
import Cphf.Program
import Cphf.OptionLoop
import Cphf.Descriptors
import Cphf.CommandLine
import Cphf.Labels
import Cphf.Independence
import Cphf.Unforged
import Cphf.Growth
import Cphf.Completion
import Cphf.Alike
import Cphf.OptionErrors
import Cphf.Listing
import Cphf.EndToEnd
import Cphf.Queue
import Cphf.Commuting
import Cphf.Readers.Complaints
import Cphf.Launch
import Cphf.Readers.DeviceNumbers
import Cphf.Readers.FileIsolation
import Cphf.Inventory
import Cphf.Vanished
import Cphf.WholeReport
