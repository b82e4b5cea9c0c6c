import Gnhast.Lib.CStr
import Gnhast.Lib.Collect
import Gnhast.Lib.Counters
import Gnhast.Lib.Json
import Gnhast.Lib.Double
import Gnhast.Lib.Drains
import Gnhast.Lib.Rounding
import Gnhast.Lib.Lines
import Gnhast.Lib.Runs
import Gnhast.Lib.Keyed
import Gnhast.Lib.Bonds
import Gnhast.Lib.Links
import Gnhast.Lib.Graph
import Gnhast.Lib.Faults
import Gnhast.Lib.Refcount
import Gnhast.Lib.Sweep
import Gnhast.Lib.Blocks
import Gnhast.Lib.Buffers
import Gnhast.Types
import Gnhast.Netparser
import Gnhast.Devices
import Gnhast.Gncoll
import Gnhast.Alarms
import Gnhast.Cmdhandler
import Gnhast.Netloop
import Gnhast.Confparser
import Gnhast.Confdump
import Gnhast.Collcmd
import Gnhast.Collconf
import Gnhast.Insteon
import Gnhast.PlmSerial
import Gnhast.Hubhtml
import Gnhast.Buffstatus
import Gnhast.Insteoncoll
import Gnhast.Aldb
import Gnhast.Alarmcoll
import Gnhast.Pointers
import Gnhast.Lib.Ownership
import Gnhast.Lemmas.Memory
import Gnhast.Lemmas.Steps
import Gnhast.Lemmas.Registry
import Gnhast.Lemmas.Ownership
import Gnhast.Lemmas.Writes
import Gnhast.Lemmas.Groups
import Gnhast.Lemmas.Faults
import Gnhast.Lemmas.Wire
import Gnhast.Lemmas.Values
import Gnhast.Lemmas.Modify
import Gnhast.Lemmas.Alarms
import Gnhast.Lemmas.Health
import Gnhast.Lemmas.Confdump
import Gnhast.Lemmas.Replica
import Gnhast.Theorems.Framing
import Gnhast.Theorems.Ownership
import Gnhast.Theorems.Registry
import Gnhast.Theorems.Groups
import Gnhast.Theorems.Register
import Gnhast.Theorems.Update
import Gnhast.Theorems.Modify
import Gnhast.Theorems.Alarms
import Gnhast.Theorems.Change
import Gnhast.Theorems.Scale
import Gnhast.Theorems.Health
import Gnhast.Theorems.Restart
import Gnhast.Theorems.DeviceFile
import Gnhast.Theorems.GroupFile
import Gnhast.Theorems.DeviceReplica
import Gnhast.Theorems.GroupReplica
import Gnhast.Theorems.AlarmReplica
import Gnhast.Lemmas.Safety
import Gnhast.Lemmas.Feeds
import Gnhast.Theorems.Safety
import Gnhast.Theorems.Feeds
import Gnhast.Theorems.Index
import Gnhast.Theorems.Subgroups
import Gnhast.Lemmas.Insteon
import Gnhast.Theorems.Retry
import Gnhast.Theorems.Acks
import Gnhast.Theorems.Condense
import Gnhast.Theorems.PlmFraming
import Gnhast.Theorems.Attribution
import Gnhast.Lemmas.Alarmcoll
import Gnhast.Theorems.AlarmRules
import Gnhast.Lemmas.Pointers
import Gnhast.Theorems.HeapDiscipline
import Gnhast.Lemmas.Accessors
import Gnhast.Theorems.Accessors
import Gnhast.Rrdcoll
import Gnhast.Theorems.Locals
import Gnhast.Lib.Passes
import Gnhast.Theorems.Crossing
import Gnhast.Theorems.TypeSafety
import Gnhast.Theorems.Forward
import Gnhast.Theorems.Ask
import Gnhast.Lib.Layout
import Gnhast.Brulcoll
import Gnhast.Theorems.Formats
import Gnhast.Owsrvcoll
import Gnhast.Theorems.Polling
import Gnhast.Lib.Frames
import Gnhast.Balboacoll
import Gnhast.Wmr918coll
import Gnhast.Lib.Fields
import Gnhast.Lemmas.Spa
import Gnhast.Theorems.Deframing
import Gnhast.Theorems.Spa
import Gnhast.Theorems.Setalarm
import Gnhast.Theorems.Tokenizer
import Gnhast.Lib.Machines
import Gnhast.Tokenizer
import Gnhast.Decoder
import Gnhast.Theorems.Decoder
import Gnhast.Theorems.TagLists
import Gnhast.Theorems.Conversions
import Gnhast.Theorems.Period
import Gnhast.Theorems.ModFile
import Gnhast.Theorems.Aldb
import Gnhast.Theorems.AldbFiles
import Gnhast.Theorems.Hubhtml
import Gnhast.Theorems.Buffstatus
import Gnhast.Theorems.Levels
import Gnhast.Theorems.Station
import Gnhast.Theorems.Units
import Gnhast.Bruldevs
import Gnhast.Theorems.Channels
import Gnhast.Theorems.Counters
import Gnhast.Theorems.Probes
import Gnhast.Theorems.WatchTable
import Gnhast.Theorems.Operators
import Gnhast.Jsoncgicoll
import Gnhast.Common
import Gnhast.Theorems.Json
import Gnhast.Theorems.Rrdname
import Gnhast.Moncoll
import Gnhast.Theorems.Clearing
import Gnhast.Theorems.Watching
import Gnhast.JsmnFunc
import Gnhast.Theorems.Tokens
import Gnhast.Venstarcoll
import Gnhast.Theorems.TempUnits
import Gnhast.D30303
import Gnhast.Theorems.Discovery
import Gnhast.Lib.Headers
import Gnhast.Ssdp
import Gnhast.Theorems.Ssdp
import Gnhast.Lib.Timers
import Gnhast.Astrocoll
import Gnhast.Theorems.Daylight
import Gnhast.Lib.Rounds
import Gnhast.Ad2usbcoll
import Gnhast.Lemmas.Panel
import Gnhast.Theorems.Panel
