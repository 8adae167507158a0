import Timetable.Engine
import Timetable.Geo.Sphere
import Timetable.Json.Read
import Timetable.Decimal.Fixed
import Timetable.Proofs.Table
import Timetable.Proofs.BlockIndex.Departures
import Timetable.Proofs.Change.Replacement
import Timetable.Proofs.Schedule.Filing
import Timetable.Proofs.Schedule.Refusal
import Timetable.Proofs.Change.Undoing
import Timetable.Proofs.Vehicle.Placement
import Timetable.Proofs.Dynamic.Departures
import Timetable.Proofs.Dynamic.Layers
import Timetable.Proofs.Change.Interference
import Timetable.Proofs.Schedule.Readmission
import Timetable.Proofs.Change.Moving
import Timetable.Proofs.Schedule.Shapes
import Timetable.Proofs.Change.Narrating
import Timetable.Proofs.Change.Redrawing
import Timetable.Proofs.Schedule.Commuting
import Timetable.Proofs.Ident
import Timetable.Proofs.BlockIndex.Partition
import Timetable.Proofs.Change.Feeds
import Timetable.Proofs.Schedule.Chart
import Timetable.Proofs.Vehicle.Independence
import Timetable.Proofs.Polling.Timing
import Timetable.Proofs.Change.Reordering
import Timetable.Proofs.Block.Rebuilding
import Timetable.Proofs.Schedule.StopTimes
import Timetable.Proofs.Schedule.Insertion
import Timetable.Proofs.Schedule.Search
import Timetable.Proofs.Vehicle.History
import Timetable.Proofs.Dynamic.Listing
import Timetable.Proofs.Calendar.Listing
import Timetable.Proofs.Registry.Revenue
import Timetable.Proofs.Registry.Written
import Timetable.Proofs.Resolve
import Timetable.Proofs.Vehicle.Occupancy
import Timetable.Proofs.Schedule.Measuring
import Timetable.Proofs.ServiceSet
import Timetable.Proofs.Record.Rewording
