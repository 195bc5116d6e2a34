import InfantryRM.Lib.CString
import InfantryRM.Lib.Strtol
import InfantryRM.Lib.Run
import InfantryRM.Lib.Mailbox
import InfantryRM.Lib.LatestWins
import InfantryRM.Drivers.Hardware
import InfantryRM.Drivers.Motors
import InfantryRM.Drivers.Gimbal
import InfantryRM.Web.Handler
import InfantryRM.Web.Dispatch
import InfantryRM.Web.Page
import InfantryRM.Robot.Process
import InfantryRM.Robot.Chassis
import InfantryRM.Robot.Arguments
import InfantryRM.Robot.Tracking
import InfantryRM.Server.Model
import InfantryRM.Server.Tasks
import InfantryRM.Server.Delivery
import InfantryRM.Server.Rejected
import InfantryRM.Lib.Interference
import InfantryRM.Robot.Interference
import InfantryRM.Robot.Range
import InfantryRM.Server.Capacity
import InfantryRM.DnsServer.Model
import InfantryRM.Lib.Dns
import InfantryRM.Web.Write
import InfantryRM.DnsServer.Replies
import InfantryRM.DnsServer.Datagrams
import InfantryRM.Web.Outcome
import InfantryRM.Lib.Ownership
import InfantryRM.Web.Segments
import InfantryRM.Server.Ownership
import InfantryRM.Server.Trace
import InfantryRM.DnsServer.Bounds
import InfantryRM.Lib.Watchdog
import InfantryRM.Server.Watchdog
import InfantryRM.Lib.Throttle
import InfantryRM.Web.Joystick
import InfantryRM.Web.WriteLoop
import InfantryRM.Server.Progress
import InfantryRM.Lib.Saturating
import InfantryRM.Robot.Pose
import InfantryRM.Server.Sequential
import InfantryRM.Web.Controls
import InfantryRM.Web.Visit
import InfantryRM.Server.Session
import InfantryRM.Server.Latency
import InfantryRM.Lib.Message
import InfantryRM.Web.Response
import InfantryRM.Server.Transients
import InfantryRM.DnsServer.Task
import InfantryRM.Firmware.Boot
