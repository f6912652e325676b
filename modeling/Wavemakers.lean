import Wavemakers.Interleave
import Wavemakers.Splice
import Wavemakers.Backlog
import Wavemakers.Atomic
import Wavemakers.RelyGuarantee
import Wavemakers.ProcessImage
import Wavemakers.TagAccess
import Wavemakers.MGateDriver
import Wavemakers.TagRegistry
import Wavemakers.DirtySpan
import Wavemakers.ModbusTcp
import Wavemakers.ModbusFraming
import Wavemakers.ModbusServer
import Wavemakers.Exchange
import Wavemakers.IndraDrive
import Wavemakers.RegisterBytes
import Wavemakers.DriveThreads
import Wavemakers.FaultLatch
import Wavemakers.OffCommand
import Wavemakers.CommandValues
import Wavemakers.DriveCalls
import Wavemakers.WholeFlush
import Wavemakers.WavemakerNode
import Wavemakers.NodeSteps
import Wavemakers.StopActivity
import Wavemakers.NodeGoals
import Wavemakers.GoalPlan
import Wavemakers.GoalReturn
import Wavemakers.DriverFault
import Wavemakers.NodeProgress
import Wavemakers.ReturnReply
import Wavemakers.SoftStop
import Wavemakers.SoftStopButton
import Wavemakers.SoftStopLink
import Wavemakers.GoalOwners
import Wavemakers.GoalAbort
import Wavemakers.GoalCancel
import Wavemakers.NodeShutdown
import Wavemakers.BridgeProtocol
import Wavemakers.BridgeGoals
import Wavemakers.BridgeReplies
import Wavemakers.Numeric
import Wavemakers.Doubles
import Wavemakers.NearestDouble
import Wavemakers.WebServer
import Wavemakers.StartingText
import Wavemakers.StartThread
import Wavemakers.StartCheck
import Wavemakers.PageServer
import Wavemakers.EventStream
import Wavemakers.PageDisplay
import Wavemakers.IdleStop
import Wavemakers.HeartbeatWatch
import Wavemakers.HeartbeatKept
import Wavemakers.GoalLink
import Wavemakers.GoalsAttended
import Wavemakers.WaveMath
import Wavemakers.WaveTrajectory
import Wavemakers.SpeedBound
import Wavemakers.QuinticBlend
import Wavemakers.PregeneratedPlayback
import Wavemakers.NodeConfig
import Wavemakers.TravelLimits
import Wavemakers.EffectiveLimits
import Wavemakers.Stroke
import Wavemakers.GainTable
import Wavemakers.SampledPeak
import Wavemakers.RegularWave
import Wavemakers.ReturnMotion
import Wavemakers.ControllerPlant
import Wavemakers.PlayedSetpoints
import Wavemakers.RegisterAddresses
import Wavemakers.StagedCommand
import Wavemakers.HoldTarget
import Wavemakers.CommandPairs
import Wavemakers.FailedEnable
import Wavemakers.LiveList
import Wavemakers.EnableOrder
