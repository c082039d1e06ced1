import GrblhalSim.AtciKeepout
import GrblhalSim.CallRun
import GrblhalSim.Rfc6455
import GrblhalSim.WsBackPressure
import GrblhalSim.WsDelivery
import GrblhalSim.WsFragments
import GrblhalSim.WsHandshake
import GrblhalSim.WsIsolation
import GrblhalSim.WsStall
import GrblhalSim.ZoneInvariant
import GrblhalSim.ZoneJogRun
import GrblhalSim.AtciRectangle
import GrblhalSim.ZoneMirror
import GrblhalSim.AtciTravel
import GrblhalSim.AtciAgree
import GrblhalSim.EepromModel
import GrblhalSim.EepromStore
import GrblhalSim.ZoneSafety
import GrblhalSim.SerialModel
import GrblhalSim.SerialRun
import GrblhalSim.SerialTransmit
import GrblhalSim.SerialReceive
import GrblhalSim.SimControl
import GrblhalSim.DelayCallbacks
import GrblhalSim.FsModel
import GrblhalSim.FsConfined
import GrblhalSim.DecimalText
import GrblhalSim.TextTokens
import GrblhalSim.ToolLine
import GrblhalSim.ToolText
import GrblhalSim.ToolRoundTrip
import GrblhalSim.ToolAtomic
import GrblhalSim.ToolCarousel
import GrblhalSim.ToolMacro
import GrblhalSim.ToolSetPaths
import GrblhalSim.ToolMacroTable
import GrblhalSim.ToolMacroReturn
import GrblhalSim.ToolCache
import GrblhalSim.CheckedStore
import GrblhalSim.WsAccept
import GrblhalSim.WsBuffers
import GrblhalSim.WsPong
import GrblhalSim.EepromSave
import GrblhalSim.ZoneNamed
import GrblhalSim.ZoneStraight
import GrblhalSim.ZoneTurn
import GrblhalSim.AtciSafe
import GrblhalSim.Countdown
import GrblhalSim.McuModel
import GrblhalSim.StepTimer
import GrblhalSim.MillisClock
import GrblhalSim.GpioEdges
import GrblhalSim.Rfc4648
import GrblhalSim.WsBase64
import GrblhalSim.Fips180
import GrblhalSim.WsSha1
import GrblhalSim.WsDigest
import GrblhalSim.ToolFreePocket
import GrblhalSim.LineSplit
import GrblhalSim.LauncherOutput
import GrblhalSim.CommandLine
import GrblhalSim.LauncherArgs
import GrblhalSim.FileTree
import GrblhalSim.FsRename
import GrblhalSim.FsCwd
import GrblhalSim.MacroStack
import GrblhalSim.MacroRun
import GrblhalSim.MacroTree
import GrblhalSim.SimSession
import GrblhalSim.SessionExact
import GrblhalSim.AtcDrawbar
import GrblhalSim.AtcHysteresis
import GrblhalSim.LaunchArgs
import GrblhalSim.StateReport
import GrblhalSim.InputPorts
import GrblhalSim.InputLines
import GrblhalSim.CarouselCommands
import GrblhalSim.CarouselPockets
