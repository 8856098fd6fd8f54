import VPanel.Library.ByteCodec
import VPanel.Library.ObjectLayout
import VPanel.Library.JsInteger
import VPanel.Library.HexText
import VPanel.Library.JsText
import VPanel.Library.JsonObject
import VPanel.Library.StructFormat
import VPanel.Library.StdioFormat
import VPanel.Library.EventRun
import VPanel.Library.WhileLoop
import VPanel.Wire.PanelStates
import VPanel.Wire.Clients
import VPanel.Server.Display
import VPanel.Server.NonInterference
import VPanel.Server.Receive
import VPanel.Proxy.PanelState
import VPanel.Proxy.Modules
import VPanel.Proxy.ToHex
import VPanel.Proxy.Sender
import VPanel.Proxy.Broadcast
import VPanel.Kernel.RegisterText
import VPanel.Kernel.ClientSignals
import VPanel.Page.Delivery
import VPanel.Page.Lamps
import VPanel.Page.Amd64Panel
import VPanel.Page.PdpPanel
import VPanel.EndToEnd.Datagrams
import VPanel.EndToEnd.StatusLamps
import VPanel.Client.CpuUsage
import VPanel.Client.KmemFrames
import VPanel.Client.StaticWarning
import VPanel.Client.SymbolLookup
import VPanel.Kernel.PhysAddr
import VPanel.Kernel.WaitForPanel
import VPanel.Page.LampRuns
import VPanel.Page.LampScans
import VPanel.Page.MessageQueue
import VPanel.Kernel.CalloutRuns
import VPanel.Kernel.HardClock
import VPanel.Library.JsonText
import VPanel.Proxy.JsonDump
import VPanel.EndToEnd.LiveUpdates
import VPanel.EndToEnd.PagePort
import VPanel.Proxy.StaticFiles
import VPanel.Kernel.StatClock
import VPanel.Kernel.StatClockCounts
import VPanel.EndToEnd.LampPath
import VPanel.EndToEnd.ServerPath
import VPanel.Library.TextNumbers
import VPanel.Page.StatusLabel
import VPanel.EndToEnd.KernelReads
import VPanel.EndToEnd.KernelPath
