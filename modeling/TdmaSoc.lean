import TdmaSoc.Asp.SamplingChain
import TdmaSoc.Asp.Acknowledge
import TdmaSoc.Asp.Addresses
import TdmaSoc.ReCOP.Reset
import TdmaSoc.ReCOP.NextState
import TdmaSoc.Asm.SourceRegister
import TdmaSoc.Asm.Packets
import TdmaSoc.Tdma.Isolation
import TdmaSoc.Tdma.Blocking
import TdmaSoc.Asp.Trigger
import TdmaSoc.Asp.Peaks
import TdmaSoc.Asp.Freshness
import TdmaSoc.MiCore.Stack
import TdmaSoc.ReCOP.Port
import TdmaSoc.ReCOP.Strobes
import TdmaSoc.Asp.Plateaus
import TdmaSoc.Asp.Valleys
import TdmaSoc.Asp.Reports
import TdmaSoc.Asp.Resolution
import TdmaSoc.Asp.Displays
import TdmaSoc.Asp.BlockAverages
import TdmaSoc.MiCore.Restart
import TdmaSoc.Tdma.Latency
import TdmaSoc.Tdma.Log2Ceil
import TdmaSoc.Soc.Averages
import TdmaSoc.Tdma.Turns
import TdmaSoc.Asp.Progress
import TdmaSoc.Asp.LateCorrelation
import TdmaSoc.Soc.Correlations
import TdmaSoc.Soc.Displays
