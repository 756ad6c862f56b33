import PandosPlus.Phase1.PidRuns
import PandosPlus.Phase1.AslRuns
import PandosPlus.Phase1.PidList
import PandosPlus.Phase1.HeapRuns
import PandosPlus.Phase2.Places
import PandosPlus.Phase2.SoftBlocked
import PandosPlus.Phase2.PassVerhogen
import PandosPlus.Phase2.Deliveries
import PandosPlus.Phase2.Termination
import PandosPlus.Phase2.InterruptTime
import PandosPlus.Phase2.LocalTimer
import PandosPlus.Phase2.IntervalTimer
import PandosPlus.Phase2.PseudoClock
import PandosPlus.Phase2.Descriptors
import PandosPlus.Phase2.HeapKill
import PandosPlus.Phase2.Outcomes
import PandosPlus.Phase3.PageTable
import PandosPlus.Phase3.Drives
import PandosPlus.Phase3.FrameChoice
import PandosPlus.Phase3.Progress
import PandosPlus.Phase3.Transfers
import PandosPlus.Phase3.Pages
import PandosPlus.Phase3.Semaphores
import PandosPlus.Phase3.Structures
