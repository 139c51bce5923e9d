import Dormouse.NoiseCodec
import Dormouse.NoiseAsync
import Dormouse.DirectRun
import Dormouse.TermLedger
import Dormouse.LathResize
import Dormouse.SelectionFollow
import Dormouse.PacedWrites
import Dormouse.WallRun
import Dormouse.QuitVote
import Dormouse.QuitArrivals
import Dormouse.AlertDeliveryRun
import Dormouse.BurrowSessions
import Dormouse.OneTimeCeremony
import Dormouse.RelayAlike
import Dormouse.PowerShellLines
import Dormouse.PushStoreRun
import Dormouse.SetupTokensSpent
import Dormouse.EnrollmentRun
import Dormouse.SessionCore
import Dormouse.HelperOwners
import Dormouse.WorkspaceRun
import Dormouse.PendingKillsRun
import Dormouse.IdCountersRun
import Dormouse.ImageHistoryRun
import Dormouse.PngRoundTrip
import Dormouse.SmartTokenBuffer
import Dormouse.CopyEssence
import Dormouse.TokenBucket
import Dormouse.ClipboardOffers
import Dormouse.LathUndo
import Dormouse.LathBeside
import Dormouse.LathNeighbors
import Dormouse.ReplayBuffer
import Dormouse.LineDrawing
import Dormouse.QuiesceRun
import Dormouse.TermPaints
import Dormouse.LocalNetworks
import Dormouse.NetworkInterfaces
import Dormouse.LinkFragments
import Dormouse.Transfers
import Dormouse.QuitClose
import Dormouse.ProcessTree
