import Traccoon.Theorems.Allocations
import Traccoon.Theorems.BencLength
import Traccoon.Theorems.BencTermination
import Traccoon.Theorems.Codecs
import Traccoon.Theorems.CompactForm
import Traccoon.Theorems.Connections
import Traccoon.Theorems.CopyPhase
import Traccoon.Theorems.DictOffsets
import Traccoon.Theorems.Downloads
import Traccoon.Theorems.Expiry
import Traccoon.Theorems.FailedUpdate
import Traccoon.Theorems.HalfDecoded
import Traccoon.Theorems.HashBuffers
import Traccoon.Theorems.HashLookup
import Traccoon.Theorems.InPlace
import Traccoon.Theorems.IntValue
import Traccoon.Theorems.LaziestWorker
import Traccoon.Theorems.LeftoverBytes
import Traccoon.Theorems.LengthCheck
import Traccoon.Theorems.Lifecycle
import Traccoon.Theorems.ListeningSocket
import Traccoon.Theorems.OneHash
import Traccoon.Theorems.PeerBuffers
import Traccoon.Theorems.PeerIdentity
import Traccoon.Theorems.Provenance
import Traccoon.Theorems.PruneRace
import Traccoon.Theorems.Refinement
import Traccoon.Theorems.Scrape
import Traccoon.Theorems.SeedCount
import Traccoon.Theorems.Segments
import Traccoon.Theorems.Session
import Traccoon.Theorems.Settling
import Traccoon.Theorems.Sockets
import Traccoon.Theorems.StepCodes
import Traccoon.Theorems.Upkeep
import Traccoon.Theorems.UrlParts
import Traccoon.Theorems.WalkBounds
import Traccoon.Theorems.Wanted
