import EpochKV.Aof.Health
import EpochKV.Aof.Load
import EpochKV.Assignment
import EpochKV.Convergence
import EpochKV.Damage
import EpochKV.Expiry
import EpochKV.Herald
import EpochKV.Kvclient.Order
import EpochKV.Lineage
import EpochKV.Mandate
import EpochKV.Migration
import EpochKV.Notices
import EpochKV.Redirects
import EpochKV.Refinement
import EpochKV.Resharding
import EpochKV.Restored
import EpochKV.Resync
import EpochKV.Server.Serving
import EpochKV.Suspicion
import EpochKV.Verdict
