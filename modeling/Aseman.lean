import Aseman.Finance.Conservation
import Aseman.Finance.Journal
import Aseman.Finance.Caps
import Aseman.Finance.Disclosure
import Aseman.Finance.Budgets
import Aseman.Finance.LegacyAgreement
import Aseman.Node.EscrowRuns
import Aseman.Capsule.Delta
import Aseman.Consensus.Trust
import Aseman.Storage.Transactions
import Aseman.Services.Coordination
import Aseman.Services.Nonces
import Aseman.Services.VmmStore
import Aseman.Vmm.Runs
import Aseman.Cluster.Replay
import Aseman.Authority.Decisions
import Aseman.Realtime.Log
import Aseman.Identity.Rotation
import Aseman.Metering.Completeness
import Aseman.Federation.Signing
import Aseman.Governance.Elected
import Aseman.Authority.Revocation
import Aseman.Services.Singleton
import Aseman.Identity.Replay
import Aseman.Identity.SignedBytes
