import DeSentry.Properties.StampReuse
import DeSentry.Properties.CheckpointRelease
import DeSentry.Properties.WalUpgrade
import DeSentry.Properties.AclConvergence
import DeSentry.Properties.MergeSize
import DeSentry.Properties.CheckpointQuorum
import DeSentry.Properties.BoundedRelay
import DeSentry.Properties.TransitPages
import DeSentry.Properties.TransitBudget
import DeSentry.Properties.Durability
import DeSentry.Properties.OutboxReplay
import DeSentry.Properties.QuotaSplit
import DeSentry.Properties.Rebinding
import DeSentry.Properties.PeerTrust
import DeSentry.Properties.QuotaRefusals
import DeSentry.Properties.StreamIntegrity
import DeSentry.Properties.HandshakeAgreement
import DeSentry.Properties.OldLayouts
import DeSentry.Properties.ListPages
import DeSentry.Properties.RecordCodecs
import DeSentry.Properties.HolderBalance
import DeSentry.Properties.MinimalDiff
import DeSentry.Properties.AclAtomicity
