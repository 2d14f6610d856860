import Dfs.Durability
import Dfs.FileScan
import Dfs.HashRing
import Dfs.Placement
import Dfs.RangeReads
import Dfs.RecordFormat
import Dfs.Theorems.AbandonProgress
import Dfs.Theorems.AnnouncementsCommute
import Dfs.Theorems.AppendRace
import Dfs.Theorems.BatchedPut
import Dfs.Theorems.BufferRefinement
import Dfs.Theorems.DeleteFinal
import Dfs.Theorems.DeltaRoundTrip
import Dfs.Theorems.DirectoryListing
import Dfs.Theorems.FlushSession
import Dfs.Theorems.FoldAbandon
import Dfs.Theorems.FoldCrash
import Dfs.Theorems.FoldExclusion
import Dfs.Theorems.FoldRefinement
import Dfs.Theorems.FramingExact
import Dfs.Theorems.FullFlush
import Dfs.Theorems.GossipOrder
import Dfs.Theorems.HealKeepsReplicas
import Dfs.Theorems.HonestReplicas
import Dfs.Theorems.IndexAgreement
import Dfs.Theorems.LivenessAnswers
import Dfs.Theorems.LockRanges
import Dfs.Theorems.MergedPositions
import Dfs.Theorems.NewerRegistration
import Dfs.Theorems.NewestLocation
import Dfs.Theorems.NewestQueued
import Dfs.Theorems.NodeSetMerge
import Dfs.Theorems.OccupantResolvable
import Dfs.Theorems.OnlineCompaction
import Dfs.Theorems.OrphanDebounce
import Dfs.Theorems.PatchAtomicity
import Dfs.Theorems.PatchPerSlot
import Dfs.Theorems.PresenceExact
import Dfs.Theorems.QueueCancel
import Dfs.Theorems.QueueIndex
import Dfs.Theorems.RangeCacheFlush
import Dfs.Theorems.ReadMapRule
import Dfs.Theorems.Redirects
import Dfs.Theorems.RenameSubtree
import Dfs.Theorems.ReplayOrder
import Dfs.Theorems.ReplayPaths
import Dfs.Theorems.RestartSlots
import Dfs.Theorems.RingMembership
import Dfs.Theorems.SelfHealKeeps
import Dfs.Theorems.ShrinkPrefix
import Dfs.Theorems.SingleLeader
import Dfs.Theorems.SlotConvergence
import Dfs.Theorems.SlotPosition
import Dfs.Theorems.SlotSequence
import Dfs.Theorems.SpliceCanonical
import Dfs.Theorems.SweepSafety
import Dfs.Theorems.TrimKeepsFactor
import Dfs.Theorems.TwoRules
import Dfs.Theorems.UnflaggedPush
import Dfs.Theorems.ZeroGaps
