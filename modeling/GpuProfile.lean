import GpuProfile.Main
import GpuProfile.Storage.Disk
import GpuProfile.Quantity.Exact
import GpuProfile.Proofs.SharedIdentifiers
import GpuProfile.Proofs.CrowdedIntervals
import GpuProfile.Proofs.SampleShares
import GpuProfile.Proofs.SummedBands
import GpuProfile.Proofs.OrderedBands
import GpuProfile.Proofs.AverageRange
import GpuProfile.Proofs.BusyTotals
import GpuProfile.Proofs.ComputableTraces
import GpuProfile.Profile.Machine
import GpuProfile.Proofs.MachineRun
import GpuProfile.Proofs.EntryValues
import GpuProfile.Proofs.EntryOrder
import GpuProfile.Proofs.TreeSums
import GpuProfile.Proofs.ComputedAverages
import GpuProfile.Proofs.RoundedWeights
import GpuProfile.Proofs.ListedAverages
import GpuProfile.Proofs.SliceOrder
import GpuProfile.Proofs.BusyMoments
import GpuProfile.Proofs.PairwiseScans
import GpuProfile.Proofs.ReorderedSlices
import GpuProfile.Proofs.WrittenDoubles
import GpuProfile.Proofs.WrittenText
import GpuProfile.Proofs.WrittenPages
import GpuProfile.Proofs.WrittenRecords
import GpuProfile.Proofs.ReadableReports
import GpuProfile.Proofs.ForeignWork
import GpuProfile.Proofs.SameWork
import GpuProfile.Proofs.SeparateCounters
import GpuProfile.Proofs.TouchedSamples
import GpuProfile.Proofs.ShiftedTimeline
import GpuProfile.Proofs.UnorderedEntries
import GpuProfile.Proofs.ReadMarkup
import GpuProfile.Proofs.DrawnTexts
import GpuProfile.Proofs.DiskWrites
import GpuProfile.Proofs.KeptFiles
import GpuProfile.Proofs.ComputedFiles
import GpuProfile.Proofs.ExclusiveSamples
import GpuProfile.Proofs.TreePaths
import GpuProfile.Proofs.DrawnFrames
import GpuProfile.Proofs.DrawnRows
import GpuProfile.Proofs.FrameSpans
import GpuProfile.Proofs.NestedFrames
import GpuProfile.Proofs.IdleGroups
import GpuProfile.Proofs.WrittenTrees
import GpuProfile.Proofs.IndexGrammar
import GpuProfile.Proofs.IndexTexts
import GpuProfile.Proofs.CommandGroups
import GpuProfile.Proofs.PreparedTimeline
