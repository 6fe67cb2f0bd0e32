import ReaLHF.Profiler.Rpc
import ReaLHF.Profiler.Grouped
import ReaLHF.Profiler.Search
import ReaLHF.Profiler.Graph
import ReaLHF.Profiler.Proofs.GroupedCost
import ReaLHF.Profiler.Proofs.Odometer
import ReaLHF.Profiler.Proofs.SearchCount
import ReaLHF.Profiler.Proofs.EpochGraph
import ReaLHF.Profiler.Proofs.EpochAncestry
import ReaLHF.Torch
import ReaLHF.Pipeline.P2p
import ReaLHF.Pipeline.Proofs.MetaHandshake
import ReaLHF.Lists
import ReaLHF.Interface.Ppo
import ReaLHF.Interface.Proofs.PackAlign
import ReaLHF.Pipeline.Data
import ReaLHF.Pipeline.Proofs.DataTuple
import ReaLHF.Model.Lora
import ReaLHF.Model.Proofs.LoraFuse
import ReaLHF.Profiler.Enumerate
import ReaLHF.Profiler.Proofs.EnumerateFilter
import ReaLHF.Pipeline.Proofs.LoopTermination
import ReaLHF.Interface.WpsActorCritic
import ReaLHF.Interface.Proofs.Gae
import ReaLHF.Interface.Proofs.CodeComments
import ReaLHF.Model.Proofs.ShiftedIndices
import ReaLHF.Interface.SamplingMask
import ReaLHF.Interface.Proofs.Nucleus
import ReaLHF.Model.Proofs.FirstEos
import ReaLHF.Interface.Proofs.RewardPlacement
import ReaLHF.Model.Normalization
import ReaLHF.Model.Proofs.AllReduce
import ReaLHF.Interface.PairedReward
import ReaLHF.Interface.Proofs.PairedAccuracy
import ReaLHF.Interface.Proofs.PackedPadded
import ReaLHF.Interface.PpoMinibatch
import ReaLHF.Interface.Proofs.MinibatchRun
import ReaLHF.Interface.PpoLoss
import ReaLHF.Interface.Proofs.Surrogate
import ReaLHF.Interface.PairedEval
import ReaLHF.Interface.Proofs.EvalScores
import ReaLHF.Interface.Proofs.EosValues
