import OwnX.Foundations.Proofs.MachineProofs
import OwnX.Foundations.Decoder
import OwnX.Foundations.Proofs.DecoderProofs
import OwnX.Nio.Codec
import OwnX.Nio.Handler
import OwnX.Nio.Proofs.CodecProofs
import OwnX.Nio.Proofs.HandlerProofs
import OwnX.Foundations.Linked
import OwnX.Foundations.Proofs.LinkedProofs
import OwnX.TimingWheel.Wheel
import OwnX.TimingWheel.Proofs.BucketProofs
import OwnX.TimingWheel.Proofs.WheelProofs
import OwnX.TimingWheel.Proofs.ScheduleProofs
import OwnX.Gopool.Pool
import OwnX.Gopool.Proofs.PoolProofs
import OwnX.Gopool.Proofs.WorkerProofs
import OwnX.Gopool.Proofs.QueueProofs
import OwnX.Cluster.Node
import OwnX.Cluster.Proofs.NodeProofs
import OwnX.Cluster.Contact
import OwnX.Cluster.Network
import OwnX.Cluster.Proofs.ContactProofs
import OwnX.Foundations.Proofs.QuorumProofs
import OwnX.Cluster.Proofs.VoteProofs
import OwnX.Cluster.Proofs.LeaderProofs
import OwnX.Cluster.Proofs.MajorityProofs
import OwnX.Cluster.Member
import OwnX.Cluster.Standing
import OwnX.Cluster.Proofs.StandingProofs
import OwnX.Cluster.Proofs.MemberProofs
import OwnX.Cluster.Proofs.LeadershipProofs
import OwnX.Cluster.Links
import OwnX.Cluster.Proofs.ConnectionProofs
import OwnX.Nio.Session
import OwnX.Nio.Proofs.SessionProofs
import OwnX.Task.Allocator
import OwnX.Task.Rounds
import OwnX.Task.Proofs.AllocatorProofs
import OwnX.Task.Proofs.CompletionProofs
import OwnX.Task.Proofs.LostRoundProofs
import OwnX.Task.Proofs.CreditProofs
import OwnX.Task.Proofs.PublishProofs
import OwnX.Foundations.DoublyLinked
import OwnX.Foundations.Proofs.DoublyLinkedProofs
import OwnX.Foundations.Proofs.RefinementProofs
import OwnX.Basic.LinkedList
import OwnX.Basic.Proofs.LinkedListProofs
import OwnX.Cluster.Proofs.ElectionProofs
import OwnX.Foundations.Linearizability
import OwnX.Foundations.Proofs.LinearizabilityProofs
import OwnX.Basic.ListClients
import OwnX.Basic.Proofs.ListClientsProofs
import OwnX.Foundations.GoMap
import OwnX.Foundations.Proofs.GoMapProofs
import OwnX.Basic.OrderedMap
import OwnX.Basic.Proofs.OrderedMapProofs
import OwnX.Basic.OrderedSet
import OwnX.Basic.Proofs.OrderedSetProofs
import OwnX.Task.Scheduler
import OwnX.Task.Proofs.SchedulerProofs
import OwnX.Task.Proofs.WorkerProofs
import OwnX.Concurrency.Proofs.SingleFlightProofs
import OwnX.Task.Proofs.RoundWorkerProofs
import OwnX.Task.Proofs.PartitionProofs
import OwnX.TimingWheel.Proofs.InsertionProofs
import OwnX.Task.Proofs.AttemptProofs
import OwnX.Nio.Handshake
import OwnX.Nio.Proofs.HandshakeProofs
import OwnX.Cluster.Request
import OwnX.Cluster.Proofs.ChannelProofs
import OwnX.Cluster.Proofs.RequestProofs
import OwnX.Bean.Bean
import OwnX.Bean.Proofs.InjectionProofs
import OwnX.Basic.Proofs.RemovalProofs
import OwnX.Foundations.MachineInt
import OwnX.Foundations.Proofs.MachineIntProofs
import OwnX.TimingWheel.Proofs.SlotProofs
import OwnX.Tools.Proofs.RetryProofs
import OwnX.Foundations.Text
import OwnX.Tools.Render
import OwnX.Foundations.Proofs.TextProofs
import OwnX.Tools.Proofs.RenderProofs
import OwnX.Bean.Proofs.RegisterProofs
import OwnX.Obsidian.Scan
import OwnX.Obsidian.Proofs.ScanProofs
import OwnX.Obsidian.Proofs.WalkProofs
import OwnX.Foundations.Pattern
import OwnX.Foundations.Proofs.PatternProofs
import OwnX.Basic.Time
import OwnX.Foundations.Proofs.GoTimeProofs
import OwnX.Basic.Proofs.TimeProofs
import OwnX.Foundations.Proofs.TerminationProofs
import OwnX.Basic.Day
import OwnX.Basic.Proofs.DayProofs
import OwnX.Cluster.Proofs.WireProofs
import OwnX.Concurrency.Proofs.ReturnProofs
import OwnX.Gopool.Proofs.DrainProofs
import OwnX.Cluster.Proofs.ContestProofs
import OwnX.Cluster.Proofs.UpkeepProofs
import OwnX.Foundations.FileTree
import OwnX.Foundations.Proofs.FileTreeProofs
import OwnX.Ssh.Command
import OwnX.Ssh.Proofs.RoundTripProofs
import OwnX.Task.Dispatch
import OwnX.Task.Executor
import OwnX.Task.Proofs.DispatchProofs
import OwnX.Task.Proofs.ExecutorProofs
import OwnX.Task.Proofs.FirstRoundProofs
import OwnX.Task.Proofs.SettleProofs
import OwnX.Cluster.Proofs.CampaignProofs
import OwnX.Cluster.Proofs.RecoveryProofs
import OwnX.Cluster.Goroutines
import OwnX.Cluster.Proofs.GoroutineProofs
