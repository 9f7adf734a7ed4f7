import RedisProxy.Proofs.RedisEpochProofs
import RedisProxy.Proofs.RedisWakeupProofs
import RedisProxy.Proofs.ClientWakeupProofs
import RedisProxy.Proofs.BroadcastProofs
import RedisProxy.Proofs.BlockOwnerProofs
import RedisProxy.Proofs.SelectFirstProofs
import RedisProxy.Proofs.ParserSoundProofs
import RedisProxy.Proofs.FrontBoardProofs
import RedisProxy.Proofs.ReplicaProofs
import RedisProxy.Proofs.BackPressureProofs
import RedisProxy.Proofs.ClusterTableProofs
import RedisProxy.Proofs.KeyHashSlotProofs
import RedisProxy.Proofs.ClusterSlotsProofs
import RedisProxy.Proofs.RingQueueProofs
import RedisProxy.Proofs.RingMsgBufferProofs
import RedisProxy.Proofs.ReadCacheProofs
import RedisProxy.Proofs.StrandedProofs
import RedisProxy.Proofs.ConfinedProofs
import RedisProxy.Proofs.DecisionProofs
import RedisProxy.Proofs.JenkinsProofs
import RedisProxy.Proofs.RdbProofs
import RedisProxy.Proofs.TwemRouteProofs
import RedisProxy.Proofs.TimerLoopProofs
import RedisProxy.Proofs.KeyFilterProofs
import RedisProxy.Proofs.EpollProofs
