import Pyhems.Codec.Collections
import Pyhems.Codec.EncodeFailures
import Pyhems.Codec.MixedWidths
import Pyhems.Codec.NumericCodec
import Pyhems.Device.ChangeEvents
import Pyhems.Device.NodeWorkers
import Pyhems.Device.PollSplit
import Pyhems.Device.PropertyMaps
import Pyhems.Device.RangeRecovery
import Pyhems.Device.Stopping
import Pyhems.Device.Subscriptions
import Pyhems.Generator.ObjectEntities
import Pyhems.Generator.PatchedCodecs
import Pyhems.Generator.RoleRebuild
import Pyhems.Generator.RoleScan
import Pyhems.Generator.Sentinels
import Pyhems.Generator.TemporalTable
import Pyhems.Generator.ValueTrees
import Pyhems.Get.AdaptiveIntervals
import Pyhems.Get.Backoff
import Pyhems.Get.LimitSearch
import Pyhems.Get.Partition
import Pyhems.Get.ReadResults
import Pyhems.Get.SharedLimit
import Pyhems.Poll.Availability
import Pyhems.Poll.Histories
import Pyhems.Poll.Requests
import Pyhems.Runtime.Acknowledgement
import Pyhems.Runtime.ClientStop
import Pyhems.Runtime.Exclusion
import Pyhems.Runtime.IdleQueues
import Pyhems.Runtime.InstanceLists
import Pyhems.Runtime.SetCalls
import Pyhems.Runtime.SlotScheduling
import Pyhems.Runtime.Subscribers
