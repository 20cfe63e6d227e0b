import Schedulers.TaskQueue
import Schedulers.Dispatch
import Schedulers.ThreadPool
import Schedulers.PoolInvariant
import Schedulers.Shutdown
import Schedulers.Construction
import Schedulers.Looper
import Schedulers.WorkItemStorage
import Schedulers.CCallback
import Schedulers.BitCopy
import Schedulers.Submit
import Schedulers.Progress
import Schedulers.JavaBridge
import Schedulers.TaskBag
import Schedulers.Wakeup
