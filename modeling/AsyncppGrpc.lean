import AsyncppGrpc.ServerStop
import AsyncppGrpc.ClientCqShutdown
import AsyncppGrpc.CallContract
import AsyncppGrpc.CallStart
import AsyncppGrpc.DefaultCq
import AsyncppGrpc.TaskLifetime
import AsyncppGrpc.TaskRejection
import AsyncppGrpc.Library.Serial
import AsyncppGrpc.ServerAffinity
import AsyncppGrpc.SerialDispatch
import AsyncppGrpc.Library.Arrival
import AsyncppGrpc.ServerIndex
import AsyncppGrpc.ServerStartup
import AsyncppGrpc.ServerInitShutdown
import AsyncppGrpc.TaskOutcome
import AsyncppGrpc.TaskShutdown
import AsyncppGrpc.CallInactive
import AsyncppGrpc.CallFinish
import AsyncppGrpc.Library.Progress
import AsyncppGrpc.ServerProgress
import AsyncppGrpc.ClientCqProgress
import AsyncppGrpc.Library.Hosting
import AsyncppGrpc.ServerTasks
import AsyncppGrpc.CallMemory
import AsyncppGrpc.ClientCalls
import AsyncppGrpc.DefaultCqLifetime
import AsyncppGrpc.TaskCancellation
import AsyncppGrpc.ServerBuilder
import AsyncppGrpc.TaskAnswers
import AsyncppGrpc.Library.ServerStream
import AsyncppGrpc.TaskContract
import AsyncppGrpc.ServerLife
import AsyncppGrpc.Library.Deduction
import AsyncppGrpc.MethodTraits
import AsyncppGrpc.Awaiter
import AsyncppGrpc.StartupProgress
import AsyncppGrpc.ServerQueues
import AsyncppGrpc.Library.Outstanding
import AsyncppGrpc.ServerQueues
