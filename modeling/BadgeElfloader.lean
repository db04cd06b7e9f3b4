import BadgeElfloader.Kernel.AbiWrapper
import BadgeElfloader.Kernel.Continuation
import BadgeElfloader.Kernel.Transparent
import BadgeElfloader.Runner.LinkedCalls
import BadgeElfloader.Runner.Memory
import BadgeElfloader.Runner.Libraries
import BadgeElfloader.Abi.I2cThreads
import BadgeElfloader.Kernel.Sched
import BadgeElfloader.Kernel.Vectors
import BadgeElfloader.Runner.Handover
import BadgeElfloader.Runner.Exit
import BadgeElfloader.Abi.DisplayViews
import BadgeElfloader.Abi.Clients
import BadgeElfloader.Abi.Ranges
import BadgeElfloader.Abi.Transfers
import BadgeElfloader.Abi.Indices
import BadgeElfloader.Abi.Exports
import BadgeElfloader.Loader.Failure
import BadgeElfloader.Runner.Jump
import BadgeElfloader.Runner.UserStack
