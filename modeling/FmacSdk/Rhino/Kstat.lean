/-! # The status codes of the kernel -/
namespace FmacSdk.Rhino

/-- The codes of `kstat_t` that the kernel calls return. -/
inductive Kstat
  | success
  | running
  | invParam
  | kobjTypeErr
  | kobjDelErr
  | ringbufFull
  | ringbufEmpty
  | schedDisable
  | schedAlreadyEnabled
  | schedLockCountOvf
  | taskNotSuspended
  | taskDelNotAllowed
  | taskSuspendNotAllowed
  | suspendedCountOvf
  | beyondMaxPri
  | priChgNotAllowed
  | invTaskState
  | idleTaskExist
  | noPendWait
  | blkAbort
  | blkTimeout
  | blkDel
  | noThisEventOpt
  | bufQueueSizeZero
  | bufQueueFull
  | bufQueueMsgSizeOverflow
  | queueFull
  | semOvf
  | semTaskWaiting
  | mutexNotReleasedByOwner
  | mutexOwnerNested
  | notCalledByIntrpt
  deriving DecidableEq,Repr

end FmacSdk.Rhino
