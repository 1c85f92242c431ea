import Dekit.Namespace
import Dekit.Task

namespace Dekit

abbrev ReplyId := ℕ

/-- Ids come from a counter that starts past `initTaskId`. -/
structure TaskRegistration (τ : Type) where
  taskId : TaskId
  allocated : taskId ≠ initTaskId
  def' : TaskDef τ
  factory : TaskId → τ

structure FolderSettings where
  collapsed : Bool
  origin : Option Source
deriving DecidableEq

structure FolderDef where
  id : TaskId
  space : TaskSpaceId
  path : TaskPath
  place : Place
  settings : FolderSettings

inductive Registration (τ : Type) where
  | task (registration : TaskRegistration τ)
  | folder (d : FolderDef)

structure DuplicateRequest where
  label : Option String
  path : Option TaskPath
  start : Bool

inductive Verb where
  | up
  | start
  | restart
  | forceRestart
  | stop
  | kill
  | veto
deriving DecidableEq

/-- What a wait does before it waits: carry out a verb, or nothing. -/
inductive WaitOn where
  | isMatching (selector : TaskSelector)
  | ids (ids : List TaskId)
  | act (verb : Verb) (selector : TaskSelector)

inductive WaitCond where
  | ready
  | exit
  | down
deriving DecidableEq

structure WaitRequest where
  on : WaitOn
  cond : WaitCond
  events : ReplyId

structure TaskUpdate where
  next : NextRun
  restart : RestartMode
  deps : List TaskSelector
  tags : List String
  label : Option String
  was : Option TaskSpec
  restartRunning : Bool

structure MoveTask where
  space : TaskSpaceId
  src : TaskPath
  dst : TaskPath
  place : Place

inductive RegisterError where
  | idTaken
  | reservedSpace (space : TaskSpaceId)
  | pathTaken (key : TaskKey)
  | pathNested (key other : TaskKey)
  | missingDep (selector : TaskSelector)
  | depCycle (dep : String)
  | changed
  | noDefinition
  | folderAt (key : TaskKey)
deriving DecidableEq

namespace Snap

/-- A task's own part of a snapshot, which the kernel hands on as it is. -/
structure TaskKind where
  content : ℕ
deriving DecidableEq

structure Task where
  id : TaskId
  space : TaskSpaceId
  path : Option TaskPath
  label : Option String
  tags : List String
  pinned : Bool
  deps : List TaskId
  restart : RestartMode
  job : Bool
  readyTimeoutMs : Option ℕ
  stopTimeoutMs : Option ℕ
  state : TaskState
  vetoed : Bool
  killed : Bool
  startFailed : Bool
  stopTimedOut : Bool
  savedPin : Bool
  attempts : ℕ
  lastStartSecsAgo : Option ℕ
  timerMs : Option ℕ
  spec : Option TaskSpec
  runSpec : Option TaskSpec
  origin : Option Source
  kind : TaskKind

structure Folder where
  id : TaskId
  space : TaskSpaceId
  path : TaskPath
  after : Option TaskId
  collapsed : Bool
  origin : Option Source

end Snap

structure KernelSnapshot where
  nextTaskId : ℕ
  tasks : List Snap.Task
  folders : List Snap.Folder

inductive Answer where
  | within (bound : Duration)
  | registered (result : Except RegisterError Unit)
  | registeredAll (results : List (Except RegisterError Unit))
  | count (n : ℕ)
  | changed (result : Except RegisterError ℕ)
  | moved (result : Except MoveError ℕ)
  | frozen (result : Except String KernelSnapshot)

/-- Queries and watches only read the graph. -/
inductive KernelCommand (τ : Type) where
  | quit
  | quitWithoutSave
  | quitWithin (save : Bool) (reply : ReplyId)
  | registerTask (registration : TaskRegistration τ) (ack : ReplyId)
  | registerTasks (registrations : List (Registration τ)) (ack : ReplyId)
  | act (verb : Verb) (selector : TaskSelector) (ack : Option ReplyId)
  | unpin (selector : TaskSelector) (ack : Option ReplyId)
  | remove (selector : TaskSelector) (ack : Option ReplyId)
  | dropFolder (id : TaskId) (ack : Option ReplyId)
  | setFolder (id : TaskId) (settings : FolderSettings) (ack : Option ReplyId)
  | setLabel (selector : TaskSelector) (label : Option String) (ack : Option ReplyId)
  | duplicate (selector : TaskSelector) (req : DuplicateRequest) (reply : ReplyId)
  | update (selector : TaskSelector) (update : TaskUpdate) (reply : ReplyId)
  | setOrigin (selector : TaskSelector) (origin : Option Source) (ack : Option ReplyId)
  | move (req : MoveTask) (reply : ReplyId)
  | taskMsg (id : TaskId) (content : ℕ)
  | query
  | subscribePath (key : TaskKey) (mode : SubMode)
  | unsubscribePath (key : TaskKey) (mode : SubMode)
  | watchActive (selector : TaskSelector) (sender : ReplyId)
  | wait (request : WaitRequest)
  | taskStarted
  | taskReady
  | taskStopped (info : ExitInfo)
  | stateTimeout (id : TaskId) (epoch : ℕ)
  | freeze (reply : ReplyId)
  | taskFrozen (number : ℕ) (snapshot : Snap.TaskKind)
  | freezeTimeout (number : ℕ)
  | thaw

structure KernelMessage (τ : Type) where
  sender : TaskId
  command : KernelCommand τ

end Dekit
