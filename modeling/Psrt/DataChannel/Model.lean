import Psrt.Lib.Transition
import Psrt.Server.DataStream
import Psrt.Server.Registry

/-! The life of data channels: `launch_data_stream`, its two tasks, `push_to_subscribers` and the end
of a control session, interleaved over the clients they share. Every step of a process is one atomic
operation of the code: one call under a lock, one spawn, or one await that has ended. -/

namespace Psrt.DataChannel
open Wire

inductive LaunchPc where
  | replying
  | replied
  | pingerSpawned (pinger : Nat)
  | pingerRegistered
  | dataSpawned (task : Nat)
  deriving DecidableEq

inductive DataPc where
  | waiting
  | writing (message : MessageFrame)
  | failing
  deriving DecidableEq

inductive PushPc where
  | found
  | full
  | dropped
  | sending
  deriving DecidableEq

/-- Who publishes: a control session, or a task without a client such as a UDP listener. -/
inductive Source where
  | session (client : ServerClient)
  | listener
  deriving DecidableEq

inductive Proc where
  | session (client : ServerClient) (unregistered : Bool)
  | listener
  | requested (token : Token)
  | launching (client : ServerClient) (channel : ChannelId) (pc : LaunchPc)
  | pinger (client : ServerClient) (channel : ChannelId)
  | data (client : ServerClient) (channel : ChannelId) (pc : DataPc)
  | visiting (source : Source) (message : MessageFrame) (rest : List ServerClient)
  | pushing (source : Source) (message : MessageFrame) (client : ServerClient)
      (channel : ChannelId) (rest : List ServerClient) (pc : PushPc)
  | finished
  deriving DecidableEq

/-- The data task gets the receiver when it is spawned. -/
def Proc.HoldsReceiver (channel : ChannelId) : Proc → Prop
  | launching _ _ (.dataSpawned _) => False
  | launching _ ch _ => ch = channel
  | data _ ch _ => ch = channel
  | _ => False

/-- The pinger gets the request's sender when it is spawned; a push holds a clone. -/
def Proc.HoldsSender (channel : ChannelId) : Proc → Prop
  | launching _ ch .replying => ch = channel
  | launching _ ch .replied => ch = channel
  | pinger _ ch => ch = channel
  | pushing _ _ _ ch _ _ => ch = channel
  | _ => False

def Proc.HoldsClient (client : ServerClient) : Proc → Prop
  | session c _ => c = client
  | launching c _ _ => c = client
  | visiting source _ rest => source = .session client ∨ client ∈ rest
  | pushing source _ c _ rest _ => source = .session client ∨ c = client ∨ client ∈ rest
  | _ => False

structure State where
  clientsByToken : Token → Option ServerClient
  dataChannel : ServerClient → Option ChannelId
  /-- The handles `register_task` stored, newest first. -/
  tasks : ServerClient → List Nat
  aborted : Nat → Bool
  /-- What a channel holds, oldest message first. -/
  queue : ChannelId → List MessageFrame
  procs : Nat → Option Proc
  nextClient : Nat
  nextChannel : ChannelId

namespace State

def Registered (s : State) (client : ServerClient) : Prop :=
  s.clientsByToken client.token = some client

def ReceiverHeld (s : State) (channel : ChannelId) : Prop :=
  ∃ i p, s.procs i = some p ∧ p.HoldsReceiver channel

def SenderHeld (s : State) (channel : ChannelId) : Prop :=
  (∃ client, s.dataChannel client = some channel) ∨
    ∃ i p, s.procs i = some p ∧ p.HoldsSender channel

def setProc (s : State) (i : Nat) (p : Proc) : State :=
  { s with procs := Function.update s.procs i (some p) }

def abortTasks (s : State) (client : ServerClient) : State :=
  { s with
    aborted := fun j => s.aborted j || (s.tasks client).contains j
    tasks := Function.update s.tasks client [] }

end State

inductive Effect where
  | quiet
  | registerClient (client : ServerClient)
  | unregisterClient (client : ServerClient)
  | registerDataChannel (token : Token)
  | unregisterDataChannel (token : Token)
  | spawn (task : Nat) (p : Proc)
  | registerTask (client : ServerClient) (task : Nat)
  | abortTasks (client : ServerClient)
  | enqueue (channel : ChannelId) (message : MessageFrame)
  | dequeue (channel : ChannelId)
  | drop (client : ServerClient)
  deriving DecidableEq

def State.apply (s : State) : Effect → State
  | .quiet => s
  | .registerClient client =>
    { s with
      clientsByToken := Function.update s.clientsByToken client.token (some client)
      dataChannel := Function.update s.dataChannel client none
      tasks := Function.update s.tasks client []
      nextClient := s.nextClient + 1 }
  | .unregisterClient client =>
    { s with clientsByToken := Function.update s.clientsByToken client.token none }
  | .registerDataChannel token =>
    { s with
      dataChannel := (Psrt.registerDataChannel s.clientsByToken s.dataChannel token
        s.nextChannel).2
      queue := Function.update s.queue s.nextChannel []
      nextChannel := s.nextChannel + 1 }
  | .unregisterDataChannel token =>
    { s with dataChannel := Psrt.unregisterDataChannel s.clientsByToken s.dataChannel token }
  | .spawn task p =>
    { s with
      procs := Function.update s.procs task (some p)
      aborted := Function.update s.aborted task false }
  | .registerTask client task =>
    { s with tasks := Function.update s.tasks client (task :: s.tasks client) }
  | .abortTasks client => s.abortTasks client
  | .enqueue channel message =>
    { s with queue := Function.update s.queue channel (s.queue channel ++ [message]) }
  | .dequeue channel => { s with queue := Function.update s.queue channel (s.queue channel).tail }
  | .drop client =>
    { s.abortTasks client with dataChannel := Function.update s.dataChannel client none }

/-- How a process starts: a login, a data-stream request, a listener. The last rule is `Drop` of a
client nobody holds any more. -/
inductive Starts (s : State) : Effect → Proc → Prop
  | login (client : ServerClient) (hid : client.id = s.nextClient)
      (htoken : s.clientsByToken client.token = none) :
      Starts s (.registerClient client) (.session client false)
  | request (token : Token) : Starts s .quiet (.requested token)
  | listener : Starts s .quiet .listener
  | drop (client : ServerClient) (h : ¬ s.Registered client)
      (hheld : ∀ i p, s.procs i = some p → ¬ p.HoldsClient client) :
      Starts s (.drop client) .finished

/-- What `get_subscribers` may give: registered clients, each digest once. -/
structure State.Subscribers (s : State) (subscribers : List ServerClient) : Prop where
  registered : ∀ c ∈ subscribers, s.Registered c
  distinct : subscribers.Pairwise fun c c' => c.digest ≠ c'.digest

/-- The steps of process `i`, with the effect each has. `capacity` is `data_queue_size`. -/
inductive Move (capacity : Nat) (s : State) (i : Nat) : Proc → Effect → Proc → Prop
  -- the end of a control session; a token that cannot be written leaves the client registered
  | tokenLost (c) : Move capacity s i (.session c false) .quiet .finished
  | unregister (c) : Move capacity s i (.session c false) (.unregisterClient c) (.session c true)
  | abortOwn (c) : Move capacity s i (.session c true) (.abortTasks c) .finished
  -- `launch_data_stream`
  | register (token c)
      (h : (registerDataChannel s.clientsByToken s.dataChannel token s.nextChannel).1 = .ok c) :
      Move capacity s i (.requested token) (.registerDataChannel token)
        (.launching c s.nextChannel .replying)
  | refuse (token e)
      (h : (registerDataChannel s.clientsByToken s.dataChannel token s.nextChannel).1 = .error e) :
      Move capacity s i (.requested token) .quiet .finished
  | reply (c ch) : Move capacity s i (.launching c ch .replying) .quiet (.launching c ch .replied)
  | replyFailed (c ch) : Move capacity s i (.launching c ch .replying) .quiet .finished
  | spawnPinger (c ch j) (h : s.procs j = none) :
      Move capacity s i (.launching c ch .replied) (.spawn j (.pinger c ch))
        (.launching c ch (.pingerSpawned j))
  | registerPinger (c ch j) :
      Move capacity s i (.launching c ch (.pingerSpawned j)) (.registerTask c j)
        (.launching c ch .pingerRegistered)
  | spawnData (c ch j) (h : s.procs j = none) :
      Move capacity s i (.launching c ch .pingerRegistered) (.spawn j (.data c ch .waiting))
        (.launching c ch (.dataSpawned j))
  | registerData (c ch j) :
      Move capacity s i (.launching c ch (.dataSpawned j)) (.registerTask c j) .finished
  -- the pinger
  | ping (c ch) (hopen : s.ReceiverHeld ch) (hroom : (s.queue ch).length < capacity) :
      Move capacity s i (.pinger c ch) (.enqueue ch emptyMessage) (.pinger c ch)
  | pingFailed (c ch) (hclosed : ¬ s.ReceiverHeld ch) :
      Move capacity s i (.pinger c ch) .quiet .finished
  | pingerStopped (c ch) (h : s.aborted i = true) : Move capacity s i (.pinger c ch) .quiet .finished
  -- the data task
  | recv (c ch message queue) (h : s.queue ch = message :: queue) :
      Move capacity s i (.data c ch .waiting) (.dequeue ch) (.data c ch (.writing message))
  | recvClosed (c ch) (hempty : s.queue ch = []) (hclosed : ¬ s.SenderHeld ch) :
      Move capacity s i (.data c ch .waiting) .quiet .finished
  | written (c ch message) :
      Move capacity s i (.data c ch (.writing message)) .quiet (.data c ch .waiting)
  | writeEof (c ch message) : Move capacity s i (.data c ch (.writing message)) .quiet .finished
  | writeError (c ch message) :
      Move capacity s i (.data c ch (.writing message)) .quiet (.data c ch .failing)
  | unregisterFailed (c ch) :
      Move capacity s i (.data c ch .failing) (.unregisterDataChannel c.token) .finished
  | dataStopped (c ch pc) (hpc : pc ≠ .failing) (h : s.aborted i = true) :
      Move capacity s i (.data c ch pc) .quiet .finished
  -- `push_to_subscribers`
  | publishControl (c message subscribers) (h : s.Subscribers subscribers) :
      Move capacity s i (.session c false) .quiet (.visiting (.session c) message subscribers)
  | publishUdp (message subscribers) (h : s.Subscribers subscribers) :
      Move capacity s i .listener .quiet (.visiting .listener message subscribers)
  | skip (src message c rest) (h : s.dataChannel c = none) :
      Move capacity s i (.visiting src message (c :: rest)) .quiet (.visiting src message rest)
  | find (src message c rest ch) (h : s.dataChannel c = some ch) :
      Move capacity s i (.visiting src message (c :: rest)) .quiet
        (.pushing src message c ch rest .found)
  | isFull (src message c ch rest) (h : capacity ≤ (s.queue ch).length) :
      Move capacity s i (.pushing src message c ch rest .found) .quiet
        (.pushing src message c ch rest .full)
  | hasRoom (src message c ch rest) (h : (s.queue ch).length < capacity) :
      Move capacity s i (.pushing src message c ch rest .found) .quiet
        (.pushing src message c ch rest .sending)
  | unregisterFull (src message c ch rest) :
      Move capacity s i (.pushing src message c ch rest .full) (.unregisterDataChannel c.token)
        (.pushing src message c ch rest .dropped)
  | abortFull (src message c ch rest) :
      Move capacity s i (.pushing src message c ch rest .dropped) (.abortTasks c)
        (.visiting src message rest)
  | send (src message c ch rest) (hopen : s.ReceiverHeld ch)
      (hroom : (s.queue ch).length < capacity) :
      Move capacity s i (.pushing src message c ch rest .sending) (.enqueue ch message)
        (.visiting src message rest)
  | sendFailed (src message c ch rest) (hclosed : ¬ s.ReceiverHeld ch) :
      Move capacity s i (.pushing src message c ch rest .sending) .quiet
        (.visiting src message rest)
  | pushedControl (c message) :
      Move capacity s i (.visiting (.session c) message []) .quiet (.session c false)
  | pushedUdp (message) : Move capacity s i (.visiting .listener message []) .quiet .listener

structure Label where
  id : Nat
  before : Option Proc
  effect : Effect
  after : Proc

inductive Step (capacity : Nat) (s : State) : Label → State → Prop
  | start (i eff p) (hfree : s.procs i = none) (hstart : Starts s eff p) :
      Step capacity s ⟨i, none, eff, p⟩ ((s.apply eff).setProc i p)
  | move (i p eff p') (hp : s.procs i = some p) (hmove : Move capacity s i p eff p') :
      Step capacity s ⟨i, some p, eff, p'⟩ ((s.apply eff).setProc i p')

def initial : State where
  clientsByToken _ := none
  dataChannel _ := none
  tasks _ := []
  aborted _ := false
  queue _ := []
  procs _ := none
  nextClient := 0
  nextChannel := 0

abbrev Reachable (capacity : Nat) (Meets : State → Label → Prop) : State → Prop :=
  Transition.Reachable (· = initial) (Step capacity) Meets

/-- The steps of a run so far, each with the state it was taken in, the latest first. -/
abbrev History := List (State × Label)

abbrev Run (capacity : Nat) : History → State → Prop :=
  Transition.Run (· = initial) (Step capacity)

end Psrt.DataChannel
