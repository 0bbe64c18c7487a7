import AsyncppGrpc.ServerIndex

/-! The start-up of a `server`: the constructor launches the workers, and each runs the
initializers on its queue, comes online and, if it is the last, clears the list they share.
From then on, and for `push` and `stop` all along, the server steps as a dispatcher. `I` is
the type of the initializers. -/
namespace AsyncppGrpc.ServerStartup
open Run
variable {I F T : Type*} {n : Nat}

/-- Where a worker is before its loop: in the range-for over `m_cq_initializers`, with the
position of its iterator and that of the end it was compared with, inside an initializer,
or at one of the statements that bring it online; `compare old`: `fetch_add` returned `old`. -/
inductive WorkerPc where
  | notLaunched
  | start
  | iterate (it last : Nat)
  | call (it last : Nat)
  | fetchAdd
  | compare (old : Nat)
  | clear
  | online
  deriving DecidableEq

/-- An iterator or a reference into the list is used after `clear`, or `m_cqs[i]` does not
exist. -/
inductive Fault where
  | danglingIterator
  | missingQueue
  deriving DecidableEq

/-- `calls` are the initializers invoked with the queue each got, `late` those of them whose
queue was shut down; `came` are the workers in the order of their `fetch_add`, `clears` those
that cleared the list. -/
structure State (I F : Type*) (n : Nat) (T : Type*) where
  server : Server.State F n T
  launched : Nat
  cqInitializers : List I
  threadsOnline : Nat
  worker : Fin n → WorkerPc
  fault : Option Fault
  calls : List (I × Nat)
  late : List (I × Nat)
  came : List (Fin n)
  clears : List (Fin n)

/-- The constructor before it launches the threads. -/
def State.init (cqinits : List I) : State I F n T where
  server := .init
  launched := 0
  cqInitializers := cqinits
  threadsOnline := 0
  worker := fun _ => .notLaunched
  fault := none
  calls := []
  late := []
  came := []
  clears := []

/-- `launch`: the constructor starts the next thread; `worker w`: the next statement of the
start-up of `w`; `server a`: a step of the dispatcher. -/
inductive Action (F : Type*) (n : Nat) (T : Type*) where
  | launch
  | worker (w : Fin n)
  | server (a : Server.Action F n T)

/-- `e(cq)` is entered on the queue of `w`. -/
def callInitializer (s : State I F n T) (w : Fin n) (e : I) : State I F n T :=
  { s with
    calls := s.calls ++ [(e, w.val)]
    late := if s.server.shutdown w then s.late ++ [(e, w.val)] else s.late }

section
variable [DecidableEq T]

/-- The worker goes on to its loop. -/
def goOnline (s : State I F n T) (w : Fin n) : State I F n T :=
  { s with
    server := Server.next s.server (.online w)
    worker := Function.update s.worker w .online }

/-- The next statement of the start-up of worker `w`; at `call` the initializer returns. -/
def workerNext (s : State I F n T) (w : Fin n) : State I F n T :=
  match s.worker w with
  | .start =>
    if w.val < s.server.cqs then
      { s with worker := Function.update s.worker w (.iterate 0 s.cqInitializers.length) }
    else { s with fault := some .missingQueue }
  | .iterate it last =>
    if it = last then { s with worker := Function.update s.worker w .fetchAdd }
    else match s.cqInitializers[it]? with
      | none => { s with fault := some .danglingIterator }
      | some e => callInitializer
          { s with worker := Function.update s.worker w (.call it last) } w e
  | .call it last => match s.cqInitializers[it]? with
    | none => { s with fault := some .danglingIterator }
    | some _ => { s with worker := Function.update s.worker w (.iterate (it + 1) last) }
  | .fetchAdd => { s with
      threadsOnline := s.threadsOnline + 1
      came := s.came ++ [w]
      worker := Function.update s.worker w (.compare s.threadsOnline) }
  | .compare old =>
    if old + 1 = s.server.cqs then { s with worker := Function.update s.worker w .clear }
    else goOnline s w
  | .clear => goOnline { s with cqInitializers := [], clears := s.clears ++ [w] } w
  | .notLaunched | .online => s

def launchNext (s : State I F n T) : State I F n T :=
  if h : s.launched < n then { s with
    launched := s.launched + 1
    worker := Function.update s.worker ⟨s.launched, h⟩ .start }
  else s
end

/-- Code that may call `push` runs on the worker. -/
def WorkerPc.mayPush : WorkerPc → Bool
  | .call _ _ | .online => true
  | _ => false

/-- The server is used from outside once its constructor has returned. -/
def Allowed (s : State I F n T) : Server.Action F n T → Prop
  | .online _ => False
  | .stop | .beginPush (.external _) _ _ => s.launched = n
  | .beginPush (.worker w) _ _ => (s.worker w).mayPush = true
  | _ => True

instance (s : State I F n T) (a : Server.Action F n T) : Decidable (Allowed s a) :=
  match a with
  | .online _ => instDecidableFalse
  | .stop => inferInstanceAs (Decidable (s.launched = n))
  | .beginPush (.external _) _ _ => inferInstanceAs (Decidable (s.launched = n))
  | .beginPush (.worker w) _ _ => inferInstanceAs (Decidable ((s.worker w).mayPush = true))
  | .push _ | .nextAlarm _ | .nextEvent _ | .endEvent _ | .handleEvent _ | .exit _ =>
    instDecidableTrue

/-- A launched worker that is not online steps unless it is in a `push`. -/
def Starting (s : State I F n T) (w : Fin n) : Prop :=
  s.worker w ≠ .notLaunched ∧ s.worker w ≠ .online ∧ s.server.pushing (.worker w) = none ∧
    s.server.fault = none

instance [DecidableEq F] (s : State I F n T) (w : Fin n) : Decidable (Starting s w) :=
  inferInstanceAs (Decidable (s.worker w ≠ .notLaunched ∧ s.worker w ≠ .online ∧
    s.server.pushing (.worker w) = none ∧ s.server.fault = none))

variable [DecidableEq F] [DecidableEq T]

def Enabled (s : State I F n T) (a : Action F n T) : Prop :=
  s.fault = none ∧ match a with
  | .launch => s.launched < n
  | .worker w => Starting s w
  | .server a => Allowed s a ∧ Server.Enabled s.server a

instance (s : State I F n T) (a : Action F n T) : Decidable (Enabled s a) :=
  match a with
  | .launch => inferInstanceAs (Decidable (s.fault = none ∧ s.launched < n))
  | .worker w => inferInstanceAs (Decidable (s.fault = none ∧ Starting s w))
  | .server a =>
    inferInstanceAs (Decidable (s.fault = none ∧ Allowed s a ∧ Server.Enabled s.server a))

def next (s : State I F n T) : Action F n T → State I F n T
  | .launch => launchNext s
  | .worker w => workerNext s w
  | .server a => { s with server := Server.next s.server a }

def step : State I F n T → Action F n T → Option (State I F n T) := stepOf Enabled next

end AsyncppGrpc.ServerStartup
