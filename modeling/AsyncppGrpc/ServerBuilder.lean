import AsyncppGrpc.ServerInitializers

/-! From the calls on a `server_builder` to the queues of the servers it builds. `P` is the type
of the objects handed to it (services, credentials, options, ...), `Fn` that of the functions
given to `add_task`, with the arguments they capture. -/
namespace AsyncppGrpc.ServerBuilder
open Run
variable {P Fn F T : Type*}

/-- The calls on the wrapped `grpc::ServerBuilder`. Enumerators are their values. -/
inductive RawCall (P : Type*) where
  | registerService (host : Option String) (service : P)
  | addListeningPort (addrUri : String) (creds : P) (selectedPort : Option P)
  | setMaxReceiveMessageSize (maxSize : Nat)
  | setMaxSendMessageSize (maxSize : Nat)
  | setMaxMessageSize (maxSize : Nat)
  | setCompressionAlgorithmSupportStatus (algorithm : Nat) (enabled : Bool)
  | setDefaultCompressionLevel (level : Nat)
  | setDefaultCompressionAlgorithm (algorithm : Nat)
  | setResourceQuota (quota : P)
  | setOption (option : P)
  | enableWorkaround (id : Nat)
  | addCompletionQueue
  | buildAndStart
  deriving DecidableEq

/-- What `add_task` is given: something invocable, or a member function and the object to call
it on. -/
inductive TaskFn (P Fn : Type*) where
  | functor (fn : Fn)
  | method (fn : Fn) (object : P)
  deriving DecidableEq

/-- The lambda of `add_task`; it is called with a queue. -/
structure Initializer (P Fn : Type*) where
  fn : TaskFn P Fn
  service : P
  deriving DecidableEq

/-- The public calls of the two builders, `raw_builder` aside. -/
inductive Call (P Fn : Type*) where
  | setThreadCount (nthreads : Nat)
  | addService (host : Option String) (service : P)
  | addTask (fn : TaskFn P Fn)
  | addPort (addrUri : String) (creds : P) (selectedPort : Option P)
  | setMaxReceiveMessageSize (maxSize : Nat)
  | setMaxSendMessageSize (maxSize : Nat)
  | setMaxMessageSize (maxSize : Nat)
  | setCompressionAlgorithmSupportStatus (algorithm : Nat) (enabled : Bool)
  | setDefaultCompressionLevel (level : Nat)
  | setDefaultCompressionAlgorithm (algorithm : Nat)
  | setResourceQuota (quota : P)
  | setOption (option : P)
  | enableWorkaround (id : Nat)
  | build

/-- What a `server` is constructed from; `raw` are all calls on the wrapped builder so far. -/
structure Built (P Fn : Type*) where
  threadCount : Nat
  raw : List (RawCall P)
  cqInitializers : List (Initializer P Fn)
  deriving DecidableEq

/-- `services` are those of the service builders handed out. -/
structure State (P Fn : Type*) where
  threadCount : Nat
  raw : List (RawCall P)
  cqInitializers : List (Initializer P Fn)
  services : List P
  servers : List (Built P Fn)

def State.init (hardwareConcurrency : Nat) : State P Fn := ⟨hardwareConcurrency, [], [], [], []⟩

/-- A call on the `server_builder`, or on a service builder of `service`. -/
inductive Action (P Fn : Type*) where
  | server (c : Call P Fn)
  | service (service : P) (c : Call P Fn)

def Call.onServer : Call P Fn → Bool
  | .addTask _ => false
  | _ => true

def Call.onService : Call P Fn → Bool
  | .setThreadCount _ => false
  | _ => true

def rawCall (s : State P Fn) (c : RawCall P) : State P Fn := { s with raw := s.raw ++ [c] }

/-- `server::server`, up to the launch of its threads. -/
def construct (threadCount : Nat) (raw : List (RawCall P))
    (cqinits : List (Initializer P Fn)) : Built P Fn :=
  ⟨threadCount, raw ++ List.replicate threadCount .addCompletionQueue ++ [.buildAndStart], cqinits⟩

/-- `build` moves the initializers out of the builder. -/
def build (s : State P Fn) : State P Fn :=
  let server := construct s.threadCount s.raw s.cqInitializers
  { s with raw := server.raw, cqInitializers := [], servers := s.servers ++ [server] }

def addService (s : State P Fn) (host : Option String) (service : P) : State P Fn :=
  { rawCall s (.registerService host service) with services := s.services ++ [service] }

/-- A call on the `server_builder`. -/
def serverNext (s : State P Fn) : Call P Fn → State P Fn
  | .setThreadCount nthreads => { s with threadCount := nthreads }
  | .addService host service => addService s host service
  | .addTask _ => s
  | .addPort addrUri creds selectedPort =>
    rawCall s (.addListeningPort addrUri creds selectedPort)
  | .setMaxReceiveMessageSize maxSize => rawCall s (.setMaxReceiveMessageSize maxSize)
  | .setMaxSendMessageSize maxSize => rawCall s (.setMaxSendMessageSize maxSize)
  | .setMaxMessageSize maxSize => rawCall s (.setMaxMessageSize maxSize)
  | .setCompressionAlgorithmSupportStatus algorithm enabled =>
    rawCall s (.setCompressionAlgorithmSupportStatus algorithm enabled)
  | .setDefaultCompressionLevel level => rawCall s (.setDefaultCompressionLevel level)
  | .setDefaultCompressionAlgorithm algorithm =>
    rawCall s (.setDefaultCompressionAlgorithm algorithm)
  | .setResourceQuota quota => rawCall s (.setResourceQuota quota)
  | .setOption option => rawCall s (.setOption option)
  | .enableWorkaround id => rawCall s (.enableWorkaround id)
  | .build => build s

/-- A service builder adds the tasks of its service and forwards the rest to its parent. -/
def serviceNext (s : State P Fn) (service : P) : Call P Fn → State P Fn
  | .addTask fn => { s with cqInitializers := s.cqInitializers ++ [⟨fn, service⟩] }
  | c => serverNext s c

section
variable [DecidableEq P]

def Enabled (s : State P Fn) : Action P Fn → Prop
  | .server c => c.onServer = true
  | .service service c => service ∈ s.services ∧ c.onService = true

instance (s : State P Fn) (a : Action P Fn) : Decidable (Enabled s a) :=
  match a with
  | .server c => inferInstanceAs (Decidable (c.onServer = true))
  | .service service c => inferInstanceAs (Decidable (service ∈ s.services ∧ c.onService = true))

def next (s : State P Fn) : Action P Fn → State P Fn
  | .server c => serverNext s c
  | .service service c => serviceNext s service c

def step : State P Fn → Action P Fn → Option (State P Fn) := stepOf Enabled next

end

/-- What a call does, with the initializer it makes and whether it builds a server. -/
inductive Effect (s : State P Fn) : Option (Initializer P Fn) → Bool → State P Fn → Prop
  | task (e : Initializer P Fn) (hmem : e.service ∈ s.services) :
      Effect s (some e) false { s with cqInitializers := s.cqInitializers ++ [e] }
  | service (host : Option String) (service : P) :
      Effect s none false (addService s host service)
  | build : Effect s none true (build s)
  | threads (nthreads : Nat) : Effect s none false { s with threadCount := nthreads }
  | raw (c : RawCall P) : Effect s none false (rawCall s c)

/-- The initializer a call of `add_task` makes. -/
def taskOf : Action P Fn → Option (Initializer P Fn)
  | .service service (.addTask fn) => some ⟨fn, service⟩
  | _ => none

def Call.isBuild : Call P Fn → Bool
  | .build => true
  | _ => false

def isBuild : Action P Fn → Bool
  | .server c | .service _ c => c.isBuild

/-- The initializers made up to the first `build`, from each to the next, and since the last. -/
def rounds (as : List (Action P Fn)) : List (List (Initializer P Fn)) :=
  (as.splitOnP isBuild).map (List.filterMap taskOf)

/-- Another element is one of the last part, unless it separates. -/
theorem splitOnP_append_singleton {α : Type*} {p : α → Bool} {a : α} (h : p a = false)
    (xs : List α) : ∃ ls l, xs.splitOnP p = ls ++ [l] ∧
      (xs ++ [a]).splitOnP p = ls ++ [l ++ [a]] := by
  induction xs with
  | nil => exact ⟨[], [], by simp, by simp [List.splitOnP_cons_eq_if_modifyHead, h]⟩
  | cons x xs ih =>
    obtain ⟨ls, l, hxs, happ⟩ := ih
    cases hx : p x with
    | true =>
      refine ⟨[] :: ls, l, ?_, ?_⟩ <;>
        simp [List.splitOnP_cons_eq_if_modifyHead, hx, hxs, happ]
    | false =>
      cases ls with
      | nil =>
        refine ⟨[], x :: l, ?_, ?_⟩ <;>
          simp [List.splitOnP_cons_eq_if_modifyHead, hx, hxs, happ]
      | cons y ls =>
        refine ⟨(x :: y) :: ls, l, ?_, ?_⟩ <;>
          simp [List.splitOnP_cons_eq_if_modifyHead, hx, hxs, happ]

theorem rounds_of_build {a : Action P Fn} (h : isBuild a = true) (as : List (Action P Fn)) :
    rounds (as ++ [a]) = rounds as ++ [[]] := by
  simp [rounds, List.splitOnP_append_cons as [] h]

theorem rounds_of_not_build {a : Action P Fn} (h : isBuild a = false)
    (as : List (Action P Fn)) : ∃ rs r, rounds as = rs ++ [r] ∧
      rounds (as ++ [a]) = rs ++ [r ++ (taskOf a).toList] := by
  obtain ⟨ls, l, hold, hnew⟩ := splitOnP_append_singleton h as
  refine ⟨ls.map (List.filterMap taskOf), l.filterMap taskOf, by simp [rounds, hold], ?_⟩
  cases ht : taskOf a <;> simp [rounds, hnew, ht]

theorem taskOf_build {a : Action P Fn} (h : isBuild a = true) : taskOf a = none := by
  cases a with
  | server c => rfl
  | service service c => cases c <;> simp_all [isBuild, Call.isBuild, taskOf]

theorem rounds_flatten (as : List (Action P Fn)) : (rounds as).flatten = as.filterMap taskOf := by
  induction as using List.reverseRecOn with
  | nil => simp [rounds]
  | append_singleton as a ih =>
    cases hb : isBuild a with
    | true => simp [rounds_of_build hb, ih, taskOf_build hb]
    | false =>
      obtain ⟨rs, r, hold, hnew⟩ := rounds_of_not_build hb as
      rw [hnew, List.filterMap_append, ← ih, hold]
      cases ht : taskOf a <;> simp [ht]

theorem effect_server (s : State P Fn) {c : Call P Fn} (hc : c.onServer = true) :
    Effect s none c.isBuild (serverNext s c) := by
  cases c with
  | setThreadCount nthreads => exact .threads nthreads
  | addService host service => exact .service host service
  | addTask fn => simp [Call.onServer] at hc
  | build => exact .build
  | _ => exact .raw _

theorem serviceNext_eq (s : State P Fn) (service : P) {c : Call P Fn} (hc : c.onServer = true) :
    serviceNext s service c = serverNext s c := by
  cases c with
  | addTask fn => simp [Call.onServer] at hc
  | _ => rfl

theorem taskOf_service (service : P) {c : Call P Fn} (hc : c.onServer = true) :
    taskOf (.service service c) = none := by
  cases c with
  | addTask fn => simp [Call.onServer] at hc
  | _ => rfl

theorem effect_of_step [DecidableEq P] {s s' : State P Fn} {a : Action P Fn}
    (hs : step s a = some s') : Effect s (taskOf a) (isBuild a) s' := by
  obtain ⟨he, rfl⟩ := stepOf_eq_some.mp hs
  cases a with
  | server c => exact effect_server s he
  | service service c =>
    by_cases hc : c.onServer = true
    · rw [taskOf_service service hc, next, serviceNext_eq s service hc]
      exact effect_server s hc
    · obtain ⟨fn, rfl⟩ : ∃ fn, c = .addTask fn := by
        cases c <;> simp_all [Call.onServer]
      exact .task ⟨fn, service⟩ he.1

/-- The services of the initializers were registered before `BuildAndStart`, which has a queue
added for each thread. -/
def Built.Ready (b : Built P Fn) : Prop :=
  ∃ raw, b.raw = raw ++ List.replicate b.threadCount .addCompletionQueue ++ [.buildAndStart] ∧
    ∀ e ∈ b.cqInitializers, ∃ host, .registerService host e.service ∈ raw

/-- No initializer is for a service that is not registered. -/
structure Inv (s : State P Fn) : Prop where
  registered : ∀ service ∈ s.services, ∃ host, .registerService host service ∈ s.raw
  offered : ∀ e ∈ s.cqInitializers, e.service ∈ s.services
  ready : ∀ b ∈ s.servers, b.Ready

theorem inv_init (threads : Nat) : Inv (.init threads : State P Fn) := by
  constructor <;> simp [State.init]

theorem inv_effect {s s' : State P Fn} {t : Option (Initializer P Fn)} {b : Bool} (h : Inv s)
    (ht : Effect s t b s') : Inv s' := by
  cases ht with
  | task e hmem =>
    refine ⟨h.registered, fun e' he' => ?_, h.ready⟩
    rcases List.mem_append.mp he' with hold | hnew
    · exact h.offered e' hold
    · rw [List.mem_singleton.mp hnew]
      exact hmem
  | service host service =>
    refine ⟨fun p hp => ?_, fun e he => List.mem_append_left _ (h.offered e he), h.ready⟩
    rcases List.mem_append.mp hp with hold | hnew
    · obtain ⟨host', hmem⟩ := h.registered p hold
      exact ⟨host', List.mem_append_left _ hmem⟩
    · rw [List.mem_singleton.mp hnew]
      exact ⟨host, List.mem_append_right _ (List.mem_singleton_self _)⟩
  | build =>
    refine ⟨fun p hp => ?_, by simp [build], fun b hb => ?_⟩
    · obtain ⟨host, hmem⟩ := h.registered p hp
      exact ⟨host, List.mem_append_left _ (List.mem_append_left _ hmem)⟩
    · rcases List.mem_append.mp hb with hold | hnew
      · exact h.ready b hold
      · rw [List.mem_singleton.mp hnew]
        exact ⟨s.raw, rfl, fun e he => h.registered _ (h.offered e he)⟩
  | threads nthreads => exact ⟨h.registered, h.offered, h.ready⟩
  | raw c =>
    refine ⟨fun p hp => ?_, h.offered, h.ready⟩
    obtain ⟨host, hmem⟩ := h.registered p hp
    exact ⟨host, List.mem_append_left _ hmem⟩

/-- The initializers of the servers built, and at the end those of the next. -/
def handed (s : State P Fn) : List (List (Initializer P Fn)) :=
  s.servers.map Built.cqInitializers ++ [s.cqInitializers]

theorem handed_effect {s s' : State P Fn} {t : Option (Initializer P Fn)} {b : Bool}
    (ht : Effect s t b s') : handed s' =
      if b then handed s ++ [[]]
      else s.servers.map Built.cqInitializers ++ [s.cqInitializers ++ t.toList] := by
  cases ht <;> simp [handed, addService, rawCall, build, construct]

section
variable [DecidableEq P]

/-- No initializer gets lost or comes to another server than the one built next. -/
theorem handed_run {threads : Nat} {as : List (Action P Fn)} {s : State P Fn}
    (hr : run step (.init threads) as = some s) : handed s = rounds as := by
  refine log_of_run (I := fun s as => handed s = rounds as) ?_ (fun s bs a s' h hs => ?_) hr
  · simp [handed, rounds, State.init]
  · rw [handed_effect (effect_of_step hs)]
    cases hb : isBuild a with
    | true => rw [if_pos rfl, h, rounds_of_build hb]
    | false =>
      obtain ⟨rs, r, hold, hnew⟩ := rounds_of_not_build hb bs
      obtain ⟨hrs, hlast⟩ := List.append_inj' (h.trans hold) rfl
      obtain rfl : s.cqInitializers = r := by simpa using hlast
      rw [if_neg (by simp), hnew, hrs]

variable [DecidableEq F] [DecidableEq T]

/-- From `add_task` to the queues. However the builder is used, each server built has the
initializers that were made by the calls of `add_task` since the server before it was built, in
that order, and those made since the last wait for the next; none gets lost. The service of each
was registered before the server was started. Under any schedule of the start-up of a server
built, each of its queues gets its initializers in the order in which they were added, each at
most once, and all of them by the time its worker comes online. -/
theorem tasks_reach_queues {threads : Nat} {as : List (Action P Fn)} {s : State P Fn}
    (hr : run step (.init threads) as = some s) :
    s.servers.map Built.cqInitializers ++ [s.cqInitializers] =
      (as.splitOnP isBuild).map (List.filterMap taskOf) ∧
    s.servers.flatMap Built.cqInitializers ++ s.cqInitializers = as.filterMap taskOf ∧
    ∀ b ∈ s.servers, b.Ready ∧
      ∀ (bs : List (ServerStartup.Action F b.threadCount T)) t,
        run ServerStartup.step (.init b.cqInitializers) bs = some t →
        ∀ w, ServerStartup.callsOn t w.val <+: b.cqInitializers ∧
          ((t.worker w).cameOnline → ServerStartup.callsOn t w.val = b.cqInitializers) := by
  have h : Inv s :=
    inv_of_run (inv_init threads) (fun _ _ _ h hs => inv_effect h (effect_of_step hs)) hr
  have hhanded := handed_run hr
  refine ⟨hhanded, ?_, fun b hb => ⟨h.ready b hb, fun bs t ht w => ?_⟩⟩
  · have hflat := congrArg List.flatten hhanded
    rw [rounds_flatten] at hflat
    simpa [handed, List.flatMap_def] using hflat
  · have hstart := ServerStartup.inv_run ht
    refine ⟨?_, hstart.callsOn_of_cameOnline⟩
    rw [hstart.calls w]
    exact List.take_prefix _ _

/-- A server of two threads with a task, and a second `build`. -/
def buildTwice : List (Action String Nat) :=
  [.server (.setThreadCount 2), .server (.addService none "Test"),
    .service "Test" (.addTask (.functor 0)), .service "Test" (.setMaxMessageSize 64),
    .server .build, .server .build]

def oneTask : List (Initializer String Nat) := [⟨.functor 0, "Test"⟩]

theorem buildTwice_reaches_queues : ∃ s raw b, run step (.init 8) buildTwice = some s ∧
    s.servers = [⟨2, raw, oneTask⟩, b] ∧ b.cqInitializers = [] ∧
    ∃ t, run ServerStartup.step (.init oneTask) (ServerStartup.startTwo 0 1) = some t ∧
      ServerStartup.callsOn t 0 = oneTask := by
  have hr : run step (.init 8) buildTwice = some _ := rfl
  have ht : run ServerStartup.step (.init oneTask) (ServerStartup.startTwo 0 1) = some _ := rfl
  obtain ⟨-, -, hservers⟩ := tasks_reach_queues (F := Nat) (T := Unit) hr
  obtain ⟨-, hqueues⟩ := hservers ⟨2, _, oneTask⟩ (.head _)
  exact ⟨_, _, _, hr, rfl, rfl, _, ht, (hqueues _ _ ht 0).2 (by decide)⟩

end
end AsyncppGrpc.ServerBuilder
