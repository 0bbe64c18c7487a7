import AsyncppGrpc.Rpc
import AsyncppGrpc.Library.Deduction

/-! `method_traits`: what the type of a method pointer says about its RPC, and which of `task`,
`streaming_call` and `unary_call` compile with it. -/
namespace AsyncppGrpc.MethodTraits
open Deduction
variable {ν : Type*}

/-- The type constructors of the specialisations; `named` stands for any other type. -/
inductive Cxx where
  | void
  | pointer
  | const
  | reference
  | uniquePtr
  | memberPointer
  | noParams
  | param
  | completionQueue
  | serverCompletionQueue
  | serverContext
  | clientContext
  | serverAsyncResponseWriter
  | serverAsyncReader
  | serverAsyncWriter
  | serverAsyncReaderWriter
  | clientAsyncResponseReader
  | clientAsyncResponseReaderInterface
  | clientAsyncWriter
  | clientAsyncWriterInterface
  | clientAsyncReader
  | clientAsyncReaderInterface
  | clientAsyncReaderWriter
  | clientAsyncReaderWriterInterface
  | named (name : String)
  deriving DecidableEq

/-- The template parameters of the specialisations. -/
inductive Param where
  | service
  | request
  | response
  deriving DecidableEq

instance : Fintype Param := ⟨{.service, .request, .response}, fun v => by cases v <;> decide⟩

abbrev Ty (ν : Type*) := Term Cxx ν

def void : Ty ν := .con .void
def ptr (t : Ty ν) : Ty ν := .app (.con .pointer) t
def const (t : Ty ν) : Ty ν := .app (.con .const) t
def ref (t : Ty ν) : Ty ν := .app (.con .reference) t
def uniquePtr (t : Ty ν) : Ty ν := .app (.con .uniquePtr) t
def template (c : Cxx) (ts : List (Ty ν)) : Ty ν := ts.foldl .app (.con c)

def paramList (ts : List (Ty ν)) : Ty ν :=
  ts.foldr (fun t ts => .app (.app (.con .param) t) ts) (.con .noParams)

/-- `result (service::*)(params...)` -/
def memberPointer (result service : Ty ν) (params : List (Ty ν)) : Ty ν :=
  template .memberPointer [result, service, paramList params]

def service : Ty Param := .param .service
def request : Ty Param := .param .request
def response : Ty Param := .param .response

structure Traits (ν : Type*) where
  isServerSide : Bool
  isClientStreaming : Bool
  isServerStreaming : Bool
  isStreaming : Bool
  type : RpcMethodType
  serviceType : Ty ν
  requestType : Ty ν
  responseType : Ty ν
  streamType : Ty ν
  callPtrType : Ty ν
  deriving DecidableEq

def Traits.subst {μ : Type*} (t : Traits ν) (args : ν → Ty μ) : Traits μ :=
  { t with
    serviceType := t.serviceType.subst args
    requestType := t.requestType.subst args
    responseType := t.responseType.subst args
    streamType := t.streamType.subst args
    callPtrType := t.callPtrType.subst args }

/-- `stream_type` of `server_stream_traits`. -/
def serverStreamType (value : RpcMethodType) (request response : Ty ν) : Ty ν :=
  match value with
  | .unary => template .serverAsyncResponseWriter [response]
  | .clientStreaming => template .serverAsyncReader [response, request]
  | .serverStreaming => template .serverAsyncWriter [response]
  | .bidiStreaming => template .serverAsyncReaderWriter [response, request]

/-- `server_stream_traits` with the members a specialisation adds. -/
def serverStreamTraits (value : RpcMethodType) (callPtrType : Ty Param) : Traits Param where
  isServerSide := true
  isClientStreaming := value = .clientStreaming || value = .bidiStreaming
  isServerStreaming := value = .serverStreaming || value = .bidiStreaming
  isStreaming := (value = .clientStreaming || value = .bidiStreaming) ||
    (value = .serverStreaming || value = .bidiStreaming)
  type := value
  serviceType := service
  requestType := request
  responseType := response
  streamType := serverStreamType value request response
  callPtrType := callPtrType

/-- The members of a client side specialisation, whose `call_ptr_type` takes `params`. -/
def clientTraits (isClientStreaming isServerStreaming : Bool) (type : RpcMethodType)
    (streamType : Ty Param) (params : List (Ty Param)) : Traits Param where
  isServerSide := false
  isClientStreaming := isClientStreaming
  isServerStreaming := isServerStreaming
  isStreaming := isClientStreaming || isServerStreaming
  type := type
  serviceType := service
  requestType := request
  responseType := response
  streamType := streamType
  callPtrType := memberPointer streamType service params

/-- What an asynchronous method of a service takes after its stream. -/
def serverQueues : List (Ty Param) :=
  [ptr (.con .completionQueue), ptr (.con .serverCompletionQueue), ptr void]

def serverUnary : Ty Param × Traits Param :=
  (memberPointer void service ([ptr (.con .serverContext), ptr request,
      ptr (template .serverAsyncResponseWriter [response])] ++ serverQueues),
    serverStreamTraits .unary
      (memberPointer void service ([ptr (.con .serverContext), ptr request,
        ptr (template .serverAsyncResponseWriter [response])] ++ serverQueues)))

def serverClientStreaming : Ty Param × Traits Param :=
  (memberPointer void service ([ptr (.con .serverContext),
      ptr (template .serverAsyncReader [response, request])] ++ serverQueues),
    serverStreamTraits .clientStreaming
      (memberPointer void service ([ptr (.con .serverContext),
        ptr (template .serverAsyncReader [response, request])] ++ serverQueues)))

def serverServerStreaming : Ty Param × Traits Param :=
  (memberPointer void service ([ptr (.con .serverContext), ptr request,
      ptr (template .serverAsyncWriter [response])] ++ serverQueues),
    serverStreamTraits .serverStreaming
      (memberPointer void service ([ptr (.con .serverContext), ptr request,
        ptr (template .serverAsyncWriter [response])] ++ serverQueues)))

def serverBidiStreaming : Ty Param × Traits Param :=
  (memberPointer void service ([ptr (.con .serverContext),
      ptr (template .serverAsyncReaderWriter [response, request])] ++ serverQueues),
    serverStreamTraits .bidiStreaming
      (memberPointer void service ([ptr (.con .serverContext),
        ptr (template .serverAsyncReaderWriter [response, request])] ++ serverQueues)))

/-- The client side comes with the stream and with its interface. -/
def clientUnary (reader : Cxx) : Ty Param × Traits Param :=
  (memberPointer (uniquePtr (template reader [response])) service
      [ptr (.con .clientContext), ref (const request), ptr (.con .completionQueue)],
    clientTraits false false .unary (uniquePtr (template reader [response]))
      [ptr (.con .clientContext), ref (const request), ptr (.con .completionQueue)])

def clientClientStreaming (writer : Cxx) : Ty Param × Traits Param :=
  (memberPointer (uniquePtr (template writer [request])) service
      [ptr (.con .clientContext), ptr response, ptr (.con .completionQueue), ptr void],
    clientTraits true false .clientStreaming (uniquePtr (template writer [request]))
      [ptr (.con .clientContext), ptr response, ptr (.con .completionQueue), ptr void])

def clientServerStreaming (reader : Cxx) : Ty Param × Traits Param :=
  (memberPointer (uniquePtr (template reader [response])) service
      [ptr (.con .clientContext), ref (const request), ptr (.con .completionQueue), ptr void],
    clientTraits false true .serverStreaming (uniquePtr (template reader [response]))
      [ptr (.con .clientContext), ref (const request), ptr (.con .completionQueue), ptr void])

def clientBidiStreaming (readerWriter : Cxx) : Ty Param × Traits Param :=
  (memberPointer (uniquePtr (template readerWriter [request, response])) service
      [ptr (.con .clientContext), ptr (.con .completionQueue), ptr void],
    clientTraits true true .bidiStreaming (uniquePtr (template readerWriter [request, response]))
      [ptr (.con .clientContext), ptr (.con .completionQueue), ptr void])

def specialisations : List (Ty Param × Traits Param) :=
  [serverUnary, serverClientStreaming, serverServerStreaming, serverBidiStreaming,
    clientUnary .clientAsyncResponseReader, clientUnary .clientAsyncResponseReaderInterface,
    clientClientStreaming .clientAsyncWriter, clientClientStreaming .clientAsyncWriterInterface,
    clientServerStreaming .clientAsyncReader, clientServerStreaming .clientAsyncReaderInterface,
    clientBidiStreaming .clientAsyncReaderWriter,
    clientBidiStreaming .clientAsyncReaderWriterInterface]

/-- `method_traits<f>`; none if no specialisation, or more than one, fits. -/
def methodTraits (f : Ty Empty) : Option (Traits Empty) :=
  (select specialisations f).map fun c => c.1.subst c.2

theorem specialisations_params : ∀ s ∈ specialisations, ∀ v, v ∈ s.1.params := by decide

theorem specialisations_clash :
    specialisations.Pairwise fun r s => r.1.clash s.1 = true := by decide

theorem methodTraits_iff {f : Ty Empty} {t : Traits Empty} : methodTraits f = some t ↔
    ∃ s ∈ specialisations, ∃ args, s.1.subst args = f ∧ s.2.subst args = t := by
  simp only [methodTraits, Option.map_eq_some_iff,
    select_iff specialisations_params specialisations_clash]
  constructor
  · intro ⟨c, ⟨p, hp, hf⟩, ht⟩
    exact ⟨(p, c.1), hp, c.2, hf, ht⟩
  · intro ⟨s, hs, args, hf, ht⟩
    exact ⟨(s.2, args), ⟨s.1, hs, hf⟩, ht⟩

theorem specialisations_exact : ∀ s ∈ specialisations, s.2.callPtrType = s.1 ∧
    s.2.isClientStreaming = s.2.type.isClientStreaming ∧
    s.2.isServerStreaming = s.2.type.isServerStreaming ∧
    s.2.isStreaming = (s.2.isClientStreaming || s.2.isServerStreaming) := by decide

section
variable (other : Ty ν → Ty ν → Prop)

end

section
variable (other : Ty Empty → Ty Empty → Prop)

end

section
variable {other : Ty Empty → Ty Empty → Prop}

end

/-- `method_traits` is a function of the type of the method: no two specialisations fit one type,
whichever way their parameters are chosen. What it says is exact: `call_ptr_type` is the very
type it was given, and what a specialisation declares agrees with its `type`. -/
theorem method_traits_exact (f : Ty Empty) : (candidates specialisations f).length ≤ 1 ∧
    ∀ t, methodTraits f = some t → t.callPtrType = f ∧
      t.isClientStreaming = t.type.isClientStreaming ∧
      t.isServerStreaming = t.type.isServerStreaming ∧
      t.isStreaming = (t.isClientStreaming || t.isServerStreaming) := by
  refine ⟨candidates_le_one specialisations_params specialisations_clash f, fun t ht => ?_⟩
  obtain ⟨s, hs, args, hf, hst⟩ := methodTraits_iff.mp ht
  obtain ⟨hcall, hflags⟩ := specialisations_exact s hs
  subst hst
  refine ⟨?_, hflags⟩
  rw [← hf, ← hcall]
  rfl

/-- The bidirectional method of a stub, as the one of the test service. -/
def dummyArgs : Param → Ty Empty
  | .service => .con (.named "DummyService::Stub")
  | .request => .con (.named "DummyBidiStreamingRequest")
  | .response => .con (.named "DummyBidiStreamingResponse")

def asyncDummyBidiStreaming : Ty Empty :=
  (clientBidiStreaming .clientAsyncReaderWriter).1.subst dummyArgs

theorem methodTraits_dummy : methodTraits asyncDummyBidiStreaming =
    some ((clientBidiStreaming .clientAsyncReaderWriter).2.subst dummyArgs) :=
  methodTraits_iff.mpr ⟨clientBidiStreaming .clientAsyncReaderWriter, by decide, _, rfl, rfl⟩

theorem asyncDummyBidiStreaming_exact : ∃ t, methodTraits asyncDummyBidiStreaming = some t ∧
    t.callPtrType = asyncDummyBidiStreaming ∧ t.type = .bidiStreaming :=
  ⟨_, methodTraits_dummy, ((method_traits_exact _).2 _ methodTraits_dummy).1, rfl⟩

end AsyncppGrpc.MethodTraits
