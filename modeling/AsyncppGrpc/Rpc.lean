/-! What both sides of an RPC share: the method types of `method_traits` and `grpc::Status`. -/
namespace AsyncppGrpc

inductive RpcMethodType where
  | unary
  | clientStreaming
  | serverStreaming
  | bidiStreaming
  deriving DecidableEq

def RpcMethodType.isClientStreaming : RpcMethodType → Bool
  | .clientStreaming | .bidiStreaming => true
  | _ => false

def RpcMethodType.isServerStreaming : RpcMethodType → Bool
  | .serverStreaming | .bidiStreaming => true
  | _ => false

/-- `other` are the values without a name, such as `DO_NOT_USE`. -/
inductive StatusCode where
  | ok
  | cancelled
  | unknown
  | invalidArgument
  | deadlineExceeded
  | notFound
  | alreadyExists
  | permissionDenied
  | resourceExhausted
  | failedPrecondition
  | aborted
  | outOfRange
  | unimplemented
  | internal
  | unavailable
  | dataLoss
  | unauthenticated
  | other (value : Int) (h : -0x80000000 ≤ value ∧ value < 0x80000000 ∧ (value < 0 ∨ 16 < value))
  deriving DecidableEq

def StatusCode.value : StatusCode → Int
  | .other value _ => value
  | c => c.ctorIdx

/-- A default constructed status is OK. -/
structure Status where
  code : StatusCode := .ok
  message : String := ""
  details : String := ""
  deriving DecidableEq

def Status.ok (s : Status) : Bool := s.code = .ok

end AsyncppGrpc
