import MeshcoreRpc.Router

/-!
# The request pipeline

`process_request` of `core.py` with its two helpers.
-/

namespace MeshcoreRpc

open Tables Coroutine Coro

def recordEvent (request : Request) (state : EventState) (detail : Option String) : Prog Unit :=
  Prog.store (.recordEvent request.id request.from_ state detail)

def publishAndFinalize (request : Request) (response : Response) (finalState : FinalState)
    (errorCode : Option String) : Prog Unit := do
  tryCatch
    (do
      Prog.emit request.from_ response
      recordEvent request .responsePublished none)
    fun _ ↦ pure ()
  Prog.store (.recordCompletion request.id request.from_ finalState (some response) errorCode)

def emitErrorFinal (request : Request) (code message : String) : Prog Unit :=
  publishAndFinalize request
    (Response.makeError request.id request.type request.from_ code message)
    .completedError (some code)

def processRequest (policy : TimeoutPolicy) (router : Router) (request : Request) :
    Prog Unit := do
  let ttl := policy.resolve request.type request.ttl
  match ← (Prog.store (.recordReceived request ttl)).attempt with
  | .error _ => emitErrorFinal request Errors.internal "persistence error"
  | .ok false => do
    recordEvent request .rejected (some "duplicate")
    emitErrorFinal request Errors.duplicate "Duplicate request id for this node"
  | .ok true => do
    recordEvent request .validated none
    let now ← Prog.time
    Prog.store (.markNodeSeen (.str request.from_) (.float (.fin now)))
    match router.resolve request.type with
    | none => do
      recordEvent request .rejected (some "unknown_type")
      emitErrorFinal request Errors.unknownType ("Unknown request type: " ++ request.type)
    | some handler => do
      recordEvent request .handlerStarted none
      match ← (runWithTimeout (handler.handle request) (handler.unwind request) ttl).attempt with
      | .error .timeoutError => do
        recordEvent request .timeout none
        emitErrorFinal request Errors.timeout
          ("No response before timeout (" ++ toString ttl ++ "s)")
      | .error (.rpcError code message) => emitErrorFinal request code message
      | .error (.other typeName) => emitErrorFinal request Errors.internal typeName
      | .ok response => publishAndFinalize request response .completedOk none

end MeshcoreRpc
