import TeleBezel.Watch.Codec

/-!
# What the request layer hands to its callers

The views of the watch submit requests to one request layer (`app/src/c/request_layer.c`) and are
called back with responses. Here it is the environment of a view: a submission returns a sequence
number, or zero with an outcome at once, and a response is whatever comes.
-/

namespace Watch

inductive TbRequestOutcome
  | response
  | timeout
  | unreachable
  | cancelled
  | protocol
deriving DecidableEq

/-- `TbResponse`, as far as its callers read it. -/
structure TbResponse where
  outcome : TbRequestOutcome
  result : ℤ := 0
  retryAfter : ℕ := 0
  payload : List UInt8 := []
  index : ℕ := 0
  final : Bool := true
deriving DecidableEq

/-- What `tb_requests_submit` returns, and what `tb_requests_immediate_outcome` tells then. -/
structure Submitted where
  sequence : ℕ
  immediate : TbRequestOutcome := .timeout

/-- What a view calls on the request layer, for a view with the callbacks `κ`. -/
inductive RequestCall (κ : Type)
  | cancel (sequence : ℕ)
  /-- `tb_requests_submit` with a callback of the view. -/
  | submit (callback : κ)
  /-- `tb_requests_submit` without a callback. -/
  | post
deriving DecidableEq

def cancelled {κ : Type} (pending : ℕ) : List (RequestCall κ) :=
  if pending = 0 then [] else [.cancel pending]

def abandoned {κ : Type} (sequence : ℕ) (response : TbResponse) : List (RequestCall κ) :=
  if response.final then [] else [.cancel sequence]

def tbResultOk : ℤ := 0

def tbResultProtocolError : ℤ := 6

def tbResultBusy : ℤ := 11

def tbResultMessageUnavailable : ℤ := 14

def tbResultSendRateLimited : ℤ := 21

def tbErrorNone : ℤ := 0

def tbErrorPhoneUnreachable : ℤ := 100

def tbErrorNoResponse : ℤ := 101

def tbErrorFromOutcome : TbRequestOutcome → ℤ
  | .unreachable => tbErrorPhoneUnreachable
  | .protocol => tbResultProtocolError
  | .cancelled => tbErrorNone
  | _ => tbErrorNoResponse

def tbErrorSubmitFailed (submitted : Submitted) : ℤ := tbErrorFromOutcome submitted.immediate

def tbErrorFromResponse (response : TbResponse) : ℤ :=
  match response.outcome with
  | .unreachable => tbErrorPhoneUnreachable
  | .timeout => tbErrorNoResponse
  | .protocol => tbResultProtocolError
  | .cancelled => tbErrorNone
  | .response => response.result

end Watch
