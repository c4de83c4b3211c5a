import TeleBezel.Watch.Requests

/-!
# The text of a message on the watch

`app/src/c/message_text.c` fetches the full text of one message into a buffer that grows up to a
limit. What the request layer returns, and which allocations succeed, is given with every call, and
what the reader calls on the layer is kept in `calls`. That the window is told of a change is left
out.
-/

namespace Watch.TextReader

/-- `TbMessageText`. The buffer is what its bytes are up to the length, if there is one. -/
structure TbMessageText where
  limit : ℕ := 0
  account : CString := []
  chat : CString := []
  message : CString := []
  text : Option (List UInt8) := none
  capacity : ℕ := 0
  loading : Bool := false
  truncated : Bool := false
  error : ℤ := tbErrorNone
  pending : ℕ := 0
  /-- What the reader has called on the request layer. -/
  calls : List (RequestCall Unit) := []

structure Env where
  submitted : Submitted
  /-- Whether the buffer of a new reader is allocated. -/
  malloc : Bool
  /-- Whether the buffer grows, at a record of the payload. -/
  realloc : ℕ → Bool

def tbTextChunk : ℕ := 512

def tbFlagTruncated : ℕ := 64

def tbRecordText : ℕ := 5

def tbErrorOutOfMemory : ℤ := 102

def tbCodecText (body : TbCursor) : Option (List UInt8) :=
  match tbCodecDecode body (tbLayout tbRecordText) with
  | some [.span part] => some part
  | _ => none

/-- The loop of `reserve`: a capacity that is not zero reaches a length after as many rounds. -/
def doubled (length : ℕ) : ℕ → ℕ → ℕ
  | 0, capacity => capacity
  | rounds + 1, capacity => if capacity < length then doubled length rounds (2 * capacity) else capacity

namespace TbMessageText

variable (env : Env) (reader : TbMessageText)

def length : ℕ := (reader.text.getD []).length

def submit : TbMessageText :=
  let reader : TbMessageText := { reader with
    text := reader.text.map fun _ => []
    truncated := false
    error := tbErrorNone
    loading := true
    pending := env.submitted.sequence
    calls := reader.calls ++ [.submit ()] }
  if env.submitted.sequence = 0 then
    { reader with loading := false, error := tbErrorSubmitFailed env.submitted }
  else reader

/-- `reserve`, or none where it returns false. -/
def reserve (grows : Bool) (reader : TbMessageText) (length : ℕ) : Option TbMessageText :=
  if length ≤ reader.capacity then some reader
  else
    let capacity := doubled length length (if reader.capacity = 0 then tbTextChunk else reader.capacity)
    let capacity := if reader.limit < capacity then reader.limit else capacity
    if grows then some { reader with capacity } else none

def fitting (part : List UInt8) : ℕ := cutTo (reader.limit - reader.length) part

/-- The loop of `append`, at a record of the payload; a record takes bytes, so that their number is
fuel enough. -/
def appendLoop : ℕ → ℕ → TbCursor → TbMessageText → TbMessageText × Bool
  | _, _, [], reader => (reader, true)
  | 0, _, _ :: _, reader => (reader, false)
  | fuel + 1, index, cursor@(_ :: _), reader =>
    match tbCodecNext cursor with
    | none => (reader, false)
    | some (type, body, cursor) =>
      if type ≠ tbRecordText then (reader, false)
      else match tbCodecText body with
        | none => (reader, false)
        | some part =>
          let size := reader.fitting part
          let reader := if size < part.length then { reader with truncated := true } else reader
          match reader.reserve (env.realloc index) (reader.length + size) with
          -- the text is cut where the buffer cannot grow, and the rest of the chunk is not looked at
          | none => ({ reader with truncated := true }, true)
          | some reader =>
            appendLoop fuel (index + 1) cursor
              { reader with text := reader.text.map (· ++ part.take size) }

def append (payload : List UInt8) : TbMessageText × Bool :=
  reader.appendLoop env payload.length 0 payload

/-- The part of `completed` for a request that fails. -/
def fail (sequence : ℕ) (response : TbResponse) (error : ℤ) :
    TbMessageText :=
  { reader with
    calls := reader.calls ++ abandoned sequence response
    pending := 0
    loading := false
    error
    text := reader.text.map fun _ => [] }

def completed (sequence : ℕ) (response : TbResponse) (flags : ℕ) :
    TbMessageText :=
  if sequence ≠ reader.pending ∨ response.outcome = .cancelled then reader
  else if response.outcome ≠ .response ∨ response.result ≠ tbResultOk then
    reader.fail sequence response (tbErrorFromResponse response)
  else
    let (reader, ok) := reader.append env response.payload
    if ¬ ok then reader.fail sequence response tbResultProtocolError
    else
      let reader := if response.index = 0 ∧ flags &&& tbFlagTruncated ≠ 0 then
          { reader with truncated := true }
        else reader
      if response.final then { reader with pending := 0, loading := false } else reader

/-- `tb_message_text_init`. -/
def init (limit : ℕ) : TbMessageText := { limit }

/-- `tb_message_text_close`. -/
def close : TbMessageText :=
  { reader with
    calls := reader.calls ++ cancelled reader.pending
    pending := 0
    text := none
    capacity := 0
    loading := false
    truncated := false }

/-- `tb_message_text_open`. -/
def «open» (account chat message : CString) : TbMessageText :=
  let reader := reader.close
  if env.malloc then
    { reader with
      capacity := if reader.limit < tbTextChunk then reader.limit else tbTextChunk
      text := some []
      account := strncpy tbAccountIdSize account
      chat := strncpy tbTelegramIdSize chat
      message := strncpy tbTelegramIdSize message }.submit env
  else { reader with error := tbErrorOutOfMemory }

/-- `tb_message_text_retry`. -/
def retry : TbMessageText :=
  if reader.text = none ∨ reader.loading then reader else reader.submit env

end TbMessageText

inductive Event
  | open (account chat message : CString)
  | retry
  | close
  /-- The request layer calls back. -/
  | response (sequence : ℕ) (response : TbResponse) (flags : ℕ)

def step (reader : TbMessageText) : Event × Env → TbMessageText
  | (.open account chat message, env) => reader.open env account chat message
  | (.retry, env) => reader.retry env
  | (.close, _) => reader.close
  | (.response sequence response flags, env) => reader.completed env sequence response flags

end Watch.TextReader
