import TeleBezel.Lib.Word
import TeleBezel.Watch.Requests

/-!
# The connection of the watch

`app/src/c/connection.c` follows the state of the connection of an account: it is told of it with
every page of chats, and asks for it again and again while the account is not ready, for a limited
time. What the request layer returns is given with every call, and what is called on the layer is
kept in `calls`. That the windows are told of a change, and the records after the status, are left
out.
-/

namespace Watch

open Word

inductive TbConnectionError
  | none
  | cannotConnect
  | longUpdate

/-- `TbConnection`, with what it has called on the request layer. -/
structure TbConnection where
  account : CString := []
  state : ℕ := 0
  known : Bool := false
  proxy : Bool := false
  fresh : Bool := false
  active : Bool := false
  polling : Bool := false
  error : TbConnectionError := .none
  pending : ℕ := 0
  window : ℕ := 0
  delay : ℕ := 0
  polls : ℕ := 0
  /-- The delay of the timer, when it is armed. -/
  timer : Option ℕ := .none
  calls : List (RequestCall Unit) := []

/-- `TB_CONNECTION_UPDATING` and `TB_CONNECTION_READY`; `TB_CONNECTION_CONNECTING` is zero. -/
def tbConnectionUpdating : ℕ := 1

@[inherit_doc tbConnectionUpdating] def tbConnectionReady : ℕ := 2

def limitOf (state : ℕ) : ℕ := if state = tbConnectionUpdating then 20000 else 14000

def delayOf (state polls : ℕ) : ℕ :=
  if state = tbConnectionUpdating then 2500 + polls * 250 else 2000

def tbRecordStatus : ℕ := 7

structure TbStatusRecord where
  connection : ℕ
  proxy : ℕ

def tbCodecStatus (body : TbCursor) : Option TbStatusRecord :=
  match tbCodecDecode body (tbLayout tbRecordStatus) with
  | some [.number connection, .number proxy] => some ⟨connection, proxy⟩
  | _ => none

namespace TbConnection

variable (connection : TbConnection)

def arm : TbConnection :=
  let connection : TbConnection := { connection with timer := .none }
  if ¬ connection.polling ∨ ¬ connection.active ∨ connection.pending ≠ 0 then connection
  else if limitOf connection.state < uint32 (connection.window + connection.delay : ℕ) then
    { connection with
      polling := false
      error := if connection.state = tbConnectionUpdating then .longUpdate else .cannotConnect }
  else { connection with timer := some connection.delay }

def enter (state : ℕ) : TbConnection :=
  { connection with
    state
    known := true
    fresh := false
    error := .none
    window := 0
    polls := 0
    polling := state ≠ tbConnectionReady
    delay := delayOf state 0 }.arm

def proceed : TbConnection :=
  { connection with delay := delayOf connection.state connection.polls }.arm

def apply (state : ℕ) (proxy polled : Bool) : TbConnection :=
  let state := if tbConnectionReady < state then 0 else state
  let connection : TbConnection := { connection with proxy }
  if connection.known ∧ ¬ connection.fresh ∧ state = connection.state then
    if polled ∧ connection.polling then connection.proceed else connection
  else connection.enter state

/-- The status of a response that `completed` applies: the first record of an answer that is ok. -/
def answer (response : TbResponse) : Option TbStatusRecord :=
  if response.outcome = .response ∧ response.result = tbResultOk then
    match tbCodecNext response.payload with
    | some (type, body, _) => if type = tbRecordStatus then tbCodecStatus body else .none
    | .none => .none
  else .none

def completed (sequence : ℕ) (response : TbResponse) : TbConnection :=
  if sequence ≠ connection.pending ∨ response.outcome = .cancelled then connection
  else
    let connection : TbConnection := { connection with pending := 0 }
    match answer response with
    | some status => connection.apply status.connection (status.proxy ≠ 0) true
    | .none =>
      let connection : TbConnection :=
        { connection with calls := connection.calls ++ abandoned sequence response }
      if connection.polling then connection.proceed else connection

/-- `tb_connection_close`. -/
def close : TbConnection :=
  { calls := connection.calls ++ cancelled connection.pending }

/-- `tb_connection_open`. -/
def «open» (account : CString) : TbConnection :=
  { connection.close with account := strncpy tbAccountIdSize account, active := connection.active }

/-- `tb_connection_summary`. -/
def summary (state : ℕ) (proxy : Bool) : TbConnection :=
  if connection.account = [] then connection else connection.apply state proxy false

/-- `tb_connection_refresh`. -/
def refresh : TbConnection :=
  if connection.account = [] then connection
  else
    { connection with
      calls := connection.calls ++ cancelled connection.pending
      pending := 0
      timer := .none
      fresh := true
      polling := false
      error := .none }

/-- `tb_connection_set_active`. -/
def setActive (active : Bool) : TbConnection :=
  let connection : TbConnection := { connection with active }
  if active then connection.arm else { connection with timer := .none }

/-- `tb_connection_timer`, when the timer has run out. -/
def timerRan (submitted : Submitted) (connection : TbConnection) : TbConnection :=
  let connection : TbConnection := { connection with timer := .none }
  if ¬ connection.polling ∨ ¬ connection.active ∨ connection.pending ≠ 0 ∨
      connection.account = [] then connection
  else
    let connection : TbConnection := { connection with
      window := uint32 (connection.window + connection.delay : ℕ)
      polls := (connection.polls + 1) % 256
      pending := submitted.sequence
      calls := connection.calls ++ [.submit ()] }
    if connection.pending = 0 then connection.proceed else connection

end TbConnection

inductive ConnectionEvent
  | open (account : CString)
  | summary (state : ℕ) (proxy : Bool)
  | refresh
  | setActive (active : Bool)
  | timer
  | close
  /-- The request layer calls back. -/
  | response (sequence : ℕ) (response : TbResponse)

def TbConnection.step (connection : TbConnection) : ConnectionEvent × Submitted → TbConnection
  | (.open account, _) => connection.open account
  | (.summary state proxy, _) => connection.summary state proxy
  | (.refresh, _) => connection.refresh
  | (.setActive active, _) => connection.setActive active
  | (.timer, submitted) => connection.timerRan submitted
  | (.close, _) => connection.close
  | (.response sequence response, _) => connection.completed sequence response

end Watch
