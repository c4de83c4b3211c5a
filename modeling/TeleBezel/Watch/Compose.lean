import TeleBezel.Watch.MessageText
import TeleBezel.Watch.SendTracker

/-!
# Composing a message on the watch

`app/src/c/compose.c`: the previews of the templates, and the draft that the phone makes of a template
or of what was dictated. Each is fetched by a request of its own; a draft that is replaced is discarded
on the phone. What the request layer returns, and which allocations succeed, is given with every call,
and what is called on the layer is kept in `calls`. That the windows are told of a change, and the
texts of the target that only they read, are left out.
-/

namespace Watch.Composing

open TextReader

inductive TbTemplatesState
  | none
  | loading
  | ready
  | failed

inductive TbDraftState
  | none
  | loading
  | ready
  | failed
deriving DecidableEq

inductive Callback
  | templatesDone
  | draftDone

/-- `TbComposeConfig`, as far as the composition reads it. -/
structure TbComposeConfig where
  capacity : ℕ := 0
  previewLimit : ℕ := 0
  textLimit : ℕ := 0

/-- `TbCompose`. The strings are what their bytes are up to the length, where they are allocated. -/
structure TbCompose where
  config : TbComposeConfig := {}
  target : TbSendTarget := {}
  opened : Bool := false
  templates : TbTemplatesState := .none
  templatesStale : Bool := false
  templatesError : ℤ := tbErrorNone
  templatesRev : ℕ := 0
  templateCount : ℕ := 0
  templateTotal : ℕ := 0
  previews : Option (List CString) := .none
  templatesPending : ℕ := 0
  draft : TbDraftState := .none
  draftError : ℤ := tbErrorNone
  draftId : ℕ := 0
  draftBytes : ℕ := 0
  draftUnits : ℕ := 0
  tooLong : Bool := false
  text : Option (List UInt8) := .none
  dictated : Option (List UInt8) := .none
  draftPending : ℕ := 0
  /-- What has been called on the request layer. -/
  calls : List (RequestCall Callback) := []

structure Env where
  submitted : Submitted
  /-- Whether what was dictated can be kept. -/
  malloc : Bool
  /-- Whether an allocation at a record of the payload succeeds. -/
  calloc : ℕ → Bool

def tbComposeDraftLimit : ℕ := 1024

/-- `TB_RESULT_CURSOR_LOST`. -/
def tbResultCursorLost : ℤ := 12

/-- `TB_RECORD_TEMPLATES`, `TB_RECORD_TEMPLATE` and `TB_RECORD_DRAFT`. -/
def tbRecordTemplates : ℕ := 8

@[inherit_doc tbRecordTemplates] def tbRecordTemplate : ℕ := 9

@[inherit_doc tbRecordTemplates] def tbRecordDraft : ℕ := 10

structure TbTemplatesRecord where
  revision : ℕ
  count : ℕ
  flags : ℕ

variable (body : TbCursor)

def tbCodecTemplates : Option TbTemplatesRecord :=
  match tbCodecDecode body (tbLayout tbRecordTemplates) with
  | some [.number revision, .number count, .number flags] => some ⟨revision, count, flags⟩
  | _ => .none

structure TbTemplateRecord where
  index : ℕ
  length : ℕ
  preview : List UInt8

def tbCodecTemplate : Option TbTemplateRecord :=
  match tbCodecDecode body (tbLayout tbRecordTemplate) with
  | some [.number index, .number length, .span preview] => some ⟨index, length, preview⟩
  | _ => .none

structure TbDraftRecord where
  id : ℕ
  bytes : ℕ
  units : ℕ
  flags : ℕ

def tbCodecDraft : Option TbDraftRecord :=
  match tbCodecDecode body (tbLayout tbRecordDraft) with
  | some [.number id, .number bytes, .number units, .number flags] => some ⟨id, bytes, units, flags⟩
  | _ => .none

def tbUtf8Units (text : List UInt8) : ℕ :=
  let units := text.foldl (fun units byte =>
    if byte &&& 0xC0 = 0x80 then units else units + (if 0xF0 ≤ byte then 2 else 1)) 0
  if 65535 < units then 65535 else units

namespace TbCompose

variable (env : Env) (compose : TbCompose)

def freePreviews : TbCompose :=
  { compose with previews := .none, templateCount := 0, templateTotal := 0 }

/-- `cancel`, for the request of the templates. -/
def cancelTemplates : TbCompose :=
  { compose with
    templatesPending := 0
    calls := compose.calls ++ cancelled compose.templatesPending }

/-- `cancel`, for the request of the draft. -/
def cancelDraft : TbCompose :=
  { compose with draftPending := 0, calls := compose.calls ++ cancelled compose.draftPending }

/-- The state of the templates after a request that fails: those that there are stay. -/
def templatesLeft : TbTemplatesState :=
  if compose.templateCount ≠ 0 then .ready else .failed

/-- `tb_compose_load_templates`. -/
def loadTemplates : TbCompose :=
  if ¬ compose.opened then compose
  else
    let compose := compose.cancelTemplates
    let compose : TbCompose := { compose with
      templates := .loading
      templatesPending := env.submitted.sequence
      calls := compose.calls ++ [.submit .templatesDone] }
    if compose.templatesPending = 0 then
      { compose with
        templatesError := tbErrorSubmitFailed env.submitted
        templates := compose.templatesLeft }
    else compose

def begun (header : TbTemplatesRecord) (allocated : Bool) : TbCompose :=
  let count := if header.count < compose.config.capacity then header.count
    else compose.config.capacity
  { compose with
    templateCount := 0
    templatesRev := header.revision
    templatesStale := header.flags &&& 1 ≠ 0
    templateTotal := header.count
    previews := if count ≠ 0 ∧ allocated then some (List.replicate count []) else .none }

def previewed (previews : List CString) (item : TbTemplateRecord) : TbCompose :=
  if compose.config.capacity ≤ item.index ∨ compose.templateTotal ≤ item.index then compose
  else
    { compose with
      previews := some
        (previews.set item.index (tbCopySpan compose.config.previewLimit item.preview))
      templateCount := if compose.templateCount < item.index + 1 then item.index + 1
        else compose.templateCount }

/-- The loop of `templates_done`, at a record of the payload; it ends at one that is not well formed.
A record takes bytes, so that their number is fuel enough. -/
def templatesLoop : ℕ → ℕ → TbCursor → TbCompose → TbCompose
  | 0, _, _, compose => compose
  | fuel + 1, index, cursor, compose =>
    match tbCodecNext cursor with
    | .none => compose
    | some (type, body, cursor) =>
      let compose :=
        if type = tbRecordTemplates then
          match tbCodecTemplates body with
          | .none => compose
          | some header => compose.begun header (env.calloc index)
        else if type = tbRecordTemplate then
          match compose.previews, tbCodecTemplate body with
          | some previews, some item => compose.previewed previews item
          | _, _ => compose
        else compose
      templatesLoop fuel (index + 1) cursor compose

def templatesDone (sequence : ℕ) (response : TbResponse) : TbCompose :=
  if sequence ≠ compose.templatesPending ∨ response.outcome = .cancelled then compose
  else if response.outcome ≠ .response ∨ response.result ≠ tbResultOk then
    { compose with
      templatesPending := 0
      calls := compose.calls ++ abandoned sequence response
      templatesError := tbErrorFromResponse response
      templates := compose.templatesLeft
      templatesStale := 0 < compose.templateCount }
  else
    let compose := compose.templatesLoop env response.payload.length 0 response.payload
    if response.final then
      { compose with templatesPending := 0, templatesError := tbErrorNone, templates := .ready }
    else compose

def textBytes (bytes : ℕ) : ℕ :=
  if bytes < compose.config.textLimit then bytes else compose.config.textLimit

def headed (record : TbDraftRecord) (allocated : Bool) : TbCompose :=
  { compose with
    draftId := record.id
    draftBytes := record.bytes
    draftUnits := record.units
    tooLong := record.flags &&& 1 ≠ 0
    text := if allocated then some [] else .none }

def fitting (text part : List UInt8) : ℕ :=
  tbUtf8Fit part (compose.textBytes compose.draftBytes + 3 - text.length)

/-- A record of `draft_done`. -/
def draftRecord (index type : ℕ) (body : TbCursor) : TbCompose :=
  if type = tbRecordDraft then
    match tbCodecDraft body with
    | .none => compose
    | some record => compose.headed record (env.calloc index)
  else if type = tbRecordText then
    match compose.text, tbCodecText body with
    | some text, some part =>
      let taken := text ++ part.take (compose.fitting text part)
      -- `text_length` is of 16 bits
      { compose with text := some (taken.take (taken.length % 65536)) }
    | _, _ => compose
  else compose

/-- The loop of `draft_done`, at a record of the payload; it ends at one that is not well formed. A
record takes bytes, so that their number is fuel enough. -/
def draftLoop : ℕ → ℕ → TbCursor → TbCompose → TbCompose
  | 0, _, _, compose => compose
  | fuel + 1, index, cursor, compose =>
    match tbCodecNext cursor with
    | .none => compose
    | some (type, body, cursor) =>
      draftLoop fuel (index + 1) cursor (compose.draftRecord env index type body)

/-- `draft_done`. Templates that the phone no longer has are loaded anew. -/
def draftDone (sequence : ℕ) (response : TbResponse) : TbCompose :=
  if sequence ≠ compose.draftPending ∨ response.outcome = .cancelled then compose
  else if response.outcome ≠ .response ∨ response.result ≠ tbResultOk then
    let compose : TbCompose := { compose with
      draftPending := 0
      calls := compose.calls ++ abandoned sequence response
      draftError := tbErrorFromResponse response
      draft := .failed
      text := .none }
    if compose.draftError = tbResultCursorLost then compose.loadTemplates env else compose
  else
    let compose := compose.draftLoop env response.payload.length 0 response.payload
    if response.final then
      let compose : TbCompose := { compose with draftPending := 0, dictated := .none }
      if compose.draftId = 0 ∨ compose.text = .none then
        { compose with draft := .failed, draftError := tbErrorOutOfMemory }
      else { compose with draft := .ready, draftError := tbErrorNone }
    else compose

def discardCurrent : TbCompose :=
  if compose.draftId = 0 then compose
  else { compose with draftId := 0, calls := compose.calls ++ [.post] }

def requestDraft : TbCompose :=
  let compose := compose.cancelDraft.discardCurrent
  let compose : TbCompose := { compose with
    text := .none
    tooLong := false
    draft := .loading
    draftPending := env.submitted.sequence
    calls := compose.calls ++ [.submit .draftDone] }
  if compose.draftPending = 0 then
    { compose with draft := .failed, draftError := tbErrorSubmitFailed env.submitted }
  else compose

/-- `tb_compose_pick`, up to what it returns. -/
def pick (index : ℕ) : TbCompose :=
  if ¬ compose.opened ∨ compose.templateCount ≤ index then compose else compose.requestDraft env

/-- `tb_compose_dictated`, up to what it returns; a missing text is an empty one. -/
def takeDictated (text : List UInt8) : TbCompose :=
  if ¬ compose.opened ∨ text = [] then compose
  else
    let compose : TbCompose := { compose.cancelDraft with dictated := .none }
    if tbComposeDraftLimit < text.length then
      { compose.discardCurrent with
        text := .none
        draftBytes := if 65535 < text.length then 65535 else text.length
        draftUnits := tbUtf8Units text
        tooLong := true
        draft := .ready
        draftError := tbErrorNone }
    else if ¬ env.malloc then { compose with draft := .failed, draftError := tbErrorOutOfMemory }
    else { compose with dictated := some text }.requestDraft env

/-- `tb_compose_drop_draft`. -/
def dropDraft : TbCompose :=
  { compose.cancelDraft.discardCurrent with
    text := .none
    dictated := .none
    tooLong := false
    draft := .none
    draftError := tbErrorNone }

/-- `tb_compose_close`. -/
def close (keepDraft : Bool) : TbCompose :=
  let compose := compose.cancelTemplates
  let compose : TbCompose :=
    if keepDraft then
      { compose.cancelDraft with text := .none, dictated := .none, draftId := 0, draft := .none }
    else compose.dropDraft
  { compose.freePreviews with
    templates := .none
    templatesStale := false
    opened := false
    target := {} }

/-- `tb_compose_open`, up to what it returns; a missing target is one without an account. -/
def «open» (target : TbSendTarget) : TbCompose :=
  if target.account = [] ∨ target.chat = [] then compose
  else { compose.close false with target, opened := true }.loadTemplates env

end TbCompose

inductive Event
  | open (target : TbSendTarget)
  | loadTemplates
  | pick (index : ℕ)
  | dictated (text : List UInt8)
  | dropDraft
  | close (keepDraft : Bool)
  /-- The request layer calls back. -/
  | response (callback : Callback) (sequence : ℕ) (response : TbResponse)

def step (compose : TbCompose) : Event × Env → TbCompose
  | (.open target, env) => compose.open env target
  | (.loadTemplates, env) => compose.loadTemplates env
  | (.pick index, env) => compose.pick env index
  | (.dictated text, env) => compose.takeDictated env text
  | (.dropDraft, _) => compose.dropDraft
  | (.close keepDraft, _) => compose.close keepDraft
  | (.response .templatesDone sequence response, env) => compose.templatesDone env sequence response
  | (.response .draftDone sequence response, env) => compose.draftDone env sequence response

end Watch.Composing
