import TeleBezel.Link.TextWhole
import TeleBezel.Phone.ChunkBudget
import TeleBezel.Watch.Connection

/-!
# The send states of a poll

The phone answers a poll with the status of the connection and the records of the sends that changed,
in as many chunks as the budget asks for. `completed` of `app/src/c/connection.c` reads the status from
a chunk and hands what follows it to the send tracker; it takes the first chunk for the whole answer.
-/

open List

namespace Wire

open Phone Phone.Codec Phone.Replies Watch Texts Phone.Text

/-- A connection, with the payloads that it handed to its port for records and the statuses that it
applied. -/
structure Listener where
  connection : TbConnection
  payloads : List (List UInt8) := []
  statuses : List TbStatusRecord := []

variable (listener : Listener)

/-- `completed`, with the call of the port: it is given what follows the status, if there is any. -/
def Listener.completed (sequence : ℕ) (response : TbResponse) : Listener :=
  let connection := listener.connection.completed sequence response
  if sequence ≠ listener.connection.pending ∨ response.outcome = .cancelled then
    { listener with connection }
  else
    match TbConnection.answer response, tbCodecNext response.payload with
    | some status, some (_, _, rest) =>
      { connection
        payloads := if rest = [] then listener.payloads else listener.payloads ++ [rest]
        statuses := listener.statuses ++ [status] }
    | _, _ => { listener with connection }

/-- The records that `tb_send_payload` reads in what it is handed. -/
def Listener.events : List SendEvent :=
  listener.payloads.flatMap fun payload => TbSendTracker.payloadEvents payload.length payload

def Listener.hear (sequence : ℕ) (chunks : List (List UInt8)) : Listener :=
  (chunks.zipIdx.map (reply chunks.length)).foldl (fun listener response =>
    listener.completed sequence response) listener

variable (normalize : JsString → JsString)

def heardState (value : SendStateValue JsString) : TbSendStateRecord where
  draftId := value.draftId.clamped 0xFFFFFFFF
  state := value.state.masked
  code := value.code.masked
  retryAfter := value.retryAfter.clamped 0xFFFF
  flags := value.flags.masked
  account := (ascii value.account).take 255
  chat := (ascii value.chat).take 255
  message := (ascii value.message).take 255
  title := (line (encode normalize) value.title 32).take 255
  preview := (line (encode normalize) value.preview 40).take 255

/-- **The answer has arrived**: the status was applied once, and the tracker was handed every state,
once and in order. -/
def Listener.Heard (listener : Listener) (connection : JsString) (proxy : Bool)
    (changed : List Entry) : Prop :=
  listener.statuses = [⟨connectionState connection, if proxy then 1 else 0⟩] ∧
  listener.events = changed.map fun entry =>
    .record (heardState normalize (sendValue entry false)) false

/-! ## Records and chunks -/

def stateBytes (entry : Entry) : List UInt8 :=
  (sendRecord entry false).bytes (encode normalize)

def statusBytes (connection : JsString) (proxy : Bool) : List UInt8 :=
  (.status { connection := ofLength (connectionState connection), proxy } : TextItem).bytes
    (encode normalize)

theorem next_item {item : TextItem}
    (hbody : (item.body (encode normalize)).length < 65536) (rest : List UInt8) :
    tbCodecNext (item.bytes (encode normalize) ++ rest) =
      some (item.type, item.body (encode normalize), rest) := by
  obtain ⟨hframe, hframed⟩ := bytes_eq_frame (encode normalize) hbody
  exact (tbCodecNext_eq_some_iff _ _ _ _).2 ⟨hframed, congrArg (· ++ rest) hframe⟩

theorem length_body_lt (entry : Entry) :
    ((sendRecord entry false).body (encode normalize)).length < 65536 := by
  have hraw : ∀ bytes, (raw8 bytes).length ≤ 256 := by
    intro bytes
    have hbyte : (u8 (ofLength (min bytes.length 255))).length = 1 := rfl
    rw [raw8, length_append, hbyte, length_take]
    omega
  have hline := fun text limit => hraw (line (encode normalize) text limit)
  have hascii := fun value => hraw (ascii value)
  simp only [sendRecord, Item.body, length_flatten, map_cons, map_nil, sum_cons,
    sum_nil, length_u8, length_u16, length_u32]
  have h₁ := hascii (sendValue entry false).account
  have h₂ := hascii (sendValue entry false).chat
  have h₃ := hascii (sendValue entry false).message
  have h₄ := hline (sendValue entry false).title 32
  have h₅ := hline (sendValue entry false).preview 40
  unfold ascii8 str8
  omega

theorem payloadEvents_stateBytes (entries : List Entry) (fuel : ℕ) (hfuel : entries.length ≤ fuel) :
    TbSendTracker.payloadEvents fuel (entries.flatMap (stateBytes normalize)) =
      entries.map fun entry => .record (heardState normalize (sendValue entry false)) false := by
  induction entries generalizing fuel with
  | nil => cases fuel <;> rfl
  | cons entry entries ih =>
    obtain ⟨fuel, rfl⟩ : ∃ n, fuel = n + 1 := ⟨fuel - 1, by simp at hfuel; omega⟩
    have hbody := length_body_lt normalize entry
    have hdecode : tbCodecDecode ((sendRecord entry false).body (encode normalize))
        (tbLayout 11) = some (values (encode normalize) (sendRecord entry false)) :=
      (tbCodecDecode_eq_some_iff _ _ _).2 (body_eq_encode (encode normalize) hbody)
    have hread : tbCodecSendState ((sendRecord entry false).body (encode normalize)) =
        some (heardState normalize (sendValue entry false)) := by
      rw [tbCodecSendState, show [.u32, .u8, .u8, .u16, .u8, .str8, .str8, .str8, .str8, .str8] =
        tbLayout 11 from rfl, hdecode]
      rfl
    have htype : (sendRecord entry false).type = tbRecordSendState := rfl
    rw [flatMap_cons, stateBytes, TbSendTracker.payloadEvents, next_item normalize hbody]
    simp only [htype, true_or, if_true, hread, map_cons]
    rw [ih fuel (by simpa using hfuel)]
    rfl

theorem length_stateBytes_pos (entry : Entry) : 0 < (stateBytes normalize entry).length := by
  rw [stateBytes, sendRecord, length_send]
  omega

theorem length_le_flatMap (entries : List Entry) :
    entries.length ≤ (entries.flatMap (stateBytes normalize)).length := by
  induction entries with
  | nil => simp
  | cons entry entries ih =>
    have hpos := length_stateBytes_pos normalize entry
    simp only [length_cons, flatMap_cons, length_append]
    omega

theorem foldl_packStep {budget : ℤ} {records : List (List UInt8)}
    (hrecords : ∀ record ∈ records, 0 < record.length) (state : List (List UInt8) × List UInt8)
    (hpos : 0 < state.2.length) (hfits : state.1 = [] → (state.2.length : ℤ) ≤ budget) :
    0 < (records.foldl (packStep (.finite budget)) state).2.length ∧
      ((records.foldl (packStep (.finite budget)) state).1 = [] ↔
        state.1 = [] ∧ (state.2.length + records.flatten.length : ℤ) ≤ budget) := by
  induction records generalizing state with
  | nil => simpa [hpos] using hfits
  | cons record records ih =>
    obtain ⟨hrecord, hrecords⟩ := forall_mem_cons.mp hrecords
    rw [foldl_cons, flatten_cons, length_append]
    by_cases hover : budget < (state.2.length + record.length : ℕ)
    · -- the chunk is closed, and stays before the others
      have hstep : packStep (.finite budget) state record = (state.1 ++ [state.2], record) := by
        rw [packStep, if_pos ⟨hpos, by simpa [exceededBy_finite] using hover⟩]
      rw [hstep]
      obtain ⟨hlast, hnil⟩ := ih hrecords (state.1 ++ [state.2], record) hrecord (by simp)
      refine ⟨hlast, hnil.trans (iff_of_false (by simp) ?_)⟩
      rintro ⟨-, hle⟩
      omega
    · have hstep : packStep (.finite budget) state record = (state.1, state.2 ++ record) := by
        rw [packStep, if_neg fun h => hover (by simpa [exceededBy_finite] using h.2)]
      rw [hstep]
      obtain ⟨hlast, hnil⟩ := ih hrecords (state.1, state.2 ++ record)
        (by simp only [length_append]; omega)
        (fun _ => by simp only [length_append]; omega)
      refine ⟨hlast, hnil.trans (and_congr_right fun _ => ?_)⟩
      simp only [length_append]
      omega

theorem pack_single_iff {budget : ℤ} {first : List UInt8} (hfirst : 0 < first.length)
    (hfits : (first.length : ℤ) ≤ budget) {records : List (List UInt8)}
    (hrecords : ∀ record ∈ records, 0 < record.length) :
    (pack (first :: records) (.finite budget)).length = 1 ↔
      (first.length + records.flatten.length : ℤ) ≤ budget := by
  have hbegin : packStep (.finite budget) ([], []) first = ([], first) := by simp [packStep]
  obtain ⟨hlast, hnil⟩ := foldl_packStep hrecords ([], first) hfirst fun _ => hfits
  rw [pack, foldl_cons, hbegin]
  generalize records.foldl (packStep (.finite budget)) ([], first) = state at hlast hnil ⊢
  obtain ⟨chunks, last⟩ := state
  simpa [hlast] using hnil

/-! ## What is heard -/

@[simp]
theorem pending_arm (connection : TbConnection) : connection.arm.pending = connection.pending := by
  unfold TbConnection.arm
  dsimp only
  split_ifs <;> rfl

@[simp]
theorem pending_apply (connection : TbConnection) (state : ℕ) (proxy polled : Bool) :
    (connection.apply state proxy polled).pending = connection.pending := by
  unfold TbConnection.apply
  dsimp only
  split_ifs <;> simp [TbConnection.proceed, TbConnection.enter]

theorem foldl_completed {listener : Listener} {sequence : ℕ} (hsequence : sequence ≠ 0)
    (hpending : listener.connection.pending = 0) (responses : List TbResponse) :
    responses.foldl (fun listener response => listener.completed sequence response) listener =
      listener := by
  induction responses with
  | nil => rfl
  | cons response responses ih =>
    have hskip : listener.completed sequence response = listener := by
      have hconnection : listener.connection.completed sequence response = listener.connection := by
        rw [TbConnection.completed, if_pos (.inl (by rw [hpending]; exact hsequence))]
      rw [Listener.completed, if_pos (.inl (by rw [hpending]; exact hsequence)), hconnection]
    rw [foldl_cons, hskip, ih]

section Answer

variable {connection : JsString} {proxy : Bool} {polling : TbConnection} {sequence : ℕ}

theorem next_status (rest : List UInt8) :
    ∃ body, tbCodecNext (statusBytes normalize connection proxy ++ rest) =
        some (tbRecordStatus, body, rest) ∧
      tbCodecStatus body = some ⟨connectionState connection, if proxy then 1 else 0⟩ := by
  have hbody : ((.status { connection := ofLength (connectionState connection), proxy } :
      TextItem).body (encode normalize)).length < 65536 := by
    show 2 < 65536
    omega
  refine ⟨_, next_item normalize hbody rest, ?_⟩
  have hdecode : tbCodecDecode ((.status { connection := ofLength (connectionState connection), proxy } :
      TextItem).body (encode normalize)) (tbLayout tbRecordStatus) =
      some [byteValue (ofLength (connectionState connection)), byteValue (bit proxy)] :=
    (tbCodecDecode_eq_some_iff _ _ _).2 (body_eq_encode (encode normalize) hbody)
  have hstate : (ofLength (connectionState connection)).masked = connectionState connection := by
    apply masked_ofLength
    unfold connectionState
    split_ifs <;> decide
  have hproxy : (bit proxy).masked = if proxy then 1 else 0 := by cases proxy <;> rfl
  rw [tbCodecStatus, hdecode]
  show some (TbStatusRecord.mk (ofLength (connectionState connection)).masked (bit proxy).masked) = _
  rw [hstate, hproxy]

theorem hear_eq (hsequence : sequence ≠ 0) (hpending : polling.pending = sequence)
    (first : List Entry) (chunks : List (List UInt8)) :
    let heard := Listener.hear { connection := polling } sequence
      ((statusBytes normalize connection proxy ++ first.flatMap (stateBytes normalize)) :: chunks)
    heard.statuses = [⟨connectionState connection, if proxy then 1 else 0⟩] ∧
      heard.events =
        first.map fun entry => .record (heardState normalize (sendValue entry false)) false := by
  intro heard
  obtain ⟨body, hnext, hstatus⟩ := @next_status normalize connection proxy
    (first.flatMap (stateBytes normalize))
  have hlisten : heard = ((chunks.zipIdx 1).map (reply (chunks.length + 1))).foldl
      (fun listener response => listener.completed sequence response)
      (Listener.completed { connection := polling } sequence (reply (chunks.length + 1)
        (statusBytes normalize connection proxy ++ first.flatMap (stateBytes normalize), 0))) := rfl
  generalize hfirst : reply (chunks.length + 1) (statusBytes normalize connection proxy ++
    first.flatMap (stateBytes normalize), 0) = response at hlisten
  have hresponse : response.outcome = .response ∧ response.result = tbResultOk ∧
      tbCodecNext response.payload = some (tbRecordStatus, body, first.flatMap (stateBytes normalize)) := by
    rw [← hfirst]
    exact ⟨rfl, rfl, hnext⟩
  obtain ⟨houtcome, hresult, hpayload⟩ := hresponse
  have hlive : ¬ (sequence ≠ polling.pending ∨ response.outcome = .cancelled) := by
    simp [hpending, houtcome]
  have hanswer : TbConnection.answer response =
      some ⟨connectionState connection, if proxy then 1 else 0⟩ := by
    simp only [TbConnection.answer, houtcome, hresult, and_self, if_true, hpayload, hstatus]
  -- after the first chunk no request is pending, so that the others are not looked at
  have hidle : (polling.completed sequence response).pending = 0 := by
    simp [TbConnection.completed, hlive, hanswer]
  rw [hlisten, Listener.completed, if_neg hlive, hanswer, hpayload]
  rw [foldl_completed hsequence hidle]
  refine ⟨rfl, ?_⟩
  have hread := payloadEvents_stateBytes normalize first _ (length_le_flatMap normalize first)
  unfold Listener.events
  dsimp only
  by_cases hempty : first.flatMap (stateBytes normalize) = []
  · rw [if_pos hempty]
    rw [hempty] at hread
    exact hread
  · rw [if_neg hempty, nil_append, flatMap_singleton]
    exact hread

end Answer

/-- **An answer arrives exactly when it is one chunk**: when the status and the records of the sends
are within the budget together. -/
theorem heard_iff (inboxSize : ℕ) (connection : JsString) (proxy : Bool) (changed : List Entry)
    (sequence : ℕ) (hsequence : sequence ≠ 0) (polling : TbConnection)
    (hpending : polling.pending = sequence) :
    (Listener.hear { connection := polling } sequence
        ((Reply.events connection proxy changed).chunks normalize inboxSize)).Heard normalize
        connection proxy changed ↔
      ((changed.map fun entry => (stateBytes normalize entry).length).sum + 5 : ℤ) ≤
        Phone.budget inboxSize := by
  have hchunks : (Reply.events connection proxy changed).chunks normalize inboxSize =
      pack (statusBytes normalize connection proxy :: changed.map (stateBytes normalize))
        (.finite (Phone.budget inboxSize)) := by
    show pack (List.map _ (_ :: List.map _ changed)) _ = _
    rw [List.map_cons, List.map_map]
    rfl
  have hlength : (statusBytes normalize connection proxy).length = 5 := rfl
  have hbudget := le_budget inboxSize
  have hsingle := @pack_single_iff (Phone.budget inboxSize) (statusBytes normalize connection proxy)
    (by omega) (by omega) (changed.map (stateBytes normalize))
    (List.forall_mem_map.mpr fun entry _ => length_stateBytes_pos normalize entry)
  have hsum : ((changed.map (stateBytes normalize)).flatten.length : ℤ) =
      (changed.map fun entry => (stateBytes normalize entry).length).sum := by
    rw [List.length_flatten, List.map_map]
    rfl
  rw [hlength, hsum, Int.add_comm, Nat.cast_ofNat] at hsingle
  rw [← hsingle, hchunks]
  -- the status is in the first group of records, with the first of the sends
  obtain ⟨groups, hgroups, hpack, hfull⟩ := @pack_groups_full (Option Entry)
    (fun item => item.elim (statusBytes normalize connection proxy) (stateBytes normalize))
    (.finite (Phone.budget inboxSize)) (none :: changed.map some) (by
      rintro (_ | entry) _
      · exact List.ne_nil_of_length_pos (by show 0 < 5; omega)
      · exact List.ne_nil_of_length_pos (length_stateBytes_pos normalize entry))
  rw [List.map_cons, List.map_map] at hpack
  have hnonempty := hfull (List.cons_ne_nil _ _)
  obtain ⟨group, rest, rfl⟩ : ∃ group rest, groups = group :: rest := by
    cases groups with
    | nil => cases hgroups
    | cons group rest => exact ⟨group, rest, rfl⟩
  obtain ⟨item, group, rfl⟩ := List.exists_cons_of_ne_nil (hnonempty group (by simp))
  rw [List.flatten_cons, List.cons_append, List.cons.injEq] at hgroups
  obtain ⟨rfl, hgroups⟩ := hgroups
  obtain ⟨first, others, rfl, rfl, hothers⟩ := List.map_eq_append_iff.mp hgroups.symm
  have hwritten : (none :: first.map some).flatMap (fun item : Option Entry =>
      item.elim (statusBytes normalize connection proxy) (stateBytes normalize)) =
        statusBytes normalize connection proxy ++ first.flatMap (stateBytes normalize) := by
    rw [List.flatMap_cons, List.flatMap_map]
    rfl
  rw [List.map_cons, hwritten] at hpack
  have hheard := @hear_eq normalize connection proxy polling sequence hsequence hpending first
    (rest.map (·.flatMap fun item =>
      item.elim (statusBytes normalize connection proxy) (stateBytes normalize)))
  have hall : pack (statusBytes normalize connection proxy ::
      (first ++ others).map (stateBytes normalize)) (.finite (Phone.budget inboxSize)) = _ := hpack
  rw [hall, Listener.Heard, hheard.1, hheard.2]
  -- the records of the later chunks are those that are not heard
  constructor
  · rintro ⟨-, hevents⟩
    have hcount := congrArg List.length hevents
    simp only [List.length_map, List.length_append] at hcount
    have hnone : rest.flatten = [] := by
      rw [← hothers, List.length_eq_zero_iff.mp (by omega : others.length = 0), List.map_nil]
    cases rest with
    | nil => rfl
    | cons group rest =>
      rw [List.flatten_cons, List.append_eq_nil_iff] at hnone
      exact absurd hnone.1 (hnonempty group (by simp))
  · intro hone
    have hrest : rest = [] := by simpa using hone
    rw [hrest, List.flatten_nil, List.map_eq_nil_iff] at hothers
    exact ⟨rfl, by rw [hothers, List.append_nil]⟩

def sentEntry (draftId : ℕ) : Entry where
  draftId
  attempt := 1
  key := name "6b3f0d2e4c1a4f0e9a7d5c3b1a2f4e6d"
  account := name "00000000-0000-4000-8000-000000000001"
  chat := name "1234567890"
  reply := []
  title := name "Alice"
  text := name "On my way!"
  created := 0
  fingerprint := 0
  state := .sent
  messageId := some (name "900")
  tracked := 0

/-- One send is heard of. -/
theorem heard_one :
    (Listener.hear { connection := { pending := 1 } } 1
      ((Reply.events (name "ready") false [sentEntry 1]).chunks id 512)).Heard id (name "ready") false
      [sentEntry 1] :=
  (heard_iff id 512 (name "ready") false [sentEntry 1] 1 (by decide) { pending := 1 } rfl).mpr
    (by decide +kernel)

/-- Of six sends, for an inbox of 512 bytes, the last one is not heard of. -/
theorem sixth_unheard :
    ¬ (Listener.hear { connection := { pending := 1 } } 1
      ((Reply.events (name "ready") false ((List.range 6).map sentEntry)).chunks id 512)).Heard id
      (name "ready") false ((List.range 6).map sentEntry) := by
  intro h
  have hcount := congrArg List.length h.2
  rw [List.length_map] at hcount
  have hfive : (Listener.hear { connection := { pending := 1 } } 1
      ((Reply.events (name "ready") false ((List.range 6).map sentEntry)).chunks id 512)).events.length =
      5 := by decide +kernel
  rw [hfive] at hcount
  exact absurd hcount (by decide)

end Wire
