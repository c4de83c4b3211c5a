import TeleBezel.Lib.Word
import TeleBezel.Phone.Codec
import TeleBezel.Watch.Codec

/-!
# The media messages of the phone

The phone gets a rendition of an image from the API, keeps it in a cache, and sends it to the watch in
messages of the size of its inbox (`app/src/pkjs/lib/media.js`, `reader.js`, `codec.js`): the first
starts with an information record, each carries a record of the data from where the one before it
ended. A request that names an offset and the tag of the rendition is answered from that offset on.
-/

open List

namespace Phone

open Word Watch
open Codec (Item TextEncoder ofLength ascii length_record length_u8 length_u16 length_u32
  length_ascii8)

section Records

inductive MediaState
  | ready
  | downloading
  | preparing
  | spoiler
  | restricted
  | unsupported
  | unavailable
  | none
deriving DecidableEq

/-- The numbers of `media_state`. -/
def MediaState.code : MediaState → ℕ
  | .ready => 0
  | .downloading => 1
  | .preparing => 2
  | .spoiler => 3
  | .restricted => 4
  | .unsupported => 5
  | .unavailable => 6
  | .none => 7

structure MediaInfo where
  state : MediaState
  index : ℤ
  count : ℤ
  flags : ℕ
  tag : ℕ
  total : ℕ
  retryAfter : ℕ
  item : JsString
deriving DecidableEq

/-- The value that the codec is given. -/
def MediaInfo.value (info : MediaInfo) : Codec.MediaInfo where
  state := ofLength info.state.code
  index := .finite info.index
  count := .finite info.count
  flags := ofLength info.flags
  tag := ofLength info.tag
  total := ofLength info.total
  retryAfter := ofLength info.retryAfter
  item := some info.item

/-- The records of an image have no text. -/
def textless : TextEncoder Unit := fun _ _ _ => ⟨[], false⟩

def mediaInfo (info : MediaInfo) : List UInt8 := Item.bytes textless (.mediaInfo info.value)

def mediaData (offset : ℕ) (bytes : List UInt8) : List UInt8 :=
  Item.bytes textless (.mediaData (ofLength offset) bytes)

@[simp] theorem length_mediaData (offset : ℕ) (bytes : List UInt8) :
    (mediaData offset bytes).length = 7 + bytes.length := by
  simp only [mediaData, Item.bytes, Item.body, length_record, length_flatten, map_cons, map_nil,
    sum_cons, sum_nil, length_u32]
  omega

@[simp] theorem length_mediaInfo (info : MediaInfo) :
    (mediaInfo info).length = 18 + (ascii (some info.item)).length := by
  simp only [mediaInfo, MediaInfo.value, Item.bytes, Item.body, length_record, length_flatten,
    map_cons, map_nil, sum_cons, sum_nil, length_u8, length_u16, length_u32, length_ascii8]
  omega

theorem length_mediaInfo_le {info : MediaInfo} (hitem : info.item.length ≤ 19) :
    (mediaInfo info).length ≤ 37 := by
  rw [length_mediaInfo, ascii, length_map, Option.getD_some, length_take]
  omega

end Records

section Chunks

/-- The loop of `chunks`: a round takes a byte of the image, is the first or is the last. -/
def chunksLoop (infoRecord bytes : List UInt8) (budget : ℤ) : ℕ → Bool → ℕ → List (List UInt8)
  | 0, _, _ => []
  | fuel + 1, first, position =>
    if first = false ∧ bytes.length ≤ position then []
    else
      let room := budget - (if first then infoRecord.length else 0) - 7
      let slice := (bytes.drop position).take room.toNat
      let payload := (if first then infoRecord else []) ++
        if slice = [] then [] else mediaData position slice
      payload :: if room ≤ 0 then [] else
        chunksLoop infoRecord bytes budget fuel false (position + slice.length)

def chunks (info : MediaInfo) (bytes : List UInt8) (offset : ℕ) (budget : ℤ) : List (List UInt8) :=
  chunksLoop (mediaInfo info) bytes budget (bytes.length + 2) true offset

/-- `budget`, for the size of the inbox of the watch. -/
def budget (inboxSize : ℕ) : ℤ :=
  let size := if 0 < inboxSize then inboxSize else 2048
  max 256 (min (size : ℤ) 8192 - 96)

theorem budget_le (inboxSize : ℕ) : budget inboxSize ≤ 8096 := by
  unfold budget
  dsimp only
  omega

theorem le_budget (inboxSize : ℕ) : 256 ≤ budget inboxSize := by
  unfold budget
  dsimp only
  omega

end Chunks

section Answer

structure MediaEntry where
  info : MediaInfo
  bytes : List UInt8
deriving DecidableEq

/-- What the API answers: the fields that are of their type, and the rendition with its bytes
decoded. -/
structure ApiMedia where
  state : MediaState
  index : Option ℤ := none
  count : Option ℤ := none
  hasSpoiler : Bool := false
  retryAfter : ℕ := 1
  item : JsString := []
  renditionTag : Option ℤ := none
  renditionBytes : Option (List UInt8) := none

inductive MediaReply
  | messages (payloads : List (List UInt8)) (put : Option MediaEntry)
  | failed
  | polls
deriving DecidableEq

def mediaOffset (offset tag : ℕ) (info : MediaInfo) (bytes : List UInt8) : ℕ :=
  if offset ≠ 0 ∧ info.tag = tag ∧ offset < bytes.length then offset else 0

/-- `media`, once the request is valid: `cached` is what the cache has for it, `answer` what the API
answers if it does, and `inTime` tells whether a rendition that is not ready yet may be asked for
again. -/
def media (inboxSize : ℕ) (index : ℤ) (offset tag : ℕ) (cached : Option MediaEntry)
    (answer : Option ApiMedia) (inTime : Bool) : MediaReply :=
  match cached with
  | some entry =>
    .messages (chunks entry.info entry.bytes (mediaOffset offset tag entry.info entry.bytes)
      (budget inboxSize)) none
  | none =>
    match answer with
    | none => .failed
    | some data =>
      let waiting := data.state = .downloading ∨ data.state = .preparing
      if waiting ∧ inTime then .polls
      else
        let info : MediaInfo :=
          { state := data.state
            index := data.index.getD index
            count := data.count.getD 1
            flags := if data.hasSpoiler then tbMediaFlagSpoiler else 0
            tag := 0
            total := 0
            retryAfter := if waiting then data.retryAfter else 0
            item := if messagePattern data.item then data.item else [] }
        if data.state ≠ .ready then .messages (chunks info [] 0 (budget inboxSize)) none
        else
          match data.renditionBytes, data.renditionTag with
          | some bytes, some renditionTag =>
            if bytes.length < 22 then .failed
            else
              let info := { info with tag := uint32 renditionTag, total := bytes.length }
              .messages (chunks info bytes (mediaOffset offset tag info bytes) (budget inboxSize))
                (some ⟨info, bytes⟩)
          | _, _ => .failed

structure Rendition where
  tag : ℕ
  bytes : List UInt8

def MediaInfo.About (info : MediaInfo) (rendition : Rendition) : Prop :=
  info.state = .ready → info.tag = rendition.tag ∧ info.total = rendition.bytes.length

/-- What the phone knows is of this rendition. -/
structure Knows (rendition : Rendition) (cached : Option MediaEntry) (answer : Option ApiMedia) :
    Prop where
  cached : ∀ entry ∈ cached, entry.info.About rendition ∧ entry.bytes = rendition.bytes
  answer : ∀ data ∈ answer, data.state = .ready →
    (∀ tag ∈ data.renditionTag, uint32 tag = rendition.tag) ∧
      ∀ bytes ∈ data.renditionBytes, bytes = rendition.bytes

inductive SentData (rendition : Rendition) : List UInt8 → Prop
  | none : SentData rendition []
  | data (position n : ℕ) (hroom : n ≤ 8096) (hposition : position < rendition.bytes.length) :
    SentData rendition (mediaData position ((rendition.bytes.drop position).take n))

inductive Sent (rendition : Rendition) : List UInt8 → Prop
  | data {payload : List UInt8} (h : SentData rendition payload) : Sent rendition payload
  | info {payload : List UInt8} (info : MediaInfo) (habout : info.About rendition)
    (h : SentData rendition payload) : Sent rendition (mediaInfo info ++ payload)

variable {rendition : Rendition}

theorem sentData_slice {bytes : List UInt8} (hbytes : bytes = rendition.bytes ∨ bytes = [])
    {room : ℤ} (hroom : room ≤ 8096) (position : ℕ) :
    SentData rendition (if (bytes.drop position).take room.toNat = [] then []
      else mediaData position ((bytes.drop position).take room.toNat)) := by
  rcases hbytes with rfl | rfl
  · split_ifs with hslice
    · exact .none
    · refine .data position room.toNat (by omega) ?_
      by_contra hend
      rw [drop_of_length_le (by omega), take_nil] at hslice
      exact hslice rfl
  · rw [if_pos (by simp)]
    exact .none

theorem sent_of_chunksLoop {info : MediaInfo} (habout : info.About rendition) {bytes : List UInt8}
    (hbytes : bytes = rendition.bytes ∨ bytes = []) {budget : ℤ} (hbudget : budget ≤ 8096)
    (fuel : ℕ) :
    ∀ (first : Bool) (position : ℕ) {payload : List UInt8},
      payload ∈ chunksLoop (mediaInfo info) bytes budget fuel first position →
      Sent rendition payload := by
  induction fuel with
  | zero =>
    intro first position payload hmem
    cases hmem
  | succ fuel ih =>
    intro first position payload hmem
    rw [chunksLoop] at hmem
    by_cases hend : first = false ∧ bytes.length ≤ position
    · rw [if_pos hend] at hmem
      cases hmem
    rw [if_neg hend] at hmem
    rcases mem_cons.mp hmem with rfl | hrest
    · cases first with
      | false =>
        refine .data (sentData_slice hbytes ?_ position)
        omega
      | true =>
        refine .info info habout (sentData_slice hbytes ?_ position)
        omega
    · by_cases hroom : budget - ((if first = true then (mediaInfo info).length else 0 : ℕ) : ℤ) - 7 ≤ 0
      · rw [if_pos hroom] at hrest
        cases hrest
      · rw [if_neg hroom] at hrest
        exact ih false _ hrest

theorem sent_of_media {inboxSize : ℕ} {index : ℤ} {offset tag : ℕ} {cached : Option MediaEntry}
    {answer : Option ApiMedia} {inTime : Bool} (hknows : Knows rendition cached answer)
    {payloads : List (List UInt8)} {put : Option MediaEntry}
    (h : media inboxSize index offset tag cached answer inTime = .messages payloads put)
    {payload : List UInt8} (hmem : payload ∈ payloads) : Sent rendition payload := by
  have hbudget := budget_le inboxSize
  unfold media at h
  cases cached with
  | some entry =>
    obtain ⟨habout, hbytes⟩ := hknows.cached entry rfl
    obtain ⟨rfl, -⟩ := MediaReply.messages.inj h
    exact sent_of_chunksLoop habout (Or.inl hbytes) hbudget _ _ _ hmem
  | none =>
    cases answer with
    | none => cases h
    | some data =>
      dsimp only at h
      split at h
      · cases h
      split at h
      · next hstate =>
        obtain ⟨rfl, -⟩ := MediaReply.messages.inj h
        exact sent_of_chunksLoop (fun hready => absurd hready hstate) (Or.inr rfl) hbudget _ _ _ hmem
      · next hstate =>
        rw [not_not] at hstate
        obtain ⟨htag, hbytes⟩ := hknows.answer data rfl hstate
        split at h
        · next bytes renditionTag hsome hsome' =>
          split at h
          · cases h
          obtain ⟨rfl, -⟩ := MediaReply.messages.inj h
          obtain rfl := hbytes bytes hsome
          exact sent_of_chunksLoop (fun _ => ⟨htag renditionTag hsome', rfl⟩) (Or.inl rfl) hbudget
            _ _ _ hmem
        · cases h

end Answer

end Phone
