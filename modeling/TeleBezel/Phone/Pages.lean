import TeleBezel.Phone.Entry
import TeleBezel.Watch.History
import Mathlib.Data.List.SplitBy

/-!
# The pages of a history

The phone asks the service for a page of a chat, newest message first, puts neighbours of one album
together, and makes one record of each group. It keeps a cursor for the next older page: a page of
the newest messages moves it only as long as no older page has been read.
-/

namespace Phone

open Watch

/-- `content.media` of a message. -/
structure Media where
  image : Bool := true
  restricted : Bool := false
  spoiler : Bool := false
  albumId : Option JsString := none
  count : ℕ := 1
deriving DecidableEq

/-- A message: its number, its media and its text; then its text as the watch will have it, and the
bytes that its texts will take there. -/
structure Message where
  id : ℕ
  media : Option Media := none
  text : JsString := []
  channelPost : Bool := false
  shown : CString := []
  cost : ℕ := 0
deriving DecidableEq

def albumPattern (text : JsString) : Bool :=
  let digits := if text.head? = some 45 then text.tail else text
  0 < digits.length && digits.length ≤ 20 && digits.all fun unit => 48 ≤ unit && unit ≤ 57

def albumKey : Option JsString → ℕ
  | none => 0
  | some id =>
    if albumPattern id then
      let hash := id.foldl (fun hash unit => (hash * 33 % 2 ^ 32) ^^^ unit) 5381
      if hash = 0 then 1 else hash
    else 0

def inner (media : Option Media) : ℕ := media.elim 1 fun media => max 1 (min 10 media.count)

def album (message : Message) : ℕ := message.media.elim 0 fun media => albumKey media.albumId

/-- `flags`. -/
def mediaFlags (message : Message) : ℕ :=
  (if message.channelPost then 16 else 0) ||| message.media.elim 0 fun media =>
    (if media.restricted then 4 else 0) |||
      (if !media.restricted && media.image then tbMediaFlagImage else 0) |||
      (if media.spoiler then tbMediaFlagSpoiler else 0) |||
      (if albumKey media.albumId ≠ 0 ∨ 1 < inner message.media then tbMediaFlagAlbum else 0)

/-- A group of `group`: the message that stands for it, how many there are, and whether one of them
is hidden. -/
structure Grouped where
  message : Message
  count : ℕ
  spoiler : Bool

/-- Neighbours that `group` puts together. -/
def sameAlbum (first next : Message) : Bool := album next ≠ 0 && album first = album next

def standing (members : List Message) (last : Message) : Message :=
  (members.find? fun member => member.text ≠ []).getD last

/-- The part of `group` for one group. -/
def grouped (members : List Message) : Option Grouped :=
  members.getLast?.map fun last =>
    let message := standing members last
    { message
      count := if 1 < members.length then members.length else inner message.media
      spoiler := members.any fun member => member.media.any Media.spoiler }

def group (items : List Message) : List Grouped := (items.splitBy sameAlbum).filterMap grouped

def messageRecord (entry : Grouped) : TbMessageRecord where
  id := entry.message.id
  media := mediaFlags entry.message ||| if entry.spoiler then tbMediaFlagSpoiler else 0
  album := album entry.message
  mediaCount := entry.count
  text := entry.message.shown
  cost := entry.message.cost

/-- `bounds.page`. -/
def pageBound (pageLimit : ℕ) : ℕ := max 1 (min 50 pageLimit)

def pageOf (chat : List Message) (cursor : Option ℕ) (n : ℕ) : List Message :=
  ((chat.filter fun message => cursor.all fun bound => message.id < bound).reverse).take n

/-- `historyCursors[key]`: a cursor is the number that the next older messages are below. -/
structure HistoryCursor where
  older : Bool := false
  next : Option ℕ := none

/-- What `history` makes of the cursor that comes with a page. -/
def HistoryCursor.read (state : HistoryCursor) (op : TbHistoryOp) (next : Option ℕ) :
    HistoryCursor :=
  match op with
  | .first => { older := false, next }
  | .refresh => if state.older then state else { state with next }
  | .older => { older := true, next }

end Phone
