import TeleBezel.Watch.Codec
import Mathlib.Data.List.DropRight
import Mathlib.Data.List.Sort

/-!
# The history of a chat on the watch

The messages that are shown, oldest first. A page of the newest messages is merged at the end, and a
page of older ones at the front; what finds no place is dropped at the end that is not wanted, and
`truncated` tells that newer messages are missing. Members of an album that come in several records
become one item.
-/

namespace Watch

/-- `TbMessageRecord`: its number, its media, its text as far as it is kept, and the bytes that its
texts take. -/
structure TbMessageRecord where
  id : ℕ
  media : ℕ
  album : ℕ
  mediaCount : ℕ
  text : CString := []
  cost : ℕ := 0

structure TbMessage where
  key : ℕ
  media : ℕ
  mediaCount : ℕ
  album : ℕ
  text : CString
  cost : ℕ

structure TbHistoryConfig where
  capacity : ℕ
  pageLimit : ℕ
  textBudget : ℕ

/-- `TbHistoryOp`, of a page that has come. -/
inductive TbHistoryOp
  | first
  | refresh
  | older

/-- `TbHistory`: what is shown, and whether newer messages are missing. -/
structure TbHistory where
  items : List TbMessage := []
  truncated : Bool := false

/-- `stage`, for a record that is taken. -/
def staged (record : TbMessageRecord) : TbMessage where
  key := record.id
  media := record.media
  mediaCount := if record.mediaCount = 0 then 1 else record.mediaCount
  album := if record.media &&& tbMediaFlagAlbum = 0 then 0 else record.album
  text := record.text
  cost := record.cost

/-- `parse` and `sort_staging`: a page takes `page_limit` records, and they are sorted. -/
def stagingOf (config : TbHistoryConfig) (records : List TbMessageRecord) : List TbMessage :=
  ((records.take config.pageLimit).map staged).insertionSort fun a b => a.key ≤ b.key

def budgetUsed (items : List TbMessage) : ℕ := (items.map TbMessage.cost).sum

def overLimits (config : TbHistoryConfig) (count used : ℕ) : Bool :=
  config.capacity < count || config.textBudget < used

/-- `kept_before`: the items before a key, from the end. -/
def keptBefore (key : ℕ) (items : List TbMessage) : List TbMessage :=
  items.rdropWhile fun item => key ≤ item.key

def appendStaging (config : TbHistoryConfig) (items : List TbMessage) :
    List TbMessage → List TbMessage
  | [] => items
  | item :: staging =>
    if items.getLast?.any (fun last => item.key ≤ last.key) ∨ config.capacity ≤ items.length then
      appendStaging config items staging
    else appendStaging config (items ++ [item]) staging

/-- `last` and an item of the same album as one item: the text of either is kept. -/
def joined (last item : TbMessage) : TbMessage :=
  let mediaCount := max last.mediaCount item.mediaCount
  let media := last.media ||| (item.media &&& (tbMediaFlagSpoiler ||| tbMediaFlagImage))
  if last.text = [] ∧ item.text ≠ [] then { item with mediaCount, media }
  else { last with mediaCount, media }

/-- The loop of `merge_albums`, with the item that was kept last. -/
def mergeAlbumsFrom (last : TbMessage) : List TbMessage → List TbMessage
  | [] => [last]
  | item :: items =>
    if item.album ≠ 0 ∧ last.album = item.album then mergeAlbumsFrom (joined last item) items
    else last :: mergeAlbumsFrom item items

def mergeAlbums : List TbMessage → List TbMessage
  | [] => []
  | first :: items => mergeAlbumsFrom first items

namespace TbHistory

variable (config : TbHistoryConfig)

/-- The loop of `evict_newest`: an item is dropped each time, so that their number is fuel
enough. -/
def evictLoop : ℕ → TbHistory → TbHistory
  | 0, history => history
  | fuel + 1, history =>
    if history.items ≠ [] ∧ overLimits config history.items.length (budgetUsed history.items) then
      evictLoop fuel { items := history.items.dropLast, truncated := true }
    else history

variable (history : TbHistory)

def evictNewest : TbHistory := evictLoop config history.items.length history

def mergeNewest (staging : List TbMessage) (first : Bool) : TbHistory :=
  match history.items.getLast?, first with
  | none, _ | _, true => { items := appendStaging config [] staging, truncated := false }
  | some newest, false =>
    match staging.head? with
    | none => history
    | some smallest =>
      let kept := if smallest.key ≤ newest.key then keptBefore smallest.key history.items
        else history.items
      let contiguous := smallest.key ≤ newest.key ∨ staging.length < config.pageLimit
      -- the bytes of what is shown and of the page are both taken
      if ¬ contiguous ∨ overLimits config (kept.length + staging.length)
          (budgetUsed history.items + budgetUsed staging) then
        { history with truncated := true }
      else { history with items := appendStaging config kept staging }

/-- `prepend_staging`: the room for the older items is made at the end. -/
def prependStaging (staging : List TbMessage) : TbHistory :=
  let oldest := (history.items.head?.map TbMessage.key).getD (2 ^ 63 - 1)
  let accepted := (staging.filter fun item => item.key < oldest).take config.capacity
  if accepted = [] then history
  else
    let room := config.capacity - accepted.length
    { items := accepted ++ history.items.take room
      truncated := history.truncated || room < history.items.length }

/-- `finish`, as far as it is about the items. -/
def finish (op : TbHistoryOp) (records : List TbMessageRecord) : TbHistory :=
  let staging := stagingOf config records
  let history := evictNewest config (match op with
    | .older => history.prependStaging config staging
    | .first => history.mergeNewest config staging true
    | .refresh => history.mergeNewest config staging false)
  { history with items := mergeAlbums history.items }

end TbHistory

end Watch
