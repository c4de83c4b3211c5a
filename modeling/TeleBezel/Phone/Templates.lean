import TeleBezel.Phone.Text

/-!
# The templates of the phone

`app/src/pkjs/lib/compose.js`: the quick replies of the server become the templates that the watch
lists, and are stored with their revision and with what identifies the settings; a draft of a template
is made from the stored ones, if they still have the revision that the watch names. `normalize` of the
language is a parameter.
-/

namespace Phone.Templates

open Codec Text

/-- What `trim` takes off. -/
def isSpace (unit : ℕ) : Bool :=
  inRange unit 0x09 0x0D || unit = 0x20 || unit = 0xA0 || unit = 0x1680 ||
    inRange unit 0x2000 0x200A || unit = 0x2028 || unit = 0x2029 || unit = 0x202F ||
    unit = 0x205F || unit = 0x3000 || unit = 0xFEFF

def canonical (normalize : JsString → JsString) (value : JsString) : JsString :=
  let kept := (newlines (normalize value)).filter fun code =>
    code = 0x0A || !(code < 0x20 || inRange code 0x7F 0x9F)
  (kept.dropWhile isSpace).rdropWhile isSpace

/-- What is stored under `TEMPLATES_KEY`. -/
structure Snapshot where
  revision : ℕ
  items : List JsString
  fingerprint : ℕ

/-- The data of an answer of the server: the revision, if it is an integer, and the texts of the items;
what is no text is an empty one. -/
structure Replies where
  revision : Option ℤ
  texts : List JsString
deriving DecidableEq

def snapshotOf (normalize : JsString → JsString) (value : Settings) (replies : Replies) :
    Snapshot where
  revision := (replies.revision.elim 0 (· % 2 ^ 32)).toNat
  items := ((replies.texts.take 50).map (canonical normalize)).filter (· ≠ [])
  fingerprint := fingerprint value

/-- The records of `answer`. -/
def records (snapshot : Snapshot) (stale : Bool) (previewLimit : ℕ) : List (Item JsString) :=
  .templates {
    revision := ofLength snapshot.revision
    count := ofLength snapshot.items.length
    flags := ofLength (if stale then 1 else 0) } ::
  snapshot.items.zipIdx.map fun (item, index) => .template {
    index := ofLength index
    length := ofLength (utf8Bytes item)
    preview := item } previewLimit

/-- The answer of the server to `quickReplies`. -/
inductive Result
  /-- It is not `ok`; the code for the watch. -/
  | failed (code : ℤ)
  /-- It is `ok`, without items. -/
  | malformed
  | ok (replies : Replies)

def protocolError : ℤ := 6

def cursorLost : ℤ := 12

/-- The template that `draft` takes, of the stored ones: of the present settings, the revision and the
index that the watch names, and not empty. -/
def pickSource (stored : Option Snapshot) (settings : Option Settings) (revision index : ℕ) :
    Option JsString :=
  match stored, settings with
  | some snapshot, some value =>
    if snapshot.fingerprint = fingerprint value ∧ snapshot.revision % 2 ^ 32 = revision % 2 ^ 32 then
      snapshot.items[index]?.filter (· ≠ [])
    else none
  | _, _ => none

end Phone.Templates
