import Mathlib.Logic.Equiv.List
import TeleBezel.Lib.Fields
import TeleBezel.Runtime.ChatOrder

/-!
# Cursors

A cursor is a payload of fields with colons between them, a dot, and the signature of the payload for an
account and its storage: `cursor_codec.cpp`, `history_reads.cpp` and `chat_reads.cpp` of
`backend-tdlib/src`. What has been issued, by any account in any state, is a log; a string that is
offered may hold the signature of a message only if the message has been signed.
-/

namespace Runtime.Cursors

open Fields

/-! ### Signatures -/

/-- What the cryptographic library computes, in hexadecimal: an HMAC of a key and a message, and a
digest. -/
structure Crypto where
  hmacSha256 : List Char → List Char → List Char
  sha256 : List Char → List Char

/-- A signature tells its key and its message. -/
structure Crypto.Ideal (crypto : Crypto) : Prop where
  hmac : ∀ key message key' message',
    crypto.hmacSha256 key message = crypto.hmacSha256 key' message' → key = key' ∧ message = message'
  hexadecimal : ∀ key message, '.' ∉ crypto.hmacSha256 key message

def hmacSha256Hex (crypto : Crypto) (key purpose payload : List Char) : List Char :=
  crypto.hmacSha256 key (field '\x1f' purpose payload)

def tokenMatches (crypto : Crypto) (expected provided : List Char) : Bool :=
  crypto.sha256 expected = crypto.sha256 provided

/-! ### What is issued -/

structure Name where
  text : List Char
  colon : ':' ∉ text
  dot : '.' ∉ text

structure Session where
  uuid : Name
  generation : Name
  authorizationGeneration : UInt64
  runtimeEpoch : Name

/-- `purpose` of the cursors for updates, `history_cursor_purpose` and `chats_cursor_purpose`. -/
def updatesCursorPurpose : List Char := "telebezel/cursor/updates/v1".toList

@[inherit_doc updatesCursorPurpose]
def historyCursorPurpose : List Char := "telebezel/cursor/history/v1".toList

@[inherit_doc updatesCursorPurpose]
def chatsCursorPurpose : List Char := "telebezel/cursor/chats/v1".toList

inductive Cursor
  | updates (sequence : UInt64)
  | history (chatId messageId : Int64)
  | chats (list : ChatList) (version expires : UInt64) (order id : Int64)

def listName : ChatList → List Char
  | .main => "main".toList
  | .archive => "archive".toList

/-- `std::to_string`. -/
def unsigned (n : UInt64) : List Char := decimal n.toNat

@[inherit_doc unsigned]
def signed (n : Int64) : List Char := decimal n.toInt

namespace Cursor

def purpose : Cursor → List Char
  | .updates _ => updatesCursorPurpose
  | .history _ _ => historyCursorPurpose
  | .chats .. => chatsCursorPurpose

end Cursor

def updatesPrefix (session : Session) : List Char :=
  field ':' (unsigned session.authorizationGeneration) (field ':' session.runtimeEpoch.text [])

def historyPrefix (session : Session) (chatId : Int64) : List Char :=
  field ':' ['h'] (field ':' (unsigned session.authorizationGeneration)
    (field ':' session.runtimeEpoch.text (field ':' (signed chatId) [])))

namespace Cursor

def payload (session : Session) : Cursor → List Char
  | .updates sequence => updatesPrefix session ++ unsigned sequence
  | .history chatId messageId => historyPrefix session chatId ++ signed messageId
  | .chats list version expires order id =>
    field ':' ['l'] (field ':' (unsigned session.authorizationGeneration)
      (field ':' session.runtimeEpoch.text (field ':' (listName list) (field ':' (unsigned version)
        (field ':' (unsigned expires) (field ':' (signed order) (signed id)))))))

end Cursor

def message (session : Session) (payload : List Char) : List Char :=
  field ':' session.uuid.text (field ':' session.generation.text payload)

/-- The string that is issued: `encode`, `make_cursor` and `next_cursor`. -/
def Cursor.text (crypto : Crypto) (key : List Char) (session : Session) (cursor : Cursor) : List Char :=
  field '.' (cursor.payload session)
    (hmacSha256Hex crypto key cursor.purpose (message session (cursor.payload session)))

/-! ### What is checked -/

def parseUint64 (text : List Char) : Option UInt64 :=
  (parseInteger 0 (2 ^ 64 - 1) text).map fun n => .ofNat n.toNat

def parseInt64 (text : List Char) : Option Int64 :=
  (parseInteger (-2 ^ 63) (2 ^ 63 - 1) text).map .ofInt

variable (crypto : Crypto) (key : List Char) (session : Session)

/-- `decode` of `CursorCodec`. -/
def decodeUpdates (cursor : List Char) : Option UInt64 := do
  let (payload, provided) ← splitLast '.' cursor
  let signature := hmacSha256Hex crypto key updatesCursorPurpose (message session payload)
  if ¬ tokenMatches crypto signature provided ∨ ¬ updatesPrefix session <+: payload then none
  else parseUint64 (payload.drop (updatesPrefix session).length)

/-- The check of `messages` of a cursor that is not empty. -/
def checkHistory (chatId : Int64) (cursor : List Char) : Option Int64 := do
  let (payload, provided) ← splitLast '.' cursor
  if ¬ historyPrefix session chatId <+: cursor then none
  else
    let signature := hmacSha256Hex crypto key historyCursorPurpose (message session payload)
    if ¬ tokenMatches crypto signature provided then none
    else parseInt64 (payload.drop (historyPrefix session chatId).length)

variable (list : ChatList)

/-- The check of `chats` of a cursor that is not empty: the boundary, and when it expires. -/
def checkChats (now : UInt64) (cursor : List Char) :
    Option (UInt64 × UInt64 × Int64 × Int64) := do
  let (payload, provided) ← splitLast '.' cursor
  let signature := hmacSha256Hex crypto key chatsCursorPurpose (message session payload)
  match payload.splitOn ':' with
  | [kind, authorization, epoch, name, version, expires, order, id] =>
    if ¬ tokenMatches crypto signature provided ∨ kind ≠ ['l'] ∨
        epoch ≠ session.runtimeEpoch.text ∨ name ≠ listName list then none
    else
      let authorization ← parseUint64 authorization
      let version ← parseUint64 version
      let expires ← parseUint64 expires
      let order ← parseInt64 order
      let id ← parseInt64 id
      if authorization ≠ session.authorizationGeneration ∨ expires < now then none
      else some (version, expires, order, id)
  | _ => none

inductive Request
  | updates
  | messages (chatId : Int64)
  | chats (list : ChatList) (now : UInt64)

def Request.check (request : Request) (cursor : List Char) : Option Cursor :=
  match request with
  | .updates => (decodeUpdates crypto key session cursor).map .updates
  | .messages chatId => (checkHistory crypto key session chatId cursor).map (.history chatId)
  | .chats list now =>
    (checkChats crypto key session list now cursor).map fun (version, expires, order, id) =>
      .chats list version expires order id

/-- The cursors that are of the kind of a request, for its chat or its list, and have not expired. -/
def Request.Admits : Request → Cursor → Prop
  | .updates, .updates _ => True
  | .messages chatId, .history chatId' _ => chatId' = chatId
  | .chats list now, .chats list' _ expires _ _ => list' = list ∧ now ≤ expires
  | _, _ => False

/-- A string holds the signature of a message for cursors only if a cursor with it has been issued. -/
def Unforged (log : List (Session × Cursor)) (cursor : List Char) : Prop :=
  ∀ front signed, ∀ purpose ∈ [updatesCursorPurpose, historyCursorPurpose, chatsCursorPurpose],
    cursor = field '.' front (hmacSha256Hex crypto key purpose signed) →
      ∃ issued ∈ log, purpose = issued.2.purpose ∧
        signed = message issued.1 (issued.2.payload issued.1)

/-- What a string brings as its signature has the digest of the signature that it is compared with only
if it is that signature. -/
def Uncollided (cursor : List Char) : Prop :=
  ∀ payload provided, splitLast '.' cursor = some (payload, provided) →
    ∀ purpose ∈ [updatesCursorPurpose, historyCursorPurpose, chatsCursorPurpose],
      tokenMatches crypto (hmacSha256Hex crypto key purpose (message session payload)) provided = true →
        hmacSha256Hex crypto key purpose (message session payload) = provided

variable {crypto key session}

/-! ### Fields -/

@[simp] theorem colon_unsigned (n : UInt64) : ':' ∉ unsigned n := not_mem_decimal rfl (by decide) _

@[simp] theorem colon_signed (n : Int64) : ':' ∉ signed n := not_mem_decimal rfl (by decide) _

@[simp] theorem colon_listName : ':' ∉ listName list := by
  cases list <;> decide

theorem unsigned_injective : Function.Injective unsigned := fun _ _ h =>
  UInt64.toNat_inj.mp (Int.ofNat_inj.mp (decimal_injective h))

theorem signed_injective : Function.Injective signed := fun _ _ h => Int64.toInt.inj (decimal_injective h)

theorem listName_injective : Function.Injective listName := by
  intro list list' h
  cases list <;> cases list'
  all_goals first | rfl | cases h

theorem parseUint64_unsigned (n : UInt64) : parseUint64 (unsigned n) = some n := by
  have hbound : (n.toNat : ℤ) ≤ 2 ^ 64 - 1 := by
    have hlt := n.toNat_lt
    omega
  unfold parseUint64 unsigned
  rw [parseInteger_decimal (Int.natCast_nonneg _) hbound, Option.map_some, Int.toNat_natCast,
    UInt64.ofNat_toNat]

theorem parseInt64_signed (n : Int64) : parseInt64 (signed n) = some n := by
  have hlow : -2 ^ 63 ≤ n.toInt := n.le_toInt
  have hhigh : n.toInt ≤ 2 ^ 63 - 1 := Int.le_sub_one_of_lt n.toInt_lt
  unfold parseInt64 signed
  rw [parseInteger_decimal hlow hhigh, Option.map_some, Int64.ofInt_toInt]

theorem Name.eq_of_text {name name' : Name} (h : name.text = name'.text) : name = name' := by
  cases name
  cases name'
  cases h
  rfl

/-! ### Signatures -/

@[simp] theorem tokenMatches_self (text : List Char) : tokenMatches crypto text text = true :=
  decide_eq_true rfl

theorem mem_purposes (cursor : Cursor) :
    cursor.purpose ∈ [updatesCursorPurpose, historyCursorPurpose, chatsCursorPurpose] := by
  cases cursor <;> simp [Cursor.purpose]

theorem not_mem_purpose {purpose : List Char}
    (h : purpose ∈ [updatesCursorPurpose, historyCursorPurpose, chatsCursorPurpose]) :
    '\x1f' ∉ purpose := by
  simp only [List.mem_cons, List.not_mem_nil, or_false] at h
  rcases h with rfl | rfl | rfl <;> decide

theorem hmacSha256Hex_inj (hideal : crypto.Ideal) {purpose purpose' signed signed' : List Char}
    (hpurpose : '\x1f' ∉ purpose) (hpurpose' : '\x1f' ∉ purpose')
    (h : hmacSha256Hex crypto key purpose signed = hmacSha256Hex crypto key purpose' signed') :
    purpose = purpose' ∧ signed = signed' :=
  field_inj hpurpose hpurpose' (hideal.hmac _ _ _ _ h).2

theorem message_inj {session session' : Session} {payload payload' : List Char}
    (h : message session payload = message session' payload') :
    session.uuid = session'.uuid ∧ session.generation = session'.generation ∧ payload = payload' := by
  obtain ⟨huuid, h⟩ := field_inj session.uuid.colon session'.uuid.colon h
  obtain ⟨hgeneration, h⟩ := field_inj session.generation.colon session'.generation.colon h
  exact ⟨Name.eq_of_text huuid, Name.eq_of_text hgeneration, h⟩

theorem splitLast_text (hideal : crypto.Ideal) (cursor : Cursor) :
    splitLast '.' (cursor.text crypto key session) = some (cursor.payload session,
      hmacSha256Hex crypto key cursor.purpose (message session (cursor.payload session))) :=
  splitLast_field (hideal.hexadecimal _ _)

theorem unforged_text (hideal : crypto.Ideal) {log : List (Session × Cursor)} {cursor : Cursor}
    (h : (session, cursor) ∈ log) : Unforged crypto key log (cursor.text crypto key session) := by
  intro front signed purpose hpurpose heq
  have hsplit := @splitLast_text crypto key session hideal cursor
  have hforged : splitLast '.' (cursor.text crypto key session) =
      some (front, hmacSha256Hex crypto key purpose signed) := by
    rw [heq]
    exact splitLast_field (hideal.hexadecimal _ _)
  rw [hforged, Option.some.injEq, Prod.mk.injEq] at hsplit
  exact ⟨_, h, hmacSha256Hex_inj hideal (not_mem_purpose hpurpose)
    (not_mem_purpose (mem_purposes cursor)) hsplit.2⟩

theorem issued_of_signature {log : List (Session × Cursor)}
    {cursor payload provided purpose : List Char} (hunforged : Unforged crypto key log cursor)
    (huncollided : Uncollided crypto key session cursor)
    (hpurpose : purpose ∈ [updatesCursorPurpose, historyCursorPurpose, chatsCursorPurpose])
    (hsplit : splitLast '.' cursor = some (payload, provided))
    (hmatch : tokenMatches crypto (hmacSha256Hex crypto key purpose (message session payload))
      provided = true) :
    ∃ issued ∈ log, issued.2.purpose = purpose ∧ issued.1.uuid = session.uuid ∧
      issued.1.generation = session.generation ∧ issued.2.payload issued.1 = payload ∧
      cursor = field '.' payload (hmacSha256Hex crypto key purpose (message session payload)) := by
  have hcursor := (splitLast_eq_some.mp hsplit).1
  rw [← huncollided payload provided hsplit purpose hpurpose hmatch] at hcursor
  obtain ⟨issued, hissued, hissuedPurpose, hmessage⟩ := hunforged _ _ _ hpurpose hcursor
  obtain ⟨huuid, hgeneration, hpayload⟩ := message_inj hmessage
  exact ⟨issued, hissued, hissuedPurpose.symm, huuid.symm, hgeneration.symm, hpayload.symm, hcursor⟩

/-! ### The checks -/

theorem payload_updates (sequence : UInt64) :
    (Cursor.updates sequence).payload session = field ':' (unsigned session.authorizationGeneration)
      (field ':' session.runtimeEpoch.text (unsigned sequence)) := by
  simp [Cursor.payload, updatesPrefix, field]

theorem payload_history (chatId messageId : Int64) :
    (Cursor.history chatId messageId).payload session =
      field ':' ['h'] (field ':' (unsigned session.authorizationGeneration)
        (field ':' session.runtimeEpoch.text (field ':' (signed chatId) (signed messageId)))) := by
  simp [Cursor.payload, historyPrefix, field]

theorem Session.eq_of_fields {session session' : Session} (huuid : session.uuid = session'.uuid)
    (hgeneration : session.generation = session'.generation)
    (hauthorization : unsigned session.authorizationGeneration =
      unsigned session'.authorizationGeneration)
    (hepoch : session.runtimeEpoch.text = session'.runtimeEpoch.text) : session = session' := by
  have hauthorization := unsigned_injective hauthorization
  have hepoch := Name.eq_of_text hepoch
  cases session
  cases session'
  simp_all

variable {log : List (Session × Cursor)} {cursor : List Char}

theorem decodeUpdates_text (hideal : crypto.Ideal) (sequence : UInt64) :
    decodeUpdates crypto key session ((Cursor.updates sequence).text crypto key session) =
      some sequence := by
  have hsplit := @splitLast_text crypto key session hideal (.updates sequence)
  unfold decodeUpdates
  rw [hsplit]
  simp only [Option.bind_eq_bind, Option.bind_some, Cursor.purpose]
  rw [if_neg (by simp [Cursor.payload])]
  simp [Cursor.payload, parseUint64_unsigned]

theorem issued_of_decodeUpdates (hunforged : Unforged crypto key log cursor)
    (huncollided : Uncollided crypto key session cursor)
    {sequence : UInt64} (h : decodeUpdates crypto key session cursor = some sequence) :
    (session, Cursor.updates sequence) ∈ log ∧
      cursor = (Cursor.updates sequence).text crypto key session := by
  unfold decodeUpdates at h
  obtain ⟨⟨payload, provided⟩, hsplit, h⟩ := Option.bind_eq_some_iff.mp h
  dsimp only at h
  split_ifs at h with hrefused
  rw [not_or, not_not, not_not] at hrefused
  obtain ⟨hmatch, hstart⟩ := hrefused
  obtain ⟨⟨session', cursor'⟩, hissued, hpurpose, huuid, hgeneration, hpayload, hcursor⟩ :=
    issued_of_signature hunforged huncollided (by simp) hsplit hmatch
  cases cursor' with
  | history | chats => exact absurd hpurpose (by simp only [Cursor.purpose]; decide)
  | updates sequence' =>
    rw [payload_updates] at hpayload
    rw [← hpayload] at hstart
    unfold updatesPrefix at hstart
    rw [field_starts (colon_unsigned _) (colon_unsigned _),
      field_starts session.runtimeEpoch.colon session'.runtimeEpoch.colon] at hstart
    obtain rfl := Session.eq_of_fields huuid.symm hgeneration.symm hstart.1 hstart.2.1
    rw [← payload_updates] at hpayload
    rw [← hpayload] at h hcursor
    have hsequence : sequence' = sequence := by
      simpa [Cursor.payload, parseUint64_unsigned] using h
    subst hsequence
    exact ⟨hissued, hcursor⟩

theorem checkHistory_text (hideal : crypto.Ideal) (chatId messageId : Int64) :
    checkHistory crypto key session chatId ((Cursor.history chatId messageId).text crypto key session) =
      some messageId := by
  have hsplit := @splitLast_text crypto key session hideal (.history chatId messageId)
  have hstart : historyPrefix session chatId <+:
      (Cursor.history chatId messageId).text crypto key session :=
    (List.prefix_append _ _).trans (List.prefix_append _ _)
  unfold checkHistory
  rw [hsplit]
  simp only [Option.bind_eq_bind, Option.bind_some, Cursor.purpose]
  rw [if_neg (not_not.mpr hstart), if_neg (by simp)]
  simp [Cursor.payload, parseInt64_signed]

theorem issued_of_checkHistory (hunforged : Unforged crypto key log cursor)
    (huncollided : Uncollided crypto key session cursor)
    {chatId messageId : Int64} (h : checkHistory crypto key session chatId cursor = some messageId) :
    (session, Cursor.history chatId messageId) ∈ log ∧
      cursor = (Cursor.history chatId messageId).text crypto key session := by
  unfold checkHistory at h
  obtain ⟨⟨payload, provided⟩, hsplit, h⟩ := Option.bind_eq_some_iff.mp h
  dsimp only at h
  split_ifs at h with hstart hmatch
  obtain ⟨⟨session', cursor'⟩, hissued, hpurpose, huuid, hgeneration, hpayload, hcursor⟩ :=
    issued_of_signature hunforged huncollided (by simp) hsplit hmatch
  cases cursor' with
  | updates | chats => exact absurd hpurpose (by simp only [Cursor.purpose]; decide)
  | history chatId' messageId' =>
    rw [payload_history] at hpayload
    -- the fields before the position are those of the request, though the dot comes after them
    have hwhole : cursor = field ':' ['h'] (field ':' (unsigned session'.authorizationGeneration)
        (field ':' session'.runtimeEpoch.text (field ':' (signed chatId')
          (field '.' (signed messageId')
            (hmacSha256Hex crypto key historyCursorPurpose (message session payload)))))) := by
      rw [hcursor, ← hpayload]
      simp [field]
    rw [hwhole] at hstart
    unfold historyPrefix at hstart
    rw [field_starts (by decide) (by decide), field_starts (colon_unsigned _) (colon_unsigned _),
      field_starts session.runtimeEpoch.colon session'.runtimeEpoch.colon,
      field_starts (colon_signed _) (colon_signed _)] at hstart
    obtain ⟨-, hauthorization, hepoch, hchat, -⟩ := hstart
    obtain rfl := Session.eq_of_fields huuid.symm hgeneration.symm hauthorization hepoch
    obtain rfl := signed_injective hchat
    rw [← payload_history] at hpayload
    rw [← hpayload] at h hcursor
    have hmessage : messageId' = messageId := by
      simpa [Cursor.payload, parseInt64_signed] using h
    subst hmessage
    exact ⟨hissued, hcursor⟩

theorem splitOn_chats (version expires : UInt64)
    (order id : Int64) : ((Cursor.chats list version expires order id).payload session).splitOn ':' =
      [['l'], unsigned session.authorizationGeneration, session.runtimeEpoch.text, listName list,
        unsigned version, unsigned expires, signed order, signed id] := by
  unfold Cursor.payload
  rw [splitOn_field (by decide), splitOn_field (colon_unsigned _),
    splitOn_field session.runtimeEpoch.colon, splitOn_field (colon_listName _),
    splitOn_field (colon_unsigned _), splitOn_field (colon_unsigned _), splitOn_field (colon_signed _),
    List.splitOn_eq_singleton (colon_signed _)]

theorem checkChats_text (hideal : crypto.Ideal) (list : ChatList) (version : UInt64)
    {expires now : UInt64} (order id : Int64) (hnow : now ≤ expires) :
    checkChats crypto key session list now
        ((Cursor.chats list version expires order id).text crypto key session) =
      some (version, expires, order, id) := by
  have hsplit := @splitLast_text crypto key session hideal (.chats list version expires order id)
  unfold checkChats
  rw [hsplit]
  simp only [Option.bind_eq_bind, Option.bind_some, Cursor.purpose, splitOn_chats, tokenMatches_self]
  simp [parseUint64_unsigned, parseInt64_signed, hnow]

theorem issued_of_checkChats (hunforged : Unforged crypto key log cursor)
    (huncollided : Uncollided crypto key session cursor)
    {list : ChatList} {now version expires : UInt64} {order id : Int64}
    (h : checkChats crypto key session list now cursor = some (version, expires, order, id)) :
    now ≤ expires ∧ (session, Cursor.chats list version expires order id) ∈ log ∧
      cursor = (Cursor.chats list version expires order id).text crypto key session := by
  unfold checkChats at h
  cases hsplit : splitLast '.' cursor with
  | none =>
    rw [hsplit] at h
    cases h
  | some parts =>
    obtain ⟨payload, provided⟩ := parts
    rw [hsplit] at h
    simp only [Option.bind_eq_bind, Option.bind_some] at h
    split at h
    · rename_i kind authorization epoch name version' expires' order' id' hfields
      split_ifs at h with hrefused
      simp only [not_or, not_not] at hrefused
      obtain ⟨hmatch, -, hepoch, hname⟩ := hrefused
      obtain ⟨⟨session', cursor'⟩, hissued, hpurpose, huuid, hgeneration, hpayload, hcursor⟩ :=
        issued_of_signature hunforged huncollided (by simp) hsplit hmatch
      cases cursor' with
      | updates | history => exact absurd hpurpose (by simp only [Cursor.purpose]; decide)
      | chats list' issuedVersion issuedExpires issuedOrder issuedId =>
        rw [← hpayload, splitOn_chats] at hfields
        obtain ⟨-, rfl, rfl, rfl, rfl, rfl, rfl, rfl, -⟩ := hfields
        obtain rfl := listName_injective hname
        simp only [parseUint64_unsigned, parseInt64_signed, Option.bind_some] at h
        split_ifs at h with hother
        rw [not_or, not_not, UInt64.not_lt] at hother
        obtain rfl := Session.eq_of_fields huuid.symm hgeneration.symm
          (congrArg unsigned hother.1.symm) hepoch.symm
        cases h
        rw [← hpayload] at hcursor
        exact ⟨hother.2, hissued, hcursor⟩
    · cases h

/-- **Cursors open only where they were issued.** A string that is no forgery, and whose signature does not
collide with the one it is compared with, passes the check of a
request only if it was issued for the same account, storage and session, as a cursor of that kind for the
same chat or list, and it is read back as the position it was issued for; every such cursor passes the
check, until it expires. -/
theorem cursor_opens (crypto : Crypto) (hideal : crypto.Ideal) (key : List Char)
    (log : List (Session × Cursor)) (session : Session) (request : Request) :
    (∀ text, Unforged crypto key log text → Uncollided crypto key session text → ∀ cursor,
      request.check crypto key session text = some cursor →
        request.Admits cursor ∧ (session, cursor) ∈ log ∧ text = cursor.text crypto key session) ∧
      ∀ cursor, request.Admits cursor →
        request.check crypto key session (cursor.text crypto key session) = some cursor := by
  constructor
  · intro text hunforged huncollided cursor hcheck
    cases request with
    | updates =>
      obtain ⟨sequence, hdecode, rfl⟩ := Option.map_eq_some_iff.mp hcheck
      exact ⟨trivial, issued_of_decodeUpdates hunforged huncollided hdecode⟩
    | messages chatId =>
      obtain ⟨messageId, hchecked, rfl⟩ := Option.map_eq_some_iff.mp hcheck
      exact ⟨rfl, issued_of_checkHistory hunforged huncollided hchecked⟩
    | chats list now =>
      obtain ⟨⟨version, expires, order, id⟩, hchecked, rfl⟩ := Option.map_eq_some_iff.mp hcheck
      obtain ⟨hnow, hissued⟩ := issued_of_checkChats hunforged huncollided hchecked
      exact ⟨⟨rfl, hnow⟩, hissued⟩
  · intro cursor hadmits
    cases request with
    | updates =>
      cases cursor with
      | updates sequence =>
        rw [Request.check, decodeUpdates_text hideal, Option.map_some]
      | history | chats => exact hadmits.elim
    | messages chatId =>
      cases cursor with
      | history chatId' messageId =>
        have hchat : chatId' = chatId := hadmits
        subst hchat
        rw [Request.check, checkHistory_text hideal, Option.map_some]
      | updates | chats => exact hadmits.elim
    | chats list now =>
      cases cursor with
      | chats list' version expires order id =>
        obtain ⟨hlist, hnow⟩ : list' = list ∧ now ≤ expires := hadmits
        subst hlist
        rw [Request.check, checkChats_text hideal list' version order id hnow, Option.map_some]
      | updates | history => exact hadmits.elim

def sampleSession : Session :=
  ⟨⟨['u'], by decide, by decide⟩, ⟨['g'], by decide, by decide⟩, 1, ⟨['e'], by decide, by decide⟩⟩

def sampleKey : List Char := ['k', 'e', 'y']

/-- What is signed for a cursor of a chat, with its HMAC under the key and the digest of that. -/
def sampleSigned : List Char :=
  field '\x1f' historyCursorPurpose (message sampleSession ((Cursor.history 5 7).payload sampleSession))

@[inherit_doc sampleSigned] def sampleSignature : List Char :=
  "f338fb2722d7f3bd45e36337233600b3b908258adf9e4cada7b28199f0e5889a".toList

@[inherit_doc sampleSigned] def sampleDigest : List Char :=
  "92e56ad8e6e0f6570f5b69affd247ec03d9caa8dadf3e60bd2bf414feb8e2ad7".toList

/-- The values of the library for that cursor, and numbers for everything else. -/
def sampleCrypto : Crypto where
  hmacSha256 key message :=
    if key = sampleKey ∧ message = sampleSigned then sampleSignature
    else decimal (Encodable.encode (key.map Char.toNat, message.map Char.toNat))
  sha256 text := if text = sampleSignature then sampleDigest else text

theorem ne_decimal {text : List Char} (h : 'a' ∈ text) (n : ℤ) : text ≠ decimal n := by
  rintro rfl
  exact not_mem_decimal rfl (by decide) n h

theorem ideal_sampleCrypto : sampleCrypto.Ideal where
  hmac key message key' message' h := by
    have hletter : 'a' ∈ sampleSignature := by decide
    simp only [sampleCrypto] at h
    split_ifs at h with hsample hsample'
    · exact ⟨hsample.1.trans hsample'.1.symm, hsample.2.trans hsample'.2.symm⟩
    · exact absurd h (ne_decimal hletter _)
    · exact absurd h.symm (ne_decimal hletter _)
    · have hencode := Encodable.encode_injective (Int.ofNat_inj.mp (decimal_injective h))
      obtain ⟨hkey, hmessage⟩ := Prod.mk.inj hencode
      have hinjective : Function.Injective (List.map Char.toNat) :=
        List.map_injective_iff.mpr fun _ _ h => Char.toNat_inj.mp h
      exact ⟨hinjective hkey, hinjective hmessage⟩
  hexadecimal key message := by
    simp only [sampleCrypto]
    split_ifs
    · decide
    · exact not_mem_decimal rfl (by decide) _

theorem uncollided_sample :
    Uncollided sampleCrypto sampleKey sampleSession
      ((Cursor.history 5 7).text sampleCrypto sampleKey sampleSession) := by
  intro payload provided hsplit purpose hpurpose hmatch
  rw [splitLast_text ideal_sampleCrypto] at hsplit
  obtain ⟨rfl, rfl⟩ := Prod.mk.inj (Option.some.inj hsplit)
  have hprovided : hmacSha256Hex sampleCrypto sampleKey (Cursor.history 5 7).purpose
      (message sampleSession ((Cursor.history 5 7).payload sampleSession)) = sampleSignature := by
    have hsigned : sampleCrypto.hmacSha256 sampleKey sampleSigned = sampleSignature := by
      simp [sampleCrypto]
    exact hsigned
  rw [hprovided, tokenMatches, decide_eq_true_eq] at hmatch
  rw [hprovided]
  generalize hmade : hmacSha256Hex sampleCrypto sampleKey purpose _ = signature at hmatch ⊢
  -- a signature of something else is a number, and neither the sample nor its digest is one
  by_contra hother
  have hnumber : 'a' ∉ signature := by
    rw [← hmade] at hother ⊢
    simp only [hmacSha256Hex, sampleCrypto] at hother ⊢
    split_ifs at hother ⊢
    · exact absurd rfl hother
    · exact not_mem_decimal rfl (by decide) _
  have hdigest : signature = sampleDigest := by
    simpa [sampleCrypto, hother] using hmatch
  rw [hdigest] at hnumber
  exact hnumber (by decide)

/-- The cursor of a chat opens it, and no other. -/
theorem opens_chat :
    let text := (Cursor.history 5 7).text sampleCrypto sampleKey sampleSession
    Request.check sampleCrypto sampleKey sampleSession (.messages 5) text = some (.history 5 7) ∧
      Request.check sampleCrypto sampleKey sampleSession (.messages 6) text = none := by
  intro text
  have hissued : (sampleSession, Cursor.history 5 7) ∈ [(sampleSession, Cursor.history 5 7)] :=
    List.mem_singleton_self _
  refine ⟨(cursor_opens sampleCrypto ideal_sampleCrypto sampleKey [(sampleSession, .history 5 7)]
    sampleSession (.messages 5)).2 _ rfl, ?_⟩
  cases hcheck : Request.check sampleCrypto sampleKey sampleSession (.messages 6) text with
  | none => rfl
  | some cursor =>
    obtain ⟨hadmits, hlog, -⟩ := (cursor_opens sampleCrypto ideal_sampleCrypto sampleKey
      [(sampleSession, .history 5 7)] sampleSession (.messages 6)).1 text
        (unforged_text ideal_sampleCrypto hissued) uncollided_sample cursor hcheck
    obtain rfl := (Prod.mk.inj (List.mem_singleton.mp hlog)).2
    have hother : (5 : Int64) = 6 := hadmits
    exact absurd hother (by decide)

end Runtime.Cursors
