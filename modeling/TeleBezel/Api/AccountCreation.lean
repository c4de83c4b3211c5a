import TeleBezel.Api.Account
import TeleBezel.Api.CanonicalJson
import TeleBezel.Lib.Transition

/-!
# Account creation

`create` of `TelegramAccountService` and of `TelegramAccountRepository` in `backend-api/app`. A
request under an `Idempotency-Key` looks for the key in a transaction; where there is none it inserts
an account and the key, and the primary key of the keys lets only one transaction do so. A violation
undoes the transaction, and the request begins again. A concurrency error is tried again in place.
Whatever a request does, it can fail, and its commit can be carried out though it is told otherwise.

Keys are kept: the retention that drops them after a week is no request. What the request rules check
beyond the types, and the columns that nobody reads here, are left out.
-/

namespace Api.AccountCreation

open Transition Function

/-! ### What is compared -/

/-- `request.invalid`. -/
def invalidRequest : ApiException := { errorCode := "request.invalid", status := 422 }

/-- `configuration.invalid`. -/
def invalidConfiguration : ApiException := { errorCode := "configuration.invalid", status := 422 }

/-- `operation.conflict`. -/
def operationConflict : ApiException := { errorCode := "operation.conflict", status := 409 }

/-- `account.gone`. -/
def accountGone : ApiException := { errorCode := "account.gone", status := 410 }

/-- `account.not_found`. -/
def accountNotFound : ApiException := { errorCode := "account.not_found", status := 404 }

def string : Json → Except ApiException String
  | .str text => .ok text
  | _ => .error invalidRequest

/-- The number that `FILTER_VALIDATE_INT` reads. -/
def validatedInt (text : String) : Option ℤ :=
  if text = "0" ∨ text = "-0" then some 0
  else if telegramId text then
    some (match text.toList with
      | '-' :: digits => -(decimal digits : ℤ)
      | digits => decimal digits)
  else none

def integer : Json → Except ApiException ℤ
  | .int n => .ok n
  | .str text => (validatedInt text).elim (.error invalidRequest) .ok
  | _ => .error invalidRequest

def object : Json → Except ApiException (List (String × Json))
  | .object members => .ok members
  | .list [] => .ok []
  | _ => .error invalidRequest

/-- An entry that `isset` finds, converted. -/
def given {α : Type} (convert : Json → Except ApiException α) :
    Option Json → Except ApiException (Option α)
  | none | some .null => .ok none
  | some value => some <$> convert value

/-- Whether an entry, or `''` for one that is not set, is `''`. -/
def isEmpty : Option Json → Bool
  | none | some .null => true
  | some (.str text) => text = ""
  | some _ => false

/-- Whether an entry is `true`. -/
def isTrue : Option Json → Bool
  | some (.bool true) => true
  | _ => false

/-- What `normalizedProxy` returns. -/
@[ext]
structure NormalizedProxy where
  id : Option String
  mode : String
  host : Option String
  port : Option ℤ
  httpOnly : Bool
  username : Option String
  password : Option String
  secret : Option String

def details : List String :=
  ["id", "host", "port", "http_only", "username", "password", "secret"]

/-- `normalizedProxy`, of the entries of a proxy. -/
def normalizedEntries (proxy : String → Option Json) : Except ApiException NormalizedProxy := do
  let mode := (← given string (proxy "mode")).getD "inherit"
  if mode ∉ ["inherit", "direct", "socks5", "http", "mtproto"] then throw invalidConfiguration
  if mode ≠ "inherit" ∧ isEmpty (proxy "id") then throw invalidConfiguration
  if mode = "inherit" ∧ details.any fun key => (proxy key).isSome then throw invalidConfiguration
  if ¬ isEmpty (proxy "password") ∧ isEmpty (proxy "username") then throw invalidConfiguration
  let id ← if mode = "inherit" then pure none else given string (proxy "id")
  let host ← given string (proxy "host")
  let port ← given integer (proxy "port")
  let username ← given string (proxy "username")
  let password ← given string (proxy "password")
  let secret ← given string (proxy "secret")
  return { id, mode, host, port, httpOnly := mode = "http" && isTrue (proxy "http_only"),
           username, password, secret }

def normalizedProxy (proxy : List (String × Json)) : Except ApiException NormalizedProxy :=
  normalizedEntries fun key => proxy.lookup key

variable (value : Option Json)

def entry (key : String) (value : Option Json) : List (String × Json) :=
  value.toList.map fun value => (key, value)

variable (proxy : NormalizedProxy)

/-- The array that `normalizedProxy` returns. -/
def NormalizedProxy.members : List (String × Json) :=
  entry "id" (proxy.id.map .str) ++ ("mode", .str proxy.mode) ::
    (entry "host" (proxy.host.map .str) ++ (entry "port" (proxy.port.map .int) ++
      ("http_only", .bool proxy.httpOnly) :: (entry "username" (proxy.username.map .str) ++
        (entry "password" (proxy.password.map .str) ++ entry "secret" (proxy.secret.map .str)))))

/-- What `create` of the service digests. -/
def comparedJson (label : String) (proxy : NormalizedProxy) : Json :=
  .object [("label", .str label), ("proxy", .object proxy.members)]

def readProxy : Option Json → Except ApiException NormalizedProxy
  | none | some .null => normalizedProxy [("mode", .str "inherit")]
  | some value => (object value).bind normalizedProxy

/-- What `create` of the service makes of a request before it calls the repository. -/
def read (idempotencyKey : String) (input : List (String × Json)) :
    Except ApiException (String × NormalizedProxy) := do
  if idempotencyKey.utf8ByteSize < 8 ∨ 200 < idempotencyKey.utf8ByteSize then
    throw { errorCode := "request.invalid_idempotency_key", status := 422 }
  let proxy ← readProxy (input.lookup "proxy")
  let label ← string ((input.lookup "label").getD .null)
  return (label, proxy)

/-! ### The requests -/

structure Call where
  number : ℕ
  token : Uuid
  key : String
  label : String
  proxy : NormalizedProxy

/-- The token and the `Idempotency-Key` of a request. -/
def Call.pair (call : Call) : Uuid × String := (call.token, call.key)

/-- A row of `account_idempotency_keys`, but for its primary key. -/
structure KeyRow where
  requestHash : Bytes
  account : Uuid

/-- A row of `telegram_accounts`, but for its id: whether it is removed, and the request that has
inserted it, with the label and the proxy it was given. -/
structure AccountRow where
  removed : Bool := false
  origin : Call

inductive Stage
  /-- In a transaction, before the key is looked for. -/
  | looking
  /-- There is no key. -/
  | inserting
  /-- An account is inserted. -/
  | keying (account : Uuid)
  /-- The transaction is about to return an account, which it has created together with its key. -/
  | committing (account : Uuid) (created : Bool)
  /-- The transaction is over, and the service is about to find the account. -/
  | finding (account : Uuid) (created : Bool)
deriving DecidableEq

def Stage.inserted : Stage → Option Uuid
  | .keying account | .committing account true => some account
  | _ => none

def Stage.keyed : Stage → Bool
  | .committing _ true => true
  | _ => false

/-- A request under way: `attempt` counts the violations it has met, `tries` the attempts of its
transaction. -/
structure Running where
  call : Call
  attempt : ℕ := 0
  tries : ℕ := 1
  stage : Stage := .looking

inductive Result
  | account (id : Uuid) (created : Bool)
  | error (exception : ApiException)
  /-- It fails of itself. -/
  | failed

/-- The rows that are committed, the requests under way, and how the others have ended. -/
structure State where
  keys : Uuid × Bytes → Option KeyRow := fun _ => none
  accounts : Uuid → Option AccountRow := fun _ => none
  requests : ℕ → Option Running := fun _ => none
  answers : ℕ → Option (Call × Result) := fun _ => none
  next : ℕ := 0

inductive Action
  | look
  | insertAccount (id : Uuid)
  | insertKey
  | commit
  /-- A concurrency error. -/
  | deadlock
  /-- The commit is carried out, but the request learns of a failure. -/
  | lost
  | fail
  | find
deriving DecidableEq

inductive Event
  | request (token : Uuid) (key : String) (input : List (String × Json))
  | act (n : ℕ) (action : Action)
  /-- An account is removed. -/
  | remove (id : Uuid)

section Step

variable (sha256 : String → Bytes)

def requestHash (label : String) (proxy : NormalizedProxy) : Bytes :=
  sha256 (canonicalJson (comparedJson label proxy))

variable (call : Call)

def Call.requestHash : Bytes := AccountCreation.requestHash sha256 call.label call.proxy

/-- The primary key of a request in `account_idempotency_keys`. -/
def Call.primaryKey : Uuid × Bytes := (call.token, sha256 call.key)

namespace State

variable (s : State)

def goOn (n : ℕ) (running : Running) : State :=
  { s with requests := update s.requests n (some running) }

def answer (n : ℕ) (call : Call) (result : Result) : State :=
  { s with
    requests := update s.requests n none
    answers := update s.answers n (some (call, result)) }

def HoldsAccount (id : Uuid) : Prop :=
  ∃ m < s.next, ∃ running ∈ s.requests m, running.stage.inserted = some id

instance (s : State) (id : Uuid) : Decidable (s.HoldsAccount id) :=
  inferInstanceAs (Decidable (∃ m < s.next, ∃ running ∈ s.requests m, _))

def HoldsKey (primaryKey : Uuid × Bytes) : Prop :=
  ∃ m < s.next, ∃ running ∈ s.requests m,
    running.stage.keyed = true ∧ running.call.primaryKey sha256 = primaryKey

instance (s : State) (primaryKey : Uuid × Bytes) : Decidable (s.HoldsKey sha256 primaryKey) :=
  inferInstanceAs (Decidable (∃ m < s.next, ∃ running ∈ s.requests m, _))

def violated (n : ℕ) (running : Running) : State :=
  if 2 ≤ running.attempt then s.answer n running.call (.error operationConflict)
  else s.goOn n { call := running.call, attempt := running.attempt + 1 }

def request (token : Uuid) (key : String) (input : List (String × Json)) : State :=
  match read key input with
  | .error _ => s
  | .ok (label, proxy) =>
    { s with
      requests := update s.requests s.next
        (some { call := { number := s.next, token, key, label, proxy } })
      next := s.next + 1 }

def look (n : ℕ) (running : Running) : State :=
  match s.keys (running.call.primaryKey sha256) with
  | none => s.goOn n { running with stage := .inserting }
  | some existing =>
    if existing.requestHash ≠ running.call.requestHash sha256 then
      s.answer n running.call (.error operationConflict)
    else
      match s.accounts existing.account with
      | none => s.answer n running.call .failed
      | some account =>
        if account.removed then s.answer n running.call (.error accountGone)
        else s.goOn n { running with stage := .committing existing.account false }

def insertAccount (n : ℕ) (running : Running) (id : Uuid) : State :=
  if s.HoldsAccount id then s
  else if (s.accounts id).isSome then s.violated n running
  else s.goOn n { running with stage := .keying id }

def insertKey (n : ℕ) (running : Running) (account : Uuid) : State :=
  if s.HoldsKey sha256 (running.call.primaryKey sha256) then s
  else if (s.keys (running.call.primaryKey sha256)).isSome then s.violated n running
  else s.goOn n { running with stage := .committing account true }

def write (s : State) (call : Call) (account : Uuid) : State :=
  { s with
    accounts := update s.accounts account (some { origin := call })
    keys := update s.keys (call.primaryKey sha256)
      (some { requestHash := call.requestHash sha256, account }) }

def commit (s : State) (call : Call) (account : Uuid) (created : Bool) : State :=
  if created then s.write sha256 call account else s

/-- `DB::transaction` after a concurrency error. -/
def deadlock (n : ℕ) (running : Running) : State :=
  if running.tries < 3 then
    s.goOn n { running with tries := running.tries + 1, stage := .looking }
  else s.answer n running.call .failed

def find (n : ℕ) (call : Call) (account : Uuid) (created : Bool) : State :=
  match s.accounts account with
  | none => s.answer n call (.error accountNotFound)
  | some row =>
    if row.removed then s.answer n call (.error accountGone)
    else s.answer n call (.account account created)

def remove (id : Uuid) : State :=
  { s with
    accounts := update s.accounts id
      ((s.accounts id).map fun account => { account with removed := true }) }

end State

def act (s : State) (n : ℕ) (running : Running) (action : Action) : State :=
  match running.stage, action with
  | .looking, .look => s.look sha256 n running
  | .inserting, .insertAccount id => s.insertAccount n running id
  | .keying account, .insertKey => s.insertKey sha256 n running account
  | .committing account created, .commit =>
    (s.commit sha256 running.call account created).goOn n
      { running with stage := .finding account created }
  | .committing account created, .lost =>
    (s.commit sha256 running.call account created).answer n running.call .failed
  | .finding account created, .find => s.find n running.call account created
  | .finding _ _, .deadlock => s
  | _, .deadlock => s.deadlock n running
  | _, .fail => s.answer n running.call .failed
  | _, _ => s

def step (s : State) : Event → State
  | .request token key input => s.request token key input
  | .act n action => (s.requests n).elim s fun running => act sha256 s n running action
  | .remove id => s.remove id

end Step

/-! ### What is compared determines label and proxy -/

theorem mem_entry {key key' : String} {value : Option Json} {v : Json} :
    (key', v) ∈ entry key value ↔ key' = key ∧ value = some v := by
  cases value <;> simp [entry, Prod.ext_iff, eq_comm]

theorem NormalizedProxy.map_sort :
    (proxy.members.map fun member => (member.1, member.2.sort)) = proxy.members := by
  have hentry : ∀ (key : String) (value : Option Json), (∀ v ∈ value, v.sort = v) →
      ((entry key value).map fun member => (member.1, member.2.sort)) = entry key value := by
    intro key value h
    cases value with
    | none => rfl
    | some v => simp [entry, h v rfl]
  have hstr : ∀ (value : Option String), ∀ v ∈ value.map Json.str, v.sort = v := by
    rintro (_ | value) _ ⟨⟩
    rfl
  have hint : ∀ (value : Option ℤ), ∀ v ∈ value.map Json.int, v.sort = v := by
    rintro (_ | value) _ ⟨⟩
    rfl
  simp only [members, List.map_append, List.map_cons, hentry _ _ (hstr _), hentry _ _ (hint _),
    Json.sort_str, Json.sort_bool]

theorem NormalizedProxy.eq_of_perm {p q : NormalizedProxy} (h : p.members.Perm q.members) :
    p = q := by
  have hmem : ∀ key v, (key, v) ∈ p.members ↔ (key, v) ∈ q.members := fun key v => h.mem_iff
  simp only [members, List.mem_append, List.mem_cons, mem_entry, Prod.mk.injEq] at hmem
  have hoption : ∀ {α : Type} {make : α → Json} (_ : Function.Injective make) {a b : Option α},
      (∀ v, a.map make = some v ↔ b.map make = some v) → a = b := by
    intro α make hmake a b hab
    refine Option.map_injective hmake (Option.ext fun v => ?_)
    exact hab v
  have hstr : Function.Injective Json.str := fun a b hab => by injection hab
  have hint : Function.Injective Json.int := fun a b hab => by injection hab
  refine NormalizedProxy.ext ?_ ?_ ?_ ?_ ?_ ?_ ?_ ?_
  · exact hoption hstr fun v => by simpa using hmem "id" v
  · have hmode := hmem "mode" (.str p.mode)
    simpa using hmode
  · exact hoption hstr fun v => by simpa using hmem "host" v
  · exact hoption hint fun v => by simpa using hmem "port" v
  · have hhttpOnly := hmem "http_only" (.bool p.httpOnly)
    simpa using hhttpOnly
  · exact hoption hstr fun v => by simpa using hmem "username" v
  · exact hoption hstr fun v => by simpa using hmem "password" v
  · exact hoption hstr fun v => by simpa using hmem "secret" v

theorem comparedJson_inj {label label' : String} {proxy proxy' : NormalizedProxy}
    (h : canonicalJson (comparedJson label proxy) = canonicalJson (comparedJson label' proxy')) :
    label = label' ∧ proxy = proxy' := by
  have hperm := Json.perm_of_sort_eq (sort_eq_of_canonicalJson h)
  have hlabel := hperm.mem_iff (a := ("label", Json.str label))
  have hproxy := hperm.mem_iff (a := ("proxy", Json.sort (.object proxy.members)))
  simp only [List.map_cons, List.map_nil, List.mem_cons, Prod.mk.injEq, Json.sort_str,
    List.not_mem_nil, true_and, true_or, or_true, or_false, true_iff] at hlabel hproxy
  rcases hlabel with hlabel | hlabel
  · rcases hproxy with hproxy | hproxy
    · exact absurd hproxy.1 (by decide)
    refine ⟨Json.str.inj hlabel, NormalizedProxy.eq_of_perm ?_⟩
    have hmembers := Json.perm_of_sort_eq hproxy
    rwa [proxy.map_sort, proxy'.map_sort] at hmembers
  · exact absurd hlabel.1 (by decide)

/-! ### The order of keys in a body does not matter -/

def valueAt : Json → String → Option Json
  | .object members, key => members.lookup key
  | _, _ => none

def outline : Json → Json
  | .list items => .list (items.map fun _ => .null)
  | .object _ => .object []
  | value => value

theorem lookup_append_cons (front rest : List (String × Json)) (key key' : String) (v : Json) :
    (front ++ (key, v) :: rest).lookup key' =
      (front.lookup key').or (if key' = key then some v else rest.lookup key') := by
  rw [List.lookup_append, List.lookup_cons]
  by_cases h : key' = key
  · simp [h]
  · rw [if_neg h, beq_false_of_ne h]

theorem lookup_eq_some_iff {members : List (String × Json)}
    (hkeys : (members.map Prod.fst).Nodup) {key : String} {v : Json} :
    members.lookup key = some v ↔ (key, v) ∈ members := by
  induction members with
  | nil => simp
  | cons member rest ih =>
    obtain ⟨key', v'⟩ := member
    rw [List.map_cons, List.nodup_cons] at hkeys
    rw [List.lookup_cons, List.mem_cons, Prod.mk.injEq]
    by_cases h : key = key'
    · subst h
      have hrest : (key, v) ∉ rest := fun hmem => hkeys.1 (List.mem_map.mpr ⟨_, hmem, rfl⟩)
      simp [hrest, eq_comm]
    · rw [beq_false_of_ne h]
      simpa [h] using ih hkeys.2

theorem rel_refl : Option.Rel Reordered value value := by
  cases value with
  | none => exact .none
  | some value => exact .some (.refl value)

theorem rel_trans {x y z : Option Json} (h : Option.Rel Reordered x y)
    (h' : Option.Rel Reordered y z) : Option.Rel Reordered x z := by
  cases h with
  | none => exact h'
  | some h =>
    cases h' with
    | some h' => exact .some (h.trans h')

theorem rel_valueAt {a b : Json} (h : Reordered a b) (key : String) :
    Option.Rel Reordered (valueAt a key) (valueAt b key) := by
  induction h with
  | refl a => exact rel_refl _
  | trans _ _ ih ih' => exact rel_trans ih ih'
  | item front rest _ _ => exact .none
  | member front key' rest hab _ =>
    rw [valueAt, valueAt, lookup_append_cons, lookup_append_cons]
    cases front.lookup key with
    | some value => exact .some (.refl value)
    | none =>
      by_cases hkey : key = key'
      · simpa [hkey] using Option.Rel.some hab
      · simpa [hkey] using rel_refl _
  | keys hkeys hperm =>
    have hkeys' := (hperm.map Prod.fst).nodup_iff.mp hkeys
    rename_i members members'
    have heq : members.lookup key = members'.lookup key := by
      refine Option.ext fun v => ?_
      rw [lookup_eq_some_iff hkeys, lookup_eq_some_iff hkeys', hperm.mem_iff]
    rw [valueAt, valueAt, heq]
    exact rel_refl _

theorem outline_eq {a b : Json} (h : Reordered a b) : outline a = outline b := by
  induction h with
  | refl a => rfl
  | trans _ _ ih ih' => rw [ih, ih']
  | item front rest _ _ => simp [outline]
  | member front key rest _ _ => rfl
  | keys _ _ => rfl

theorem given_outline {α : Type} {convert : Json → Except ApiException α}
    (hconvert : ∀ a, convert (outline a) = convert a) (value : Option Json) :
    given convert (value.map outline) = given convert value := by
  rcases value with _ | value
  · rfl
  · have hvalue := congrArg (some <$> ·) (hconvert value)
    cases value <;> first | rfl | exact hvalue

theorem string_outline (a : Json) : string (outline a) = string a := by cases a <;> rfl

theorem integer_outline (a : Json) : integer (outline a) = integer a := by cases a <;> rfl

theorem isEmpty_outline : isEmpty (value.map outline) = isEmpty value := by
  rcases value with _ | (_ | _ | _ | _ | _ | _) <;> rfl

theorem isTrue_outline : isTrue (value.map outline) = isTrue value := by
  rcases value with _ | (_ | (_ | _) | _ | _ | _ | _) <;> rfl

theorem normalizedEntries_outline (proxy : String → Option Json) :
    normalizedEntries (fun key => (proxy key).map outline) = normalizedEntries proxy := by
  simp only [normalizedEntries, given_outline string_outline, given_outline integer_outline,
    isEmpty_outline, isTrue_outline, Option.isSome_map]

theorem outline_eq_of_rel {v v' : Option Json} (h : Option.Rel Reordered v v') :
    v.map outline = v'.map outline := by
  cases h with
  | none => rfl
  | some h => exact congrArg some (outline_eq h)

theorem normalizedProxy_eq {a b : List (String × Json)} (h : Reordered (.object a) (.object b)) :
    normalizedProxy a = normalizedProxy b := by
  have hvalue : ∀ key, (a.lookup key).map outline = (b.lookup key).map outline := fun key =>
    outline_eq_of_rel (rel_valueAt h key)
  rw [normalizedProxy, normalizedProxy, ← normalizedEntries_outline,
    ← normalizedEntries_outline fun key => b.lookup key, funext hvalue]

theorem readProxy_eq {x y : Option Json} (h : Option.Rel Reordered x y) :
    readProxy x = readProxy y := by
  cases h with
  | none => rfl
  | some h =>
    rename_i a b
    have houtline := outline_eq h
    cases a with
    | object members =>
      cases b with
      | object members' => exact normalizedProxy_eq h
      | _ => cases houtline
    | list items =>
      cases b with
      | list items' =>
        have hlength : items.length = items'.length := by
          simpa [outline] using congrArg List.length (Json.list.inj houtline)
        cases items with
        | nil => rw [List.eq_nil_of_length_eq_zero hlength.symm]
        | cons item items =>
          cases items' with
          | nil => cases hlength
          | cons item' items' => rfl
      | _ => cases houtline
    | _ => cases b <;> first | rfl | cases houtline

/-- **The order of keys** in a body, at any depth, does not change what is read of it. -/
theorem read_eq_of_reordered {input input' : List (String × Json)} (key : String)
    (h : Reordered (.object input) (.object input')) : read key input = read key input' := by
  have hlabel : (input.lookup "label").map outline = (input'.lookup "label").map outline :=
    outline_eq_of_rel (rel_valueAt h "label")
  have hstring : string ((input.lookup "label").getD .null) =
      string ((input'.lookup "label").getD .null) := by
    have hgetD : ∀ value : Option Json,
        string (value.getD .null) = string ((value.map outline).getD .null) := by
      rintro (_ | value)
      · rfl
      · exact (string_outline value).symm
    rw [hgetD, hlabel, ← hgetD]
  have hproxy : readProxy (input.lookup "proxy") = readProxy (input'.lookup "proxy") :=
    readProxy_eq (rel_valueAt h "proxy")
  rw [read, read, hstring, hproxy]

/-! ### Every run -/

section Runs

variable {sha256 : String → Bytes} {s : State} {n : ℕ} {running : Running} {call : Call}
  {account : Uuid} {created : Bool}

/-- Two requests ask for different things, and the digests that are compared are the same. -/
def Call.Collides (sha256 : String → Bytes) (c d : Call) : Prop :=
  canonicalJson (comparedJson c.label c.proxy) ≠ canonicalJson (comparedJson d.label d.proxy) ∧
    c.requestHash sha256 = d.requestHash sha256

theorem collides_of_requestHash {c d : Call} (h : c.requestHash sha256 = d.requestHash sha256)
    (hne : (c.label, c.proxy) ≠ (d.label, d.proxy)) : c.Collides sha256 d := by
  refine ⟨fun heq => hne ?_, h⟩
  obtain ⟨hlabel, hproxy⟩ := comparedJson_inj heq
  rw [hlabel, hproxy]

/-- Two requests are one for the database: it compares the digests of the key and of what is asked. -/
structure Call.Matches (sha256 : String → Bytes) (c d : Call) : Prop where
  key : c.primaryKey sha256 = d.primaryKey sha256
  hash : c.requestHash sha256 = d.requestHash sha256

theorem primaryKey_of_pair {c d : Call} (h : c.pair = d.pair) :
    c.primaryKey sha256 = d.primaryKey sha256 := by
  obtain ⟨htoken, hkey⟩ := Prod.mk.inj h
  rw [Call.primaryKey, Call.primaryKey, htoken, hkey]

/-- The actions with which a request fails of itself. -/
def failures : List Action := [.deadlock, .lost, .fail]

/-- What holds of the accounts and of the answers after a run. -/
structure Idempotent (sha256 : String → Bytes) (events : List Event) (s : State) : Prop where
  /-- All requests of a pair that succeed return the same account. -/
  same : ∀ m n c d i j b b', s.answers m = some (c, .account i b) →
    s.answers n = some (d, .account j b') → c.pair = d.pair → i = j
  /-- At most one of them reports it as created. -/
  once : ∀ m n c d i j, s.answers m = some (c, .account i true) →
    s.answers n = some (d, .account j true) → c.pair = d.pair → m = n
  /-- There is at most one account for a pair. -/
  single : ∀ i j a b, s.accounts i = some a → s.accounts j = some b →
    a.origin.pair = b.origin.pair → i = j
  /-- A request that asks for something else than the first is answered with a conflict, if none of its
  actions failed, unless the two digests collide. -/
  conflict : ∀ i a n c result, s.accounts i = some a → s.answers n = some (c, result) →
    c.pair = a.origin.pair → (c.label, c.proxy) ≠ (a.origin.label, a.origin.proxy) →
      result = .error operationConflict ∨
        (result = .failed ∧ ∃ action ∈ failures, .act n action ∈ events) ∨
        c.Collides sha256 a.origin
  /-- Such a request, wherever it stands, comes to that answer when it goes on. -/
  ends : ∀ i a n running id, s.accounts i = some a → s.requests n = some running →
    running.call.pair = a.origin.pair →
      (running.call.label, running.call.proxy) ≠ (a.origin.label, a.origin.proxy) →
        ¬ s.HoldsAccount id →
          ([.act n (.insertAccount id), .act n .insertKey, .act n .look].foldl (step sha256) s).answers n =
            some (running.call, .error operationConflict) ∨ running.call.Collides sha256 a.origin
  /-- What is answered with a conflict has created nothing. -/
  nothing : ∀ n c i a, s.answers n = some (c, .error operationConflict) →
    s.accounts i = some a → a.origin ≠ c

/-- The account is there, for a request that matches this one and is this one if it created it. -/
def Returned (sha256 : String → Bytes) (s : State) (call : Call) (account : Uuid) (created : Bool) :
    Prop :=
  ∃ row, s.accounts account = some row ∧ row.origin.Matches sha256 call ∧
    (created = true → row.origin = call)

/-- No account has come of the request. -/
def Unborn (s : State) (call : Call) : Prop :=
  ∀ id row, s.accounts id = some row → row.origin ≠ call

variable (sha256) in
/-- What a request has seen of the tables by the stage that it is in. -/
def Stage.Sound (s : State) (call : Call) : Stage → Prop
  | .looking | .inserting => True
  | .keying account => s.accounts account = none
  | .committing account true =>
    s.accounts account = none ∧ s.keys (call.primaryKey sha256) = none
  | .committing account false => Returned sha256 s call account false
  | .finding account created => Returned sha256 s call account created

variable (sha256) in
/-- A request under way knows its number, has no account before its last stage, and stands rightly. -/
structure Running.Sound (s : State) (n : ℕ) (running : Running) : Prop where
  number : running.call.number = n
  unborn : (∀ account, running.stage ≠ .finding account true) → Unborn s running.call
  stage : running.stage.Sound sha256 s running.call

variable (sha256) in
def Result.Sound (s : State) (call : Call) : Result → Prop
  | .account id created => Returned sha256 s call id created
  | .error exception => exception = operationConflict ∧ Unborn s call ∨
      exception = accountGone ∧ ∃ account, Returned sha256 s call account false
  | .failed => True

variable (sha256) in
structure Sound (s : State) : Prop where
  row : ∀ id row, s.accounts id = some row → row.origin.number < s.next ∧
    s.keys (row.origin.primaryKey sha256) = some ⟨row.origin.requestHash sha256, id⟩
  key : ∀ primaryKey key, s.keys primaryKey = some key → ∃ row, s.accounts key.account = some row ∧
    row.origin.primaryKey sha256 = primaryKey ∧ row.origin.requestHash sha256 = key.requestHash
  running : ∀ n running, s.requests n = some running → running.Sound sha256 s n
  answer : ∀ n call result, s.answers n = some (call, result) →
    call.number = n ∧ result.Sound sha256 s call
  /-- Numbers are given out in order, and a request that has ended does not go on. -/
  bound : ∀ n, s.next ≤ n → s.requests n = none ∧ s.answers n = none
  ended : ∀ n, (s.answers n).isSome → s.requests n = none
  /-- No two transactions have inserted the same id or the same key. -/
  ids : ∀ m n r r' id, s.requests m = some r → s.requests n = some r' →
    r.stage.inserted = some id → r'.stage.inserted = some id → m = n
  keyed : ∀ m n r r', s.requests m = some r → s.requests n = some r' → r.stage.keyed = true →
    r'.stage.keyed = true → r.call.primaryKey sha256 = r'.call.primaryKey sha256 → m = n

theorem Sound.single (h : Sound sha256 s) {i j : Uuid} {a b : AccountRow}
    (ha : s.accounts i = some a) (hb : s.accounts j = some b)
    (hkey : a.origin.primaryKey sha256 = b.origin.primaryKey sha256) : i = j := by
  obtain ⟨-, hi⟩ := h.row i a ha
  obtain ⟨-, hj⟩ := h.row j b hb
  rw [← hkey, hi, Option.some.injEq, KeyRow.mk.injEq] at hj
  exact hj.2

section

variable (h : Sound sha256 s) {i j : Uuid} {a : AccountRow} (ha : s.accounts i = some a)
  (hreturned : Returned sha256 s call j created) (hpair : call.pair = a.origin.pair)
include h i j a ha hreturned hpair

theorem Sound.returned : i = j ∧ a.origin.Matches sha256 call := by
  obtain ⟨row, hrow, hsame, -⟩ := hreturned
  obtain rfl : i = j := h.single ha hrow ((primaryKey_of_pair hpair).symm.trans hsame.key.symm)
  rw [ha, Option.some.injEq] at hrow
  subst hrow
  exact ⟨rfl, hsame⟩

theorem Sound.collides (hne : (call.label, call.proxy) ≠ (a.origin.label, a.origin.proxy)) :
    call.Collides sha256 a.origin :=
  collides_of_requestHash (h.returned ha hreturned hpair).2.hash.symm hne

end

/-! ### Every step -/

variable (n) in
def State.drop (s : State) : State := { s with requests := update s.requests n none }

@[simp] theorem drop_requests_self : (s.drop n).requests n = none := by
  show update s.requests n none n = none
  rw [update_self]

variable {m : ℕ}

theorem drop_requests_of_ne (hm : m ≠ n) : (s.drop n).requests m = s.requests m := by
  show update s.requests n none m = _
  rw [update_of_ne hm]

theorem goOn_requests_self : (s.goOn n running).requests n = some running := by
  show update s.requests n (some running) n = _
  rw [update_self]

theorem goOn_requests_of_ne (hm : m ≠ n) :
    (s.goOn n running).requests m = s.requests m := by
  show update s.requests n (some running) m = _
  rw [update_of_ne hm]

variable {result : Result}

theorem answer_answers_self :
    (s.answer n call result).answers n = some (call, result) := by
  show update s.answers n (some (call, result)) n = _
  rw [update_self]

theorem answer_answers_of_ne (hm : m ≠ n) :
    (s.answer n call result).answers m = s.answers m := by
  show update s.answers n (some (call, result)) m = _
  rw [update_of_ne hm]

theorem requests_of_drop {r : Running} (h : (s.drop n).requests m = some r) :
    m ≠ n ∧ s.requests m = some r := by
  by_cases hm : m = n
  · subst hm
    rw [drop_requests_self] at h
    cases h
  · exact ⟨hm, by rwa [drop_requests_of_ne hm] at h⟩

theorem goOn_drop : (s.drop n).goOn n running = s.goOn n running := by
  rw [State.goOn, State.goOn, State.drop, update_idem]

theorem answer_drop : (s.drop n).answer n call result = s.answer n call result := by
  rw [State.answer, State.answer, State.drop, update_idem]

variable {id : Uuid}

theorem not_holdsAccount_drop (h : Sound sha256 s) (hrunning : s.requests n = some running)
    (hid : running.stage.inserted = some id) : ¬ (s.drop n).HoldsAccount id := by
  rintro ⟨m, -, r, hr, hinserted⟩
  obtain ⟨hm, hr⟩ := requests_of_drop hr
  exact hm (h.ids m n r running id hr hrunning hinserted hid)

theorem not_holdsKey_drop (h : Sound sha256 s) (hrunning : s.requests n = some running)
    (hkeyed : running.stage.keyed = true) :
    ¬ (s.drop n).HoldsKey sha256 (running.call.primaryKey sha256) := by
  rintro ⟨m, -, r, hr, hrkeyed, hprimary⟩
  obtain ⟨hm, hr⟩ := requests_of_drop hr
  exact hm (h.keyed m n r running hr hrunning hrkeyed hkeyed hprimary)

theorem not_holdsAccount_drop_of_not (h : ¬ s.HoldsAccount id) :
    ¬ (s.drop n).HoldsAccount id := by
  rintro ⟨m, hm, r, hr, hinserted⟩
  exact h ⟨m, hm, r, (requests_of_drop hr).2, hinserted⟩

theorem not_holdsKey_drop_of_not {primaryKey : Uuid × Bytes} (h : ¬ s.HoldsKey sha256 primaryKey) :
    ¬ (s.drop n).HoldsKey sha256 primaryKey := by
  rintro ⟨m, hm, r, hr, hrest⟩
  exact h ⟨m, hm, r, (requests_of_drop hr).2, hrest⟩

structure Free (s : State) (n : ℕ) : Prop where
  request : s.requests n = none
  answer : s.answers n = none
  bound : n < s.next

theorem Sound.free (h : Sound sha256 s) (hrunning : s.requests n = some running) :
    Free (s.drop n) n := by
  refine ⟨drop_requests_self, ?_, ?_⟩
  · by_contra hanswer
    have hnone := h.ended n (Option.isSome_iff_ne_none.mpr hanswer)
    rw [hrunning] at hnone
    cases hnone
  · by_contra hbound
    have hnone := (h.bound n (Nat.le_of_not_lt hbound)).1
    rw [hrunning] at hnone
    cases hnone

theorem Sound.drop (h : Sound sha256 s) (n : ℕ) : Sound sha256 (s.drop n) where
  row := h.row
  key := h.key
  running m r hr := by
    have hrunning := h.running m r (requests_of_drop hr).2
    exact ⟨hrunning.number, hrunning.unborn, hrunning.stage⟩
  answer := h.answer
  bound m hm := by
    refine ⟨?_, (h.bound m hm).2⟩
    by_cases hmn : m = n
    · rw [hmn, drop_requests_self]
    · rw [drop_requests_of_ne hmn, (h.bound m hm).1]
  ended m hm := by
    by_cases hmn : m = n
    · rw [hmn, drop_requests_self]
    · rw [drop_requests_of_ne hmn, h.ended m hm]
  ids m m' r r' id hr hr' := h.ids m m' r r' id (requests_of_drop hr).2 (requests_of_drop hr').2
  keyed m m' r r' hr hr' := h.keyed m m' r r' (requests_of_drop hr).2 (requests_of_drop hr').2

theorem Sound.goOn (h : Sound sha256 s) (hfree : Free s n) (hrunning : running.Sound sha256 s n)
    (hid : ∀ id, running.stage.inserted = some id → ¬ s.HoldsAccount id)
    (hkeyed : running.stage.keyed = true → ¬ s.HoldsKey sha256 (running.call.primaryKey sha256)) :
    Sound sha256 (s.goOn n running) := by
  have hcases : ∀ {m r}, (s.goOn n running).requests m = some r →
      m = n ∧ running = r ∨ m ≠ n ∧ s.requests m = some r := by
    intro m r hr
    by_cases hm : m = n
    · subst hm
      rw [goOn_requests_self, Option.some.injEq] at hr
      exact .inl ⟨rfl, hr⟩
    · rw [goOn_requests_of_ne hm] at hr
      exact .inr ⟨hm, hr⟩
  have hlt : ∀ {m r}, s.requests m = some r → m < s.next := by
    intro m r hr
    by_contra hbound
    rw [(h.bound m (Nat.le_of_not_lt hbound)).1] at hr
    cases hr
  refine { row := h.row, key := h.key, answer := h.answer, running := ?_, bound := ?_, ended := ?_,
           ids := ?_, keyed := ?_ }
  · intro m r hr
    rcases hcases hr with ⟨rfl, rfl⟩ | ⟨-, hr⟩
    · exact ⟨hrunning.number, hrunning.unborn, hrunning.stage⟩
    · have hother := h.running m r hr
      exact ⟨hother.number, hother.unborn, hother.stage⟩
  · intro m hm
    have hne : m ≠ n := fun hmn => absurd hfree.bound (Nat.not_lt.mpr (hmn ▸ hm))
    refine ⟨?_, (h.bound m hm).2⟩
    rw [goOn_requests_of_ne hne, (h.bound m hm).1]
  · intro m hm
    have hne : m ≠ n := by
      rintro rfl
      have hanswer : (s.answers m).isSome := hm
      rw [hfree.answer] at hanswer
      cases hanswer
    rw [goOn_requests_of_ne hne, h.ended m hm]
  · intro m m' r r' id hr hr' hinserted hinserted'
    rcases hcases hr with ⟨hm, rfl⟩ | ⟨-, hr⟩ <;> rcases hcases hr' with ⟨hm', rfl⟩ | ⟨-, hr'⟩
    · rw [hm, hm']
    · exact absurd ⟨m', hlt hr', r', hr', hinserted'⟩ (hid id hinserted)
    · exact absurd ⟨m, hlt hr, r, hr, hinserted⟩ (hid id hinserted')
    · exact h.ids m m' r r' id hr hr' hinserted hinserted'
  · intro m m' r r' hr hr' hr₁ hr₁' hprimary
    rcases hcases hr with ⟨hm, rfl⟩ | ⟨-, hr⟩ <;> rcases hcases hr' with ⟨hm', rfl⟩ | ⟨-, hr'⟩
    · rw [hm, hm']
    · exact absurd ⟨m', hlt hr', r', hr', hr₁', hprimary.symm⟩ (hkeyed hr₁)
    · exact absurd ⟨m, hlt hr, r, hr, hr₁, hprimary⟩ (hkeyed hr₁')
    · exact h.keyed m m' r r' hr hr' hr₁ hr₁' hprimary

theorem Sound.answered (h : Sound sha256 s) (hfree : Free s n) (hnumber : call.number = n)
    (hresult : result.Sound sha256 s call) : Sound sha256 (s.answer n call result) := by
  have hrequests : (s.answer n call result).requests = s.requests := by
    show update s.requests n none = s.requests
    rw [update_eq_self_iff, hfree.request]
  refine { row := h.row, key := h.key, running := ?_, answer := ?_, bound := ?_, ended := ?_,
           ids := ?_, keyed := ?_ }
  · rw [hrequests]
    intro m r hr
    have hother := h.running m r hr
    exact ⟨hother.number, hother.unborn, hother.stage⟩
  · intro m c result' hanswer
    by_cases hm : m = n
    · subst hm
      rw [answer_answers_self, Option.some.injEq, Prod.mk.injEq] at hanswer
      obtain ⟨rfl, rfl⟩ := hanswer
      exact ⟨hnumber, hresult⟩
    · rw [answer_answers_of_ne hm] at hanswer
      exact h.answer m c result' hanswer
  · intro m hm
    have hne : m ≠ n := fun hmn => absurd hfree.bound (Nat.not_lt.mpr (hmn ▸ hm))
    rw [hrequests]
    refine ⟨(h.bound m hm).1, ?_⟩
    rw [answer_answers_of_ne hne]
    exact (h.bound m hm).2
  · intro m hm
    rw [hrequests]
    by_cases hmn : m = n
    · rw [hmn, hfree.request]
    · rw [answer_answers_of_ne hmn] at hm
      exact h.ended m hm
  · rw [hrequests]; exact h.ids
  · rw [hrequests]; exact h.keyed

section Write

theorem write_accounts (id : Uuid) : (s.write sha256 call account).accounts id =
    if id = account then some { origin := call } else s.accounts id := by
  show update s.accounts account _ id = _
  rw [update_apply]

theorem write_keys (primaryKey : Uuid × Bytes) : (s.write sha256 call account).keys primaryKey =
    if primaryKey = call.primaryKey sha256 then some ⟨call.requestHash sha256, account⟩
    else s.keys primaryKey := by
  show update s.keys (call.primaryKey sha256) _ primaryKey = _
  rw [update_apply]

theorem Returned.write (haccount : s.accounts account = none) {c : Call}
    (h : Returned sha256 s c id created) : Returned sha256 (s.write sha256 call account) c id created := by
  obtain ⟨row, hrow, hrest⟩ := h
  refine ⟨row, ?_, hrest⟩
  have hne : id ≠ account := by
    rintro rfl
    rw [haccount] at hrow
    cases hrow
  rw [write_accounts, if_neg hne, hrow]

theorem Unborn.write {c : Call} (h : Unborn s c) (hne : call ≠ c) :
    Unborn (s.write sha256 call account) c := by
  intro id row hrow
  rw [write_accounts] at hrow
  split at hrow
  · rw [Option.some.injEq] at hrow
    rw [← hrow]
    exact hne
  · exact h id row hrow

theorem Sound.write (h : Sound sha256 s) (hfree : Free s n) (hnumber : call.number = n)
    (haccount : s.accounts account = none) (hkey : s.keys (call.primaryKey sha256) = none)
    (hid : ¬ s.HoldsAccount account) (hkeyed : ¬ s.HoldsKey sha256 (call.primaryKey sha256)) :
    Sound sha256 (s.write sha256 call account) := by
  have hlt : ∀ {m r}, s.requests m = some r → m < s.next := by
    intro m r hr
    by_contra hbound
    rw [(h.bound m (Nat.le_of_not_lt hbound)).1] at hr
    cases hr
  refine { row := ?_, key := ?_, running := ?_, answer := ?_, bound := h.bound, ended := h.ended,
           ids := h.ids, keyed := h.keyed }
  · intro id row hrow
    rw [write_accounts] at hrow
    split at hrow
    · rename_i hid
      rw [Option.some.injEq] at hrow
      subst hrow hid
      exact ⟨hnumber ▸ hfree.bound, by rw [write_keys, if_pos rfl]⟩
    · obtain ⟨hlt, hrowkey⟩ := h.row id row hrow
      refine ⟨hlt, ?_⟩
      have hne : row.origin.primaryKey sha256 ≠ call.primaryKey sha256 := by
        intro heq
        rw [heq, hkey] at hrowkey
        cases hrowkey
      rw [write_keys, if_neg hne, hrowkey]
  · intro primaryKey key hrowkey
    rw [write_keys] at hrowkey
    split at hrowkey
    · rename_i hprimary
      rw [Option.some.injEq] at hrowkey
      subst hrowkey hprimary
      exact ⟨{ origin := call }, by rw [write_accounts, if_pos rfl], rfl, rfl⟩
    · obtain ⟨row, hrow, hrest⟩ := h.key primaryKey key hrowkey
      refine ⟨row, ?_, hrest⟩
      have hne : key.account ≠ account := by
        intro heq
        rw [heq, haccount] at hrow
        cases hrow
      rw [write_accounts, if_neg hne, hrow]
  · intro m r hr
    have hother := h.running m r hr
    have hmn : m ≠ n := by
      rintro rfl
      have hnone := hfree.request
      have hsome : s.requests m = some r := hr
      rw [hnone] at hsome
      cases hsome
    have hne : call ≠ r.call := fun heq => hmn (by rw [← hother.number, ← heq, hnumber])
    refine ⟨hother.number, fun hstage => (hother.unborn hstage).write hne, ?_⟩
    have hstage := hother.stage
    cases hr' : r.stage with
    | looking => trivial
    | inserting => trivial
    | keying id =>
      rw [hr'] at hstage
      show (s.write sha256 call account).accounts id = none
      have hidne : id ≠ account := by
        rintro rfl
        exact hid ⟨m, hlt hr, r, hr, by rw [hr']; rfl⟩
      rw [write_accounts, if_neg hidne]
      exact hstage
    | committing id created =>
      rw [hr'] at hstage
      cases created with
      | false => exact Returned.write haccount hstage
      | true =>
        have hidne : id ≠ account := by
          rintro rfl
          exact hid ⟨m, hlt hr, r, hr, by rw [hr']; rfl⟩
        have hkeyne : r.call.primaryKey sha256 ≠ call.primaryKey sha256 := fun heq =>
          hkeyed ⟨m, hlt hr, r, hr, by rw [hr']; rfl, heq⟩
        refine ⟨?_, ?_⟩
        · rw [write_accounts, if_neg hidne]
          exact hstage.1
        · rw [write_keys, if_neg hkeyne]
          exact hstage.2
    | finding id created =>
      rw [hr'] at hstage
      exact Returned.write haccount hstage
  · intro m c result hanswer
    obtain ⟨hc, hresult⟩ := h.answer m c result hanswer
    have hmn : m ≠ n := by
      rintro rfl
      have hsome : s.answers m = some (c, result) := hanswer
      rw [hfree.answer] at hsome
      cases hsome
    have hne : call ≠ c := fun heq => hmn (by rw [← hc, ← heq, hnumber])
    refine ⟨hc, ?_⟩
    match result with
    | .account id created => exact Returned.write haccount hresult
    | .error exception =>
      rcases hresult with ⟨heq, hunborn⟩ | ⟨heq, id, hreturned⟩
      · exact .inl ⟨heq, hunborn.write hne⟩
      · exact .inr ⟨heq, id, hreturned.write haccount⟩
    | .failed => trivial

theorem returned_write : Returned sha256 (s.write sha256 call account) call account true :=
  ⟨{ origin := call }, by rw [write_accounts, if_pos rfl], ⟨rfl, rfl⟩, fun _ => rfl⟩

end Write

section Remove

theorem remove_accounts (id id' : Uuid) : (s.remove id).accounts id' =
    (s.accounts id').map fun row => if id' = id then { row with removed := true } else row := by
  show update s.accounts id _ id' = _
  rw [update_apply]
  split
  · rename_i h
    subst h
    rfl
  · simp

variable {id' : Uuid}

theorem Returned.remove {c : Call} (id : Uuid) (h : Returned sha256 s c id' created) :
    Returned sha256 (s.remove id) c id' created := by
  obtain ⟨row, hrow, hrest⟩ := h
  refine ⟨if id' = id then { row with removed := true } else row, ?_, ?_⟩
  · rw [remove_accounts, hrow, Option.map_some]
  · split <;> exact hrest

theorem accounts_of_remove {row : AccountRow} (h : (s.remove id).accounts id' = some row) :
    ∃ row', s.accounts id' = some row' ∧ row'.origin = row.origin := by
  rw [remove_accounts, Option.map_eq_some_iff] at h
  obtain ⟨row', hrow', rfl⟩ := h
  exact ⟨row', hrow', by split <;> rfl⟩

theorem Unborn.remove {c : Call} (id : Uuid) (h : Unborn s c) : Unborn (s.remove id) c := by
  intro id' row hrow
  obtain ⟨row', hrow', horigin⟩ := accounts_of_remove hrow
  rw [← horigin]
  exact h id' row' hrow'

theorem remove_accounts_none (h : s.accounts id' = none) :
    (s.remove id).accounts id' = none := by
  rw [remove_accounts, h, Option.map_none]

theorem Sound.remove (h : Sound sha256 s) (id : Uuid) : Sound sha256 (s.remove id) := by
  refine { row := ?_, key := ?_, running := ?_, answer := ?_, bound := h.bound, ended := h.ended,
           ids := h.ids, keyed := h.keyed }
  · intro id' row hrow
    obtain ⟨row', hrow', horigin⟩ := accounts_of_remove hrow
    rw [← horigin]
    exact h.row id' row' hrow'
  · intro primaryKey key hkey
    obtain ⟨row, hrow, hrest⟩ := h.key primaryKey key hkey
    refine ⟨if key.account = id then { row with removed := true } else row, ?_, ?_⟩
    · rw [remove_accounts, hrow, Option.map_some]
    · split <;> exact hrest
  · intro m r hr
    have hother := h.running m r hr
    refine ⟨hother.number, fun hstage => (hother.unborn hstage).remove id, ?_⟩
    have hstage := hother.stage
    cases hr' : r.stage with
    | looking => trivial
    | inserting => trivial
    | keying id' =>
      rw [hr'] at hstage
      exact remove_accounts_none hstage
    | committing id' created =>
      rw [hr'] at hstage
      cases created with
      | false => exact Returned.remove id hstage
      | true => exact ⟨remove_accounts_none hstage.1, hstage.2⟩
    | finding id' created =>
      rw [hr'] at hstage
      exact Returned.remove id hstage
  · intro m c result hanswer
    obtain ⟨hc, hresult⟩ := h.answer m c result hanswer
    refine ⟨hc, ?_⟩
    match result with
    | .account id' created => exact Returned.remove id hresult
    | .error exception =>
      rcases hresult with ⟨heq, hunborn⟩ | ⟨heq, id', hreturned⟩
      · exact .inl ⟨heq, hunborn.remove id⟩
      · exact .inr ⟨heq, id', hreturned.remove id⟩
    | .failed => trivial

end Remove

theorem Sound.request (h : Sound sha256 s) (token : Uuid) (key : String)
    (input : List (String × Json)) : Sound sha256 (s.request token key input) := by
  unfold State.request
  split
  · exact h
  · rename_i label proxy _
    have hgrown : Sound sha256 { s with next := s.next + 1 } :=
      { h with
        row := fun id row hrow => ⟨Nat.lt_succ_of_lt (h.row id row hrow).1, (h.row id row hrow).2⟩
        running := fun m r hr => ⟨(h.running m r hr).number, (h.running m r hr).unborn,
          (h.running m r hr).stage⟩
        bound := fun m hm => h.bound m (Nat.le_of_succ_le hm) }
    have hfree : Free { s with next := s.next + 1 } s.next :=
      ⟨(h.bound s.next (Nat.le_refl _)).1, (h.bound s.next (Nat.le_refl _)).2, Nat.lt_succ_self _⟩
    refine hgrown.goOn hfree ⟨rfl, fun _ id row hrow heq => ?_, trivial⟩ ?_ ?_
    · -- the numbers of the rows are older
      have hlt := (h.row id row hrow).1
      rw [heq] at hlt
      exact absurd hlt (Nat.lt_irrefl _)
    · rintro id ⟨⟩
    · rintro ⟨⟩

section Act

variable {running' : Running}

section

variable (h : Sound sha256 s) (hr : s.requests n = some running)
include h hr

theorem Sound.goesOn (hr' : running'.Sound sha256 s n)
    (hid : ∀ id, running'.stage.inserted = some id → ¬ (s.drop n).HoldsAccount id)
    (hkeyed : running'.stage.keyed = true →
      ¬ (s.drop n).HoldsKey sha256 (running'.call.primaryKey sha256)) :
    Sound sha256 (s.goOn n running') := by
  rw [← goOn_drop]
  exact (h.drop n).goOn (h.free hr) ⟨hr'.number, hr'.unborn, hr'.stage⟩ hid hkeyed

theorem Sound.ends
    (hresult : result.Sound sha256 s running.call) : Sound sha256 (s.answer n running.call result) := by
  rw [← answer_drop]
  exact (h.drop n).answered (h.free hr) (h.running n running hr).number hresult

theorem Sound.beginsAgain (hunborn : Unborn s running.call) (attempt tries : ℕ) :
    Sound sha256 (s.goOn n { call := running.call, attempt, tries, stage := .looking }) := by
  refine h.goesOn hr ⟨(h.running n running hr).number, fun _ => hunborn, trivial⟩ ?_ ?_
  · rintro id ⟨⟩
  · rintro ⟨⟩

theorem Sound.violated (hunborn : Unborn s running.call) : Sound sha256 (s.violated n running) := by
  unfold State.violated
  split
  · exact h.ends hr (.inl ⟨rfl, hunborn⟩)
  · exact h.beginsAgain hr hunborn _ _

end

theorem Sound.found (h : Sound sha256 s) {key : KeyRow}
    (hkey : s.keys (call.primaryKey sha256) = some key)
    (hhash : key.requestHash = call.requestHash sha256) : Returned sha256 s call key.account false := by
  obtain ⟨row, hrow, hprimary, hrowhash⟩ := h.key _ key hkey
  exact ⟨row, hrow, ⟨hprimary, hrowhash.trans hhash⟩, nofun⟩

section

variable (h : Sound sha256 s) (hr : s.requests n = some running) (hunborn : Unborn s running.call)
include h hr hunborn

theorem Sound.look :
    Sound sha256 (s.look sha256 n running) := by
  have hnumber := (h.running n running hr).number
  unfold State.look
  split
  · refine h.goesOn hr ⟨hnumber, fun _ => hunborn, trivial⟩ ?_ ?_
    · rintro id ⟨⟩
    · rintro ⟨⟩
  · rename_i key hkey
    split
    · exact h.ends hr (.inl ⟨rfl, hunborn⟩)
    · rename_i hhash
      have hreturned := h.found hkey (not_not.mp hhash)
      split
      · exact h.ends hr trivial
      · split
        · exact h.ends hr (.inr ⟨rfl, _, hreturned⟩)
        · refine h.goesOn hr ⟨hnumber, fun _ => hunborn, hreturned⟩ ?_ ?_
          · rintro id ⟨⟩
          · rintro ⟨⟩

theorem Sound.insertAccount (id : Uuid) :
    Sound sha256 (s.insertAccount n running id) := by
  unfold State.insertAccount
  split
  · exact h
  · rename_i hholds
    split
    · exact h.violated hr hunborn
    · rename_i hnone
      refine h.goesOn hr ⟨(h.running n running hr).number, fun _ => hunborn, ?_⟩ ?_ ?_
      · exact Option.not_isSome_iff_eq_none.mp hnone
      · rintro _ ⟨⟩
        exact not_holdsAccount_drop_of_not hholds
      · rintro ⟨⟩

theorem Sound.insertKey (hstage : running.stage = .keying account) :
    Sound sha256 (s.insertKey sha256 n running account) := by
  unfold State.insertKey
  split
  · exact h
  · rename_i hholds
    split
    · exact h.violated hr hunborn
    · rename_i hnone
      have hold := (h.running n running hr).stage
      rw [hstage] at hold
      refine h.goesOn hr ⟨(h.running n running hr).number, fun _ => hunborn, ?_⟩ ?_ ?_
      · exact ⟨hold, Option.not_isSome_iff_eq_none.mp hnone⟩
      · rintro _ ⟨⟩
        exact not_holdsAccount_drop h hr (by rw [hstage]; rfl)
      · intro _
        exact not_holdsKey_drop_of_not hholds

end

theorem Sound.commit (h : Sound sha256 s) (hr : s.requests n = some running)
    (hstage : running.stage = .committing account created) :
    Sound sha256 ((s.drop n).commit sha256 running.call account created) ∧
      Free ((s.drop n).commit sha256 running.call account created) n ∧
      Returned sha256 ((s.drop n).commit sha256 running.call account created) running.call account
        created ∧
      (created = false →
        Unborn ((s.drop n).commit sha256 running.call account created) running.call) := by
  have hrunning := h.running n running hr
  have hold := hrunning.stage
  rw [hstage] at hold
  have hfree := h.free hr
  cases created with
  | false =>
    refine ⟨h.drop n, hfree, hold, fun _ => hrunning.unborn ?_⟩
    intro id heq
    rw [hstage] at heq
    cases heq
  | true =>
    have hid := not_holdsAccount_drop h hr (by rw [hstage]; rfl)
    have hkeyed := not_holdsKey_drop h hr (by rw [hstage]; rfl)
    refine ⟨(h.drop n).write hfree hrunning.number hold.1 hold.2 hid hkeyed, ?_, returned_write,
      nofun⟩
    exact ⟨hfree.request, hfree.answer, hfree.bound⟩

theorem commit_drop : ((s.drop n).commit sha256 call account created) =
    (s.commit sha256 call account created).drop n := by
  cases created <;> rfl

section

variable (h : Sound sha256 s) (hr : s.requests n = some running)
include h hr

theorem Sound.deadlock (hunborn : Unborn s running.call) : Sound sha256 (s.deadlock n running) := by
  unfold State.deadlock
  split
  · exact h.beginsAgain hr hunborn _ _
  · exact h.ends hr trivial

theorem Sound.find (hstage : running.stage = .finding account created) :
    Sound sha256 (s.find n running.call account created) := by
  have hreturned := (h.running n running hr).stage
  rw [hstage] at hreturned
  obtain ⟨row, hrow, hsame, hborn⟩ := hreturned
  unfold State.find
  rw [hrow]
  dsimp only
  split
  · exact h.ends hr (.inr ⟨rfl, account, row, hrow, hsame, nofun⟩)
  · exact h.ends hr ⟨row, hrow, hsame, hborn⟩

theorem Sound.act (action : Action) :
    Sound sha256 (act sha256 s n running action) := by
  have hrunning := h.running n running hr
  have hunborn : (∀ account created, running.stage ≠ .finding account created) →
      Unborn s running.call := fun hstage => hrunning.unborn fun account => hstage account true
  unfold AccountCreation.act
  split
  case h_1 hstage => exact h.look hr (hunborn (by rw [hstage]; nofun))
  case h_2 hstage => exact h.insertAccount hr (hunborn (by rw [hstage]; nofun)) _
  case h_3 hstage => exact h.insertKey hr (hunborn (by rw [hstage]; nofun)) hstage
  case h_4 hstage =>
    obtain ⟨hcommitted, hfree, hreturned, hnew⟩ := h.commit hr hstage
    rw [← goOn_drop, ← commit_drop]
    refine hcommitted.goOn hfree ⟨hrunning.number, fun hnot => ?_, hreturned⟩ ?_ ?_
    · rename_i account created
      cases created with
      | false => exact hnew rfl
      | true => exact absurd rfl (hnot account)
    · rintro id ⟨⟩
    · rintro ⟨⟩
  case h_5 hstage =>
    obtain ⟨hcommitted, hfree, -⟩ := h.commit hr hstage
    rw [← answer_drop, ← commit_drop]
    exact hcommitted.answered hfree hrunning.number trivial
  case h_6 hstage => exact h.find hr hstage
  case h_7 => exact h
  case h_8 hstage => exact h.deadlock hr (hunborn hstage)
  case h_9 => exact h.ends hr trivial
  case h_10 => exact h

end

theorem sound_step (h : Sound sha256 s) (event : Event) :
    Sound sha256 (step sha256 s event) := by
  match event with
  | .request token key input => exact h.request token key input
  | .remove id => exact h.remove id
  | .act n action =>
    show Sound sha256 ((s.requests n).elim s _)
    cases hr : s.requests n with
    | none => exact h
    | some running => exact h.act hr action

end Act

theorem sound_initial : Sound sha256 {} where
  row _ _ h := nomatch h
  key _ _ h := nomatch h
  running _ _ h := nomatch h
  answer _ _ _ h := nomatch h
  bound _ _ := ⟨rfl, rfl⟩
  ended _ h := nomatch h
  ids _ _ _ _ _ h := nomatch h
  keyed _ _ _ _ h := nomatch h

/-! ### A request that asks for something else -/

section Failed

variable {c : Call}

theorem failed_of_answer {m : ℕ} (h : (s.answer m c result).answers n = some (call, .failed))
    (hresult : result ≠ .failed) : s.answers n = some (call, .failed) := by
  by_cases hn : n = m
  · subst hn
    rw [answer_answers_self, Option.some.injEq, Prod.mk.injEq] at h
    exact absurd h.2 hresult
  · rwa [answer_answers_of_ne hn] at h

theorem failed_of_violated {m : ℕ}
    (h : (s.violated m running).answers n = some (call, .failed)) :
    s.answers n = some (call, .failed) := by
  unfold State.violated at h
  split at h
  · exact failed_of_answer h (by rintro ⟨⟩)
  · exact h

theorem Sound.failed_of_look {m : ℕ} (hsound : Sound sha256 s)
    (h : (s.look sha256 m running).answers n = some (call, .failed)) :
    s.answers n = some (call, .failed) := by
  unfold State.look at h
  split at h
  · exact h
  · rename_i key hkey
    split at h
    · exact failed_of_answer h (by rintro ⟨⟩)
    · -- a key is there with its account
      obtain ⟨row, hrow, -⟩ := hsound.key _ key hkey
      rw [hrow] at h
      dsimp only at h
      split at h
      · exact failed_of_answer h (by rintro ⟨⟩)
      · exact h

theorem failed_of_find {m : ℕ}
    (h : (s.find m c account created).answers n = some (call, .failed)) :
    s.answers n = some (call, .failed) := by
  unfold State.find at h
  split at h
  · exact failed_of_answer h (by rintro ⟨⟩)
  · split at h
    · exact failed_of_answer h (by rintro ⟨⟩)
    · exact failed_of_answer h (by rintro ⟨⟩)

theorem failed_of_commit (h : (s.commit sha256 c account created).answers n = some (call, .failed)) :
    s.answers n = some (call, .failed) := by
  cases created with
  | true => exact h
  | false => exact h

theorem Sound.failed_of_act {m : ℕ} {action : Action} (hsound : Sound sha256 s)
    (haction : m = n → action ∉ failures)
    (h : (AccountCreation.act sha256 s m running action).answers n = some (call, .failed)) :
    s.answers n = some (call, .failed) := by
  have hother : ∀ {t : State} {c : Call} {result : Result}, action ∈ failures →
      (t.answer m c result).answers n = some (call, .failed) → t.answers n = some (call, .failed) := by
    intro t c result hmem ht
    rwa [answer_answers_of_ne fun hn => haction hn.symm hmem] at ht
  unfold AccountCreation.act at h
  split at h
  case h_1 => exact hsound.failed_of_look h
  case h_2 =>
    unfold State.insertAccount at h
    split at h
    · exact h
    · split at h
      · exact failed_of_violated h
      · exact h
  case h_3 =>
    unfold State.insertKey at h
    split at h
    · exact h
    · split at h
      · exact failed_of_violated h
      · exact h
  case h_4 => exact failed_of_commit h
  case h_5 => exact failed_of_commit (hother (by decide) h)
  case h_6 => exact failed_of_find h
  case h_7 => exact h
  case h_8 =>
    unfold State.deadlock at h
    split at h
    · exact h
    · exact hother (by decide) h
  case h_9 => exact hother (by decide) h
  case h_10 => exact h

/-- A request that fails, fails with one of its actions. -/
theorem Sound.failed_step (hsound : Sound sha256 s) {event : Event}
    (h : (step sha256 s event).answers n = some (call, .failed)) :
    s.answers n = some (call, .failed) ∨ ∃ action ∈ failures, event = .act n action := by
  cases event with
  | request token key input =>
    simp only [step, State.request] at h
    split at h
    · exact .inl h
    · exact .inl h
  | remove id => exact .inl h
  | act m action =>
    by_cases hfails : m = n ∧ action ∈ failures
    · exact .inr ⟨action, hfails.2, by rw [hfails.1]⟩
    · change ((s.requests m).elim s _).answers n = _ at h
      cases hr : s.requests m with
      | none =>
        rw [hr] at h
        exact .inl h
      | some running =>
        rw [hr] at h
        exact .inl (hsound.failed_of_act (fun hm hmem => hfails ⟨hm, hmem⟩) h)

theorem failed_run (events : List Event) :
    Sound sha256 (events.foldl (step sha256) {}) ∧
      ∀ n call, (events.foldl (step sha256) {}).answers n = some (call, .failed) →
        ∃ action ∈ failures, .act n action ∈ events := by
  induction events using List.reverseRecOn with
  | nil => exact ⟨sound_initial, fun _ _ h => by cases h⟩
  | append_singleton events event ih =>
    obtain ⟨hsound, hfailed⟩ := ih
    rw [List.foldl_append, List.foldl_cons, List.foldl_nil]
    refine ⟨sound_step hsound event, fun n call h => ?_⟩
    rcases hsound.failed_step h with h | ⟨action, hmem, rfl⟩
    · obtain ⟨action, hmem, hevent⟩ := hfailed n call h
      exact ⟨action, hmem, List.mem_append_left _ hevent⟩
    · exact ⟨action, hmem, List.mem_append_right _ (List.mem_singleton_self _)⟩

end Failed

section Ends

variable {id : Uuid} {a : AccountRow}

theorem act_step (hr : s.requests n = some running) (action : Action) :
    step sha256 s (.act n action) = act sha256 s n running action := by
  show (s.requests n).elim s _ = _
  rw [hr]
  rfl

theorem act_idle (hr : s.requests n = none) (action : Action) :
    step sha256 s (.act n action) = s := by
  show (s.requests n).elim s _ = _
  rw [hr]
  rfl

variable {key : KeyRow}

theorem Sound.not_holdsKey (h : Sound sha256 s) {primaryKey : Uuid × Bytes}
    (hkey : s.keys primaryKey = some key) : ¬ s.HoldsKey sha256 primaryKey := by
  rintro ⟨m, -, r, hr, hkeyed, rfl⟩
  have hstage := (h.running m r hr).stage
  cases hr' : r.stage with
  | committing account created =>
    cases created with
    | true =>
      rw [hr'] at hstage
      have hnone := hstage.2
      rw [hkey] at hnone
      cases hnone
    | false =>
      rw [hr'] at hkeyed
      cases hkeyed
  | looking | inserting | keying _ | finding _ _ =>
    rw [hr'] at hkeyed
    cases hkeyed

section

variable (hkey : s.keys (call.primaryKey sha256) = some key)
  (hhash : key.requestHash ≠ call.requestHash sha256)
include hkey hhash

theorem ends_of_looking {attempt tries : ℕ}
    (hr : s.requests n = some ⟨call, attempt, tries, .looking⟩) :
    (step sha256 s (.act n .look)).answers n = some (call, .error operationConflict) := by
  have hlook : s.look sha256 n ⟨call, attempt, tries, .looking⟩ =
      s.answer n call (.error operationConflict) := by
    rw [State.look, hkey]
    exact if_pos hhash
  rw [act_step hr]
  change (s.look sha256 n ⟨call, attempt, tries, .looking⟩).answers n = _
  rw [hlook, answer_answers_self]

theorem ends_of_violated {attempt tries : ℕ} {stage : Stage} :
    let after := s.violated n ⟨call, attempt, tries, stage⟩
    step sha256 after (.act n .insertKey) = after ∧
      (step sha256 after (.act n .look)).answers n = some (call, .error operationConflict) := by
  intro after
  by_cases hlast : 2 ≤ attempt
  · have hafter : after = s.answer n call (.error operationConflict) := if_pos hlast
    have hidle : after.requests n = none := by
      rw [hafter]
      exact update_self ..
    rw [act_idle hidle, act_idle hidle, hafter]
    exact ⟨rfl, answer_answers_self⟩
  · have hafter : after = s.goOn n { call, attempt := attempt + 1 } := if_neg hlast
    have hlooking : after.requests n = some { call, attempt := attempt + 1 } := by
      rw [hafter, goOn_requests_self]
    refine ⟨?_, ends_of_looking ?_ hhash hlooking⟩
    · rw [act_step hlooking]
      rfl
    · rw [hafter]
      exact hkey

theorem Sound.ends_of_keying (h : Sound sha256 s) {attempt tries : ℕ}
    (hr : s.requests n = some ⟨call, attempt, tries, .keying account⟩) :
    ([.act n .insertKey, .act n .look].foldl (step sha256) s).answers n =
      some (call, .error operationConflict) := by
  have hinsert : step sha256 s (.act n .insertKey) =
      s.violated n ⟨call, attempt, tries, .keying account⟩ := by
    rw [act_step hr]
    change s.insertKey sha256 n ⟨call, attempt, tries, .keying account⟩ account = _
    rw [State.insertKey, if_neg (h.not_holdsKey hkey), if_pos (by rw [hkey]; rfl)]
  rw [List.foldl_cons, hinsert]
  exact (ends_of_violated hkey hhash).2

/-- A request whose key is there with another digest than its own is answered with a conflict,
wherever it stands. -/
theorem Sound.ends_differing (h : Sound sha256 s) (hr : s.requests n = some running)
    (hcall : running.call = call) (hid : ¬ s.HoldsAccount id) :
    ([.act n (.insertAccount id), .act n .insertKey, .act n .look].foldl (step sha256) s).answers n =
      some (call, .error operationConflict) := by
  have hstage := (h.running n running hr).stage
  -- what has gone on from the key would have found its digest
  have hnot : ∀ {id created}, ¬ Returned sha256 s call id created := by
    rintro id created ⟨row, hrow, hmatches, -⟩
    have hthis := (h.row id row hrow).2
    rw [hmatches.key, hkey, Option.some.injEq] at hthis
    exact hhash (by rw [hthis, hmatches.hash])
  obtain ⟨call', attempt, tries, stage⟩ := running
  change call' = call at hcall
  subst hcall
  rw [List.foldl_cons, act_step hr]
  cases stage with
  | looking =>
    change ([.act n .insertKey, .act n .look].foldl (step sha256) s).answers n = _
    rw [List.foldl_cons, act_step hr]
    exact ends_of_looking hkey hhash hr
  | inserting =>
    change ([.act n .insertKey, .act n .look].foldl (step sha256)
      (s.insertAccount n ⟨call', attempt, tries, .inserting⟩ id)).answers n = _
    have hsound : Sound sha256 (s.insertAccount n ⟨call', attempt, tries, .inserting⟩ id) := by
      have hnext := sound_step h (.act n (.insertAccount id))
      rwa [act_step hr] at hnext
    by_cases htaken : (s.accounts id).isSome
    · have hinsert : s.insertAccount n ⟨call', attempt, tries, .inserting⟩ id =
          s.violated n ⟨call', attempt, tries, .inserting⟩ := by
        rw [State.insertAccount, if_neg hid, if_pos htaken]
      rw [hinsert]
      rw [List.foldl_cons, (ends_of_violated hkey hhash).1]
      exact (ends_of_violated hkey hhash).2
    · have hinsert : s.insertAccount n ⟨call', attempt, tries, .inserting⟩ id =
          s.goOn n ⟨call', attempt, tries, .keying id⟩ := by
        rw [State.insertAccount, if_neg hid, if_neg htaken]
      rw [hinsert] at hsound ⊢
      exact hsound.ends_of_keying hkey hhash goOn_requests_self
  | keying account => exact h.ends_of_keying hkey hhash hr
  | committing account created =>
    cases created with
    | true =>
      have hnone := hstage.2
      rw [hkey] at hnone
      cases hnone
    | false => exact absurd hstage hnot
  | finding account created => exact absurd hstage hnot

end

theorem Sound.idempotent (h : Sound sha256 s) {events : List Event}
    (hfailed : ∀ n call, s.answers n = some (call, .failed) →
      ∃ action ∈ failures, .act n action ∈ events) : Idempotent sha256 events s := by
  refine ⟨?_, ?_, fun i j a b ha hb hpair => h.single ha hb (primaryKey_of_pair hpair), ?_, ?_, ?_⟩
  · intro m n c d i j b b' hm hn hpair
    obtain ⟨-, row, hrow, hsame, -⟩ := h.answer m c _ hm
    obtain ⟨-, row', hrow', hsame', -⟩ := h.answer n d _ hn
    refine h.single hrow hrow' ?_
    rw [hsame.key, hsame'.key, primaryKey_of_pair hpair]
  · intro m n c d i j hm hn hpair
    obtain ⟨hcm, a, ha, hac, hborn⟩ := h.answer m c _ hm
    obtain ⟨hdn, b, hb, hbd, hborn'⟩ := h.answer n d _ hn
    obtain rfl : i = j := h.single ha hb (by rw [hac.key, hbd.key, primaryKey_of_pair hpair])
    rw [ha, Option.some.injEq] at hb
    subst hb
    rw [← hcm, ← hdn, ← hborn rfl, ← hborn' rfl]
  · intro i a n c result ha hn hpair hne
    obtain ⟨-, hresult⟩ := h.answer n c result hn
    cases result with
    | account id created => exact .inr (.inr (h.collides ha hresult hpair hne))
    | error exception =>
      rcases hresult with ⟨rfl, -⟩ | ⟨-, account, haccount⟩
      · exact .inl rfl
      · exact .inr (.inr (h.collides ha haccount hpair hne))
    | failed => exact .inr (.inl ⟨rfl, hfailed n c hn⟩)
  · intro i a n running id ha hr hpair hne hid
    have hkey := (h.row i a ha).2
    rw [← primaryKey_of_pair hpair] at hkey
    by_cases hhash : running.call.requestHash sha256 = a.origin.requestHash sha256
    · exact .inr (collides_of_requestHash hhash hne)
    · exact .inl (h.ends_differing hkey (Ne.symm hhash) hr rfl hid)
  · intro n c i a hn ha
    obtain ⟨-, ⟨-, hunborn⟩ | ⟨hgone, -⟩⟩ := h.answer n c _ hn
    · exact hunborn i a ha
    · exact absurd hgone (by decide)

end Ends

end Runs

/-- **Creation is idempotent.** Whatever the requests do and in whatever order, in every state of a
run the requests of a pair agree, and bodies whose keys stand in another order are read and compared
alike. -/
theorem idempotent_of_run (sha256 : String → Bytes) :
    (∀ events : List Event, Idempotent sha256 events (events.foldl (step sha256) {})) ∧
      ∀ key input input', Reordered (.object input) (.object input') →
        read key input = read key input' ∧
          ∀ label proxy label' proxy', read key input = .ok (label, proxy) →
            read key input' = .ok (label', proxy') →
              requestHash sha256 label proxy = requestHash sha256 label' proxy' := by
  refine ⟨fun events => ?_, fun key input input' h => ⟨read_eq_of_reordered key h, ?_⟩⟩
  · obtain ⟨hsound, hfailed⟩ := @failed_run sha256 events
    exact hsound.idempotent hfailed
  · intro label proxy label' proxy' hread hread'
    rw [read_eq_of_reordered key h, hread', Except.ok.injEq, Prod.mk.injEq] at hread
    rw [hread.1, hread.2]

end Api.AccountCreation
