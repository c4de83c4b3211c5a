import TeleBezel.Api.MessageSend
import TeleBezel.Lib.Trim
import TeleBezel.Phone.Compose
import TeleBezel.Phone.Templates

/-!
# The text that is confirmed and the text that is delivered

The phone makes the text of a draft canonical before it counts and shows it, and the API makes the text
of a post canonical before it hashes and sends it. Both normalise, make the line ends one, take the
control characters away and trim, the phone with the larger set of spaces. Neither normalises again
when the control characters are gone: where one of them has stood between characters that compose, the
phone shows a text that the API composes.

The normaliser is a parameter. A text without unpaired surrogates is a list of scalar values, which the
phone has in UTF-16.
-/

open List

namespace Delivered

open Api Trim

open Phone (JsString)

/-! ### Normalisation -/

/-- The characters that normalisation leaves alone, wherever they stand: control characters and the
space. -/
def Inert (c : Char) : Prop := isControl c = true ∨ c = ' '

/-- What the two sides rely on from normalisation to form C: an inert character neither composes, nor
comes from one that is none; no text vanishes; and what stands in a normalised text is normalised. -/
structure Normalises (nfc : List Char → List Char) : Prop where
  inert : ∀ a b c, Inert c → nfc (a ++ c :: b) = nfc a ++ c :: nfc b
  fresh : ∀ a c, Inert c → c ∈ nfc a → c ∈ a
  nil_iff : ∀ a, nfc a = [] ↔ a = []
  part : ∀ a b c, nfc (a ++ b ++ c) = a ++ b ++ c → nfc b = b

def unitsOf (c : Char) : JsString :=
  if c.toNat < 0x10000 then [c.toNat]
  else [0xD800 + (c.toNat - 0x10000) / 0x400, 0xDC00 + (c.toNat - 0x10000) % 0x400]

def utf16 (text : List Char) : JsString := text.flatMap unitsOf

def unify (text : List Char) : List Char :=
  (replaceCrLf text).map fun c => if c = '\r' then '\n' else c

def kept (c : Char) : Bool := !(isControl c && c ≠ '\n')

def plain (nfc : List Char → List Char) (text : List Char) : List Char :=
  (unify (nfc text)).filter kept

def shown (nfc : List Char → List Char) (text : List Char) : List Char :=
  trim (fun c => Phone.Templates.isSpace c.toNat) (plain nfc text)

variable {nfc : List Char → List Char} {text : List Char}

theorem unify_cr (text : List Char) :
    unify ('\r' :: text) = '\n' :: unify (if text.head? = some '\n' then text.tail else text) := by
  cases text with
  | nil => rfl
  | cons c text => by_cases hc : c = '\n' <;> simp [unify, replaceCrLf, hc]

variable {c : Char}

theorem unify_cons (hc : c ≠ '\r') (text : List Char) :
    unify (c :: text) = c :: unify text := by
  cases text <;> simp [unify, replaceCrLf, hc]

theorem unify_append {a : List Char} (ha : '\r' ∉ a) (b : List Char) :
    unify (a ++ b) = a ++ unify b := by
  induction a with
  | nil => rfl
  | cons c a ih =>
    rw [mem_cons, not_or] at ha
    rw [cons_append, unify_cons (Ne.symm ha.1), ih ha.2, cons_append]

theorem unify_of_not_mem (h : '\r' ∉ text) : unify text = text := by
  simpa [unify, replaceCrLf] using unify_append h []

theorem inert_of_kept (hc : kept c = false) : Inert c :=
  Or.inl (by simp [kept] at hc; exact hc.1)

theorem kept_cr : kept '\r' = false := rfl

namespace Normalises

variable (h : Normalises nfc)
include h

theorem cons (hc : Inert c) (b : List Char) : nfc (c :: b) = c :: nfc b := by
  have hnil := h.inert [] b c hc
  rwa [(h.nil_iff []).mpr rfl] at hnil

theorem head (hc : Inert c) (hhead : (nfc text).head? = some c) : text.head? = some c := by
  obtain ⟨a, b, rfl, ha⟩ := eq_append_cons_of_mem (h.fresh text c hc (mem_of_mem_head? hhead))
  cases hnfc : nfc a with
  | nil =>
    rw [(h.nil_iff a).mp hnfc]
    rfl
  | cons d rest =>
    rw [h.inert a b c hc, hnfc] at hhead
    refine absurd (h.fresh a c hc ?_) ha
    rw [hnfc, ← Option.some.inj hhead]
    exact mem_cons_self

theorem last (hc : Inert c) (hlast : (nfc text).getLast? = some c) :
    text.getLast? = some c := by
  have hmem := h.fresh text c hc (mem_of_mem_getLast? hlast)
  obtain ⟨b, a, hsplit, hb⟩ := eq_append_cons_of_mem (mem_reverse.mpr hmem)
  obtain rfl : text = a.reverse ++ c :: b.reverse := by
    rw [← reverse_reverse text, hsplit]
    simp
  cases hnfc : (nfc b.reverse).getLast? with
  | none =>
    rw [(h.nil_iff _).mp (List.getLast?_eq_none_iff.mp hnfc)]
    simp
  | some d =>
    rw [h.inert _ _ c hc, List.getLast?_append, List.getLast?_cons, hnfc] at hlast
    refine absurd (h.fresh _ c hc ?_) (fun hmem => hb (mem_reverse.mp hmem))
    rw [← show d = c from Option.some.inj hlast]
    exact mem_of_mem_getLast? hnfc

theorem around {before after : List Char} (hbefore : ∀ c ∈ before, Inert c)
    (hafter : ∀ c ∈ after, Inert c) : nfc (before ++ text ++ after) = before ++ nfc text ++ after := by
  have hend : nfc (text ++ after) = nfc text ++ after := by
    have hself : nfc after = after := by
      induction after with
      | nil => exact (h.nil_iff []).mpr rfl
      | cons c after ih =>
        rw [h.cons (hafter c mem_cons_self), ih fun d hd => hafter d (mem_cons_of_mem _ hd)]
    cases after with
    | nil => simp
    | cons c after =>
      rw [h.cons (hafter c mem_cons_self), List.cons.injEq] at hself
      rw [h.inert text after c (hafter c mem_cons_self), hself.2]
  rw [append_assoc, append_assoc, ← hend]
  induction before with
  | nil => rfl
  | cons c before ih =>
    rw [cons_append, cons_append, h.cons (hbefore c mem_cons_self),
      ih fun d hd => hbefore d (mem_cons_of_mem _ hd)]

theorem unify (text : List Char) : nfc (unify text) = unify (nfc text) := by
  by_cases hcr : '\r' ∈ text
  · obtain ⟨a, b, rfl, ha⟩ := eq_append_cons_of_mem hcr
    have ha' : '\r' ∉ nfc a := fun hmem => ha (h.fresh a _ (Or.inl rfl) hmem)
    rw [unify_append ha, h.inert a b _ (Or.inl rfl), unify_append ha', unify_cr, unify_cr,
      h.inert a _ _ (Or.inl rfl)]
    by_cases hhead : b.head? = some '\n'
    · obtain ⟨b, rfl⟩ := List.head?_eq_some_iff.mp hhead
      rw [h.cons (Or.inl rfl), List.head?_cons, List.head?_cons, if_pos rfl, if_pos rfl, tail_cons,
        tail_cons, unify b]
    · rw [if_neg hhead, if_neg fun hhead' => hhead (h.head (Or.inl rfl) hhead'), unify b]
  · rw [unify_of_not_mem hcr, unify_of_not_mem fun hmem => hcr (h.fresh _ _ (Or.inl rfl) hmem)]
termination_by text.length
decreasing_by all_goals simp_all; omega

end Normalises

/-! ### What the phone shows -/

theorem utf16_cons (c : Char) (text : List Char) : utf16 (c :: text) = unitsOf c ++ utf16 text :=
  flatMap_cons

theorem newlines_cr (units : JsString) : Phone.Text.newlines (0x0D :: units) =
    0x0A :: Phone.Text.newlines (if units.head? = some 0x0A then units.tail else units) := by
  cases units with
  | nil => rfl
  | cons unit units => by_cases hunit : unit = 0x0A <;> simp [Phone.Text.newlines, hunit]

theorem newlines_append {units : JsString} (hunits : 0x0D ∉ units) (rest : JsString) :
    Phone.Text.newlines (units ++ rest) = units ++ Phone.Text.newlines rest := by
  induction units with
  | nil => rfl
  | cons unit units ih =>
    rw [mem_cons, not_or] at hunits
    rw [cons_append, cons_append, ← ih hunits.2]
    cases units ++ rest <;> simp [Phone.Text.newlines, Ne.symm hunits.1]

theorem unitsOf_ne_nil (c : Char) : unitsOf c ≠ [] := by
  unfold unitsOf
  split_ifs <;> simp

theorem units_same {β : Type} {f : ℕ → β} (value : β)
    (hf : ∀ n, 0xD800 ≤ n ∧ n < 0xE000 ∨ 0x10000 ≤ n → f n = value) (c : Char) :
    ∀ unit ∈ unitsOf c, f unit = f c.toNat := by
  intro unit hunit
  have hvalid : c.toNat < 0xD800 ∨ 0xDFFF < c.toNat ∧ c.toNat < 0x110000 := c.valid
  unfold unitsOf at hunit
  split_ifs at hunit with hplane
  · rw [mem_singleton.mp hunit]
  · simp only [mem_cons, not_mem_nil, or_false] at hunit
    rw [hf unit (by omega), hf c.toNat (by omega)]

theorem newlines_utf16 (text : List Char) : Phone.Text.newlines (utf16 text) = utf16 (unify text) := by
  have hsame := @units_same _ (fun n => (decide (n = 0x0A), decide (n = 0x0D))) (false, false)
    fun n hn => by simp; omega
  cases text with
  | nil => rfl
  | cons c text =>
    by_cases hc : c = '\r'
    · subst hc
      have hcr : utf16 ('\r' :: text) = 0x0D :: utf16 text := utf16_cons _ _
      have hlf : ∀ text, utf16 ('\n' :: text) = 0x0A :: utf16 text := utf16_cons _
      have hhead : (utf16 text).head? = some 0x0A ↔ text.head? = some '\n' := by
        cases text with
        | nil => exact iff_of_false nofun nofun
        | cons d text =>
          obtain ⟨unit, rest, hunits⟩ := exists_cons_of_ne_nil (unitsOf_ne_nil d)
          have hd := congrArg Prod.fst (hsame d unit (by rw [hunits]; exact mem_cons_self))
          simp only [decide_eq_decide] at hd
          rw [utf16_cons, hunits, cons_append, List.head?_cons, List.head?_cons,
            Option.some.injEq, Option.some.injEq, hd]
          exact ⟨fun h => Char.toNat_inj.mp h, fun h => by rw [h]; rfl⟩
      rw [hcr, newlines_cr, unify_cr, hlf]
      by_cases hnext : text.head? = some '\n'
      · obtain ⟨text, rfl⟩ := List.head?_eq_some_iff.mp hnext
        rw [if_pos (hhead.mpr hnext), if_pos hnext, hlf, tail_cons, tail_cons,
          newlines_utf16 text]
      · rw [if_neg (mt hhead.mp hnext), if_neg hnext, newlines_utf16 text]
    · have hunits : 0x0D ∉ unitsOf c := by
        intro hmem
        have hd := congrArg Prod.snd (hsame c _ hmem)
        simp only [decide_true, true_eq_decide_iff] at hd
        exact hc (Char.toNat_inj.mp hd)
      rw [utf16_cons, newlines_append hunits, newlines_utf16 text, unify_cons hc, utf16_cons]
termination_by text.length

theorem filter_utf16 {q : ℕ → Bool} (hq : ∀ c : Char, ∀ unit ∈ unitsOf c, q unit = q c.toNat)
    (text : List Char) : (utf16 text).filter q = utf16 (text.filter fun c => q c.toNat) := by
  induction text with
  | nil => rfl
  | cons c text ih =>
    rw [utf16_cons, filter_append, ih, filter_cons]
    split_ifs with hc
    · rw [filter_eq_self.mpr fun unit hunit => (hq c unit hunit).trans hc, utf16_cons]
    · rw [filter_eq_nil_iff.mpr fun unit hunit => hq c unit hunit ▸ hc, nil_append]

theorem phone_canonical {normalize : JsString → JsString}
    (hnormalize : ∀ text, normalize (utf16 text) = utf16 (nfc text)) (text : List Char) :
    Phone.Templates.canonical normalize (utf16 text) = utf16 (shown nfc text) := by
  have hkept : (fun c : Char => (c.toNat = 0x0A || !(c.toNat < 0x20 || Phone.Text.inRange c.toNat 0x7F 0x9F))) =
      kept := by
    funext c
    have hlf : c.toNat = 0x0A ↔ c = '\n' := Char.toNat_inj (d := '\n')
    simp [kept, isControl, Phone.Text.inRange, hlf, Bool.or_comm]
  rw [Phone.Templates.canonical, hnormalize, newlines_utf16, filter_utf16 (units_same true ?_), hkept]
  · refine trim_flatMap unitsOf_ne_nil (units_same false fun n hn => ?_) _
    simp [Phone.Templates.isSpace, Phone.Text.inRange]
    omega
  · intro n hn
    simp [Phone.Text.inRange]
    omega

/-! ### What the API takes -/

theorem Normalises.api_canonical (h : Normalises nfc) {env : Env}
    (hnormalize : ∀ text, env.normalize (String.ofList text) = some (String.ofList (nfc text)))
    (text : List Char) : canonical env (some (String.ofList text)) =
      some (String.ofList (trim isTrimmed (plain nfc text))) := by
  have hunify : nfc ((replaceCrLf text).map fun c => if c = '\r' then '\n' else c) =
      Delivered.unify (nfc text) := h.unify text
  simp only [canonical, Option.bind_eq_bind, Option.bind_some, String.toList_ofList, hnormalize, hunify]
  rfl

theorem plain_eq (hnfc : nfc text = text) (hkept : ∀ c ∈ text, kept c = true) : plain nfc text = text := by
  have hcr : '\r' ∉ text := fun hmem => absurd (hkept _ hmem) (by rw [kept_cr]; decide)
  rw [plain, hnfc, unify_of_not_mem hcr, filter_eq_self.mpr hkept]

theorem kept_of_mem_plain (nfc : List Char → List Char) (text : List Char)
    (hc : c ∈ plain nfc text) : kept c = true :=
  of_mem_filter hc

theorem Normalises.trim (h : Normalises nfc) (hplain : nfc (plain nfc text) = plain nfc text)
    (p : Char → Bool) : nfc (trim p (plain nfc text)) = trim p (plain nfc text) := by
  obtain ⟨before, after, -, -, hsplit⟩ := trim_split p (plain nfc text)
  refine h.part before _ after ?_
  rw [← hsplit, hplain]

theorem kept_of_mem_trim {p : Char → Bool} (hc : c ∈ Trim.trim p (plain nfc text)) :
    kept c = true := by
  obtain ⟨before, after, -, -, hsplit⟩ := trim_split p (plain nfc text)
  refine kept_of_mem_plain nfc text ?_
  rw [hsplit]
  exact mem_append_left _ (mem_append_right _ hc)

theorem isSpace_of_isTrimmed (hkept : kept c = true) (hc : isTrimmed c = true) :
    Phone.Templates.isSpace c.toNat = true := by
  simp only [isTrimmed, Bool.or_eq_true, decide_eq_true_eq] at hc
  rcases hc with ((((rfl | rfl) | rfl) | rfl) | hc) | hc
  · rfl
  · rfl
  · rfl
  · rfl
  · simp [Phone.Templates.isSpace, Phone.Text.inRange, hc]
  · simp [kept, isControl, hc] at hkept
    simp [hkept] at hc

theorem inert_of_isTrimmed (hc : isTrimmed c = true) : Inert c := by
  simp only [isTrimmed, Bool.or_eq_true, decide_eq_true_eq] at hc
  rcases hc with ((((rfl | rfl) | rfl) | rfl) | hc) | hc
  · exact Or.inr rfl
  · exact Or.inl rfl
  · exact Or.inl rfl
  · exact Or.inl rfl
  · exact Or.inl (by simp [isControl, hc])
  · exact Or.inl (by simp [isControl, hc])

/-! ### Agreement -/

theorem length_utf16 (text : List Char) : (utf16 text).length = utf16Length (String.ofList text) := by
  rw [utf16Length, String.toList_ofList, utf16, length_flatMap]
  refine congrArg List.sum (map_congr_left fun c _ => ?_)
  unfold unitsOf
  split_ifs <;> rfl

def Addressed (post : Post) : Prop :=
  8 ≤ post.idempotencyKey.utf8ByteSize ∧ post.idempotencyKey.utf8ByteSize ≤ 200 ∧
    telegramId post.chatId = true ∧ post.replyTo.all telegramId = true

def textTooLong : ApiException := { errorCode := "message.text_too_long", status := 422 }

/-- What is confirmed is what is delivered: the API leaves the draft of a text as it is, hashes and sends
it, and refuses for its length just the drafts that the phone has marked; and each side leaves alone
what it has made canonical. -/
structure Faithful (env : Env) (normalize : JsString → JsString) (text draft : List Char) : Prop where
  delivered : canonical env (some (String.ofList draft)) = some (String.ofList draft)
  sent : ∀ accounts post attributes sent, post.text = some (String.ofList draft) →
    prepare env accounts post = .ok (attributes, sent) →
    sent = String.ofList draft ∧
      attributes.requestHmac = env.requestHmac post.chatId post.replyTo (String.ofList draft)
  long : ∀ accounts post id payload, post.text = some (String.ofList draft) → draft ≠ [] →
    Addressed post →
    ((Phone.Compose.newDraft id payload (utf16 draft)).tooLong = true ↔
      prepare env accounts post = .error textTooLong)
  phone : Phone.Templates.canonical normalize (utf16 draft) = utf16 draft
  api : (canonical env (some (String.ofList text))).bind (fun again => canonical env (some again)) =
    canonical env (some (String.ofList text))

variable {accounts : Uuid → Option AccountData}

theorem prepare_text {env : Env} {post : Post} {attributes : Attributes} {text : String}
    (h : prepare env accounts post = .ok (attributes, text)) : canonical env post.text = some text := by
  simp only [prepare, bind, Except.bind, pure, Except.pure, throw, throwThe, MonadExceptOf.throw] at h
  repeat' split at h
  all_goals first | contradiction | skip
  rename_i hcanonical _ _ _ _ _ _ _ _
  cases h
  exact hcanonical

theorem sendable_ne {uuid : Uuid} :
    sendable accounts uuid ≠ .error textTooLong := by
  intro h
  simp only [sendable, findAccount, bind, Except.bind, pure, Except.pure, throw, throwThe,
    MonadExceptOf.throw] at h
  cases hfound : accounts uuid with
  | none => simp [hfound, textTooLong] at h
  | some account =>
    rw [hfound] at h
    dsimp only at h
    by_cases hremoved : account.lifecycle = .removed
    · simp [hremoved, textTooLong] at h
    · by_cases hactive : account.lifecycle = .active
      · simp [hactive] at h
      · simp [hremoved, hactive, textTooLong] at h

theorem prepare_long_iff {env : Env} {post : Post}
    {text : String} (hpost : Addressed post) (htext : canonical env post.text = some text)
    (hne : text ≠ "") :
    prepare env accounts post = .error textTooLong ↔ maximumUtf16Units < utf16Length text := by
  obtain ⟨hlow, hhigh, hchat, hreply⟩ := hpost
  simp only [prepare, bind, Except.bind, pure, Except.pure, throw, throwThe, MonadExceptOf.throw]
  rw [if_neg (by omega), if_neg (by simpa using hchat), if_neg (by simpa using hreply), htext]
  dsimp only
  rw [if_neg hne]
  split_ifs with hlong
  · exact iff_of_true rfl hlong
  · refine iff_of_false (fun herror => ?_) hlong
    cases hsendable : sendable accounts post.uuid with
    | error exception =>
      rw [hsendable] at herror
      cases herror
      exact sendable_ne hsendable
    | ok account =>
      rw [hsendable] at herror
      dsimp only at herror
      split at herror
      · cases herror
      · simp [textTooLong] at herror

/-- **What is confirmed is what is delivered** just when the characters that are taken away leave a
normalised text. -/
theorem faithful_iff (h : Normalises nfc) {env : Env} {normalize : JsString → JsString}
    (henv : ∀ text, env.normalize (String.ofList text) = some (String.ofList (nfc text)))
    (hnormalize : ∀ text, normalize (utf16 text) = utf16 (nfc text)) (text : List Char) :
    Phone.Templates.canonical normalize (utf16 text) = utf16 (shown nfc text) ∧
      (Faithful env normalize text (shown nfc text) ↔ nfc (plain nfc text) = plain nfc text) := by
  refine ⟨phone_canonical hnormalize text, fun hfaithful => ?_, fun hplain => ?_⟩
  · -- the API has trimmed inert characters off, and composes nothing in what is left
    have hagain := hfaithful.api
    rw [h.api_canonical henv, Option.bind_some, h.api_canonical henv, Option.some.injEq,
      String.ofList_inj] at hagain
    have htrimmed := trimmed_trim isTrimmed (plain nfc text)
    obtain ⟨before, after, hbefore, hafter, hsplit⟩ := trim_split isTrimmed (plain nfc text)
    have hkept : ∀ c ∈ trim isTrimmed (plain nfc text), kept c = true := fun c hc => kept_of_mem_trim hc
    generalize trim isTrimmed (plain nfc text) = taken at hagain htrimmed hsplit hkept
    have hkept' : ∀ c ∈ nfc taken, kept c = true := by
      intro c hc
      by_contra hnot
      exact hnot (hkept c (h.fresh taken c (inert_of_kept (Bool.not_eq_true _ ▸ hnot)) hc))
    have hcr : '\r' ∉ nfc taken := fun hmem => absurd (hkept' _ hmem) (by rw [kept_cr]; decide)
    have htrimmed' : Trimmed isTrimmed (nfc taken) :=
      ⟨fun c hc hp => htrimmed.head c (h.head (inert_of_isTrimmed hp) hc) hp,
        fun c hc hp => htrimmed.last c (h.last (inert_of_isTrimmed hp) hc) hp⟩
    rw [plain, unify_of_not_mem hcr, List.filter_eq_self.mpr hkept', htrimmed'.trim_eq] at hagain
    rw [hsplit, h.around (fun c hc => inert_of_isTrimmed (hbefore c hc))
      fun c hc => inert_of_isTrimmed (hafter c hc), hagain]
  · have hleft : ∀ p, plain nfc (trim p (plain nfc text)) = trim p (plain nfc text) := fun p =>
      plain_eq (h.trim hplain p) fun c hc => kept_of_mem_trim hc
    have hshown : Trimmed isTrimmed (shown nfc text) :=
      (trimmed_trim _ _).imp fun c hc => isSpace_of_isTrimmed (kept_of_mem_trim hc)
    have hdelivered : canonical env (some (String.ofList (shown nfc text))) =
        some (String.ofList (shown nfc text)) := by
      rw [h.api_canonical henv, shown, hleft]
      exact congrArg (fun text => some (String.ofList text)) hshown.trim_eq
    refine ⟨hdelivered, ?_, ?_, ?_, ?_⟩
    · intro accounts post attributes sent hpost hok
      have hsent := prepare_text hok
      have hdigest := (prepare_ok hok).2
      rw [hpost, hdelivered, Option.some.injEq] at hsent
      rw [Post.digest, hpost, hdelivered, Option.map_some, Option.some.injEq] at hdigest
      exact ⟨hsent.symm, hdigest⟩
    · intro accounts post id payload hpost hne hgood
      have hfound : canonical env post.text = some (String.ofList (shown nfc text)) := by
        rw [hpost, hdelivered]
      rw [prepare_long_iff hgood hfound, ← length_utf16]
      · exact decide_eq_true_iff
      · exact fun hempty => hne (String.ofList_inj.mp hempty)
    · have hsame : plain nfc (shown nfc text) = shown nfc text := hleft _
      rw [phone_canonical hnormalize, shown, hsame]
      exact congrArg utf16 (trimmed_trim _ _).trim_eq
    · rw [h.api_canonical henv, Option.bind_some, h.api_canonical henv, hleft,
        (trimmed_trim _ _).trim_eq]

def envOf (nfc : List Char → List Char) : Env where
  normalize text := some (String.ofList (nfc text.toList))
  hash _ := []
  hashHmac _ _ := []
  appKey := []

/-- A plain text is delivered as it is confirmed. -/
theorem faithful_plain : Faithful (envOf id) id [' ', 'o', 'k', '\r'] ['o', 'k'] := by
  have hlaws : Normalises id :=
    ⟨fun _ _ _ _ => rfl, fun _ _ _ hc => hc, fun _ => Iff.rfl, fun _ _ _ _ => rfl⟩
  exact (@faithful_iff _ hlaws (envOf id) id (fun text => by simp [envOf])
    (fun _ => rfl) [' ', 'o', 'k', '\r']).2.mpr rfl

/-- Normalisation of a text in which just one character is followed by a mark that it composes with. -/
def compose {α : Type} [DecidableEq α] (base mark composed : α) : List α → List α
  | first :: second :: rest =>
    if first = base ∧ second = mark then composed :: compose base mark composed rest
    else first :: compose base mark composed (second :: rest)
  | rest => rest

/-- A control character between a letter and its accent: the phone shows the two, and the API sends one
character. -/
theorem accent_composed :
    Phone.Templates.canonical (compose 0x65 0x301 0xE9) (utf16 ['e', '\u0001', '\u0301']) =
        utf16 ['e', '\u0301'] ∧
      ¬ Faithful (envOf (compose 'e' '\u0301' 'é')) (compose 0x65 0x301 0xE9) ['e', '\u0001', '\u0301']
        ['e', '\u0301'] :=
  ⟨by decide, fun h => absurd h.delivered (by decide)⟩

end Delivered
