import TeleBezel.Link.TextWhole
import TeleBezel.Phone.Templates

/-!
# The templates on their way to the watch

The phone answers with a header and one record for each template, in chunks of whole records. The watch
makes room for the previews at the header, if the allocation succeeds, and fills it record by record;
between two chunks it shows those that it has.
-/

open List

namespace Picking

open Phone Phone.Codec Phone.Templates Watch Watch.TextReader Watch.Composing Wire Texts Phone.Text

/-- The limit of the previews, for the configuration of the watch: it asks for one byte less than it
keeps. -/
def previewLimit (config : TbComposeConfig) : ℕ :=
  max 16 (min 96 ((config.previewLimit + 65535) % 65536))

def shownPreview (normalize : JsString → JsString) (config : TbComposeConfig) (item : JsString) :
    CString :=
  tbCopySpan config.previewLimit
    ((line (encode normalize) item (templateLimit (previewLimit config))).take 255)

def templatesAnswer (normalize : JsString → JsString) (config : TbComposeConfig) (snapshot : Snapshot)
    (stale : Bool) (inboxSize : ℕ) : List TbResponse :=
  respond ((records snapshot stale (previewLimit config)).map
    (Item.bytes (encode normalize))) (Texts.budget inboxSize)

structure Kept (snapshot : Snapshot) : Prop where
  revision : snapshot.revision < 2 ^ 32
  items : snapshot.items.length ≤ 50

theorem kept_snapshotOf (normalize : JsString → JsString) (value : Settings) (replies : Replies) :
    Kept (snapshotOf normalize value replies) := by
  refine ⟨?_, ?_⟩
  · show (replies.revision.elim 0 (· % 2 ^ 32)).toNat < 2 ^ 32
    cases replies.revision with
    | none => decide
    | some revision =>
      show (revision % 2 ^ 32).toNat < 2 ^ 32
      omega
  · refine (length_filter_le _ _).trans ?_
    rw [length_map, length_take]
    omega

structure Reads (normalize : JsString → JsString) (compose : TbCompose) (snapshot : Snapshot)
    (count : ℕ) : Prop where
  revision : compose.templatesRev = snapshot.revision
  total : compose.templateTotal = snapshot.items.length
  previews : (compose.previews = none ∧ compose.templateCount = 0) ∨
    ∃ previews, compose.previews = some previews ∧
      previews.length = min snapshot.items.length compose.config.capacity ∧
      compose.templateCount = min count previews.length ∧
      ∀ index item, index < compose.templateCount → snapshot.items[index]? = some item →
        previews[index]? = some (shownPreview normalize compose.config item)

variable {normalize : JsString → JsString} {compose : TbCompose} {snapshot : Snapshot}
  {env : Composing.Env}

def templateRecord (config : TbComposeConfig) (index : ℕ) (item : JsString) : TextItem :=
  .template { index := ofLength index, length := ofLength (utf8Bytes item), preview := item }
    (previewLimit config)

def headerRecord (snapshot : Snapshot) (stale : Bool) : TextItem :=
  .templates {
    revision := ofLength snapshot.revision
    count := ofLength snapshot.items.length
    flags := ofLength (if stale then 1 else 0) }

theorem records_eq (snapshot : Snapshot) (stale : Bool) (config : TbComposeConfig) :
    records snapshot stale (previewLimit config) = headerRecord snapshot stale ::
      snapshot.items.zipIdx.map fun entry => templateRecord config entry.2 entry.1 := rfl

theorem next_header (hkept : Kept snapshot) (stale : Bool) (rest : List UInt8) :
    ∃ body, tbCodecNext ((headerRecord snapshot stale).bytes (encode normalize) ++ rest) =
        some (tbRecordTemplates, body, rest) ∧
      tbCodecTemplates body =
        some ⟨snapshot.revision, snapshot.items.length, if stale then 1 else 0⟩ := by
  have hbody : ((headerRecord snapshot stale).body (encode normalize)).length < 65536 := by
    show 6 < 65536
    omega
  obtain ⟨hframe, hframed⟩ := bytes_eq_frame (encode normalize) hbody
  refine ⟨_, (tbCodecNext_eq_some_iff _ _ _ _).2 ⟨hframed, congrArg (· ++ rest) hframe⟩, ?_⟩
  have hdecode : tbCodecDecode ((headerRecord snapshot stale).body (encode normalize))
      (tbLayout tbRecordTemplates) = some [longValue (ofLength snapshot.revision),
        byteValue (ofLength snapshot.items.length), byteValue (ofLength (if stale then 1 else 0))] :=
    (tbCodecDecode_eq_some_iff _ _ _).2 (body_eq_encode (encode normalize) hbody)
  have hrevision := hkept.revision
  have hitems := hkept.items
  have hstale : (if stale then 1 else 0) < 256 := by
    split
    · omega
    · omega
  rw [tbCodecTemplates, hdecode]
  show some (TbTemplatesRecord.mk ((ofLength snapshot.revision).clamped 0xFFFFFFFF)
    (ofLength snapshot.items.length).masked (ofLength (if stale then 1 else 0)).masked) = _
  rw [clamped_ofLength (by omega), masked_ofLength (by omega), masked_ofLength hstale]

theorem length_raw8_le (bytes : List UInt8) : (raw8 bytes).length ≤ 256 := by
  have hbyte : (u8 (ofLength (min bytes.length 255))).length = 1 := rfl
  rw [raw8, length_append, hbyte, length_take]
  omega

theorem next_template (config : TbComposeConfig) {index : ℕ} (hindex : index < 256) (item : JsString)
    (rest : List UInt8) :
    ∃ body, tbCodecNext ((templateRecord config index item).bytes (encode normalize) ++
        rest) = some (tbRecordTemplate, body, rest) ∧
      ∃ length, tbCodecTemplate body = some ⟨index, length,
        (line (encode normalize) item (templateLimit (previewLimit config))).take 255⟩ := by
  have hbody : ((templateRecord config index item).body (encode normalize)).length <
      65536 := by
    have hraw := length_raw8_le
      (line (encode normalize) item (templateLimit (previewLimit config)))
    show (u8 (ofLength index) ++ (u16 (ofLength (utf8Bytes item)) ++ (raw8 (line
      (encode normalize) item (templateLimit (previewLimit config))) ++ []))).length < 65536
    have hbyte : (u8 (ofLength index)).length = 1 := rfl
    have hword : (u16 (ofLength (utf8Bytes item))).length = 2 := rfl
    rw [append_nil, length_append, length_append, hbyte, hword]
    omega
  obtain ⟨hframe, hframed⟩ := bytes_eq_frame (encode normalize) hbody
  refine ⟨_, (tbCodecNext_eq_some_iff _ _ _ _).2 ⟨hframed, congrArg (· ++ rest) hframe⟩,
    (ofLength (utf8Bytes item)).clamped 0xFFFF, ?_⟩
  have hdecode : tbCodecDecode ((templateRecord config index item).body
      (encode normalize)) (tbLayout tbRecordTemplate) =
      some [byteValue (ofLength index), wordValue (ofLength (utf8Bytes item)),
        shortValue (line (encode normalize) item (templateLimit (previewLimit config)))] :=
    (tbCodecDecode_eq_some_iff _ _ _).2 (body_eq_encode (encode normalize) hbody)
  rw [tbCodecTemplate, hdecode]
  show some (TbTemplateRecord.mk (ofLength index).masked _ _) = _
  rw [masked_ofLength hindex]

/-- What `templates_done` makes of the record of a template. -/
def heardTemplate (normalize : JsString → JsString) (compose : TbCompose) (index : ℕ)
    (item : JsString) : TbCompose :=
  match compose.previews with
  | none => compose
  | some previews => compose.previewed previews ⟨index, 0,
      (line (encode normalize) item (templateLimit (previewLimit compose.config))).take 255⟩

theorem reads_header (compose : TbCompose) (snapshot : Snapshot) (flags : ℕ) (allocated : Bool) :
    Reads normalize (compose.begun ⟨snapshot.revision, snapshot.items.length, flags⟩ allocated)
      snapshot 0 := by
  refine ⟨rfl, rfl, ?_⟩
  have hroom : (if snapshot.items.length < compose.config.capacity then snapshot.items.length
      else compose.config.capacity) = min snapshot.items.length compose.config.capacity := by
    split <;> omega
  rw [TbCompose.begun]
  rw [hroom]
  by_cases hmade : min snapshot.items.length compose.config.capacity ≠ 0 ∧ allocated = true
  · rw [if_pos hmade]
    refine .inr ⟨_, rfl, length_replicate, (Nat.zero_min _).symm, fun index item hindex => ?_⟩
    exact absurd hindex (Nat.not_lt_zero index)
  · rw [if_neg hmade]
    exact .inl ⟨rfl, rfl⟩

theorem reads_template {count : ℕ} (h : Reads normalize compose snapshot count) {item : JsString}
    (hitem : snapshot.items[count]? = some item) :
    Reads normalize (heardTemplate normalize compose count item) snapshot (count + 1) := by
  have hcount : count < snapshot.items.length := (List.getElem?_eq_some_iff.1 hitem).1
  rcases h.previews with ⟨hnone, hzero⟩ | ⟨previews, hsome, hlength, htaken, hshown⟩
  · have hsame : heardTemplate normalize compose count item = compose := by
      rw [heardTemplate, hnone]
    rw [hsame]
    exact ⟨h.revision, h.total, .inl ⟨hnone, hzero⟩⟩
  · have hheard : heardTemplate normalize compose count item = compose.previewed previews ⟨count, 0,
        (line (encode normalize) item
          (templateLimit (previewLimit compose.config))).take 255⟩ := by
      rw [heardTemplate, hsome]
    rw [hheard, TbCompose.previewed]
    dsimp only
    rw [h.total]
    by_cases hfull : compose.config.capacity ≤ count ∨ snapshot.items.length ≤ count
    · -- there is no place for it
      rw [if_pos hfull]
      refine ⟨h.revision, h.total, .inr ⟨previews, hsome, hlength, ?_, hshown⟩⟩
      omega
    · rw [if_neg hfull]
      push Not at hfull
      have hbefore : compose.templateCount = count := by omega
      rw [hbefore, if_pos (Nat.lt_succ_self count)]
      refine ⟨h.revision, rfl, .inr ⟨_, rfl, ?_, ?_, fun index other hindex hother => ?_⟩⟩
      · rw [length_set]
        exact hlength
      · show count + 1 = min (count + 1) (previews.set count _).length
        rw [length_set]
        omega
      · change index < count + 1 at hindex
        by_cases hthis : index = count
        · subst hthis
          rw [hitem, Option.some.injEq] at hother
          rw [List.getElem?_set_self (by omega), hother]
          rfl
        · rw [List.getElem?_set_ne (Ne.symm hthis)]
          exact hshown index other (by omega) hother

/-! ### The loop of the watch -/

theorem templatesLoop_frame (compose : TbCompose) (fuel index : ℕ) (cursor : TbCursor) :
    ∃ templatesRev templatesStale templateTotal templateCount previews,
      compose.templatesLoop env fuel index cursor = { compose with
        templatesRev, templatesStale, templateTotal, templateCount, previews } := by
  induction fuel generalizing compose index cursor with
  | zero => exact ⟨_, _, _, _, _, rfl⟩
  | succ fuel ih =>
    rw [TbCompose.templatesLoop]
    cases tbCodecNext cursor with
    | none => exact ⟨_, _, _, _, _, rfl⟩
    | some record =>
      obtain ⟨type, body, cursor⟩ := record
      dsimp only
      generalize hnext : (if type = tbRecordTemplates then _ else _ : TbCompose) = next
      have hframe : ∃ templatesRev templatesStale templateTotal templateCount previews,
          next = { compose with
            templatesRev, templatesStale, templateTotal, templateCount, previews } := by
        rw [← hnext]
        split
        · cases tbCodecTemplates body with
          | none | some header => exact ⟨_, _, _, _, _, rfl⟩
        · split
          · cases hpreviews : compose.previews with
            | none => exact ⟨_, _, _, _, _, rfl⟩
            | some previews =>
              cases tbCodecTemplate body with
              | none => exact ⟨_, _, _, _, _, rfl⟩
              | some item =>
                dsimp only
                rw [TbCompose.previewed]
                split
                · exact ⟨_, _, _, _, _, rfl⟩
                · exact ⟨_, _, _, _, _, rfl⟩
          · exact ⟨_, _, _, _, _, rfl⟩
      obtain ⟨_, _, _, _, _, hframe⟩ := hframe
      obtain ⟨rev, stale, total, count, previews, hrest⟩ := ih next (index + 1) cursor
      exact ⟨rev, stale, total, count, previews, by rw [hrest, hframe]⟩

theorem templatesLoop_header (hkept : Kept snapshot) (stale : Bool) (rest : List UInt8)
    (fuel index : ℕ) :
    compose.templatesLoop env (fuel + 1) index
        ((headerRecord snapshot stale).bytes (encode normalize) ++ rest) =
      (compose.begun ⟨snapshot.revision, snapshot.items.length, if stale then 1 else 0⟩
        (env.calloc index)).templatesLoop env fuel (index + 1) rest := by
  obtain ⟨body, hnext, hheader⟩ := @next_header normalize snapshot hkept stale rest
  rw [TbCompose.templatesLoop, hnext]
  dsimp only
  rw [if_pos rfl, hheader]

theorem templatesLoop_template {count : ℕ} (hcount : count < 256) (item : JsString)
    (rest : List UInt8) (fuel index : ℕ) :
    compose.templatesLoop env (fuel + 1) index
        ((templateRecord compose.config count item).bytes (encode normalize) ++ rest) =
      (heardTemplate normalize compose count item).templatesLoop env fuel (index + 1) rest := by
  obtain ⟨body, hnext, length, hitem⟩ := @next_template normalize compose.config count hcount item rest
  rw [TbCompose.templatesLoop, hnext]
  dsimp only
  rw [if_neg (by decide), if_pos rfl, hitem, heardTemplate]
  cases compose.previews with
  | none => rfl
  | some previews => rfl

def Heard (normalize : JsString → JsString) (compose : TbCompose) (snapshot : Snapshot) : ℕ → Prop
  | 0 => True
  | count + 1 => Reads normalize compose snapshot count

theorem heard_records (hkept : Kept snapshot) {stale : Bool} {config : TbComposeConfig}
    (hconfig : compose.config = config) {items rest : List TextItem} {count : ℕ}
    (hitems : (records snapshot stale (previewLimit config)).drop count = items ++ rest)
    (h : Heard normalize compose snapshot count) {fuel : ℕ} (hfuel : items.length ≤ fuel)
    (index : ℕ) :
    Heard normalize (compose.templatesLoop env fuel index
      (items.flatMap (Item.bytes (encode normalize)))) snapshot (count + items.length) := by
  induction items generalizing compose count fuel index with
  | nil =>
    have hsame : compose.templatesLoop env fuel index [] = compose := by
      cases fuel with
      | zero => rfl
      | succ _ => rfl
    rw [flatMap_nil, hsame]
    exact h
  | cons item items ih =>
    cases fuel with
    | zero => cases hfuel
    | succ fuel =>
      have hthis : (records snapshot stale (previewLimit config))[count]? = some item := by
        rw [← Nat.add_zero count, ← List.getElem?_drop, hitems]
        rfl
      have hafter : (records snapshot stale (previewLimit config)).drop (count + 1) =
          items ++ rest := by
        rw [← drop_drop, hitems]
        rfl
      rw [flatMap_cons, length_cons, Nat.add_comm items.length 1, ← Nat.add_assoc]
      rw [records_eq] at hthis
      cases count with
      | zero =>
        obtain rfl : headerRecord snapshot stale = item := Option.some.inj hthis
        rw [templatesLoop_header hkept]
        have hkeeps : (compose.begun ⟨snapshot.revision, snapshot.items.length,
            if stale then 1 else 0⟩ (env.calloc index)).config = config := hconfig
        have hread : Heard normalize (compose.begun ⟨snapshot.revision, snapshot.items.length,
            if stale then 1 else 0⟩ (env.calloc index)) snapshot (0 + 1) :=
          reads_header compose snapshot _ _
        exact ih hkeeps hafter hread (Nat.le_of_succ_le_succ hfuel) _
      | succ count =>
        rw [List.getElem?_cons_succ, List.getElem?_map, Option.map_eq_some_iff] at hthis
        obtain ⟨⟨text, position⟩, hentry, rfl⟩ := hthis
        rw [List.getElem?_zipIdx, Option.map_eq_some_iff] at hentry
        obtain ⟨other, htext, hpair⟩ := hentry
        obtain ⟨hother, hposition⟩ := Prod.mk.inj hpair
        rw [Nat.zero_add] at hposition
        rw [hother] at htext
        subst hposition
        have hcount : count < snapshot.items.length := (List.getElem?_eq_some_iff.1 htext).1
        have hsmall := hkept.items
        have hkeeps : (heardTemplate normalize compose count text).config = config := by
          rw [heardTemplate]
          cases compose.previews with
          | none => exact hconfig
          | some previews =>
            dsimp only
            rw [TbCompose.previewed]
            split
            · exact hconfig
            · exact hconfig
        have hread : Heard normalize (heardTemplate normalize compose count text) snapshot
            (count + 1 + 1) := reads_template h htext
        have hloop := @templatesLoop_template normalize compose env count (by omega) text
          (items.flatMap (Item.bytes (encode normalize))) fuel index
        rw [hconfig] at hloop
        rw [hloop]
        exact ih hkeeps hafter hread (Nat.le_of_succ_le_succ hfuel) _

end Picking
