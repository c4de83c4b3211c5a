import TeleBezel.Lib.Parts
import TeleBezel.Watch.Compose

/-!
# The text that the watch holds

Both the text of a message and the text of a draft are taken part by part, from the records of the
chunks. A part that there is no room for is cut, or left out where the buffer cannot grow; the loops
go on with the parts after it, so that the text is spliced where one of those fits.
-/

open List

namespace Watch

open Parts TextReader TbMessageText

def textOf (type : ℕ) (body : TbCursor) : List (List UInt8) :=
  if type = tbRecordText then (tbCodecText body).toList else []

/-- The parts of the text at a record of a payload. A record takes bytes, so that their number is fuel
enough. -/
def textsLoop : ℕ → TbCursor → List (List UInt8)
  | 0, _ => []
  | fuel + 1, cursor =>
    match tbCodecNext cursor with
    | none => []
    | some (type, body, cursor) => textOf type body ++ textsLoop fuel cursor

def texts (payload : List UInt8) : List (List UInt8) := textsLoop payload.length payload

/-! ### Cutting at a character -/

variable {byte : UInt8}

theorem cutTo_le (room : ℕ) (part : List UInt8) :
    cutTo room part ≤ part.length ∧ cutTo room part ≤ room := by
  have hback := back_le part room
  rw [cutTo]
  split <;> omega

theorem cutTo_boundary {room : ℕ} {part : List UInt8}
    (hbyte : part[cutTo room part]? = some byte) (hpos : 0 < cutTo room part) :
    ¬ Continues byte := by
  rw [cutTo] at hbyte hpos
  split at hpos
  · rename_i hwhole
    rw [if_pos hwhole, List.getElem?_eq_none (Nat.le_refl _)] at hbyte
    cases hbyte
  · rename_i hcut
    rw [if_neg hcut] at hbyte
    exact back_boundary hbyte hpos

theorem tbUtf8Fit_eq (data : List UInt8) (capacity : ℕ) :
    tbUtf8Fit data capacity = cutTo (capacity - 1) data := by
  rw [tbUtf8Fit, cutTo]
  dsimp only
  split
  · rename_i hzero
    rw [hzero]
    split
    · omega
    · rfl
  · split_ifs <;> omega

theorem tbUtf8Fit_boundary {data : List UInt8} {capacity : ℕ}
    (hbyte : data[tbUtf8Fit data capacity]? = some byte) (hpos : 0 < tbUtf8Fit data capacity) :
    ¬ Continues byte := by
  rw [tbUtf8Fit_eq] at hbyte hpos
  exact cutTo_boundary hbyte hpos

/-! ### The text of a message -/

namespace TextReader

namespace TbMessageText

variable (reader : TbMessageText)

def held : List UInt8 := reader.text.getD []

def taking (part : List UInt8) (size : ℕ) : TbMessageText :=
  { reader with text := reader.text.map (· ++ part.take size) }

end TbMessageText

def TbMessageText.cutting (reader : TbMessageText) (part : List UInt8) : TbMessageText :=
  if reader.fitting part < part.length then { reader with truncated := true } else reader

/-- In the loop of `append`, nothing is taken of a part unless all those before it have been taken
whole. -/
def Unspliced (env : Env) : ℕ → List (List UInt8) → TbMessageText → List (List UInt8) → Bool
  | _, _, _, [] => true
  | index, received, reader, part :: parts =>
    let size := reader.fitting part
    let reader := reader.cutting part
    match reader.reserve (env.realloc index) (reader.length + size) with
    | none => true
    | some reader =>
      decide (reader.held = received.flatten ∨ size = 0) &&
        Unspliced env (index + 1) (received ++ [part]) (reader.taking part size) parts

/-- A reader, with the parts of the text received for its request; none of a request that has failed
or was given up. -/
structure Reading where
  reader : TbMessageText
  received : List (List UInt8) := []

def Accepts (reader : TbMessageText) (env : Env) (response : TbResponse) : Prop :=
  response.outcome = .response ∧ response.result = tbResultOk ∧
    (reader.append env response.payload).2 = true

instance (reader : TbMessageText) (env : Env) (response : TbResponse) :
    Decidable (Accepts reader env response) :=
  inferInstanceAs (Decidable (_ ∧ _ ∧ _))

namespace Reading

variable (s : Reading)

def receivedAfter : Event × Env → List (List UInt8)
  | (.open _ _ _, _) => []
  | (.close, _) => []
  | (.retry, _) => if s.reader.text = none ∨ s.reader.loading then s.received else []
  | (.response sequence response _, env) =>
    if sequence ≠ s.reader.pending ∨ response.outcome = .cancelled then s.received
    else if Accepts s.reader env response then s.received ++ texts response.payload
    else []

def step (event : Event × Env) : Reading :=
  { reader := TextReader.step s.reader event, received := s.receivedAfter event }

/-- A response has a sequence number, and of those that are taken nothing is spliced. -/
def Meets : Event × Env → Prop
  | (.response sequence response _, env) => sequence ≠ 0 ∧
    (sequence = s.reader.pending → Accepts s.reader env response →
      Unspliced env 0 s.received s.reader (texts response.payload) = true)
  | _ => True

instance : ∀ event, Decidable (s.Meets event)
  | (.response _ _ _, _) => inferInstanceAs (Decidable (_ ∧ _))
  | (.open _ _ _, _) | (.retry, _) | (.close, _) => inferInstanceAs (Decidable True)

/-- What the reader holds is a piece of what it has received, and all of it unless it says that it is
truncated. -/
def Shown : Prop :=
  Shows s.reader.held s.received ∧
    (s.reader.truncated = true ∨ s.reader.held = s.received.flatten)

structure Sound : Prop where
  shown : s.Shown
  buffer : s.reader.pending ≠ 0 → s.reader.text.isSome

end Reading

variable {env : Env} {reader reader' : TbMessageText} {received : List (List UInt8)}

theorem length_eq (reader : TbMessageText) : reader.length = reader.held.length := rfl

theorem reserve_eq {grows : Bool} {length : ℕ} (h : reader.reserve grows length = some reader') :
    ∃ capacity, reader' = { reader with capacity } := by
  rw [reserve] at h
  dsimp only at h
  split at h
  · exact ⟨reader.capacity, (Option.some.inj h).symm⟩
  · generalize (if reader.limit < _ then _ else _ : ℕ) = capacity at h
    split at h
    · exact ⟨capacity, (Option.some.inj h).symm⟩
    · cases h

theorem fitting_eq (reader : TbMessageText) (part : List UInt8) :
    reader.fitting part = cutTo (reader.limit - reader.length) part := rfl

variable {part : List UInt8}

theorem fitting_boundary
    (hbyte : part[reader.fitting part]? = some byte) (hpos : 0 < reader.fitting part) :
    ¬ Continues byte := by
  rw [fitting_eq] at hbyte hpos
  exact cutTo_boundary hbyte hpos

theorem cutting_eq (reader : TbMessageText) (part : List UInt8) : ∃ truncated,
    reader.cutting part = { reader with truncated } ∧
      (truncated = true ∨ (truncated = reader.truncated ∧ reader.fitting part = part.length)) := by
  have hle := cutTo_le (reader.limit - reader.length) part
  rw [← fitting_eq] at hle
  rw [cutting]
  split
  · exact ⟨true, rfl, .inl rfl⟩
  · exact ⟨reader.truncated, rfl, .inr ⟨rfl, by omega⟩⟩

theorem appendLoop_text {fuel index : ℕ} {cursor after : TbCursor} {body : TbCursor}
    (hnext : tbCodecNext cursor = some (tbRecordText, body, after))
    (hpart : tbCodecText body = some part) :
    reader.appendLoop env (fuel + 1) index cursor =
      match (reader.cutting part).reserve (env.realloc index)
          ((reader.cutting part).length + reader.fitting part) with
      | none => ({ reader.cutting part with truncated := true }, true)
      | some grown => (grown.taking part (reader.fitting part)).appendLoop env fuel (index + 1) after := by
  cases cursor with
  | nil => cases hnext
  | cons _ _ =>
    rw [appendLoop, hnext]
    dsimp only
    rw [if_neg (not_not.2 rfl), hpart]
    rfl

theorem appendLoop_cases (reader : TbMessageText) (env : Env) (fuel index : ℕ) (cursor : TbCursor) :
    (cursor = [] ∧ reader.appendLoop env fuel index cursor = (reader, true)) ∨
      reader.appendLoop env fuel index cursor = (reader, false) ∨
      ∃ fuel' body after part, fuel = fuel' + 1 ∧
        tbCodecNext cursor = some (tbRecordText, body, after) ∧ tbCodecText body = some part := by
  cases cursor with
  | nil =>
    refine .inl ⟨rfl, ?_⟩
    cases fuel with
    | zero => rfl
    | succ _ => rfl
  | cons first rest =>
    refine .inr ?_
    cases fuel with
    | zero => exact .inl rfl
    | succ fuel =>
      rw [appendLoop]
      cases tbCodecNext (first :: rest) with
      | none => exact .inl rfl
      | some record =>
        obtain ⟨type, body, cursor⟩ := record
        dsimp only
        split
        · exact .inl rfl
        · rename_i htype
          rw [not_not] at htype
          cases hpart : tbCodecText body with
          | none => exact .inl rfl
          | some part => exact .inr ⟨fuel, body, cursor, part, rfl, by rw [htype], hpart⟩

theorem taking_eq {grown : TbMessageText} {length : ℕ} {grows : Bool}
    (hreserve : (reader.cutting part).reserve grows length = some grown) :
    (grown.taking part (reader.fitting part)).limit = reader.limit ∧
      (grown.taking part (reader.fitting part)).text =
        reader.text.map (· ++ part.take (reader.fitting part)) ∧ grown.text = reader.text ∧
      ((grown.taking part (reader.fitting part)).truncated = true ∨
        ((grown.taking part (reader.fitting part)).truncated = reader.truncated ∧
          reader.fitting part = part.length)) := by
  obtain ⟨truncated, hcut, htruncated⟩ := cutting_eq reader part
  obtain ⟨capacity, hgrown⟩ := reserve_eq hreserve
  rw [hcut] at hgrown
  rw [hgrown]
  exact ⟨rfl, rfl, rfl, htruncated⟩

theorem append_le {fuel index : ℕ} {cursor : TbCursor} (hle : reader.length ≤ reader.limit) :
    (reader.appendLoop env fuel index cursor).1.limit = reader.limit ∧
      (reader.appendLoop env fuel index cursor).1.length ≤ reader.limit := by
  induction fuel generalizing index cursor reader with
  | zero =>
    cases cursor with
    | nil | cons _ _ => exact ⟨rfl, hle⟩
  | succ fuel ih =>
    rcases appendLoop_cases reader env (fuel + 1) index cursor with ⟨-, hend⟩ | hend |
      ⟨fuel', body, after, part, hfuel, hnext, hpart⟩
    · rw [hend]
      exact ⟨rfl, hle⟩
    · rw [hend]
      exact ⟨rfl, hle⟩
    · rw [appendLoop_text hnext hpart]
      cases hreserve : (reader.cutting part).reserve (env.realloc index)
          ((reader.cutting part).length + reader.fitting part) with
      | none =>
        obtain ⟨truncated, hcut, -⟩ := cutting_eq reader part
        rw [hcut]
        exact ⟨rfl, hle⟩
      | some grown =>
        obtain ⟨hlimit, htext, -⟩ := taking_eq hreserve
        have hfitting := cutTo_le (reader.limit - reader.length) part
        rw [← fitting_eq] at hfitting
        rw [← hlimit]
        apply ih
        rw [hlimit, length_eq, held, htext]
        rw [length_eq, held] at hle hfitting
        cases hbuffer : reader.text with
        | none => exact Nat.zero_le _
        | some text =>
          rw [hbuffer, Option.getD_some] at hle hfitting
          show (text ++ part.take (reader.fitting part)).length ≤ reader.limit
          rw [length_append, length_take]
          omega

/-- What `append` leaves of a reader, after the parts of a chunk. -/
structure Appended (after : TbMessageText) (received : List (List UInt8)) : Prop where
  shown : Shows after.held received ∧ (after.truncated = true ∨ after.held = received.flatten)
  buffer : after.text.isSome

theorem append_shows {fuel index : ℕ} {cursor : TbCursor} (htext : reader.text.isSome)
    (hshows : Shows reader.held received)
    (hwhole : reader.truncated = true ∨ reader.held = received.flatten)
    (hunspliced : Unspliced env index received reader (textsLoop fuel cursor) = true)
    (hok : (reader.appendLoop env fuel index cursor).2 = true) :
    Appended (reader.appendLoop env fuel index cursor).1 (received ++ textsLoop fuel cursor) := by
  induction fuel generalizing index cursor reader received with
  | zero =>
    rcases appendLoop_cases reader env 0 index cursor with ⟨-, hend⟩ | hend | ⟨_, _, _, _, hfuel, -⟩
    · rw [hend, textsLoop, append_nil]
      exact ⟨⟨hshows, hwhole⟩, htext⟩
    · rw [hend] at hok
      cases hok
    · cases hfuel
  | succ fuel ih =>
    rcases appendLoop_cases reader env (fuel + 1) index cursor with ⟨hcursor, hend⟩ | hend |
      ⟨fuel', body, after, part, -, hnext, hpart⟩
    · have hnone : textsLoop (fuel + 1) cursor = [] := by rw [hcursor]; rfl
      rw [hend, hnone, append_nil]
      exact ⟨⟨hshows, hwhole⟩, htext⟩
    · rw [hend] at hok
      cases hok
    · have hparts : textsLoop (fuel + 1) cursor = part :: textsLoop fuel after := by
        rw [textsLoop, hnext]
        dsimp only
        rw [textOf, if_pos rfl, hpart]
        rfl
      rw [hparts] at hunspliced ⊢
      rw [appendLoop_text hnext hpart] at hok ⊢
      rw [Unspliced] at hunspliced
      cases hreserve : (reader.cutting part).reserve (env.realloc index)
          ((reader.cutting part).length + reader.fitting part) with
      | none =>
        -- the rest of the chunk is not looked at
        obtain ⟨truncated, hcut, -⟩ := cutting_eq reader part
        rw [hcut]
        exact ⟨⟨hshows.skips _, .inl rfl⟩, htext⟩
      | some grown =>
        rw [hreserve] at hok hunspliced
        rw [Bool.and_eq_true, decide_eq_true_eq] at hunspliced
        obtain ⟨-, htaken, hgrown, htruncated⟩ := taking_eq hreserve
        obtain ⟨text, hbuffer⟩ := Option.isSome_iff_exists.1 htext
        have hheld : reader.held = text := by rw [held, hbuffer]; rfl
        have hheld' : grown.held = text := by rw [held, hgrown, hbuffer]; rfl
        have htaking : (grown.taking part (reader.fitting part)).held =
            text ++ part.take (reader.fitting part) := by
          rw [held, htaken, hbuffer]
          rfl
        rw [hheld'] at hunspliced
        rw [hheld] at hshows hwhole
        rw [append_cons]
        apply ih
        · rw [htaken, Option.isSome_map]
          exact htext
        · rw [htaking]
          rcases hunspliced.1 with hall | hnone
          · exact Shows.take hall fun byte hbyte hpos => fitting_boundary hbyte hpos
          · rw [hnone, take_zero, append_nil]
            exact hshows.skip part
        · rw [htaking]
          rcases htruncated with htrue | ⟨hsame, hfull⟩
          · exact .inl htrue
          · rw [hsame, hfull, take_length, flatten_append, flatten_singleton]
            exact hwhole.imp_right fun hall => by rw [hall]
        · exact hunspliced.2
        · exact hok

variable {s : Reading}

theorem shown_nil {held : List UInt8} {truncated : Bool} (hheld : held = []) :
    Shows held [] ∧ (truncated = true ∨ held = ([] : List (List UInt8)).flatten) := by
  subst hheld
  exact ⟨Shows.nil, .inr rfl⟩

theorem submit_sound (htext : reader.text.isSome) : Reading.Sound ⟨reader.submit env, []⟩ := by
  obtain ⟨text, htext⟩ := Option.isSome_iff_exists.1 htext
  have hnew : (reader.submit env).text = some [] := by
    rw [submit]
    split
    · rw [htext]
      rfl
    · rw [htext]
      rfl
  have hheld : (reader.submit env).held = [] := by rw [held, hnew]; rfl
  refine ⟨shown_nil hheld, fun _ => ?_⟩
  rw [hnew]
  rfl

theorem ended_sound (hheld : reader.held = []) (hpending : reader.pending = 0) :
    Reading.Sound ⟨reader, []⟩ :=
  ⟨shown_nil hheld, fun hsome => absurd hpending hsome⟩

theorem held_fail (sequence : ℕ) (response : TbResponse) (error : ℤ) :
    (reader.fail sequence response error).held = [] := by
  rw [held, fail]
  cases reader.text with
  | none => rfl
  | some _ => rfl

theorem completed_cases {response : TbResponse} (flags : ℕ) (hkept : response.outcome ≠ .cancelled) :
    (Accepts reader env response ∧ ∃ truncated pending loading,
        reader.completed env reader.pending response flags =
          { (reader.append env response.payload).1 with truncated, pending, loading } ∧
        ((reader.append env response.payload).1.truncated = true → truncated = true) ∧
        (response.final = false → pending = (reader.append env response.payload).1.pending)) ∨
      (¬ Accepts reader env response ∧
        (reader.completed env reader.pending response flags).held = [] ∧
        (reader.completed env reader.pending response flags).pending = 0) := by
  rw [completed, if_neg (by simp [hkept])]
  split
  · rename_i hbad
    exact .inr ⟨fun haccepts => hbad.elim (fun h => h haccepts.1) fun h => h haccepts.2.1,
      held_fail .., rfl⟩
  · rename_i hgood
    push Not at hgood
    cases happend : reader.append env response.payload with
    | mk after ok =>
      dsimp only
      split
      · rename_i hok
        refine .inr ⟨fun haccepts => hok ?_, held_fail .., rfl⟩
        have hresult := haccepts.2.2
        rwa [happend] at hresult
      · rename_i hok
        rw [not_not] at hok
        refine .inl ⟨⟨hgood.1, hgood.2, by rw [happend]; exact hok⟩, ?_⟩
        split
        · rename_i hfinal
          have hlast : ¬ response.final = false := fun h => Bool.false_ne_true (h.symm.trans hfinal)
          split
          · exact ⟨true, 0, false, rfl, fun _ => rfl, fun h => absurd h hlast⟩
          · exact ⟨_, 0, false, rfl, id, fun h => absurd h hlast⟩
        · split
          · exact ⟨true, _, _, rfl, fun _ => rfl, fun _ => rfl⟩
          · exact ⟨_, _, _, rfl, id, fun _ => rfl⟩

theorem completed_le (hle : reader.length ≤ reader.limit) (sequence : ℕ) (response : TbResponse)
    (flags : ℕ) :
    (reader.completed env sequence response flags).limit = reader.limit ∧
      (reader.completed env sequence response flags).length ≤ reader.limit := by
  have hle' : (reader.append env response.payload).1.limit = reader.limit ∧
      (reader.append env response.payload).1.length ≤ reader.limit := append_le hle
  have hfail : ∀ (after : TbMessageText) error, after.limit = reader.limit →
      (after.fail sequence response error).limit = reader.limit ∧
        (after.fail sequence response error).length ≤ reader.limit := by
    intro after error hlimit
    rw [length_eq, held_fail]
    exact ⟨hlimit, Nat.zero_le _⟩
  rw [completed]
  split
  · exact ⟨rfl, hle⟩
  · split
    · exact hfail reader _ rfl
    · cases happend : reader.append env response.payload with
      | mk after ok =>
        rw [happend] at hle'
        dsimp only
        split
        · exact hfail after _ hle'.1
        · split
          · split
            · exact hle'
            · exact hle'
          · split
            · exact hle'
            · exact hle'

theorem response_sound (h : s.Sound) {response : TbResponse} {flags : ℕ}
    (hpending : s.reader.pending ≠ 0) (hkept : response.outcome ≠ .cancelled)
    (hunspliced : Accepts s.reader env response →
      Unspliced env 0 s.received s.reader (texts response.payload) = true) :
    Reading.Sound ⟨s.reader.completed env s.reader.pending response flags,
      if Accepts s.reader env response then s.received ++ texts response.payload else []⟩ := by
  rcases @completed_cases env s.reader response flags hkept with
    ⟨haccepts, truncated, pending, loading, hcompleted, hmark, -⟩ | ⟨hrefused, hheld, hended⟩
  · rw [if_pos haccepts, hcompleted]
    obtain ⟨⟨hshows, hwhole⟩, hbuffer⟩ := append_shows (h.buffer hpending) h.shown.1 h.shown.2
      (hunspliced haccepts) haccepts.2.2
    exact ⟨⟨hshows, hwhole.imp_left hmark⟩, fun _ => hbuffer⟩
  · rw [if_neg hrefused]
    exact ended_sound hheld hended

theorem shown_step {event : Event × Env} (h : s.Sound) (hmeets : s.Meets event) :
    (s.step event).Sound := by
  obtain ⟨event, env⟩ := event
  cases event with
  | «open» account chat message =>
    show Reading.Sound ⟨s.reader.open env account chat message, []⟩
    rw [TbMessageText.open]
    split
    · exact submit_sound rfl
    · exact ended_sound rfl rfl
  | retry =>
    show Reading.Sound ⟨s.reader.retry env,
      if s.reader.text = none ∨ s.reader.loading then s.received else []⟩
    rw [TbMessageText.retry]
    split
    · exact h
    · rename_i hready
      push Not at hready
      exact submit_sound (Option.isSome_iff_ne_none.2 hready.1)
  | close => exact ended_sound rfl rfl
  | response sequence response flags =>
    obtain ⟨hsequence, hunspliced⟩ := hmeets
    show Reading.Sound ⟨s.reader.completed env sequence response flags, _⟩
    by_cases hstale : sequence ≠ s.reader.pending ∨ response.outcome = .cancelled
    · rw [TbMessageText.completed, if_pos hstale, Reading.receivedAfter, if_pos hstale]
      exact h
    · rw [Reading.receivedAfter, if_neg hstale]
      push Not at hstale
      obtain ⟨rfl, hkept⟩ := hstale
      exact response_sound h hsequence hkept (hunspliced rfl)

theorem sound_init (limit : ℕ) : Reading.Sound ⟨.init limit, []⟩ := ended_sound rfl rfl

end TextReader

/-! ### The text of a draft -/

namespace Composing

def TbCompose.held (compose : TbCompose) : List UInt8 := compose.text.getD []

/-- At a record of `draft_done`: the header comes before any text, and nothing is taken of a part
unless all those before it have been taken whole, nor more than 16 bits count. -/
def TakesRecord (received : List (List UInt8)) (compose : TbCompose) (type : ℕ) (body : TbCursor) :
    Bool :=
  if type = tbRecordDraft then decide (tbCodecDraft body = none ∨ received.flatten = [])
  else if type = tbRecordText then
    match compose.text, tbCodecText body with
    | some text, some part =>
      decide ((text = received.flatten ∨ compose.fitting text part = 0) ∧
        text.length + compose.fitting text part < 65536)
    | _, _ => true
  else true

/-- So it is in the loop of `draft_done`. -/
def DraftUnspliced (env : Env) : ℕ → ℕ → List (List UInt8) → TbCursor → TbCompose → Bool
  | 0, _, _, _, _ => true
  | fuel + 1, index, received, cursor, compose =>
    match tbCodecNext cursor with
    | none => true
    | some (type, body, cursor) =>
      TakesRecord received compose type body &&
        DraftUnspliced env fuel (index + 1) (received ++ textOf type body) cursor
          (compose.draftRecord env index type body)

/-- A composition, with the parts of the text received for the draft that was asked for last; none of
a draft that has failed. -/
structure Drafting where
  compose : TbCompose
  received : List (List UInt8) := []

def Brings (response : TbResponse) : Prop :=
  response.outcome = .response ∧ response.result = tbResultOk

instance (response : TbResponse) : Decidable (Brings response) :=
  inferInstanceAs (Decidable (_ ∧ _))

namespace Drafting

variable (s : Drafting)

def receivedAfter : Event × Env → List (List UInt8)
  | (.pick index, _) =>
    if ¬ s.compose.opened ∨ s.compose.templateCount ≤ index then s.received else []
  | (.dictated text, env) =>
    if s.compose.opened ∧ text ≠ [] ∧ text.length ≤ tbComposeDraftLimit ∧ env.malloc then []
    else s.received
  | (.response .draftDone sequence response, _) =>
    if sequence ≠ s.compose.draftPending ∨ response.outcome = .cancelled then s.received
    else if Brings response then s.received ++ texts response.payload
    else []
  | _ => s.received

def step (event : Event × Env) : Drafting :=
  { compose := Composing.step s.compose event, received := s.receivedAfter event }

def Meets : Event × Env → Prop
  | (.response .draftDone sequence response, env) =>
    sequence = s.compose.draftPending → Brings response →
      DraftUnspliced env response.payload.length 0 s.received response.payload s.compose = true
  | _ => True

instance : ∀ event, Decidable (s.Meets event)
  | (.response .draftDone _ _, _) => inferInstanceAs (Decidable (_ → _))
  | (.response .templatesDone _ _, _) => inferInstanceAs (Decidable True)
  | (.open _, _) | (.loadTemplates, _) | (.pick _, _) | (.dictated _, _) | (.dropDraft, _)
  | (.close _, _) => inferInstanceAs (Decidable True)

def Shown : Prop := Shows s.compose.held s.received

end Drafting

variable {env : Env} {compose : TbCompose} {received : List (List UInt8)}

theorem textOf_ne {type : ℕ} (h : type ≠ tbRecordText) (body : TbCursor) : textOf type body = [] :=
  if_neg h

theorem draftRecord_shows (h : Shows compose.held received) {type : ℕ} {body : TbCursor}
    (htakes : TakesRecord received compose type body = true) (index : ℕ) :
    Shows (compose.draftRecord env index type body).held (received ++ textOf type body) := by
  rw [TakesRecord] at htakes
  rw [TbCompose.draftRecord]
  split
  · rename_i hdraft
    rw [if_pos hdraft, decide_eq_true_eq] at htakes
    rw [textOf_ne (by rw [hdraft]; decide), append_nil]
    cases hrecord : tbCodecDraft body with
    | none => exact h
    | some record =>
      have hheld : (compose.headed record (env.calloc index)).held = [] := by
        rw [TbCompose.held, TbCompose.headed]
        split
        · rfl
        · rfl
      rw [hheld]
      exact Shows.none received
  · rename_i hdraft
    rw [if_neg hdraft] at htakes
    split
    · rename_i htext
      rw [if_pos htext] at htakes
      rw [textOf, if_pos htext]
      cases hbuffer : compose.text with
      | none =>
        have hheld : compose.held = [] := by rw [TbCompose.held, hbuffer]; rfl
        rw [hheld]
        exact Shows.none _
      | some text =>
        have hheld : compose.held = text := by rw [TbCompose.held, hbuffer]; rfl
        rw [hheld] at h
        cases hpart : tbCodecText body with
        | none =>
          show Shows compose.held (received ++ [])
          rw [hheld, append_nil]
          exact h
        | some part =>
          rw [hbuffer, hpart] at htakes
          simp only [decide_eq_true_eq] at htakes
          obtain ⟨hwhole, hcount⟩ := htakes
          have hfit := cutTo_le (compose.textBytes compose.draftBytes + 3 - text.length - 1) part
          rw [← tbUtf8Fit_eq] at hfit
          change compose.fitting text part ≤ _ ∧ _ at hfit
          have hlength : (text ++ part.take (compose.fitting text part)).length < 65536 := by
            rw [length_append, length_take, Nat.min_eq_left hfit.1]
            exact hcount
          show Shows ((text ++ part.take (compose.fitting text part)).take
            ((text ++ part.take (compose.fitting text part)).length % 65536)) (received ++ [part])
          rw [Nat.mod_eq_of_lt hlength, take_length]
          rcases hwhole with hall | hnone
          · refine Shows.take hall fun byte hbyte hpos => ?_
            exact tbUtf8Fit_boundary hbyte hpos
          · rw [hnone, take_zero, append_nil]
            exact h.skip part
    · rename_i htext
      rw [textOf_ne htext, append_nil]
      exact h

theorem draftLoop_shows {fuel index : ℕ} {cursor : TbCursor} (h : Shows compose.held received)
    (hunspliced : DraftUnspliced env fuel index received cursor compose = true) :
    Shows (compose.draftLoop env fuel index cursor).held (received ++ textsLoop fuel cursor) := by
  induction fuel generalizing index cursor compose received with
  | zero =>
    rw [textsLoop, append_nil]
    exact h
  | succ fuel ih =>
    rw [TbCompose.draftLoop, textsLoop]
    rw [DraftUnspliced] at hunspliced
    cases hnext : tbCodecNext cursor with
    | none =>
      rw [append_nil]
      exact h
    | some record =>
      obtain ⟨type, body, cursor⟩ := record
      rw [hnext, Bool.and_eq_true] at hunspliced
      rw [← append_assoc]
      exact ih (draftRecord_shows h hunspliced.1 index) hunspliced.2

/-! The templates leave the draft alone. -/

theorem text_loadTemplates (compose : TbCompose) :
    (compose.loadTemplates env).text = compose.text := by
  rw [TbCompose.loadTemplates]
  split
  · rfl
  · dsimp only
    split
    · rfl
    · rfl

theorem text_templatesLoop (fuel index : ℕ) (cursor : TbCursor) (compose : TbCompose) :
    (compose.templatesLoop env fuel index cursor).text = compose.text := by
  induction fuel generalizing index cursor compose with
  | zero => rfl
  | succ fuel ih =>
    rw [TbCompose.templatesLoop]
    cases tbCodecNext cursor with
    | none => rfl
    | some record =>
      obtain ⟨type, body, cursor⟩ := record
      refine (ih ..).trans ?_
      split
      · cases tbCodecTemplates body with
        | none => rfl
        | some header => rfl
      · split
        · cases compose.previews with
          | none => rfl
          | some previews =>
            cases tbCodecTemplate body with
            | none => rfl
            | some item =>
              show (compose.previewed previews item).text = compose.text
              rw [TbCompose.previewed]
              split
              · rfl
              · rfl
        · rfl

theorem text_templatesDone (sequence : ℕ) (response : TbResponse) (compose : TbCompose) :
    (compose.templatesDone env sequence response).text = compose.text := by
  rw [TbCompose.templatesDone]
  split
  · rfl
  · split
    · rfl
    · split
      · exact text_templatesLoop ..
      · exact text_templatesLoop ..

theorem held_requestDraft (compose : TbCompose) : (compose.requestDraft env).held = [] := by
  rw [TbCompose.held, TbCompose.requestDraft]
  split
  · rfl
  · rfl

theorem dictated_cases (compose : TbCompose) (text : List UInt8) :
    (compose.takeDictated env text).held = [] ∨
      (¬ (compose.opened ∧ text ≠ [] ∧ text.length ≤ tbComposeDraftLimit ∧ env.malloc) ∧
        (compose.takeDictated env text).held = compose.held) := by
  rw [TbCompose.takeDictated]
  split
  · rename_i hnone
    refine .inr ⟨fun hall => ?_, rfl⟩
    exact hnone.elim (fun h => h hall.1) hall.2.1
  · split
    · exact .inl rfl
    · split
      · rename_i hmalloc
        exact .inr ⟨fun hall => hmalloc hall.2.2.2, rfl⟩
      · exact .inl (held_requestDraft _)

theorem draftDone_cases {response : TbResponse} (hkept : response.outcome ≠ .cancelled) :
    (Brings response ∧ (compose.draftDone env compose.draftPending response).text =
        (compose.draftLoop env response.payload.length 0 response.payload).text) ∨
      (¬ Brings response ∧ (compose.draftDone env compose.draftPending response).held = []) := by
  rw [TbCompose.draftDone, if_neg (by simp [hkept])]
  split
  · rename_i hbad
    refine .inr ⟨fun hbrings => hbad.elim (fun h => h hbrings.1) fun h => h hbrings.2, ?_⟩
    dsimp only
    split
    · rw [TbCompose.held, text_loadTemplates]
      rfl
    · rfl
  · rename_i hgood
    push Not at hgood
    refine .inl ⟨hgood, ?_⟩
    dsimp only
    split
    · split
      · rfl
      · rfl
    · rfl

variable {s : Drafting}

/-- **Whatever happens**, what is held of the draft stays a piece of what has been received. -/
theorem shown_step {event : Event × Env} (h : s.Shown) (hmeets : s.Meets event) :
    (s.step event).Shown := by
  have hsame : ∀ {after : TbCompose}, after.text = s.compose.text → Shows after.held s.received := by
    intro after htext
    rw [TbCompose.held, htext]
    exact h
  have hnone : ∀ {held : List UInt8} {parts : List (List UInt8)}, held = [] → Shows held parts := by
    rintro _ parts rfl
    exact Shows.none parts
  obtain ⟨event, env⟩ := event
  cases event with
  | «open» target =>
    show Shows (s.compose.open env target).held s.received
    rw [TbCompose.open]
    split
    · exact h
    · rw [TbCompose.held, text_loadTemplates]
      exact Shows.none _
  | loadTemplates => exact hsame (text_loadTemplates _)
  | pick index =>
    show Shows (s.compose.pick env index).held (if _ then _ else _)
    rw [TbCompose.pick]
    split
    · exact h
    · exact hnone (held_requestDraft _)
  | dictated text =>
    show Shows (s.compose.takeDictated env text).held (if _ then _ else _)
    rcases @dictated_cases env s.compose text with hempty | ⟨hrefused, hheld⟩
    · exact hnone hempty
    · rw [if_neg hrefused, hheld]
      exact h
  | dropDraft => exact Shows.none _
  | close keepDraft =>
    cases keepDraft with
    | true | false => exact Shows.none _
  | response callback sequence response =>
    cases callback with
    | templatesDone => exact hsame (text_templatesDone ..)
    | draftDone =>
      show Shows (s.compose.draftDone env sequence response).held
        (if sequence ≠ s.compose.draftPending ∨ response.outcome = .cancelled then s.received
          else if Brings response then s.received ++ texts response.payload else [])
      by_cases hstale : sequence ≠ s.compose.draftPending ∨ response.outcome = .cancelled
      · rw [TbCompose.draftDone, if_pos hstale, if_pos hstale]
        exact h
      · rw [if_neg hstale]
        push Not at hstale
        obtain ⟨rfl, hkept⟩ := hstale
        rcases @draftDone_cases env s.compose response hkept with ⟨hbrings, htext⟩ | ⟨hrefused, hheld⟩
        · rw [if_pos hbrings, TbCompose.held, htext]
          exact draftLoop_shows h (hmeets rfl hbrings)
        · exact hnone hheld

end Composing

end Watch
