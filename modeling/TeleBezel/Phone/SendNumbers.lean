import TeleBezel.Phone.SendIndex

/-!
# The numbers of the attempts

Which attempts of which drafts the phone has entries of, in memory or in storage. Only a SEND
request adds one, and the one it names.
-/

open List

namespace Phone

open Compose Function

variable {M : ℕ → ℕ → Prop} {c c' : Compose} {env : Env}

def Holds (c : Compose) (draftId attempt : ℕ) : Prop :=
  (∃ ref, c.slot draftId attempt = some ref) ∨
    (∃ ref ∈ c.entries, (c.heap ref).draftId = draftId ∧ (c.heap ref).attempt = attempt) ∨
    ∃ stored ∈ c.sends, stored.draftId = draftId ∧ stored.attempt = attempt

/-- All entries are of attempts with a property; entries exist, and drafts are filed under their
number. -/
structure Only (M : ℕ → ℕ → Prop) (c : Compose) : Prop where
  live : ∀ ref ∈ c.entries, ref < c.next
  ids : ∀ draftId draft, c.drafts draftId = some draft → draft.id = draftId
  slots : ∀ draftId attempt ref, c.slot draftId attempt = some ref → M draftId attempt
  entries : ∀ ref ∈ c.entries, M (c.heap ref).draftId (c.heap ref).attempt
  sends : ∀ stored ∈ c.sends, M stored.draftId stored.attempt

namespace Only

section

variable (h : Only M c)
include h

theorem congr (hview : (fun ref => (c'.heap ref).toIdentity, c'.next, c'.entries, c'.drafts,
    c'.sends) = (fun ref => (c.heap ref).toIdentity, c.next, c.entries, c.drafts, c.sends)) :
    Only M c' := by
  simp only [Prod.mk.injEq] at hview
  obtain ⟨hheap, hnext, hentries, hdrafts, hsends⟩ := hview
  simp only [funext_iff] at hheap
  exact
    { live := by rw [hentries, hnext]; exact h.live
      ids := by rw [hdrafts]; exact h.ids
      slots := fun draftId attempt ref hslot => by
        rw [slot, hdrafts] at hslot
        exact h.slots draftId attempt ref hslot
      entries := fun ref href => by
        rw [hentries] at href
        rw [hheap ref]
        exact h.entries ref href
      sends := by rw [hsends]; exact h.sends }

theorem mono {N : ℕ → ℕ → Prop} (hle : ∀ d n, M d n → N d n) : Only N c where
  live := h.live
  ids := h.ids
  slots := fun d n ref hslot => hle d n (h.slots d n ref hslot)
  entries := fun ref href => hle _ _ (h.entries ref href)
  sends := fun stored hstored => hle _ _ (h.sends stored hstored)

variable (ref : ℕ)

theorem modify (f : Entry → Entry)
    (hf : (f (c.heap ref)).toIdentity = (c.heap ref).toIdentity) : Only M (c.modify ref f) := by
  refine h.congr (Prod.ext (funext fun other => ?_) rfl)
  dsimp only
  rw [modify_heap, update_apply]
  split
  · rename_i heq
    rw [hf, heq]
  · rfl

theorem persist : Only M (c.persist env) where
  live := h.live
  ids := h.ids
  slots := h.slots
  entries := h.entries
  sends := by
    intro stored hstored
    rw [persist_sends] at hstored
    split at hstored
    · obtain ⟨entry, hentry, rfl⟩ := mem_map.mp hstored
      obtain ⟨ref, href, rfl⟩ := mem_map.mp (mem_of_mem_filter hentry)
      exact h.entries ref href
    · exact h.sends stored hstored

theorem restore (stored : Stored) (hstored : M stored.draftId stored.attempt) :
    Only M (c.restore stored) where
  live := by
    intro ref href
    rw [restore_entries] at href
    rw [restore_next]
    rcases mem_append.mp href with hold | hnew
    · exact (h.live ref hold).trans (Nat.lt_succ_self _)
    · rw [mem_singleton.mp hnew]
      exact Nat.lt_succ_self _
  ids := by
    intro draftId draft hdraft
    rw [restore_drafts, update_apply] at hdraft
    split at hdraft
    · rename_i heq
      obtain rfl := Option.some.inj hdraft
      cases hold : c.drafts stored.draftId with
      | none => exact heq.symm
      | some old => exact (h.ids stored.draftId old hold).trans heq.symm
    · exact h.ids draftId draft hdraft
  slots := by
    intro draftId attempt ref hslot
    rw [slot_restore] at hslot
    split at hslot
    · rename_i hsame
      rw [hsame.1, hsame.2]
      exact hstored
    · exact h.slots draftId attempt ref hslot
  entries := by
    intro ref href
    rw [restore_entries] at href
    rw [restore_heap]
    rcases mem_append.mp href with hold | hnew
    · rw [update_of_ne (h.live ref hold).ne]
      exact h.entries ref hold
    · rw [mem_singleton.mp hnew, update_self]
      exact hstored
  sends := h.sends

theorem load : Only M (c.load env) := by
  unfold Compose.load
  split
  · exact h
  · have hfold : ∀ (stored : List Stored) (c : Compose), Only M c →
        (∀ one ∈ stored, M one.draftId one.attempt) → Only M (stored.foldl Compose.restore c) := by
      intro stored
      induction stored with
      | nil => exact fun c hc _ => hc
      | cons first rest ih =>
        intro c hc hall
        exact ih _ (hc.restore first (hall first mem_cons_self))
          fun one hone => hall one (mem_cons_of_mem _ hone)
    refine (hfold _ _ ?_ ?_).persist
    · exact ⟨nofun, h.ids, h.slots, nofun, h.sends⟩
    · intro stored hstored
      unfold restorable at hstored
      split at hstored
      · exact h.sends stored (mem_of_mem_filter hstored)
      · exact absurd hstored (by simp)

theorem forget (ref : ℕ) : Only M (c.forget ref) where
  live := fun other hother => h.live other (mem_of_mem_filter hother)
  ids := by
    intro draftId draft hdraft
    rw [forget_drafts] at hdraft
    cases hold : c.drafts (c.heap ref).draftId with
    | none =>
      rw [hold] at hdraft
      exact h.ids draftId draft hdraft
    | some old =>
      rw [hold] at hdraft
      dsimp only at hdraft
      split at hdraft
      · rw [update_apply] at hdraft
        split at hdraft
        · rename_i heq
          obtain rfl := Option.some.inj hdraft
          exact (h.ids _ old hold).trans heq.symm
        · exact h.ids draftId draft hdraft
      · exact h.ids draftId draft hdraft
  slots := fun d n other hslot => h.slots d n other (Sound.slot_of_slot_forget hslot)
  entries := fun other hother => h.entries other (mem_of_mem_filter hother)
  sends := h.sends

theorem checked (next : Next) : Only M (c.checked env ref next) :=
  Compose.checked_rule (fun _ h => h.congr rfl) (fun h => h.modify ref _ rfl)
    (fun h => h.modify ref _ rfl) h next

theorem receive (operation : Operation) :
    Only M (c.receive ref operation) := by
  have hheard : Only M (c.hearOperation ref operation) :=
    h.congr rfl
  exact hheard.modify ref _ (Entry.toIdentity_apply _ _)

theorem receiveAnswer (operation : Option Operation) :
    Only M (c.receiveAnswer ref operation) := by
  cases operation with
  | none => exact h
  | some operation => exact h.receive ref operation

theorem finish (dispatch : Dispatch) (code : Option ResultCode) :
    Only M (c.finish env dispatch code) := by
  unfold Compose.finish
  split
  · have hdropped : Only M (c.dropWaiters dispatch.ref) := h.modify _ _ rfl
    have hstored : Only M (((c.dropWaiters dispatch.ref).forget dispatch.ref).persist env) :=
      (hdropped.forget dispatch.ref).persist
    exact hstored.congr rfl
  · have hdropped : Only M ((c.persist env).dropWaiters dispatch.ref) := h.persist.modify _ _ rfl
    exact hdropped.congr rfl
  · exact h.persist.checked _ _

theorem answerPost (dispatch : Dispatch) (result : ApiResult) :
    Only M (c.answerPost env dispatch result) := by
  cases result with
  | ok operation => exact (h.receiveAnswer dispatch.ref operation).finish dispatch none
  | error status code retryAfter =>
    have hheard : Only M (c.hear (.lost (c.heap dispatch.ref).key)) :=
      h.congr rfl
    simp only [Compose.answerPost, Compose.lostPost, Compose.refusedPost]
    split
    · split
      · exact hheard.congr rfl
      · exact (hheard.modify dispatch.ref Entry.setUnknown rfl).finish dispatch none
    · split
      · exact (h.modify dispatch.ref _ rfl).finish dispatch none
      · exact (h.modify dispatch.ref _ rfl).finish dispatch _

theorem take (i : ℕ) : Only M (c.take i) := h.congr rfl

theorem readStatus (result : ApiResult) :
    Only M (c.readStatus ref result) := by
  cases result with
  | ok operation => exact h.receiveAnswer ref operation
  | error status code retryAfter =>
    simp only [Compose.readStatus]
    split
    · exact h.modify ref Entry.setUnknown rfl
    · exact h

theorem addDraft (sequence : ℕ) (payload : DraftPayload) (text : JsString) :
    Only M (c.addDraft env sequence payload text) where
  live := h.live
  ids := by
    intro draftId draft hdraft
    simp only [Compose.addDraft, Compose.respond_drafts, update_apply] at hdraft
    split at hdraft
    · rename_i heq
      obtain rfl := Option.some.inj hdraft
      exact heq.symm
    · exact h.ids draftId draft hdraft
  slots := by
    intro d n ref hslot
    rw [Compose.slot] at hslot
    simp only [Compose.addDraft, Compose.respond_drafts, update_apply] at hslot
    split at hslot
    · exact absurd hslot (by simp [Compose.newDraft])
    · exact h.slots d n ref hslot
  entries := h.entries
  sends := h.sends

theorem discardEntry : Only M (c.discardEntry ref) := by
  unfold Compose.discardEntry
  split
  · exact (h.modify ref Entry.discard rfl).forget ref
  · exact h

theorem dropDraft (draftId : ℕ) : Only M (c.dropDraft draftId) := by
  unfold Compose.dropDraft
  split
  · refine ⟨h.live, ?_, ?_, h.entries, h.sends⟩
    · intro d draft hdraft
      simp only [update_apply] at hdraft
      split at hdraft
      · exact absurd hdraft (by simp)
      · exact h.ids d draft hdraft
    · intro d n ref hslot
      simp only [slot, update_apply] at hslot
      split at hslot
      · exact absurd hslot (by simp)
      · exact h.slots d n ref hslot
  · exact h

end

end Only

theorem closed_only (first : Compose) (e : Env × Event)
    (hsend : ∀ sequence payload, e.2 ≠ .send sequence payload) :
    Closed first e fun _ c => Only M c where
  say _ _ h := h.congr rfl
  persist _ h := h.persist
  load _ h := h.load
  track ref _ h := h.modify ref _ rfl
  setChecking ref _ _ h := h.modify ref _ rfl
  join _ _ h _ _ := h.modify _ _ rfl
  receive operation _ h _ _ := h.receive _ operation
  status _ _ h _ _ _ := h.congr rfl
  checkDispatch _ _ _ h _ _ _ _ := h.congr rfl
  enter _ _ _ _ _ hevent _ _ _ _ := by
    obtain ⟨sequence, payload, heq⟩ := hevent
    exact absurd heq (hsend sequence payload)
  sendDispatch _ _ h := h.congr rfl
  wait _ _ h := h.congr rfl
  addDraft sequence payload text _ _ h _ _ := h.addDraft sequence payload text
  polled _ h _ := h.take _
  timer _ h _ := h.congr rfl
  readStatus result _ h _ := (h.take _).readStatus _ result
  posted _ h _ _ := (h.take _).answerPost _ _
  discardEntry _ _ ref _ _ h := h.discardEntry ref
  dropDraft _ draftId _ _ h := h.dropDraft draftId
  clear _ _ h := by
    refine ⟨nofun, nofun, nofun, nofun, ?_⟩
    intro stored hstored
    simp only [clear] at hstored
    split at hstored
    · exact absurd hstored (by simp)
    · exact h.sends stored hstored
  restart _ _ h := ⟨nofun, nofun, nofun, nofun, h.sends⟩

theorem only_step (h : Only M c) (e : Env × Event)
    (hsend : ∀ sequence payload, e.2 ≠ .send sequence payload) : Only M (c.step e) :=
  (closed_only c e hsend).step h

theorem Only.enter (h : Only M c) {draftId attempt : ℕ} {found : Draft} (sequence : ℕ)
    (value : Settings) (hfound : c.drafts draftId = some found) (hnew : M draftId attempt) :
    Only M (c.enter env found attempt sequence value) := by
  obtain rfl := h.ids draftId found hfound
  refine Only.persist ⟨?_, ?_, ?_, ?_, h.sends⟩
  · intro ref href
    rw [add_entries] at href
    rw [add_next]
    rcases mem_append.mp href with hold | hlast
    · exact (h.live ref hold).trans (Nat.lt_succ_self _)
    · rw [mem_singleton.mp hlast]
      exact Nat.lt_succ_self _
  · intro d draft hdraft
    rw [add_drafts, update_apply] at hdraft
    split at hdraft
    · rename_i heq
      obtain rfl := Option.some.inj hdraft
      exact heq.symm
    · exact h.ids d draft hdraft
  · intro d n ref hslot
    rw [slot_add hfound] at hslot
    split at hslot
    · rename_i hsame
      rw [hsame.1, hsame.2]
      exact hnew
    · exact h.slots d n ref hslot
  · intro ref href
    rw [add_entries] at href
    rw [add_heap]
    rcases mem_append.mp href with hold | hlast
    · rw [update_of_ne (h.live ref hold).ne]
      exact h.entries ref hold
    · rw [mem_singleton.mp hlast, update_self]
      exact hnew

theorem only_send (h : Only M c) (sequence : ℕ) (payload : SendPayload)
    (hnew : M payload.draftId (attemptOf payload)) :
    Only M (c.send env sequence payload) := by
  have hload : Only M (c.load env) := h.load
  unfold send
  dsimp only
  split
  · exact hload.congr rfl
  · rename_i found hfound
    unfold sendDraft
    split
    · exact hload.congr rfl
    · split
      · exact hload.congr rfl
      · split
        · rename_i ref _
          unfold join
          split
          · exact hload.modify ref _ rfl
          · exact hload.congr rfl
        · unfold sendNew
          split
          · exact hload.congr rfl
          · split
            · exact hload.congr rfl
            · rename_i value _
              have henter : Only M ((c.load env).enter env found (attemptOf payload)
                  sequence value) := hload.enter sequence value hfound hnew
              unfold begin
              split
              · exact henter.congr rfl
              · exact henter.congr rfl

theorem Only.holds (h : Only M c) : Only (Holds c) c where
  live := h.live
  ids := h.ids
  slots := fun _ _ ref hslot => Or.inl ⟨ref, hslot⟩
  entries := fun ref href => Or.inr (Or.inl ⟨ref, href, rfl, rfl⟩)
  sends := fun stored hstored => Or.inr (Or.inr ⟨stored, hstored, rfl, rfl⟩)

theorem Holds.of_only {draftId attempt : ℕ} (h : Holds c draftId attempt) (honly : Only M c) :
    M draftId attempt := by
  rcases h with ⟨ref, hslot⟩ | ⟨ref, href, rfl, rfl⟩ | ⟨stored, hstored, rfl, rfl⟩
  · exact honly.slots draftId attempt ref hslot
  · exact honly.entries ref href
  · exact honly.sends stored hstored

end Phone
