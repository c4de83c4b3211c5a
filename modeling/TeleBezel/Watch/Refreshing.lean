import TeleBezel.Watch.ChatsArmed
import TeleBezel.Watch.HistoryArmed

/-!
# Views that refresh themselves

The history of a chat and the chat list refresh themselves while they are shown, each by a timer of its
port. Both keep it going through every answer; both lose it to a submission that fails at once.
-/

namespace Watch

open Transition

/-- **Automatic refresh does not die.** In every run of the history in which no submission that fails
at once is made without the timer, one of the due times is set and the timer is armed for the earliest
of them whenever the view is active, loaded, whole and idle; and the timer of the chat list is armed
whenever the list is active, loaded and idle exactly in such runs. -/
theorem refreshing_of_run (historyConfig : HistoryView.TbHistoryConfig)
    (historyEvents : List (HistoryView.Event × HistoryView.Env))
    (chatsConfig : ChatsView.TbChatsConfig) (chatsEvents : List (ChatsView.Event × ChatsView.Env)) :
    (check (HistoryView.step historyConfig) (HistoryView.TbHistory.Rearmed historyConfig) {}
        historyEvents = true →
      ∀ before, before <+: historyEvents →
        (before.foldl (HistoryView.step historyConfig) {}).Alive historyConfig) ∧
      ((∀ before, before <+: chatsEvents →
          (before.foldl (ChatsView.step chatsConfig) {}).Alive chatsConfig) ↔
        check (ChatsView.step chatsConfig) (ChatsView.TbChats.Rearmed chatsConfig) {} chatsEvents =
          true) := by
  refine ⟨fun hcheck before hbefore => ?_, ?_⟩
  · have hstep : ∀ history, ∀ event ∈ historyEvents,
        (history.Sound ∧ HistoryView.TbHistory.Live historyConfig history) →
        HistoryView.TbHistory.Rearmed historyConfig history event →
          (HistoryView.step historyConfig history event).Sound ∧
            (HistoryView.step historyConfig history event).Live historyConfig := by
      rintro history event - ⟨hsound, hlive⟩ hrearmed
      exact ⟨HistoryView.TbHistory.sound_step hsound event,
        HistoryView.TbHistory.live_step hsound hlive hrearmed⟩
    obtain ⟨-, hlive⟩ := always_of_check (HistoryView.step historyConfig) hstep
      ⟨HistoryView.TbHistory.sound_init, HistoryView.TbHistory.live_init⟩ hcheck before hbefore
    exact hlive.alive
  · refine @always_iff_check _ _ (ChatsView.step chatsConfig) _ _
      (fun chats => chats.Sound chatsConfig ∧ chats.Alive chatsConfig) _
      (fun chats event h => ChatsView.TbChats.alive_step_iff h.1 h.2 event) ?_ _ ?_ ?_ chatsEvents
    · exact fun chats event h hrearmed => ⟨ChatsView.TbChats.sound_step h.1 event,
        (ChatsView.TbChats.alive_step_iff h.1 h.2 event).mpr hrearmed⟩
    · exact ⟨ChatsView.TbChats.sound_init, fun hwatched => nomatch hwatched.active⟩
    · exact fun hwatched => nomatch hwatched.active

/-- A chat is opened and its first page arrives; a minute later the timer runs out while nothing can
be submitted. -/
def historyDies : List (HistoryView.Event × HistoryView.Env) :=
  HistoryView.olderAsked.take 2 ++
    [(.timer, { HistoryView.sampleEnv 0 with now := fun _ => 61000 })]

attribute [local instance] HistoryView.neZero_one in
/-- A list that refreshes itself every minute is opened and its page arrives; a minute later the timer
runs out while nothing can be submitted. -/
def chatsDie : List (ChatsView.Event × ChatsView.Env) :=
  [(.open [0x61] 0, ⟨⟨1, .timeout⟩, fun _ => 1, fun _ _ => true⟩),
    (.response 1 { outcome := .response } 0, ⟨⟨2, .timeout⟩, fun _ => 1, fun _ _ => true⟩),
    (.timer, ⟨⟨0, .timeout⟩, fun _ => 61000, fun _ _ => true⟩)]

/-- Both views lose their timer to a submission that fails at once. -/
theorem timers_lost :
    ¬ (historyDies.foldl (HistoryView.step HistoryView.sampleConfig) {}).Alive
        HistoryView.sampleConfig ∧
      ¬ (chatsDie.foldl (ChatsView.step ⟨80, 100, 8192, 60000, 0⟩) {}).Alive
        ⟨80, 100, 8192, 60000, 0⟩ := by
  refine ⟨fun h => ?_, fun h => ?_⟩
  · have hwatched : (historyDies.foldl (HistoryView.step HistoryView.sampleConfig) {}).Watched
        HistoryView.sampleConfig := by decide +kernel
    have harmed := (h hwatched (by decide +kernel)).2
    revert harmed
    decide +kernel
  · have hwatched : (chatsDie.foldl (ChatsView.step ⟨80, 100, 8192, 60000, 0⟩) {}).Watched
        ⟨80, 100, 8192, 60000, 0⟩ := by decide +kernel
    obtain ⟨reading, htimer⟩ := h hwatched (by decide +kernel)
    have hnone : (chatsDie.foldl (ChatsView.step ⟨80, 100, 8192, 60000, 0⟩) {}).timer = none := by
      decide +kernel
    cases hnone.symm.trans htimer

end Watch
