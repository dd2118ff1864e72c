import Mathlib.Data.List.Perm.Basic
import ShuttleFlow.Llm.Message

/-! # Tool calls and their results in a list of messages

The results of the tool calls of a message come right after it. A scan that
keeps the calls still waiting for their result decides this.
-/

namespace ShuttleFlow

open scoped List

/-- The ids of the tool calls an assistant message makes. -/
def Message.openedCalls (message : Message) : List ToolCallID :=
  if message.role = .assistant then message.calls.map MessageToolCall.id else []

/-- Each assistant message with tool calls is followed at once by one tool
message for each of its calls, and there are no other tool messages. -/
inductive WellPaired : List Message → Prop
  | nil : WellPaired []
  | cons {message : Message} {results rest : List Message} :
      message.role ≠ .tool → (∀ result ∈ results, result.role = .tool) →
      results.map Message.toolCallId ~ message.openedCalls.map some →
      WellPaired rest → WellPaired (message :: (results ++ rest))

/-- The calls that wait for a result after one more message. There is no result
for a tool message that is out of place, or for another one that comes too early. -/
def pairingStep (waiting : List ToolCallID) (message : Message) : Option (List ToolCallID) :=
  if message.role = .tool then
    match message.toolCallId with
    | some id => if id ∈ waiting then some (waiting.erase id) else none
    | none => none
  else if waiting = [] then some message.openedCalls else none

def waitingAfter (waiting : List ToolCallID) (messages : List Message) :
    Option (List ToolCallID) :=
  messages.foldlM pairingStep waiting

@[simp] theorem waitingAfter_nil (waiting : List ToolCallID) :
    waitingAfter waiting [] = some waiting := rfl

theorem waitingAfter_cons (waiting : List ToolCallID) (message : Message)
    (messages : List Message) :
    waitingAfter waiting (message :: messages) =
      (pairingStep waiting message).bind (waitingAfter · messages) := by
  simp [waitingAfter, Option.bind_eq_bind]

theorem waitingAfter_append (waiting : List ToolCallID) (first second : List Message) :
    waitingAfter waiting (first ++ second) =
      (waitingAfter waiting first).bind (waitingAfter · second) := by
  simp [waitingAfter, List.foldlM_append, Option.bind_eq_bind]

theorem pairingStep_result {waiting : List ToolCallID} {result : Message} {id : ToolCallID}
    (hrole : result.role = .tool) (hid : result.toolCallId = some id) (hmem : id ∈ waiting) :
    pairingStep waiting result = some (waiting.erase id) := by
  simp [pairingStep, hrole, hid, hmem]

theorem pairingStep_other {message : Message} (hrole : message.role ≠ .tool) :
    pairingStep [] message = some message.openedCalls := by
  simp [pairingStep, hrole]

theorem pairingStep_early {waiting : List ToolCallID} {message : Message}
    (hrole : message.role ≠ .tool) (hwaiting : waiting ≠ []) :
    pairingStep waiting message = none := by
  simp [pairingStep, hrole, hwaiting]

/-- Results for all waiting calls, in any order, leave nothing waiting. -/
theorem waitingAfter_results {waiting : List ToolCallID} {results : List Message}
    (hroles : ∀ result ∈ results, result.role = .tool)
    (hperm : results.map Message.toolCallId ~ waiting.map some) :
    waitingAfter waiting results = some [] := by
  induction results generalizing waiting with
  | nil =>
      obtain rfl := List.map_eq_nil_iff.mp hperm.nil_eq.symm
      rfl
  | cons result results ih =>
      rw [List.map_cons] at hperm
      obtain ⟨id, hmem, hid⟩ := List.mem_map.mp (hperm.subset List.mem_cons_self)
      rw [waitingAfter_cons, pairingStep_result (hroles _ List.mem_cons_self) hid.symm hmem,
        Option.bind_some]
      refine ih (fun other hother => hroles other (.tail _ hother)) ?_
      have hrest : (some id :: results.map Message.toolCallId) ~
          some id :: (waiting.erase id).map some := by
        rw [hid]
        refine hperm.trans ?_
        rw [← hid]
        exact (List.perm_cons_erase hmem).map some
      exact hrest.cons_inv

/-- Where nothing is left waiting, the results come first. -/
theorem exists_results {waiting : List ToolCallID} {messages : List Message}
    (hafter : waitingAfter waiting messages = some []) :
    ∃ results rest, messages = results ++ rest ∧ (∀ result ∈ results, result.role = .tool) ∧
      results.map Message.toolCallId ~ waiting.map some ∧ WellPaired rest := by
  induction messages generalizing waiting with
  | nil =>
      obtain rfl := Option.some.inj hafter
      exact ⟨[], [], rfl, by simp, .refl _, .nil⟩
  | cons message messages ih =>
      rw [waitingAfter_cons] at hafter
      obtain ⟨next, hstep, hrest⟩ := Option.bind_eq_some_iff.mp hafter
      obtain ⟨results, rest, rfl, hroles, hperm, hpaired⟩ := ih hrest
      by_cases hrole : message.role = .tool
      · -- one more result
        simp only [pairingStep, hrole, if_true] at hstep
        split at hstep
        next id hid =>
          split at hstep
          next hmem =>
            obtain rfl := Option.some.inj hstep
            refine ⟨message :: results, rest, rfl, ?_, ?_, hpaired⟩
            · intro result hresult
              rcases List.mem_cons.mp hresult with rfl | hresult
              · exact hrole
              · exact hroles result hresult
            · rw [List.map_cons, hid]
              exact (hperm.cons _).trans ((List.perm_cons_erase hmem).map some).symm
          next => cases hstep
        next => cases hstep
      · by_cases hwaiting : waiting = []
        · subst hwaiting
          rw [pairingStep_other hrole] at hstep
          obtain rfl := Option.some.inj hstep
          exact ⟨[], _, rfl, by simp, .refl _, .cons hrole hroles hperm hpaired⟩
        · rw [pairingStep_early hrole hwaiting] at hstep
          cases hstep

/-- The scan decides whether messages are well paired. -/
theorem wellPaired_iff {messages : List Message} :
    WellPaired messages ↔ waitingAfter [] messages = some [] := by
  constructor
  · intro hpaired
    induction hpaired with
    | nil => rfl
    | cons hrole hroles hperm _ ih =>
        rw [waitingAfter_cons, pairingStep_other hrole, Option.bind_some, waitingAfter_append,
          waitingAfter_results hroles hperm, Option.bind_some, ih]
  · intro hafter
    obtain ⟨results, rest, rfl, -, hperm, hpaired⟩ := exists_results hafter
    obtain rfl := List.map_eq_nil_iff.mp hperm.eq_nil
    exact hpaired

instance (messages : List Message) : Decidable (WellPaired messages) :=
  decidable_of_iff _ wellPaired_iff.symm

end ShuttleFlow
