import ShuttleFlow.Llm.ToolCallSplit

/-! # What the pieces of messages keep

The pieces go out in the order of the results. A content is with the piece of the first call, so it
comes late when another call is answered first.
-/

namespace ShuttleFlow.ToolCallSplit

open scoped List

/-- What a list of messages with one call at most has of the messages it comes from. -/
structure SplitsCalls (messages converted : List FnMessage) : Prop where
  /-- A call is in one message, alone, and its result comes next. -/
  followed : ∀ message ∈ messages, ∀ call ∈ message.calls, ∃ before split result after,
    converted = before ++ split :: result :: after ∧ split.calls = [call] ∧
      result.role = .tool ∧ result.toolCallId = call.id ∧
      ∀ other ∈ before ++ after, call ∉ other.calls
  /-- No other call comes up. -/
  calls : (converted.flatMap FnMessage.calls).Perm (messages.flatMap FnMessage.calls)
  /-- The results and all the other messages stay, in their order. -/
  kept : (converted.filter fun message => message.calls.isEmpty) =
    messages.filter fun message => message.calls.isEmpty
  /-- The first piece of a message has its content, and no other has one. -/
  contents : ∀ message ∈ messages, message.calls ≠ [] → ∃ before first after,
    converted = before ++ first :: after ∧
      (∃ call ∈ message.calls, call ∈ first.calls) ∧
      first.content.getD [] = message.content.getD [] ∧
      (∀ other ∈ before, ∀ call ∈ message.calls, call ∉ other.calls) ∧
      ∀ other ∈ after, (∃ call ∈ message.calls, call ∈ other.calls) →
        other.content.getD [] = []

/-- The results of the calls come first, and if there is a content, then the result of the first
call before all others. -/
structure Round.Orderly (round : Round) : Prop where
  inTurn : InTurn round.message.calls round.results
  first : round.message.content.getD [] ≠ [] → ∀ call ∈ round.message.calls.head?,
    ∃ result ∈ round.results.head?, result.toolCallId = call.id

/-! ## The pieces of one message -/

section Emitted

variable {pieceOf : FnToolCall → FnMessage} {waiting : List FnToolCall}
  {results : List FnMessage}

theorem mem_emitted {other : FnMessage} (hother : other ∈ emitted pieceOf waiting results) :
    other ∈ results ∨ ∃ call ∈ waiting, other = pieceOf call := by
  induction results generalizing waiting with
  | nil => cases hother
  | cons result results ih =>
      unfold emitted at hother
      split at hother
      next call hfind =>
        rcases List.mem_cons.mp hother with rfl | hother
        · exact .inr ⟨call, List.mem_of_find?_eq_some hfind, rfl⟩
        rcases List.mem_cons.mp hother with rfl | hother
        · exact .inl List.mem_cons_self
        rcases ih hother with hmem | ⟨again, hagain, rfl⟩
        · exact .inl (List.mem_cons_of_mem _ hmem)
        · exact .inr ⟨again, List.mem_of_mem_erase hagain, rfl⟩
      next =>
        rcases List.mem_cons.mp hother with rfl | hother
        · exact .inl List.mem_cons_self
        · exact (ih hother).imp_left (List.mem_cons_of_mem _)

theorem notMem_calls_emitted {call : FnToolCall} {other : FnMessage}
    (hpiece : ∀ call, (pieceOf call).calls = [call])
    (hresults : ∀ result ∈ results, result.role = .tool) (hcall : call ∉ waiting)
    (hother : other ∈ emitted pieceOf waiting results) : call ∉ other.calls := by
  rcases mem_emitted hother with hmem | ⟨again, hagain, rfl⟩
  · rw [calls_of_tool (hresults other hmem)]
    exact List.not_mem_nil
  · rw [hpiece, List.mem_singleton]
    exact fun heq => hcall (heq ▸ hagain)

theorem emitted_followed {call : FnToolCall} (hpiece : ∀ call, (pieceOf call).calls = [call])
    (hresults : ∀ result ∈ results, result.role = .tool)
    (hdistinct : (waiting.map FnToolCall.id).Nodup)
    (hanswered : ∀ call ∈ waiting, ∃ result ∈ results, result.toolCallId = call.id)
    (hcall : call ∈ waiting) :
    ∃ before result after,
      emitted pieceOf waiting results = before ++ pieceOf call :: result :: after ∧
        result.role = .tool ∧ result.toolCallId = call.id ∧
        ∀ other ∈ before ++ after, call ∉ other.calls := by
  induction results generalizing waiting with
  | nil =>
      obtain ⟨_, hnone, -⟩ := hanswered call hcall
      cases hnone
  | cons result results ih =>
      have hlater := fun other hmem => hresults other (List.mem_cons_of_mem _ hmem)
      have htool := hresults result List.mem_cons_self
      have hnot : call ∉ result.calls := by
        rw [calls_of_tool htool]
        exact List.not_mem_nil
      unfold emitted
      split
      next first hfind =>
        have hfirst := List.mem_of_find?_eq_some hfind
        have hsame : first.id = result.toolCallId := by
          simpa using List.find?_some hfind
        by_cases heq : call = first
        · subst heq
          refine ⟨[], result, _, rfl, htool, hsame.symm, fun other hother => ?_⟩
          exact notMem_calls_emitted hpiece hlater (hdistinct.of_map _).not_mem_erase hother
        · obtain ⟨before, answer, after, hsplit, hrole, hid, halone⟩ := ih hlater
            (by rw [map_id_erase hdistinct hfirst]; exact hdistinct.erase _)
            (answered_erase hdistinct hanswered hfirst hsame)
            ((List.mem_erase_of_ne heq).mpr hcall)
          refine ⟨pieceOf first :: result :: before, answer, after, by rw [hsplit]; rfl, hrole,
            hid, ?_⟩
          refine List.forall_mem_cons.mpr ⟨?_, List.forall_mem_cons.mpr ⟨hnot, halone⟩⟩
          rwa [hpiece, List.mem_singleton]
      next hfind =>
        obtain ⟨before, answer, after, hsplit, hrole, hid, halone⟩ :=
          ih hlater hdistinct (answered_tail hanswered hfind) hcall
        exact ⟨result :: before, answer, after, by rw [hsplit]; rfl, hrole, hid,
          List.forall_mem_cons.mpr ⟨hnot, halone⟩⟩

theorem calls_emitted (hpiece : ∀ call, (pieceOf call).calls = [call])
    (hresults : ∀ result ∈ results, result.role = .tool)
    (hdistinct : (waiting.map FnToolCall.id).Nodup)
    (hanswered : ∀ call ∈ waiting, ∃ result ∈ results, result.toolCallId = call.id) :
    ((emitted pieceOf waiting results).flatMap FnMessage.calls).Perm waiting := by
  induction results generalizing waiting with
  | nil =>
      cases waiting with
      | nil => exact List.Perm.refl _
      | cons call waiting =>
          obtain ⟨_, hnone, -⟩ := hanswered call List.mem_cons_self
          cases hnone
  | cons result results ih =>
      have hlater := fun other hmem => hresults other (List.mem_cons_of_mem _ hmem)
      have hnone := calls_of_tool (hresults result List.mem_cons_self)
      unfold emitted
      split
      next call hfind =>
        have hcall := List.mem_of_find?_eq_some hfind
        have hsame : call.id = result.toolCallId := by
          simpa using List.find?_some hfind
        have hrest := ih hlater
          (by rw [map_id_erase hdistinct hcall]; exact hdistinct.erase _)
          (answered_erase hdistinct hanswered hcall hsame)
        rw [List.flatMap_cons, List.flatMap_cons, hpiece, hnone, List.nil_append]
        exact (hrest.cons call).trans (List.perm_cons_erase hcall).symm
      next hfind =>
        rw [List.flatMap_cons, hnone, List.nil_append]
        exact ih hlater hdistinct (answered_tail hanswered hfind)

theorem kept_emitted (hpiece : ∀ call, (pieceOf call).calls = [call])
    (hresults : ∀ result ∈ results, result.role = .tool) :
    ((emitted pieceOf waiting results).filter fun message => message.calls.isEmpty) =
      results := by
  induction results generalizing waiting with
  | nil => rfl
  | cons result results ih =>
      have hlater := fun other hmem => hresults other (List.mem_cons_of_mem _ hmem)
      have hnone := calls_of_tool (hresults result List.mem_cons_self)
      unfold emitted
      split
      next call hfind =>
        rw [List.filter_cons_of_neg (by simp [hpiece]), List.filter_cons_of_pos (by simp [hnone]),
          ih hlater]
      next => rw [List.filter_cons_of_pos (by simp [hnone]), ih hlater]

end Emitted

/-! ## The rounds together -/

section Combining

variable {messages later converted convertedLater results : List FnMessage}

theorem splitsCalls_self (hnone : ∀ message ∈ messages, message.calls = []) :
    SplitsCalls messages messages where
  followed := fun message hmessage call hcall => by
    rw [hnone message hmessage] at hcall
    cases hcall
  calls := List.Perm.refl _
  kept := rfl
  contents := fun message hmessage hcalls => absurd (hnone message hmessage) hcalls

theorem SplitsCalls.calls_iff (hsplits : SplitsCalls messages converted) {call : FnToolCall} :
    (∃ other ∈ converted, call ∈ other.calls) ↔ ∃ other ∈ messages, call ∈ other.calls := by
  rw [← List.mem_flatMap, ← List.mem_flatMap, hsplits.calls.mem_iff]

/-- Lists without common calls are split one after the other. -/
theorem SplitsCalls.append (hfirst : SplitsCalls messages converted)
    (hlater : SplitsCalls later convertedLater)
    (hdisjoint : ∀ message ∈ messages, ∀ other ∈ later, ∀ call ∈ message.calls,
      call ∉ other.calls) :
    SplitsCalls (messages ++ later) (converted ++ convertedLater) where
  followed := fun message hmessage call hcall => by
    rcases List.mem_append.mp hmessage with hmessage | hmessage
    · obtain ⟨before, split, result, after, rfl, hsplit, htool, hid, halone⟩ :=
        hfirst.followed message hmessage call hcall
      refine ⟨before, split, result, after ++ convertedLater, by simp, hsplit, htool, hid, ?_⟩
      rw [← List.append_assoc]
      refine List.forall_mem_append.mpr ⟨halone, fun other hother hmem => ?_⟩
      obtain ⟨source, hsource, hmem⟩ := hlater.calls_iff.mp ⟨other, hother, hmem⟩
      exact hdisjoint message hmessage source hsource call hcall hmem
    · obtain ⟨before, split, result, after, rfl, hsplit, htool, hid, halone⟩ :=
        hlater.followed message hmessage call hcall
      refine ⟨converted ++ before, split, result, after, by simp, hsplit, htool, hid, ?_⟩
      rw [List.append_assoc]
      refine List.forall_mem_append.mpr ⟨fun other hother hmem => ?_, halone⟩
      obtain ⟨source, hsource, hmem⟩ := hfirst.calls_iff.mp ⟨other, hother, hmem⟩
      exact hdisjoint source hsource message hmessage call hmem hcall
  calls := by
    rw [List.flatMap_append, List.flatMap_append]
    exact hfirst.calls.append hlater.calls
  kept := by rw [List.filter_append, List.filter_append, hfirst.kept, hlater.kept]
  contents := fun message hmessage hcalls => by
    rcases List.mem_append.mp hmessage with hmessage | hmessage
    · obtain ⟨before, first, after, rfl, hpiece, hcontent, hbefore, hafter⟩ :=
        hfirst.contents message hmessage hcalls
      refine ⟨before, first, after ++ convertedLater, by simp, hpiece, hcontent, hbefore, ?_⟩
      refine List.forall_mem_append.mpr ⟨hafter, fun other hother ⟨call, hcall, hmem⟩ => ?_⟩
      obtain ⟨source, hsource, hmem⟩ := hlater.calls_iff.mp ⟨other, hother, hmem⟩
      exact absurd hmem (hdisjoint message hmessage source hsource call hcall)
    · obtain ⟨before, first, after, rfl, hpiece, hcontent, hbefore, hafter⟩ :=
        hlater.contents message hmessage hcalls
      refine ⟨converted ++ before, first, after, by simp, hpiece, hcontent, ?_, hafter⟩
      refine List.forall_mem_append.mpr ⟨fun other hother call hcall hmem => ?_, hbefore⟩
      obtain ⟨source, hsource, hmem⟩ := hfirst.calls_iff.mp ⟨other, hother, hmem⟩
      exact hdisjoint source hsource message hmessage call hmem hcall

end Combining

section OneRound

variable {round : Round}

theorem emitted_of_inTurn {pieceOf : FnToolCall → FnMessage} {waiting : List FnToolCall}
    {results : List FnMessage} (hsome : waiting ≠ []) (hturn : InTurn waiting results) :
    ∃ call result rest, call ∈ waiting ∧ results = result :: rest ∧
      call.id = result.toolCallId ∧ emitted pieceOf waiting results =
        pieceOf call :: result :: emitted pieceOf (waiting.erase call) rest := by
  cases results with
  | nil =>
      have hnil := hturn.length_eq
      rw [List.take_nil, List.map_nil, List.length_nil, List.length_map] at hnil
      exact absurd (List.length_eq_zero_iff.mp hnil.symm) hsome
  | cons result rest =>
      cases hfind : waiting.find? fun call => call.id = result.toolCallId with
      | none => exact absurd hturn (not_inTurn_cons hsome hfind)
      | some call =>
          refine ⟨call, result, rest, List.mem_of_find?_eq_some hfind, rfl,
            by simpa using List.find?_some hfind, ?_⟩
          rw [emitted, hfind]

theorem content_pieceFor (message : FnMessage) (call : FnToolCall) :
    (pieceFor message call).content.getD [] =
      if message.calls.head? = some call then message.content.getD [] else [] := rfl

/-- With a content, the first result is that of the first call. -/
theorem Round.Orderly.head? {call : FnToolCall} {result : FnMessage} {rest : List FnMessage}
    (horderly : round.Orderly) (hsound : round.Sound)
    (hcontent : round.message.content.getD [] ≠ []) (hcall : call ∈ round.message.calls)
    (hresults : round.results = result :: rest) (hid : call.id = result.toolCallId) :
    round.message.calls.head? = some call := by
  cases hcalls : round.message.calls with
  | nil =>
      rw [hcalls] at hcall
      cases hcall
  | cons first others =>
      have hfirst := horderly.first hcontent first (by simp [hcalls])
      rw [hresults] at hfirst
      obtain ⟨answer, rfl, hanswer⟩ : ∃ answer, result = answer ∧ answer.toolCallId = first.id := by
        simpa using hfirst
      have hsame : first = call := by
        apply List.inj_on_of_nodup_map hsound.distinct _ hcall (hanswer.symm.trans hid.symm)
        simp [hcalls]
      rw [hsame]
      rfl

/-- With several calls the pieces go out with the results. -/
theorem splitsCalls_several (hsound : round.Sound) (horderly : round.Orderly)
    (hseveral : 1 < round.message.calls.length) : SplitsCalls round.messages round.converted := by
  have htools := fun result hresult => (hsound.results result hresult).1
  have hsome : round.message.calls ≠ [] := fun hnil => by simp [hnil] at hseveral
  have hresults : ∀ result ∈ round.results, result.calls = [] :=
    fun result hresult => calls_of_tool (htools result hresult)
  have honly : ∀ message ∈ round.messages, message.calls ≠ [] → message = round.message := by
    intro message hmessage hcalls
    rcases List.mem_cons.mp hmessage with rfl | hmessage
    · rfl
    · exact absurd (hresults message hmessage) hcalls
  unfold Round.converted
  rw [if_pos hseveral]
  exact
    { followed := fun message hmessage call hcall => by
        rw [honly message hmessage (List.ne_nil_of_mem hcall)] at hcall
        obtain ⟨before, result, after, hsplit, htool, hid, halone⟩ :=
          @emitted_followed (pieceFor round.message) _ _ call (calls_pieceFor _) htools
            hsound.distinct hsound.answered hcall
        exact ⟨before, _, result, after, hsplit, rfl, htool, hid, halone⟩
      calls := by
        have hnone : round.results.flatMap FnMessage.calls = [] :=
          List.flatMap_eq_nil_iff.mpr hresults
        rw [Round.messages, List.flatMap_cons, hnone, List.append_nil]
        exact calls_emitted (calls_pieceFor _) htools hsound.distinct hsound.answered
      kept := by
        rw [kept_emitted (calls_pieceFor _) htools, Round.messages,
          List.filter_cons_of_neg (by simpa using hsome), List.filter_eq_self.mpr]
        exact fun result hresult => by simp [hresults result hresult]
      contents := fun message hmessage hcalls => by
        rw [honly message hmessage hcalls]
        obtain ⟨call, result, rest, hcall, hrest, hid, hemitted⟩ :=
          @emitted_of_inTurn (pieceFor round.message) _ _ hsome horderly.inTurn
        refine ⟨[], _, _, hemitted, ⟨call, hcall, List.mem_singleton_self _⟩, ?_, nofun, ?_⟩
        · rw [content_pieceFor]
          by_cases hcontent : round.message.content.getD [] = []
          · rw [hcontent, ite_self]
          · exact if_pos (horderly.head? hsound hcontent hcall hrest hid)
        · rintro other hother ⟨again, hagain, hmem⟩
          rw [hrest] at hresults
          rcases List.mem_cons.mp hother with rfl | hother
          · rw [hresults other List.mem_cons_self] at hmem
            cases hmem
          rcases mem_emitted hother with hother | ⟨later, hlater, rfl⟩
          · rw [hresults other (List.mem_cons_of_mem _ hother)] at hmem
            cases hmem
          rw [content_pieceFor]
          by_cases hcontent : round.message.content.getD [] = []
          · rw [hcontent, ite_self]
          · rw [horderly.head? hsound hcontent hcall hrest hid, if_neg]
            rintro ⟨⟩
            exact (hsound.distinct.of_map _).not_mem_erase hlater }

/-- A message with one call stays, and its result is next. -/
theorem splitsCalls_single (hsound : round.Sound) (horderly : round.Orderly)
    (hfew : ¬1 < round.message.calls.length) : SplitsCalls round.messages round.converted := by
  have hresults : ∀ result ∈ round.results, result.calls = [] :=
    fun result hresult => calls_of_tool (hsound.results result hresult).1
  unfold Round.converted
  rw [if_neg hfew]
  by_cases hnil : round.message.calls = []
  · exact splitsCalls_self (List.forall_mem_cons.mpr ⟨hnil, hresults⟩)
  obtain ⟨call, result, rest, hcall, hrest, hid, -⟩ :=
    @emitted_of_inTurn (pieceFor round.message) _ _ hnil horderly.inTurn
  have hcalls : round.message.calls = [call] := by
    have hlength : round.message.calls.length = 1 :=
      Nat.le_antisymm (Nat.not_lt.mp hfew) (List.length_pos_iff.mpr hnil)
    obtain ⟨only, honly⟩ := List.length_eq_one_iff.mp hlength
    rw [honly, List.mem_singleton] at hcall
    rw [honly, hcall]
  refine
    { followed := fun message hmessage other hother => ?_
      calls := List.Perm.refl _
      kept := rfl
      contents := fun message hmessage hsome => ?_ }
  · rcases List.mem_cons.mp hmessage with rfl | hmessage
    · rw [hcalls, List.mem_singleton] at hother
      subst hother
      refine ⟨[], round.message, result, rest, by rw [Round.messages, hrest]; rfl, hcalls,
        (hsound.results result (by simp [hrest])).1, hid.symm, fun later hlater hmem => ?_⟩
      rw [hresults later (by simpa [hrest] using .inr hlater)] at hmem
      cases hmem
    · rw [hresults message hmessage] at hother
      cases hother
  · rcases List.mem_cons.mp hmessage with rfl | hmessage
    · refine ⟨[], round.message, round.results, rfl, ⟨call, by simp [hcalls]⟩, rfl, nofun, ?_⟩
      rintro other hother ⟨again, hagain, hmem⟩
      rw [hresults other hother] at hmem
      cases hmem
    · exact absurd (hresults message hmessage) hsome

theorem splitsCalls_round (hsound : round.Sound) (horderly : round.Orderly) :
    SplitsCalls round.messages round.converted := by
  by_cases hseveral : 1 < round.message.calls.length
  · exact splitsCalls_several hsound horderly hseveral
  · exact splitsCalls_single hsound horderly hseveral

end OneRound

/-! ## All rounds -/

section AllRounds

variable {messages : List FnMessage}

theorem distinct_calls (hanswered : Answered messages) :
    (messages.flatMap FnMessage.calls).Nodup := by
  have hdistinct := hanswered.distinct
  rw [← List.map_flatMap] at hdistinct
  exact hdistinct.of_map _

theorem splitsCalls_rounds {rounds : List Round} (hsound : ∀ round ∈ rounds, round.Sound)
    (horderly : ∀ round ∈ rounds, round.Orderly)
    (hdistinct : ((rounds.flatMap Round.messages).flatMap FnMessage.calls).Nodup) :
    SplitsCalls (rounds.flatMap Round.messages) (rounds.flatMap Round.converted) := by
  induction rounds with
  | nil => exact splitsCalls_self nofun
  | cons round rounds ih =>
      rw [List.flatMap_cons, List.flatMap_append, List.nodup_append] at hdistinct
      rw [List.flatMap_cons, List.flatMap_cons]
      refine (splitsCalls_round (hsound round List.mem_cons_self)
        (horderly round List.mem_cons_self)).append
        (ih (fun other hother => hsound other (List.mem_cons_of_mem _ hother))
          (fun other hother => horderly other (List.mem_cons_of_mem _ hother)) hdistinct.2.1)
        fun message hmessage other hother call hcall hmem => ?_
      exact hdistinct.2.2 call (List.mem_flatMap.mpr ⟨message, hmessage, hcall⟩) call
        (List.mem_flatMap.mpr ⟨other, hother, hmem⟩) rfl

theorem splits_of_orderly (hanswered : Answered messages) (ignoreFinalToolResult : Bool)
    (horderly : ∀ round ∈ (rounds messages).2, round.Orderly) :
    ∃ converted, convert messages ignoreFinalToolResult = .ok converted ∧
      SplitsCalls messages converted := by
  rcases convert_cases hanswered ignoreFinalToolResult with
    ⟨-, hconvert⟩ | ⟨⟨round, hround, hrefused⟩, -⟩
  · refine ⟨_, hconvert, ?_⟩
    have hnone : ∀ message ∈ (rounds messages).1, message.calls = [] := fun message hmessage =>
      calls_of_tool ((role_of_mem_rounds messages).1 hmessage)
    have hdistinct := distinct_calls hanswered
    rw [← rounds_flatten messages, List.flatMap_append, List.nodup_append] at hdistinct
    have hsplits := (splitsCalls_self hnone).append
      (splitsCalls_rounds (fun round hround => hanswered.sound hround) horderly hdistinct.2.1)
      fun message hmessage other _ call hcall => by
        rw [hnone message hmessage] at hcall
        cases hcall
    rwa [rounds_flatten] at hsplits
  · exact absurd (fun _ => (horderly round hround).inTurn) hrefused

theorem calls_of_mem_converted {round : Round} {other : FnMessage} {call : FnToolCall}
    (hsound : round.Sound) (hother : other ∈ round.converted) (hcall : call ∈ other.calls) :
    call ∈ round.message.calls := by
  have hresults : ∀ result ∈ round.results, result.calls = [] :=
    fun result hresult => calls_of_tool (hsound.results result hresult).1
  unfold Round.converted at hother
  split at hother
  · rcases mem_emitted hother with hmem | ⟨again, hagain, rfl⟩
    · rw [hresults other hmem] at hcall
      cases hcall
    · rw [List.mem_singleton.mp hcall]
      exact hagain
  · rcases List.mem_cons.mp hother with rfl | hother
    · exact hcall
    · rw [hresults other hother] at hcall
      cases hcall

/-- What was emitted before a round has none of its calls. -/
theorem notMem_calls_before {earlier later : List Round} {round : Round}
    (hanswered : Answered messages)
    (hrounds : (rounds messages).2 = earlier ++ round :: later) {other : FnMessage}
    (hother : other ∈ (rounds messages).1 ++ earlier.flatMap Round.converted)
    {call : FnToolCall} (hcall : call ∈ round.message.calls) : call ∉ other.calls := by
  intro hmem
  rcases List.mem_append.mp hother with hother | hother
  · rw [calls_of_tool ((role_of_mem_rounds messages).1 hother)] at hmem
    cases hmem
  · obtain ⟨source, hsource, hother⟩ := List.mem_flatMap.mp hother
    have hround : source ∈ (rounds messages).2 := by
      rw [hrounds]
      exact List.mem_append_left _ hsource
    have hcalls := calls_of_mem_converted (hanswered.sound hround) hother hmem
    have hdistinct := distinct_calls hanswered
    rw [← rounds_flatten messages, hrounds, List.flatMap_append, List.flatMap_append,
      List.flatMap_append, List.nodup_append, List.nodup_append] at hdistinct
    refine hdistinct.2.1.2.2 call (List.mem_flatMap.mpr ⟨source.message, ?_, hcalls⟩) call
      (List.mem_flatMap.mpr ⟨round.message, ?_, hcall⟩) rfl
    · exact List.mem_flatMap.mpr ⟨source, hsource, List.mem_cons_self⟩
    · exact List.mem_flatMap.mpr ⟨round, List.mem_cons_self, List.mem_cons_self⟩

/-- The first result of a message with one call is the one that follows it. -/
theorem orderly_of_single {round : Round} {before after converted : List FnMessage}
    {call : FnToolCall} (hsound : round.Sound) (hcalls : round.message.calls = [call])
    (hsplits : SplitsCalls messages converted) (hmessage : round.message ∈ messages)
    (hconverted : converted = before ++ round.message :: (round.results ++ after)) :
    round.Orderly := by
  obtain ⟨front, split, result, rest, hsplit, -, htool, hid, halone⟩ :=
    hsplits.followed round.message hmessage call (by simp [hcalls])
  obtain ⟨-, -, hresults⟩ := Segments.only_inj (fun other => call ∈ other.calls)
    (hconverted.symm.trans hsplit) (by simp [hcalls])
    (fun other hother => halone other (List.mem_append_left _ hother))
    (List.forall_mem_cons.mpr ⟨by simp [calls_of_tool htool],
      fun other hother => halone other (List.mem_append_right _ hother)⟩)
  obtain ⟨answer, hanswer, -⟩ := hsound.answered call (by simp [hcalls])
  cases hround : round.results with
  | nil =>
      rw [hround] at hanswer
      cases hanswer
  | cons first others =>
      rw [hround] at hresults
      obtain ⟨rfl, -⟩ := List.cons.inj hresults
      exact
        { inTurn := by simp [InTurn, hround, hcalls, hid]
          first := by simp [hround, hcalls, hid] }

theorem orderly_of_several {round : Round} {before after converted : List FnMessage}
    (hseveral : 1 < round.message.calls.length)
    (hturn : InTurn round.message.calls round.results)
    (hsplits : SplitsCalls messages converted) (hmessage : round.message ∈ messages)
    (hbefore : ∀ other ∈ before, ∀ call ∈ round.message.calls, call ∉ other.calls)
    (hconverted : converted = before ++ (round.converted ++ after)) : round.Orderly := by
  refine ⟨hturn, fun hcontent first hfirst => ?_⟩
  have hsome : round.message.calls ≠ [] := fun hnil => by simp [hnil] at hseveral
  obtain ⟨call, result, rest, hcall, hresults, hid, hemitted⟩ :=
    @emitted_of_inTurn (pieceFor round.message) _ _ hsome hturn
  obtain ⟨front, piece, behind, hsplit, ⟨again, hagain, hcarries⟩, hsame, hfront, -⟩ :=
    hsplits.contents round.message hmessage hsome
  rw [Round.converted, if_pos hseveral, hemitted] at hconverted
  obtain ⟨-, hpiece, -⟩ := Segments.first_inj
    (fun other => ∃ call ∈ round.message.calls, call ∈ other.calls)
    (hconverted.symm.trans hsplit) ⟨call, hcall, List.mem_singleton_self _⟩
    ⟨again, hagain, hcarries⟩
    (fun other hother ⟨call, hcall, hmem⟩ => hbefore other hother call hcall hmem)
    (fun other hother ⟨call, hcall, hmem⟩ => hfront other hother call hcall hmem)
  rw [← hpiece, content_pieceFor] at hsame
  have hhead : round.message.calls.head? = some call := by
    by_contra hother
    rw [if_neg hother] at hsame
    exact hcontent hsame.symm
  rw [hhead] at hfirst
  cases hfirst
  exact ⟨result, by simp [hresults], hid.symm⟩

theorem orderly_of_splits (hanswered : Answered messages) {ignoreFinalToolResult : Bool}
    {converted : List FnMessage}
    (hconvert : convert messages ignoreFinalToolResult = .ok converted)
    (hsplits : SplitsCalls messages converted) {round : Round}
    (hround : round ∈ (rounds messages).2) : round.Orderly := by
  have hsound := hanswered.sound hround
  have hmessage : round.message ∈ messages := mem_of_mem_round hround List.mem_cons_self
  rcases convert_cases hanswered ignoreFinalToolResult with ⟨haccepted, hok⟩ | ⟨-, error, herror⟩
  · rw [hok] at hconvert
    obtain ⟨earlier, later, hrounds⟩ := List.append_of_mem hround
    have hconverted := (Except.ok.inj hconvert).symm
    rw [hrounds, List.flatMap_append, List.flatMap_cons, ← List.append_assoc] at hconverted
    by_cases hseveral : 1 < round.message.calls.length
    · exact orderly_of_several hseveral (haccepted round hround hseveral) hsplits hmessage
        (fun other hother call hcall => notMem_calls_before hanswered hrounds hother hcall)
        hconverted
    · rw [Round.converted, if_neg hseveral] at hconverted
      cases hcalls : round.message.calls with
      | nil => exact ⟨by simp [InTurn, hcalls], by simp [hcalls]⟩
      | cons call others =>
          have hnone : others = [] := by simpa [hcalls] using hseveral
          rw [hnone] at hcalls
          exact orderly_of_single hsound hcalls hsplits hmessage hconverted
  · rw [herror] at hconvert
    cases hconvert

/-- Messages are split well exactly if in each round the results of the calls come first, and
before all others that of the first call, if there is a content. -/
theorem splits_iff_orderly (messages : List FnMessage) (ignoreFinalToolResult : Bool)
    (hanswered : Answered messages) :
    (∃ converted, convert messages ignoreFinalToolResult = .ok converted ∧
        SplitsCalls messages converted) ↔
      ∀ round ∈ (rounds messages).2, round.Orderly := by
  constructor
  · rintro ⟨converted, hconvert, hsplits⟩ round hround
    exact orderly_of_splits hanswered hconvert hsplits hround
  · exact splits_of_orderly hanswered ignoreFinalToolResult

end AllRounds

/-! ## Results in another order -/

def asked (content : String) (ids : List String) : FnMessage where
  role := .assistant
  content := some content.toList
  toolCalls := some (ids.map fun id =>
    ⟨some id.toList, some "function".toList, some ⟨"run".toList, "\x7b\x7d".toList⟩⟩)

def result (id : String) : FnMessage where
  role := .tool
  content := some "done".toList
  toolCallId := some id.toList
  name := some "run".toList

def inTheirOrder : List FnMessage :=
  [asked "Both now." ["1", "2"], result "1", result "2", asked "And one more." ["3"], result "3"]

theorem splits_iff_orderly_inTheirOrder :
    ∃ converted, convert inTheirOrder = .ok converted ∧ SplitsCalls inTheirOrder converted := by
  refine (splits_iff_orderly inTheirOrder false
    { callIds := by decide
      resultIds := by decide
      distinct := by decide
      answered := by decide }).mpr ?_
  intro round hround
  have hcases : round = ⟨asked "Both now." ["1", "2"], [result "1", result "2"]⟩ ∨
      round = ⟨asked "And one more." ["3"], [result "3"]⟩ := by
    simpa [inTheirOrder, rounds, asked, result] using hround
  rcases hcases with rfl | rfl
  · exact ⟨by decide, by decide⟩
  · exact ⟨by decide, by decide⟩

/-- The second call is answered first. -/
def turned : List FnMessage :=
  [asked "Both now." ["1", "2"], result "2", result "1"]

theorem not_splits_turned :
    Answered turned ∧
      ¬∃ converted, convert turned = .ok converted ∧ SplitsCalls turned converted := by
  have hanswered : Answered turned :=
    { callIds := by decide
      resultIds := by decide
      distinct := by decide
      answered := by decide }
  refine ⟨hanswered, ?_⟩
  rintro ⟨converted, hconvert, hsplits⟩
  have horderly := orderly_of_splits hanswered hconvert hsplits
    (show ⟨asked "Both now." ["1", "2"], [result "2", result "1"]⟩ ∈ (rounds turned).2 by
      exact List.mem_singleton_self _)
  exact absurd horderly.first (by decide)

end ShuttleFlow.ToolCallSplit
