import ShuttleFlow.ApplyPatch.ApplyPatch

/-! # The parser of patches either parses or raises a `DiffError`

The last line ends the patch, and no line that is read past starts like it. So the parser is always
at a line of the patch.
-/

namespace ShuttleFlow

/-- A good result, or a `DiffError`. -/
def OnlyDiffs {α : Type} (Good : α → Prop) : Except PatchError α → Prop
  | .ok value => Good value
  | .error (.diff _) => True
  | .error _ => False

namespace OnlyDiffs

variable {α β : Type} {Good : α → Prop} {Fine : β → Prop} {result : Except PatchError α}

theorem diffError (message : String) (text : List Char) :
    OnlyDiffs Good (PatchParser.diffError message text) :=
  trivial

theorem map {f : α → β} (hresult : OnlyDiffs Good result)
    (hf : ∀ value, Good value → Fine (f value)) : OnlyDiffs Fine (result.map f) := by
  cases result with
  | ok value => exact hf value hresult
  | error error =>
      cases error with
      | diff => trivial
      | assertion => exact hresult
      | index => exact hresult
      | os => exact hresult

/-- An error is passed on as it is. -/
theorem error {failed : PatchError} (hresult : OnlyDiffs Good (.error failed)) :
    OnlyDiffs Fine (.error failed) := by
  cases failed with
  | diff => trivial
  | assertion => exact hresult
  | index => exact hresult
  | os => exact hresult

theorem ok_or_diff (hresult : OnlyDiffs Good result) :
    (∃ value, result = .ok value) ∨ ∃ message, result = .error (.diff message) := by
  cases result with
  | ok value => exact .inl ⟨value, rfl⟩
  | error error =>
      cases error with
      | diff message => exact .inr ⟨message, rfl⟩
      | assertion => exact hresult.elim
      | index => exact hresult.elim
      | os => exact hresult.elim

end OnlyDiffs

namespace PatchParser

/-- The parser is at a line, and the last line ends the patch. -/
structure Inside (parser : PatchParser) : Prop where
  inside : parser.index < parser.lines.length
  ends : parser.lines.getLast? = some "*** End Patch".toList

variable {parser after : PatchParser}

/-- A line that does not end the patch has a line after it. -/
theorem succ_lt_of_ne_end {lines : List Line} {index : Nat} {line : Line}
    (hends : lines.getLast? = some "*** End Patch".toList) (hline : lines[index]? = some line)
    (hne : line ≠ "*** End Patch".toList) : index + 1 < lines.length := by
  obtain ⟨hindex, rfl⟩ := List.getElem?_eq_some_iff.mp hline
  by_contra hlast
  apply hne
  have hlength : index = lines.length - 1 := by omega
  rw [List.getLast?_eq_getElem?, ← hlength, hline] at hends
  exact Option.some.inj hends

namespace Inside

theorem line (hinside : Inside parser) :
    ∃ line, parser.lines[parser.index]? = some line :=
  ⟨_, List.getElem?_eq_getElem hinside.inside⟩

theorem succ (hinside : Inside parser) {line : Line}
    (hline : parser.lines[parser.index]? = some line) (hne : line ≠ "*** End Patch".toList) :
    Inside { parser with index := parser.index + 1 } :=
  ⟨succ_lt_of_ne_end hinside.ends hline hne, hinside.ends⟩

/-- The start that is read past is not the end of the patch. -/
theorem readStr (hinside : Inside parser) {start : String}
    (hstart : startsWith start "*** End Patch".toList = false) :
    ∃ text after, parser.readStr start = .ok (text, after) ∧ Inside after ∧
      after.currentFiles = parser.currentFiles ∧ after.actions = parser.actions := by
  obtain ⟨line, hline⟩ := hinside.line
  unfold PatchParser.readStr
  rw [hline]
  dsimp only
  split
  next hreads =>
    refine ⟨_, _, rfl, hinside.succ hline ?_, rfl, rfl⟩
    rintro rfl
    rw [hstart] at hreads
    cases hreads
  next => exact ⟨_, _, rfl, hinside, rfl, rfl⟩

end Inside

/-! ## Sections -/

/-- A section ends before the end of the patch. -/
theorem readSection_onlyDiffs {part : PatchSection} {rest : List Line}
    (hends : rest.getLast? = some "*** End Patch".toList) :
    OnlyDiffs (fun result => result.2 < rest.length) (readSection part rest) := by
  induction rest generalizing part with
  | nil => cases hends
  | cons line rest ih =>
      unfold readSection
      split
      next => exact Nat.zero_lt_succ _
      next hmarks =>
        split
        next => exact .diffError _ _
        next =>
          split
          next => exact .diffError _ _
          next mode text hmode =>
            have hsome : rest ≠ [] := by
              rintro rfl
              have hline : line = "*** End Patch".toList := Option.some.inj hends
              subst hline
              exact hmarks (by decide)
            have hlast : rest.getLast? = some "*** End Patch".toList := by
              rw [← hends, List.getLast?_cons_of_ne_nil hsome]
            exact (ih hlast).map fun result hresult => Nat.succ_lt_succ hresult

theorem peekNextSection_onlyDiffs {lines : List Line} {index : Nat} (hindex : index < lines.length)
    (hends : lines.getLast? = some "*** End Patch".toList) :
    OnlyDiffs (fun result => result.2.2.1 < lines.length) (peekNextSection lines index) := by
  have hdrop : (lines.drop index).getLast? = some "*** End Patch".toList := by
    rw [List.getLast?_drop, if_neg (by omega), hends]
  have hread := @readSection_onlyDiffs {} _ hdrop
  unfold peekNextSection
  split
  next error herror =>
    rw [herror] at hread
    exact hread.error
  next part count hcount =>
    rw [hcount] at hread
    have hlength : count < (lines.drop index).length := hread
    rw [List.length_drop] at hlength
    dsimp only
    split
    next hfile => exact succ_lt_of_ne_end hends hfile (by decide)
    next =>
      split
      next =>
        rw [List.getElem?_eq_getElem hindex]
        exact .diffError _ _
      next =>
        change index + count < lines.length
        omega

theorem peek_onlyDiffs (hinside : Inside parser) (lines : List Line) (index : Nat) (defStr : Line) :
    OnlyDiffs (fun result => Inside result.2.2)
      (parseSection.peek lines index parser defStr) := by
  have hsection := peekNextSection_onlyDiffs hinside.inside hinside.ends
  unfold parseSection.peek
  dsimp only
  split
  next error herror =>
    rw [herror] at hsection
    exact hsection.error
  next context chunks stop eof hfound =>
    rw [hfound] at hsection
    split
    next => exact .diffError _ _
    next => exact ⟨hsection, hinside.ends⟩

theorem parseSection_onlyDiffs (hinside : Inside parser) (lines : List Line) (index : Nat) :
    OnlyDiffs (fun result => Inside result.2.2) (parser.parseSection lines index) := by
  have hstart : startsWith "@@ " "*** End Patch".toList = false := by decide
  obtain ⟨defStr, middle, hread, hmiddle, -⟩ := hinside.readStr hstart
  obtain ⟨line, hline⟩ := hmiddle.line
  unfold parseSection
  rw [hread]
  dsimp only
  rw [hline]
  dsimp only
  split
  next hmark =>
    obtain ⟨-, rfl⟩ := hmark
    have hnext : Inside { middle with index := middle.index + 1 } := hmiddle.succ hline (by decide)
    exact peek_onlyDiffs hnext lines index defStr
  next =>
    split
    next => exact .diffError _ _
    next => exact peek_onlyDiffs hmiddle lines index defStr

theorem parseSections_onlyDiffs (hinside : Inside parser) (lines : List Line) (fuel index : Nat)
    (chunks : List Chunk) :
    OnlyDiffs (fun result => Inside result.2) (parseSections lines fuel parser index chunks) := by
  induction fuel generalizing parser index chunks with
  | zero => exact hinside
  | succ fuel ih =>
      unfold parseSections
      split
      next => exact hinside
      next =>
        have hsection := parseSection_onlyDiffs hinside lines index
        split
        next error herror =>
          rw [herror] at hsection
          exact hsection.error
        next more next middle hmore =>
          rw [hmore] at hsection
          exact ih hsection next (chunks ++ more)

/-! ## Actions -/

theorem addedLines_onlyDiffs {rest : List Line}
    (hends : rest.getLast? = some "*** End Patch".toList) :
    OnlyDiffs (fun added => added.length < rest.length) (addedLines rest) := by
  induction rest with
  | nil => cases hends
  | cons line rest ih =>
      unfold addedLines
      split
      next => exact Nat.zero_lt_succ _
      next hmarks =>
        split
        next text =>
          have hsome : rest ≠ [] := by
            rintro rfl
            have hline : '+' :: text = "*** End Patch".toList := Option.some.inj hends
            exact absurd hline (by simp)
          have hlast : rest.getLast? = some "*** End Patch".toList := by
            rw [← hends, List.getLast?_cons_of_ne_nil hsome]
          exact (ih hlast).map fun added hadded => Nat.succ_lt_succ hadded
        next => exact .diffError _ _

theorem parseUpdate_onlyDiffs (hinside : Inside parser) (path : List Char) :
    OnlyDiffs Inside (parser.parseUpdate path) := by
  have hstart : startsWith "*** Move to: " "*** End Patch".toList = false := by decide
  obtain ⟨moveTo, middle, hread, hmiddle, -⟩ := hinside.readStr hstart
  unfold parseUpdate
  split
  next => exact .diffError _ _
  next =>
    rw [hread]
    dsimp only
    split
    next => exact .diffError _ _
    next text htext =>
      apply (parseSections_onlyDiffs hmiddle _ _ _ _).map
      intro result hresult
      exact ⟨hresult.inside, hresult.ends⟩

theorem parseDelete_onlyDiffs (hinside : Inside parser) (path : List Char) :
    OnlyDiffs Inside (parser.parseDelete path) := by
  unfold parseDelete
  split
  next => exact .diffError _ _
  next =>
    split
    next => exact .diffError _ _
    next => exact ⟨hinside.inside, hinside.ends⟩

theorem parseAdd_onlyDiffs (hinside : Inside parser) (path : List Char) :
    OnlyDiffs Inside (parser.parseAdd path) := by
  have hindex := hinside.inside
  have hdrop : (parser.lines.drop parser.index).getLast? = some "*** End Patch".toList := by
    rw [List.getLast?_drop, if_neg (by omega), hinside.ends]
  unfold parseAdd parseAddFile
  split
  next => exact .diffError _ _
  next =>
    have hfile : OnlyDiffs (fun result : List Char × PatchParser => Inside result.2)
        ((addedLines (parser.lines.drop parser.index)).map fun lines =>
          (joinLines lines, { parser with index := parser.index + lines.length })) := by
      apply (addedLines_onlyDiffs hdrop).map
      intro added hadded
      rw [List.length_drop] at hadded
      refine ⟨?_, hinside.ends⟩
      change parser.index + added.length < parser.lines.length
      omega
    apply hfile.map
    intro result hresult
    exact ⟨hresult.inside, hresult.ends⟩

/-- A header without a path is read past, and then the others are tried. -/
theorem parseAction_onlyDiffs (hinside : Inside parser)
    {headers : List (String × (PatchParser → List Char → Except PatchError PatchParser))}
    (hheaders : ∀ header ∈ headers, startsWith header.1 "*** End Patch".toList = false ∧
      ∀ before path, Inside before → OnlyDiffs Inside (header.2 before path)) :
    OnlyDiffs Inside (parser.parseAction headers) := by
  induction headers generalizing parser with
  | nil =>
      obtain ⟨line, hline⟩ := hinside.line
      unfold parseAction
      rw [hline]
      exact .diffError _ _
  | cons header rest ih =>
      obtain ⟨hstart, hbody⟩ := hheaders header List.mem_cons_self
      obtain ⟨path, middle, hread, hmiddle, -⟩ := hinside.readStr hstart
      unfold parseAction
      rw [hread]
      cases path with
      | nil => exact ih hmiddle fun other hmem => hheaders other (.tail _ hmem)
      | cons first more => exact hbody middle _ hmiddle

theorem headers_onlyDiffs : ∀ header ∈ headers, startsWith header.1 "*** End Patch".toList = false ∧
    ∀ before path, Inside before → OnlyDiffs Inside (header.2 before path) := by
  intro header hmem
  simp only [headers, List.mem_cons, List.not_mem_nil, or_false] at hmem
  rcases hmem with rfl | rfl | rfl
  · exact ⟨by decide, fun _ path hbefore => parseUpdate_onlyDiffs hbefore path⟩
  · exact ⟨by decide, fun _ path hbefore => parseDelete_onlyDiffs hbefore path⟩
  · exact ⟨by decide, fun _ path hbefore => parseAdd_onlyDiffs hbefore path⟩

theorem parseActions_onlyDiffs (hinside : Inside parser) (fuel : Nat) :
    OnlyDiffs Inside (parseActions fuel parser) := by
  induction fuel generalizing parser with
  | zero => exact hinside
  | succ fuel ih =>
      have haction := parseAction_onlyDiffs hinside headers_onlyDiffs
      unfold parseActions
      split
      next => exact hinside
      next =>
        split
        next error herror =>
          rw [herror] at haction
          exact haction.error
        next middle hmiddle =>
          rw [hmiddle] at haction
          exact ih haction

theorem parse_onlyDiffs (hinside : Inside parser) : OnlyDiffs (fun _ => True) parser.parse := by
  have hactions := parseActions_onlyDiffs hinside parser.lines.length
  unfold parse
  split
  next error herror =>
    rw [herror] at hactions
    exact hactions.error
  next middle hmiddle =>
    rw [hmiddle] at hactions
    obtain ⟨line, hline⟩ := hactions.line
    rw [hline]
    dsimp only
    split <;> trivial

/-! ## More fuel changes nothing -/

theorem parseSections_add {lines : List Line} {fuel index : Nat} {chunks : List Chunk}
    (hfuel : parser.lines.length ≤ parser.index + fuel) (extra : Nat) :
    parseSections lines (fuel + extra) parser index chunks =
      parseSections lines fuel parser index chunks := by
  induction fuel generalizing parser index chunks with
  | zero =>
      cases extra with
      | zero => rfl
      | succ extra =>
          have hdone : parser.isDone sectionMarks := isDone_of_length_le _ hfuel
          rw [Nat.zero_add]
          unfold parseSections
          rw [if_pos hdone]
  | succ fuel ih =>
      rw [Nat.add_right_comm, parseSections, parseSections]
      split
      next => rfl
      next =>
        cases hsection : parser.parseSection lines index with
        | error error => rfl
        | ok result =>
            have hmiddle := parseSection_reads hsection
            have hindex := hmiddle.index
            apply ih
            rw [hmiddle.lines]
            omega

theorem parseActions_add {fuel : Nat} (hfuel : parser.lines.length ≤ parser.index + fuel)
    (extra : Nat) : parseActions (fuel + extra) parser = parseActions fuel parser := by
  induction fuel generalizing parser with
  | zero =>
      cases extra with
      | zero => rfl
      | succ extra =>
          have hdone : parser.isDone ["*** End Patch"] := isDone_of_length_le _ hfuel
          rw [Nat.zero_add]
          unfold parseActions
          rw [if_pos hdone]
  | succ fuel ih =>
      rw [Nat.add_right_comm, parseActions, parseActions]
      split
      next => rfl
      next =>
        cases haction : parser.parseAction headers with
        | error error => rfl
        | ok middle =>
            have hmiddle := parseAction_reads headers_reads haction
            have hindex := hmiddle.index
            apply ih
            rw [hmiddle.lines]
            omega

end PatchParser

namespace ApplyPatch

/-- The two loops of the parser stop before their fuel is used up, and there is a patch then or a
`DiffError`. -/
theorem textToPatch_total (text : List Char) (orig : Dict (List Char) (List Char)) :
    ((∃ patch, textToPatch text orig = .ok patch) ∨
      ∃ message, textToPatch text orig = .error (.diff message)) ∧
    (∀ (parser : PatchParser) (extra : Nat),
      PatchParser.parseActions (parser.lines.length + extra) parser =
        PatchParser.parseActions parser.lines.length parser) ∧
    ∀ (parser : PatchParser) (lines : List Line) (extra : Nat),
      PatchParser.parseSections lines (parser.lines.length + extra) parser 0 [] =
        PatchParser.parseSections lines parser.lines.length parser 0 [] := by
  refine ⟨?_, fun parser extra => ?_, fun parser lines extra => ?_⟩
  · apply @OnlyDiffs.ok_or_diff _ fun _ => True
    unfold textToPatch
    dsimp only
    split
    next => trivial
    next hvalid =>
      simp only [not_or, not_lt, ne_eq, not_not] at hvalid
      obtain ⟨hlength, -, hends⟩ := hvalid
      apply PatchParser.parse_onlyDiffs
      exact ⟨hlength, hends⟩
  · exact PatchParser.parseActions_add (Nat.le_add_left _ _) extra
  · exact PatchParser.parseSections_add (Nat.le_add_left _ _) extra

end ApplyPatch

end ShuttleFlow
