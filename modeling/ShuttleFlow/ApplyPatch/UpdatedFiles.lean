import ShuttleFlow.ApplyPatch.HunkSemantics

/-! # Updates that are accepted can be made

The chunks of an update fit the file, and come in order unless a section is at the end of the file.
An edit script of the whole file leaves what it says.
-/

namespace ShuttleFlow

namespace PatchParser

variable {parser after : PatchParser} {lines : List Line} {index next : Nat} {chunks : List Chunk}

/-- No section that has been read ends the file. -/
def NoEndOfFile (before after : PatchParser) : Prop :=
  ∀ place, before.index ≤ place → place < after.index →
    before.lines[place]? ≠ some "*** End of File".toList

/-- The chunks of a section, or of several in a row, that have been read. -/
structure ReadsChunks (lines : List Line) (index : Nat) (before after : PatchParser)
    (chunks : List Chunk) (next : Nat) : Prop where
  fuzz : before.fuzz ≤ after.fuzz
  inside : next ≤ lines.length
  fits : ∀ chunk ∈ chunks, chunk.Fits (NearLine (after.fuzz - before.fuzz)) lines
  ordered : NoEndOfFile before after → Ordered index chunks next

/-- The header of a section, if it has one, is read before. -/
theorem peek_readsChunks {defStr : Line} (hindex : index ≤ lines.length)
    (hpeek : parseSection.peek lines index parser defStr = .ok (chunks, next, after)) :
    ReadsChunks lines index parser after chunks next := by
  obtain ⟨hplace, hlength⟩ := seekSection_ok hindex defStr
  unfold parseSection.peek at hpeek
  dsimp only at hpeek
  split at hpeek
  next => cases hpeek
  next context found stop eof hsection =>
    obtain ⟨count, -, hedited, hstop⟩ := peekNextSection_ok hsection
    split at hpeek
    next => cases hpeek
    next newIndex fuzz hfound =>
      obtain ⟨hle, hfits⟩ := findContext_ok hlength hfound
      cases hpeek
      refine ⟨by dsimp only; omega, hfits.1, ?_, fun hnone => ?_⟩
      · intro chunk hmem
        obtain ⟨other, hother, rfl⟩ := List.mem_map.mp hmem
        have hexact : other.Fits (· = ·) context := hedited.fits List.length_nil other hother
        apply (fits_of_foundAt hfits hexact).mono
        dsimp only
        omega
      · cases eof with
        | true =>
            obtain ⟨rfl, hend⟩ := hstop
            exact absurd hend (hnone _ (Nat.le_add_right _ _) (Nat.lt_succ_self _))
        | false =>
            have hordered := hedited.ordered.shift newIndex
            rw [Nat.zero_add, Nat.zero_add, Nat.add_comm context.length] at hordered
            exact hordered.weaken (hplace.trans (hle rfl))

theorem ReadsChunks.of_later {before middle : PatchParser}
    (hreads : ReadsChunks lines index middle after chunks next)
    (hlines : middle.lines = before.lines) (hindex : before.index ≤ middle.index)
    (hfuzz : middle.fuzz = before.fuzz) :
    ReadsChunks lines index before after chunks next := by
  refine ⟨hfuzz ▸ hreads.fuzz, hreads.inside, hfuzz ▸ hreads.fits, fun hnone => ?_⟩
  apply hreads.ordered
  intro place hle hlt
  rw [hlines]
  exact hnone place (hindex.trans hle) hlt

theorem parseSection_readsChunks (hindex : index ≤ lines.length)
    (hparse : parser.parseSection lines index = .ok (chunks, next, after)) :
    ReadsChunks lines index parser after chunks next := by
  unfold parseSection at hparse
  split at hparse
  next => cases hparse
  next defStr middle hread =>
    have hmiddle := readStr_reads hread
    have hfuzz : middle.fuzz = parser.fuzz := by
      unfold readStr at hread
      split at hread
      next => cases hread
      next =>
        split at hread
        next =>
          cases hread
          rfl
        next =>
          cases hread
          rfl
    have hle : parser.index ≤ middle.index := Nat.le_trans (Nat.le_add_right _ _) hmiddle.index
    split at hparse
    next =>
      split at hparse
      next => cases hparse
      next => exact (peek_readsChunks hindex hparse).of_later hmiddle.lines hle hfuzz
    next line hline =>
      split at hparse
      next =>
        exact (peek_readsChunks hindex hparse).of_later hmiddle.lines (Nat.le_succ_of_le hle) hfuzz
      next =>
        split at hparse
        next => cases hparse
        next => exact (peek_readsChunks hindex hparse).of_later hmiddle.lines hle hfuzz

theorem ReadsChunks.append {middle : PatchParser} {more : List Chunk} {place : Nat}
    (hfirst : ReadsChunks lines index parser middle chunks place)
    (hmiddle : Reads 1 parser middle) (hlater : Reads 0 middle after)
    (hsecond : ReadsChunks lines place middle after more next) :
    ReadsChunks lines index parser after (chunks ++ more) next := by
  have hfuzz := hfirst.fuzz
  have hmore := hsecond.fuzz
  refine ⟨hfuzz.trans hmore, hsecond.inside, fun chunk hmem => ?_, fun hnone => ?_⟩
  · rcases List.mem_append.mp hmem with hmem | hmem
    · exact (hfirst.fits chunk hmem).mono (by omega)
    · exact (hsecond.fits chunk hmem).mono (by omega)
  · have hbegin := hmiddle.index
    have hend := hlater.index
    apply Ordered.append
    · apply hfirst.ordered
      intro place hle hlt
      exact hnone place hle (by omega)
    · apply hsecond.ordered
      intro place hle hlt
      rw [hmiddle.lines]
      exact hnone place (by omega) hlt

/-- The sections of an update, one after another. -/
theorem parseSections_readsChunks {fuel : Nat} {all : List Chunk} (hindex : index ≤ lines.length)
    (hparse : parseSections lines fuel parser index chunks = .ok (all, after)) :
    Reads 0 parser after ∧
      ∃ more next, all = chunks ++ more ∧ ReadsChunks lines index parser after more next := by
  induction fuel generalizing parser index chunks with
  | zero =>
      cases hparse
      exact ⟨⟨rfl, Nat.le_refl _⟩, [], index, (List.append_nil _).symm,
        Nat.le_refl _, hindex, nofun, fun _ => Nat.le_refl _⟩
  | succ fuel ih =>
      unfold parseSections at hparse
      split at hparse
      next =>
        cases hparse
        exact ⟨⟨rfl, Nat.le_refl _⟩, [], index, (List.append_nil _).symm,
          Nat.le_refl _, hindex, nofun, fun _ => Nat.le_refl _⟩
      next =>
        split at hparse
        next => cases hparse
        next found place middle hsection =>
          have hfirst := parseSection_readsChunks hindex hsection
          have hmiddle := parseSection_reads hsection
          obtain ⟨hlater, more, next, rfl, hsecond⟩ := ih hfirst.inside hparse
          refine ⟨(hmiddle.trans hlater).mono (Nat.zero_le _), found ++ more, next,
            List.append_assoc _ _ _, ?_⟩
          exact hfirst.append hmiddle hlater hsecond

/-! ## Edit scripts -/

variable {hunk rest : List Line} {stop : Line}

/-- A line of a section starts neither a section nor an action. -/
theorem not_marks_of_readMode {line : Line} {mode : LineMode} {text : Line}
    (hmode : readMode line = some (mode, text)) :
    startsWithAny ("@@" :: sectionMarks) line = false ∧ line ≠ "***".toList ∧
      startsWith "***" line = false := by
  unfold readMode at hmode
  split at hmode
  next => decide
  next text => simp [startsWithAny, startsWith, sectionMarks, fileMarks]
  next text => simp [startsWithAny, startsWith, sectionMarks, fileMarks]
  next text => simp [startsWithAny, startsWith, sectionMarks, fileMarks]
  next => cases hmode

theorem startsWithAny_of_fileMarks (hstop : startsWithAny fileMarks stop) :
    startsWithAny sectionMarks stop ∧ startsWithAny ("@@" :: sectionMarks) stop ∧
      stop ≠ "*** End of File".toList := by
  have hsections : startsWithAny sectionMarks stop := by
    unfold startsWithAny sectionMarks at *
    rw [List.any_append, hstop]
    rfl
  refine ⟨hsections, ?_, ?_⟩
  · unfold startsWithAny at *
    rw [List.any_cons, hsections, Bool.or_true]
  · rintro rfl
    exact absurd hstop (by decide)

/-- A script is read up to the line behind it. -/
theorem readSection_of_readable (hhunk : ∀ line ∈ hunk, (readMode line).isSome)
    (hstop : startsWithAny fileMarks stop) (part : PatchSection) :
    ∃ after, readSection part (hunk ++ stop :: rest) = .ok (after, hunk.length) := by
  induction hunk generalizing part with
  | nil =>
      refine ⟨part, ?_⟩
      rw [List.nil_append, readSection, (startsWithAny_of_fileMarks hstop).2.1]
      rfl
  | cons line hunk ih =>
      obtain ⟨⟨mode, text⟩, hmode⟩ := Option.isSome_iff_exists.mp (hhunk line List.mem_cons_self)
      obtain ⟨hmarks, hstars, hbegins⟩ := not_marks_of_readMode hmode
      obtain ⟨after, hafter⟩ := ih (fun other hmem => hhunk other (.tail _ hmem))
        (part.add mode text)
      refine ⟨after, ?_⟩
      rw [List.cons_append, readSection, hmarks, decide_eq_false hstars, hbegins, hmode]
      simp only [Bool.or_false, Bool.false_eq_true, if_false, hafter]
      rfl

theorem peekNextSection_of_readable (hlines : lines.drop index = hunk ++ stop :: rest)
    (hsome : hunk ≠ []) (hhunk : ∀ line ∈ hunk, (readMode line).isSome)
    (hstop : startsWithAny fileMarks stop) :
    ∃ chunks, peekNextSection lines index =
        .ok (oldLines hunk, chunks, index + hunk.length, false) ∧
      Edited (· = ·) 0 (oldLines hunk) chunks (newLines hunk) := by
  obtain ⟨part, hpart⟩ := @readSection_of_readable hunk rest stop hhunk hstop {}
  rw [← hlines] at hpart
  have htake : (lines.drop index).take hunk.length = hunk := by
    rw [hlines, List.take_left]
  have hread := readSection_ok hpart
  rw [htake] at hread
  obtain ⟨-, hold, hleaves⟩ := hread
  have hedited := (hleaves [] .empty).flush
  have hline : lines[index + hunk.length]? = some stop := by
    rw [← List.getElem?_drop, hlines, List.getElem?_append_right (Nat.le_refl _), Nat.sub_self]
    rfl
  refine ⟨part.flush.chunks, ?_, ?_⟩
  · have hcount : hunk.length ≠ 0 := fun hzero => hsome (List.length_eq_zero_iff.mp hzero)
    have hend : ¬some stop = some "*** End of File".toList :=
      fun heq => (startsWithAny_of_fileMarks hstop).2.2 (Option.some.inj heq)
    have hcontext : part.flush.old = oldLines hunk := hold
    unfold peekNextSection
    rw [hpart]
    dsimp only
    rw [hline, if_neg hend, if_neg hcount, hcontext]
  · rw [hold] at hedited
    exact hedited

/-- An update with one section, whose lines to keep and to delete are all those of the file. -/
structure WholeScript (parser : PatchParser) (text : List Char) (header hunk : List Line) :
    Prop where
  begins : header = [] ∨ header = ["@@".toList] ∨ ∃ defStr, header = ["@@ ".toList ++ defStr]
  readable : ∀ line ∈ hunk, (readMode line).isSome
  whole : oldLines hunk = text.splitOn '\n'
  ends : ∃ stop rest, parser.lines.drop parser.index = header ++ hunk ++ stop :: rest ∧
    startsWithAny fileMarks stop

theorem findFrom_self (hsome : lines ≠ []) : findFrom id lines lines 0 = some 0 := by
  obtain ⟨count, hcount⟩ := Nat.exists_eq_succ_of_ne_zero
    (fun hzero => hsome (List.length_eq_zero_iff.mp hzero))
  have hrange : List.range' 0 (lines.length - 0) = 0 :: List.range' 1 count := by
    rw [Nat.sub_zero, hcount]
    rfl
  unfold findFrom
  rw [hrange, List.find?_cons_of_pos]
  rw [List.drop_zero, List.take_length, decide_eq_true rfl]

/-- The whole file is only found at its start. -/
theorem peek_whole {defStr : Line} (hsome : hunk ≠ [])
    (hdrop : parser.lines.drop parser.index = hunk ++ stop :: rest)
    (hhunk : ∀ line ∈ hunk, (readMode line).isSome) (hstop : startsWithAny fileMarks stop)
    (hwhole : oldLines hunk = lines) :
    (∀ chunks next after, parseSection.peek lines 0 parser defStr = .ok (chunks, next, after) →
      Edited (· = ·) 0 lines chunks (newLines hunk) ∧ after.lines = parser.lines ∧
        after.index = parser.index + hunk.length) ∧
    (PythonText.trim defStr = [] → lines ≠ [] → ∃ chunks next after,
      parseSection.peek lines 0 parser defStr = .ok (chunks, next, after)) := by
  obtain ⟨found, hpeek, hedited⟩ := peekNextSection_of_readable hdrop hsome hhunk hstop
  rw [hwhole] at hpeek hedited
  obtain ⟨-, hlength⟩ := seekSection_ok (Nat.zero_le lines.length) defStr
  refine ⟨fun chunks next after hparse => ?_, fun hblank hlines => ?_⟩
  · unfold parseSection.peek at hparse
    dsimp only at hparse
    rw [hpeek] at hparse
    dsimp only at hparse
    split at hparse
    next => cases hparse
    next newIndex fuzz hfound =>
      have hinside := (findContext_ok hlength hfound).2.1
      have hzero : newIndex = 0 := by omega
      cases hparse
      refine ⟨?_, rfl, rfl⟩
      have hsame : found.map (fun chunk =>
          { chunk with origIndex := chunk.origIndex + newIndex }) = found := by
        rw [hzero]
        exact List.map_id _
      rw [hsame]
      exact hedited
  · have hcore : findContext lines lines 0 false = (some 0, 0) := by
      rw [findContext, if_neg Bool.false_ne_true, findContextCore, if_neg hlines,
        findFrom_self hlines]
    unfold parseSection.peek seekSection
    rw [if_pos hblank, hpeek]
    dsimp only
    rw [hcore]
    exact ⟨_, _, _, rfl⟩

theorem readStr_of_line {line : Line} (hline : parser.lines[parser.index]? = some line)
    (start : String) :
    parser.readStr start = .ok (if startsWith start line then
      (line.drop start.length, { parser with index := parser.index + 1 }) else ([], parser)) := by
  unfold readStr
  rw [hline]
  dsimp only
  split
  next => rfl
  next => rfl

theorem getElem?_of_drop {line : Line} {later : List Line}
    (hdrop : lines.drop index = line :: later) :
    lines[index]? = some line ∧ lines.drop (index + 1) = later := by
  constructor
  · have hhead : (lines.drop index)[0]? = some line := by
      rw [hdrop]
      rfl
    rw [List.getElem?_drop, Nat.add_zero] at hhead
    exact hhead
  · rw [← List.drop_drop, hdrop]
    rfl

theorem not_header_of_readMode {line : Line} (hline : (readMode line).isSome) :
    startsWith "@@ " line = false ∧ line ≠ "@@".toList := by
  obtain ⟨⟨mode, text⟩, hmode⟩ := Option.isSome_iff_exists.mp hline
  have hmarks := (not_marks_of_readMode hmode).1
  rw [startsWithAny, List.any_cons, Bool.or_eq_false_iff] at hmarks
  refine ⟨?_, ?_⟩
  · by_contra hbegins
    rw [Bool.not_eq_false] at hbegins
    have hlonger : "@@ ".toList <+: line := of_decide_eq_true hbegins
    have hshorter : startsWith "@@" line :=
      decide_eq_true ((by decide : "@@".toList <+: "@@ ".toList).trans hlonger)
    rw [hmarks.1] at hshorter
    cases hshorter
  · rintro rfl
    exact absurd hmarks.1 (by decide)

/-- The header of the section is read past. -/
theorem parseSection_header {header : List Line}
    (hbegins : header = [] ∨ header = ["@@".toList] ∨ ∃ defStr, header = ["@@ ".toList ++ defStr])
    (hsome : hunk ≠ []) (hhunk : ∀ line ∈ hunk, (readMode line).isSome)
    (hdrop : parser.lines.drop parser.index = header ++ hunk ++ stop :: rest) :
    ∃ middle defStr, parser.parseSection lines 0 = parseSection.peek lines 0 middle defStr ∧
      parser.isDone sectionMarks = false ∧ middle.lines = parser.lines ∧
      middle.lines.drop middle.index = hunk ++ stop :: rest ∧
      (header = [] ∨ header = ["@@".toList] → defStr = []) := by
  obtain ⟨first, more, rfl⟩ := List.exists_cons_of_ne_nil hsome
  obtain ⟨hstart, hmark⟩ := not_header_of_readMode (hhunk first List.mem_cons_self)
  unfold parseSection isDone
  rcases hbegins with rfl | rfl | ⟨defStr, rfl⟩
  · have hline := (getElem?_of_drop hdrop).1
    refine ⟨parser, [], ?_, ?_, rfl, hdrop, fun _ => rfl⟩
    · rw [readStr_of_line hline, hstart, if_neg Bool.false_ne_true]
      dsimp only
      rw [hline]
      dsimp only
      rw [if_neg fun hboth => hmark hboth.2, if_neg fun hboth => hboth.2 rfl]
    · obtain ⟨⟨mode, text⟩, hmode⟩ :=
        Option.isSome_iff_exists.mp (hhunk first List.mem_cons_self)
      have hmarks := (not_marks_of_readMode hmode).1
      rw [startsWithAny, List.any_cons, Bool.or_eq_false_iff] at hmarks
      rw [hline]
      exact hmarks.2
  · obtain ⟨hline, hlater⟩ := getElem?_of_drop hdrop
    refine ⟨{ parser with index := parser.index + 1 }, [], ?_, ?_, rfl, hlater, fun _ => rfl⟩
    · rw [readStr_of_line hline, if_neg (by decide)]
      dsimp only
      rw [hline]
      dsimp only
      rw [if_pos ⟨rfl, rfl⟩]
    · rw [hline]
      decide
  · obtain ⟨hline, hlater⟩ := getElem?_of_drop hdrop
    have hnext := (getElem?_of_drop hlater).1
    have hreads : startsWith "@@ " ("@@ ".toList ++ defStr) :=
      decide_eq_true (List.prefix_append _ _)
    refine ⟨{ parser with index := parser.index + 1 }, defStr, ?_, ?_, rfl, hlater, ?_⟩
    · rw [readStr_of_line hline, if_pos hreads]
      have hdef : ("@@ ".toList ++ defStr).drop "@@ ".length = defStr := List.drop_left
      rw [hdef]
      dsimp only
      rw [hnext]
      dsimp only
      rw [if_neg fun hboth => hmark hboth.2, if_neg fun hboth => hboth.2 rfl]
    · rw [hline]
      simp [startsWithAny, startsWith, sectionMarks, fileMarks]
    · rintro (hnone | hplain)
      · cases hnone
      · cases (List.cons.inj hplain).1

/-- The lines of a whole script are those that the file has afterwards. -/
theorem parseUpdateFile_whole {text : List Char} {header : List Line}
    (hscript : WholeScript parser text header hunk) :
    (∀ chunks after, parser.parseUpdateFile text = .ok (chunks, after) →
      Edited (· = ·) 0 (text.splitOn '\n') chunks (newLines hunk)) ∧
    (header = [] ∨ header = ["@@".toList] →
      ∃ chunks after, parser.parseUpdateFile text = .ok (chunks, after)) := by
  obtain ⟨hbegins, hhunk, hwhole, stop, rest, hdrop, hstop⟩ := hscript
  have hlines : text.splitOn '\n' ≠ [] := List.splitOnP_ne_nil _ _
  have hsome : hunk ≠ [] := by
    rintro rfl
    exact hlines hwhole.symm
  obtain ⟨middle, defStr, hsection, hmarks, hmiddle, hlater, hplain⟩ :=
    @parseSection_header parser (text.splitOn '\n') hunk rest stop header hbegins hsome hhunk hdrop
  obtain ⟨hpeek, haccepts⟩ := @peek_whole middle (text.splitOn '\n') hunk rest stop defStr hsome
    hlater hhunk hstop hwhole
  obtain ⟨first, more, hunkEq⟩ := List.exists_cons_of_ne_nil hsome
  have hfuel : ∃ fuel, parser.lines.length = fuel + 2 := by
    have hlength := congrArg List.length hdrop
    rw [List.length_drop, List.length_append, List.length_append, List.length_cons, hunkEq,
      List.length_cons] at hlength
    exact ⟨parser.lines.length - 2, by omega⟩
  obtain ⟨fuel, hfuel⟩ := hfuel
  have hdone : ∀ chunks next after,
      parseSection.peek (text.splitOn '\n') 0 middle defStr = .ok (chunks, next, after) →
      parser.parseUpdateFile text = .ok (chunks, after) := by
    intro chunks next after hparse
    obtain ⟨-, hafter, hindex⟩ := hpeek chunks next after hparse
    have hstopped : after.isDone sectionMarks := by
      have hend : after.lines[after.index]? = some stop := by
        rw [hafter, hindex, ← List.getElem?_drop, hlater,
          List.getElem?_append_right (Nat.le_refl _), Nat.sub_self]
        rfl
      unfold isDone
      rw [hend]
      exact (startsWithAny_of_fileMarks hstop).1
    rw [parseUpdateFile, hfuel, parseSections, hmarks, if_neg Bool.false_ne_true, hsection, hparse]
    dsimp only
    rw [parseSections, if_pos hstopped, List.nil_append]
  constructor
  · intro chunks after hparse
    cases houtcome : parseSection.peek (text.splitOn '\n') 0 middle defStr with
    | error error =>
        rw [parseUpdateFile, hfuel, parseSections, hmarks, if_neg Bool.false_ne_true, hsection,
          houtcome] at hparse
        cases hparse
    | ok outcome =>
        obtain ⟨found, next, stopped⟩ := outcome
        rw [hdone _ _ _ houtcome] at hparse
        cases hparse
        exact (hpeek _ _ _ houtcome).1
  · intro hheader
    have hblank : PythonText.trim defStr = [] := by
      rw [hplain hheader]
      rfl
    obtain ⟨found, next, stopped, houtcome⟩ := haccepts hblank hlines
    exact ⟨found, stopped, hdone _ _ _ houtcome⟩

end PatchParser

namespace ApplyPatch

example : (PatchParser.parseUpdateFile
    { lines := ["-x".toList, "+y".toList, " z".toList, "*** End Patch".toList] }
      "x\nz".toList).toOption.map (fun outcome => getUpdatedFile [] "x\nz".toList outcome.1) =
    some (.ok "y\nz".toList) := by decide +kernel

end ApplyPatch

end ShuttleFlow
