import Mathlib.Data.List.Infix
import ShuttleFlow.FileEditor.EditorAtomicity

/-! # Replacements at one place

A text is searched from the left, and behind each place where it is found. The search and what is
written are about the text with its line endings translated.
-/

namespace ShuttleFlow

namespace FileEditor

/-- A text is at the position, whatever else overlaps it. -/
def OccursAt (wanted text : List Char) (position : Nat) : Prop :=
  position ≤ text.length ∧ wanted <+: text.drop position

section Searching

variable {wanted text : List Char} {position skip start : Nat}

theorem infix_iff_occursAt : wanted <:+: text ↔ ∃ position, OccursAt wanted text position := by
  constructor
  · rintro ⟨before, after, rfl⟩
    refine ⟨before.length, by simp, ?_⟩
    rw [List.append_assoc, List.drop_left]
    exact List.prefix_append _ _
  · rintro ⟨position, -, hbegins⟩
    exact hbegins.isInfix.trans (List.drop_suffix _ _).isInfix

/-- What is found from a place on is there. -/
theorem occursAt_of_mem_occurrencesFrom (hmem : position ∈ occurrencesFrom wanted start skip text) :
    ∃ offset, position = start + offset ∧ OccursAt wanted text offset := by
  induction text generalizing start skip with
  | nil =>
      unfold occurrencesFrom at hmem
      split at hmem
      next hnil =>
        refine ⟨0, List.mem_singleton.mp hmem, Nat.le_refl _, ?_⟩
        rw [hnil]
        exact List.nil_prefix
      next => cases hmem
  | cons char rest ih =>
      have hnext : ∀ skip, position ∈ occurrencesFrom wanted (start + 1) skip rest →
          ∃ offset, position = start + offset ∧ OccursAt wanted (char :: rest) offset := by
        intro skip hlater
        obtain ⟨offset, heq, hle, hbegins⟩ := ih hlater
        exact ⟨offset + 1, by omega, Nat.succ_le_succ hle, hbegins⟩
      cases skip with
      | succ skip => exact hnext skip hmem
      | zero =>
          unfold occurrencesFrom at hmem
          split at hmem
          next hbegins =>
            rcases List.mem_cons.mp hmem with rfl | hmem
            · exact ⟨0, rfl, Nat.zero_le _, hbegins⟩
            · exact hnext _ hmem
          next => exact hnext _ hmem

/-- Whatever is there and not skipped is found, or something that overlaps it from the left. -/
theorem exists_mem_occurrencesFrom {offset : Nat} (hoccurs : OccursAt wanted text offset)
    (hskip : skip ≤ offset) :
    ∃ found, start + found ∈ occurrencesFrom wanted start skip text ∧ found ≤ offset ∧
      (offset = found ∨ offset < found + wanted.length) := by
  induction text generalizing start skip offset with
  | nil =>
      obtain rfl : offset = 0 := Nat.le_zero.mp hoccurs.1
      have hnil : wanted = [] := List.prefix_nil.mp hoccurs.2
      exact ⟨0, by simp [occurrencesFrom, hnil], Nat.le_refl _, .inl rfl⟩
  | cons char rest ih =>
      have hnext : ∀ skip, 0 < offset → skip ≤ offset - 1 →
          ∃ found, start + found ∈ occurrencesFrom wanted (start + 1) skip rest ∧
            found ≤ offset ∧ (offset = found ∨ offset < found + wanted.length) := by
        intro skip hpos hle
        obtain ⟨before, rfl⟩ := Nat.exists_eq_add_one.mpr hpos
        obtain ⟨found, hfound, hbefore, hreach⟩ := @ih skip (start + 1) before
          ⟨Nat.le_of_succ_le_succ hoccurs.1, hoccurs.2⟩ hle
        exact ⟨found + 1, by rwa [show start + (found + 1) = start + 1 + found by omega],
          by omega, by omega⟩
      cases skip with
      | succ skip => exact hnext skip (by omega) (by omega)
      | zero =>
          unfold occurrencesFrom
          split
          next hbegins =>
            by_cases hreach : offset = 0 ∨ offset < wanted.length
            · exact ⟨0, List.mem_cons_self, Nat.zero_le _, by omega⟩
            · obtain ⟨found, hfound, hle⟩ := hnext (wanted.length - 1) (by omega) (by omega)
              exact ⟨found, List.mem_cons_of_mem _ hfound, hle⟩
          next hnot =>
            refine hnext 0 (Nat.pos_of_ne_zero ?_) (Nat.zero_le _)
            rintro rfl
            exact hnot hoccurs.2

theorem occursAt_of_mem_occurrences (hmem : position ∈ occurrences wanted text) :
    OccursAt wanted text position := by
  obtain ⟨offset, rfl, hoccurs⟩ := occursAt_of_mem_occurrencesFrom hmem
  rwa [Nat.zero_add]

theorem exists_mem_occurrences (hoccurs : OccursAt wanted text position) :
    ∃ found ∈ occurrences wanted text, found ≤ position ∧
      (position = found ∨ position < found + wanted.length) := by
  obtain ⟨found, hfound, hreach⟩ :=
    @exists_mem_occurrencesFrom wanted text 0 0 position hoccurs (Nat.zero_le _)
  exact ⟨found, by rwa [Nat.zero_add] at hfound, hreach⟩

theorem occurrences_ne_nil_iff : occurrences wanted text ≠ [] ↔ wanted <:+: text := by
  rw [infix_iff_occursAt]
  constructor
  · intro hsome
    obtain ⟨position, hmem⟩ := List.exists_mem_of_ne_nil _ hsome
    exact ⟨position, occursAt_of_mem_occurrences hmem⟩
  · rintro ⟨position, hoccurs⟩
    obtain ⟨found, hfound, -⟩ := exists_mem_occurrences hoccurs
    exact List.ne_nil_of_mem hfound

/-- No place of the text overlaps another one. -/
def Disjoint (wanted text : List Char) : Prop :=
  ∀ position shift, 0 < shift → shift < wanted.length →
    ¬(OccursAt wanted text position ∧ OccursAt wanted text (position + shift))

/-- A single find is the only place, if places do not overlap. -/
theorem unique_iff_disjoint (hsingle : occurrences wanted text = [position]) :
    (∀ other, OccursAt wanted text other → other = position) ↔ Disjoint wanted text := by
  constructor
  · rintro hunique place shift hpos - ⟨hfirst, hsecond⟩
    have hsame := (hunique _ hfirst).trans (hunique _ hsecond).symm
    omega
  · intro hdisjoint other hoccurs
    obtain ⟨found, hfound, hle, hreach⟩ := exists_mem_occurrences hoccurs
    have hposition : OccursAt wanted text position :=
      occursAt_of_mem_occurrences (by simp [hsingle])
    rw [hsingle, List.mem_singleton] at hfound
    subst hfound
    by_contra hne
    apply hdisjoint found (other - found) (by omega) (by omega)
    rw [Nat.add_sub_of_le hle]
    exact ⟨hposition, hoccurs⟩

end Searching

/-! ## What a replacement is asked for -/

/-- The text to replace and the one to put there: without an occurrence, spaces at the ends of both
are taken off. -/
def asked (oldStr newStr text : List Char) : List Char × List Char :=
  if oldStr <:+: text then (oldStr, newStr) else (strip oldStr, strip newStr)

def replacedAt (asked : List Char × List Char) (text : List Char) (position : Nat) : List Char :=
  text.take position ++ asked.2 ++ text.drop (position + asked.1.length)

/-- The asked replacement at the only place there is. -/
def ReplacesOnce (oldStr newStr text newText : List Char) : Prop :=
  ∃ position, OccursAt (asked oldStr newStr text).1 text position ∧
    (∀ other, OccursAt (asked oldStr newStr text).1 text other → other = position) ∧
    newText = replacedAt (asked oldStr newStr text) text position

section Replacing

variable {path oldStr newStr text newText : List Char}

theorem replaceUnique_eq_ok (hreplace : replaceUnique oldStr newStr text = .ok newText) :
    ∃ position, occurrences oldStr text = [position] ∧
      newText = replacedAt (oldStr, newStr) text position := by
  unfold replaceUnique at hreplace
  split at hreplace
  next position hsingle => exact ⟨position, hsingle, (Except.ok.inj hreplace).symm⟩
  next => cases hreplace

theorem strReplace_eq_ok (hreplace : strReplace path oldStr newStr text = .ok newText) :
    ∃ position, occurrences (asked oldStr newStr text).1 text = [position] ∧
      newText = replacedAt (asked oldStr newStr text) text position := by
  by_cases hfound : oldStr <:+: text
  · rw [strReplace, if_pos (occurrences_ne_nil_iff.mpr hfound)] at hreplace
    rw [asked, if_pos hfound]
    exact replaceUnique_eq_ok hreplace
  · rw [strReplace, if_neg fun hsome => hfound (occurrences_ne_nil_iff.mp hsome)] at hreplace
    rw [asked, if_neg hfound]
    by_cases hstripped : occurrences (strip oldStr) text ≠ []
    · rw [if_pos hstripped] at hreplace
      dsimp only
      exact replaceUnique_eq_ok hreplace
    · rw [if_neg hstripped] at hreplace
      simp only [reduceCtorEq] at hreplace

/-- A text without carriage returns is replaced at one place, exactly if places do not overlap. -/
theorem replacesOnce_iff_disjoint (hreplace : strReplace path oldStr newStr text = .ok newText) :
    ReplacesOnce oldStr newStr text newText ↔ Disjoint (asked oldStr newStr text).1 text := by
  obtain ⟨position, hsingle, hnew⟩ := strReplace_eq_ok hreplace
  have hoccurs : OccursAt (asked oldStr newStr text).1 text position :=
    occursAt_of_mem_occurrences (by simp [hsingle])
  rw [← unique_iff_disjoint hsingle]
  constructor
  · rintro ⟨other, -, hunique, -⟩ place hplace
    rw [hunique place hplace, hunique position hoccurs]
  · intro hunique
    exact ⟨position, hoccurs, hunique, hnew⟩

theorem notMem_translateNewlines (text : List Char) : '\r' ∉ translateNewlines text := by
  fun_induction translateNewlines text with
  | case1 rest ih => simpa using ih
  | case2 rest _ ih => simpa using ih
  | case3 char rest hpair hreturn ih =>
      rw [List.mem_cons, not_or]
      exact ⟨fun heq => hreturn heq.symm, ih⟩
  | case4 => exact List.not_mem_nil

theorem count_replacedAt {asked : List Char × List Char} {position : Nat}
    (hoccurs : OccursAt asked.1 text position) (char : Char) :
    (replacedAt asked text position).count char + asked.1.count char =
      text.count char + asked.2.count char := by
  obtain ⟨after, hafter⟩ := hoccurs.2
  have htext : text = text.take position ++ (asked.1 ++ after) := by
    rw [hafter, List.take_append_drop]
  have hdrop : text.drop (position + asked.1.length) = after := by
    rw [← List.drop_drop, ← hafter, List.drop_left]
  have hcount := congrArg (List.count char) htext
  rw [List.count_append, List.count_append] at hcount
  rw [replacedAt, hdrop, List.count_append, List.count_append]
  omega

/-- The carriage returns of the text are gone, so the same replacement in the text itself leaves
another text. -/
theorem asked_ne_of_replacesOnce (hreturn : '\r' ∈ text)
    (hreplace : strReplace path oldStr newStr (translateNewlines text) = .ok newText)
    (honce : ReplacesOnce oldStr newStr text newText) :
    asked oldStr newStr text ≠ asked oldStr newStr (translateNewlines text) := by
  intro hsame
  obtain ⟨position, hsingle, hnew⟩ := strReplace_eq_ok hreplace
  obtain ⟨place, hplace, -, hold⟩ := honce
  have hoccurs : OccursAt (asked oldStr newStr (translateNewlines text)).1
      (translateNewlines text) position :=
    occursAt_of_mem_occurrences (by simp [hsingle])
  have htranslated := count_replacedAt hoccurs '\r'
  have hraw := count_replacedAt hplace '\r'
  rw [← hold, hsame] at hraw
  rw [← hnew, List.count_eq_zero_of_not_mem (notMem_translateNewlines text)] at htranslated
  have hpos := List.count_pos_iff.mpr hreturn
  omega

end Replacing

end FileEditor

namespace FileChecks

open FileEditor (OccursAt ReplacesOnce asked replacedAt)

/-- A replacement that succeeds is at one place, and one that fails changes no file. -/
structure EditsOnePlace (path oldStr newStr content : List Char) (outcome : Outcome) : Prop where
  succeeds : ∀ result, outcome.1 = .ok result → ∃ newText,
    outcome.2.files path = some newText ∧ ReplacesOnce oldStr newStr content newText
  fails : ∀ error, outcome.1 = .error error → outcome.2.files path = some content

/-- Another text is asked for when the line endings are translated, and at the one place for each the
replacements happen to come out the same. -/
def Coincides (oldStr newStr content : List Char) : Prop :=
  asked oldStr newStr content ≠ asked oldStr newStr (translateNewlines content) ∧
    ∃ place position, OccursAt (asked oldStr newStr content).1 content place ∧
      (∀ other, OccursAt (asked oldStr newStr content).1 content other → other = place) ∧
      FileEditor.occurrences (asked oldStr newStr (translateNewlines content)).1
        (translateNewlines content) = [position] ∧
      replacedAt (asked oldStr newStr (translateNewlines content)) (translateNewlines content)
          position =
        replacedAt (asked oldStr newStr content) content place

/-- Without carriage returns no two places may overlap. With them it is a coincidence. -/
def OnePlace (oldStr newStr content : List Char) : Prop :=
  if '\r' ∈ content then Coincides oldStr newStr content
  else FileEditor.Disjoint (asked oldStr newStr content).1 content

/-- Nothing is replaced, or the new text can be written and read, and is replaced at one place. -/
def RightlyReplaced (checks : FileChecks) (path oldStr newStr content : List Char) : Prop :=
  ∀ newText, FileEditor.strReplace path oldStr newStr (translateNewlines content) = .ok newText →
    if checks.unencodable path content newText = none then
      checks.Readable path newText
          (some (replacedLines oldStr newStr (translateNewlines content))) ∧
        OnePlace oldStr newStr content
    else content = []

theorem onePlace_iff {path oldStr newStr content newText : List Char}
    (hreplace : FileEditor.strReplace path oldStr newStr (translateNewlines content) =
      .ok newText) :
    OnePlace oldStr newStr content ↔ ReplacesOnce oldStr newStr content newText := by
  unfold OnePlace
  split
  next hreturn =>
    obtain ⟨position, hsingle, hnew⟩ := FileEditor.strReplace_eq_ok hreplace
    constructor
    · rintro ⟨-, place, found, hplace, hunique, hfound, hsame⟩
      obtain rfl : position = found := by simpa [hsingle] using hfound
      exact ⟨place, hplace, hunique, hnew.trans hsame⟩
    · intro honce
      refine ⟨FileEditor.asked_ne_of_replacesOnce hreturn hreplace honce, ?_⟩
      obtain ⟨place, hplace, hunique, hold⟩ := honce
      exact ⟨place, position, hplace, hunique, hsingle, hnew.symm.trans hold⟩
  next hplain =>
    rw [translateNewlines_of_notMem hplain] at hreplace
    exact (FileEditor.replacesOnce_iff_disjoint hreplace).symm

/-- A replacement is at one place exactly if the text is asked for at one place without translating
line endings, and the new text can be written and read. -/
theorem editsOnePlace_iff (checks : FileChecks) (host : HostPaths) (editor : FileEditor)
    (path oldStr newStr content : List Char) (hne : newStr ≠ oldStr)
    (hpath : FileEditor.validatePath host editor.files path
      (.strReplace (some oldStr) (some newStr)) = .ok ())
    (hfile : editor.files path = some content)
    (hreadable : checks.Readable path content none) :
    EditsOnePlace path oldStr newStr content
        (checks.call host editor path (.strReplace (some oldStr) (some newStr))) ↔
      checks.RightlyReplaced path oldStr newStr content := by
  unfold call RightlyReplaced
  simp only [hpath, if_neg hne]
  have hends := strReplace_ends oldStr newStr hfile hreadable
  generalize checks.strReplace path oldStr newStr editor = outcome at hends
  cases hends with
  | notReplaced error hreplace =>
      rw [hreplace]
      exact iff_of_true ⟨nofun, fun _ _ => hfile⟩ nofun
  | notWritten newText message error hreplace hencode =>
      simp only [hreplace, Except.ok.injEq, forall_eq', hencode, reduceCtorEq, if_false]
      constructor
      · intro hedits
        have hempty := hedits.fails error rfl
        rw [files_writeFile] at hempty
        exact (Option.some.inj hempty).symm
      · rintro rfl
        exact ⟨nofun, fun _ _ => files_writeFile path [] editor⟩
  | notRead newText error later hreplace hencode hnot hlater =>
      simp only [hreplace, Except.ok.injEq, forall_eq', hencode, if_true]
      refine iff_of_false (fun hedits => ?_) fun h => hnot h.1
      have hsame := hedits.fails error rfl
      rw [hlater] at hsame
      obtain rfl : newText = content := Option.some.inj hsame
      exact hnot (hreadable.part _)
  | replaced newText result later hreplace hencode hsnippet hlater =>
      simp only [hreplace, Except.ok.injEq, forall_eq', hencode, if_true,
        onePlace_iff hreplace]
      constructor
      · intro hedits
        obtain ⟨found, hfound, honce⟩ := hedits.succeeds result rfl
        rw [hlater] at hfound
        obtain rfl : newText = found := Option.some.inj hfound
        exact ⟨hsnippet, honce⟩
      · rintro ⟨-, honce⟩
        exact ⟨fun _ _ => ⟨newText, hlater, honce⟩, nofun⟩

/-! ## Line endings -/

theorem editsOnePlace_iff_single :
    EditsOnePlace "/a".toList "x".toList "y".toList "x".toList
      (fourCharacters.call FileEditor.plainHost (.init FileEditor.oneFile) "/a".toList
        (.strReplace (some "x".toList) (some "y".toList))) := by
  refine (editsOnePlace_iff fourCharacters FileEditor.plainHost (.init FileEditor.oneFile)
    "/a".toList "x".toList "y".toList "x".toList (by decide) rfl rfl ⟨rfl, rfl⟩).mpr ?_
  intro newText hreplace
  have hnew : (FileEditor.strReplace "/a".toList "x".toList "y".toList
    (translateNewlines "x".toList)).toOption = some "y".toList := by decide +kernel
  rw [hreplace] at hnew
  obtain rfl : newText = "y".toList := Option.some.inj hnew
  refine ⟨⟨rfl, rfl⟩, ?_⟩
  intro position shift hpos hlt
  exact absurd hlt (Nat.not_lt.mpr hpos)

/-- Two lines, as Windows ends them. -/
def windowsLines : List Char → Option (List Char) :=
  Function.update (fun _ => none) "/a".toList (some "a\r\nb".toList)

/-- The line ending goes. -/
theorem not_editsOnePlace_windowsLines :
    ¬∀ (checks : FileChecks) (host : HostPaths) (editor : FileEditor)
        (path oldStr newStr content : List Char), newStr ≠ oldStr →
      FileEditor.validatePath host editor.files path
        (.strReplace (some oldStr) (some newStr)) = .ok () →
      editor.files path = some content → checks.Readable path content none →
      EditsOnePlace path oldStr newStr content
        (checks.call host editor path (.strReplace (some oldStr) (some newStr))) := by
  intro hall
  have hedits := hall fourCharacters FileEditor.plainHost (.init windowsLines) "/a".toList
    "b".toList "c".toList "a\r\nb".toList (by decide) rfl rfl ⟨rfl, rfl⟩
  obtain ⟨newText, hnew, honce⟩ := hedits.succeeds _ rfl
  have hreplace : FileEditor.strReplace "/a".toList "b".toList "c".toList
      (translateNewlines "a\r\nb".toList) = .ok newText := by
    rw [← Option.some.inj hnew]
    rfl
  have hplace := (onePlace_iff hreplace).mpr honce
  rw [OnePlace, if_pos (by decide)] at hplace
  exact absurd hplace.1 (by decide)

end FileChecks

end ShuttleFlow
