import ShuttleFlow.FileEditor.Editor
import ShuttleFlow.Library.Lines

/-! # The lines of a file

Each line ends with a newline, except perhaps the last one.
-/

namespace ShuttleFlow.FileEditor

def withoutEnd (line : List Char) : List Char :=
  if line.getLast? = some '\n' then line.dropLast else line

/-- The lines of a text, without their ends. -/
def textLines (text : List Char) : List (List Char) :=
  (fileLines text).map withoutEnd

/-- No line is open at the end of the text. -/
def LinesEnd (text : List Char) : Prop := text = [] ∨ text.getLast? = some '\n'

instance (text : List Char) : Decidable (LinesEnd text) :=
  inferInstanceAs (Decidable (_ ∨ _))

variable {body rest text other : List Char}

@[simp] theorem fileLines_nil : fileLines [] = [] := rfl

@[simp] theorem textLines_nil : textLines [] = [] := rfl

theorem fileLines_of_notMem (hne : body ≠ []) (hbody : '\n' ∉ body) : fileLines body = [body] := by
  induction body with
  | nil => exact absurd rfl hne
  | cons first body ih =>
      rw [List.mem_cons, not_or] at hbody
      rw [fileLines.eq_3 _ _ (Ne.symm hbody.1)]
      cases body with
      | nil => rfl
      | cons second body => rw [ih (List.cons_ne_nil _ _) hbody.2]

theorem fileLines_line (hbody : '\n' ∉ body) (rest : List Char) :
    fileLines (body ++ '\n' :: rest) = (body ++ ['\n']) :: fileLines rest := by
  induction body with
  | nil => rfl
  | cons first body ih =>
      rw [List.mem_cons, not_or] at hbody
      rw [List.cons_append, fileLines.eq_3 _ _ (Ne.symm hbody.1), ih hbody.2]
      rfl

theorem withoutEnd_line (body : List Char) : withoutEnd (body ++ ['\n']) = body := by
  rw [withoutEnd, if_pos (List.getLast?_concat ..), List.dropLast_concat]

theorem withoutEnd_of_notMem (hbody : '\n' ∉ body) : withoutEnd body = body :=
  if_neg fun hlast => hbody (List.mem_of_getLast? hlast)

theorem textLines_of_notMem (hne : body ≠ []) (hbody : '\n' ∉ body) : textLines body = [body] := by
  rw [textLines, fileLines_of_notMem hne hbody, List.map_singleton, withoutEnd_of_notMem hbody]

theorem textLines_line (hbody : '\n' ∉ body) (rest : List Char) :
    textLines (body ++ '\n' :: rest) = body :: textLines rest := by
  rw [textLines, fileLines_line hbody, List.map_cons, withoutEnd_line, textLines]

theorem length_textLines (text : List Char) : (textLines text).length = (fileLines text).length :=
  List.length_map _

theorem linesEnd_line_iff : LinesEnd (body ++ '\n' :: rest) ↔ LinesEnd rest := by
  unfold LinesEnd
  cases rest with
  | nil => simp
  | cons first rest =>
      rw [List.append_cons, List.getLast?_append_of_ne_nil _ (List.cons_ne_nil _ _)]
      simp

theorem not_linesEnd_of_notMem (hne : body ≠ []) (hbody : '\n' ∉ body) : ¬LinesEnd body := by
  rintro (hnil | hlast)
  · exact hne hnil
  · exact hbody (List.mem_of_getLast? hlast)

/-- Some of the first lines are the lines of their own text, and what is put behind them begins
another line, unless the last one is open. -/
theorem textLines_take_append {number : Nat} (hnumber : number ≤ (fileLines text).length)
    (hend : number < (fileLines text).length ∨ LinesEnd text) (other : List Char) :
    textLines (((fileLines text).take number).flatten ++ other) =
      (textLines text).take number ++ textLines other := by
  induction text using @Lines.text_induction _ '\n' generalizing number with
  | nil => rw [fileLines_nil, textLines_nil, List.take_nil]; rfl
  | part body hne hbody =>
      have hlength : (fileLines body).length = 1 := by rw [fileLines_of_notMem hne hbody]; rfl
      rcases hend with hlt | hend
      · obtain rfl : number = 0 := by omega
        rfl
      · exact absurd hend (not_linesEnd_of_notMem hne hbody)
  | line body rest hbody ih =>
      cases number with
      | zero => rfl
      | succ number =>
          rw [fileLines_line hbody, List.length_cons] at hnumber hend
          have hrest := @ih number (by omega) (hend.imp (by omega) linesEnd_line_iff.mp)
          rw [fileLines_line hbody, textLines_line hbody, List.take_succ_cons, List.take_succ_cons,
            List.flatten_cons, List.append_assoc, List.append_assoc, List.singleton_append,
            textLines_line hbody, hrest, List.cons_append]

theorem fileLines_take (number : Nat) (text : List Char) :
    fileLines ((fileLines text).take number).flatten = (fileLines text).take number := by
  induction text using @Lines.text_induction _ '\n' generalizing number with
  | nil => rw [fileLines_nil, List.take_nil]; rfl
  | part body hne hbody =>
      rw [fileLines_of_notMem hne hbody]
      cases number with
      | zero => rfl
      | succ number =>
          rw [List.take_succ_cons, List.take_nil, List.flatten_singleton,
            fileLines_of_notMem hne hbody]
  | line body rest hbody ih =>
      rw [fileLines_line hbody]
      cases number with
      | zero => rfl
      | succ number =>
          rw [List.take_succ_cons, List.flatten_cons, List.append_assoc, List.singleton_append,
            fileLines_line hbody, ih]

theorem fileLines_drop (number : Nat) (text : List Char) :
    fileLines ((fileLines text).drop number).flatten = (fileLines text).drop number := by
  induction text using @Lines.text_induction _ '\n' generalizing number with
  | nil => rw [fileLines_nil, List.drop_nil]; rfl
  | part body hne hbody =>
      rw [fileLines_of_notMem hne hbody]
      cases number with
      | zero => rw [List.drop_zero, List.flatten_singleton, fileLines_of_notMem hne hbody]
      | succ number => rw [List.drop_succ_cons, List.drop_nil]; rfl
  | line body rest hbody ih =>
      rw [fileLines_line hbody]
      cases number with
      | zero =>
          rw [List.drop_zero, List.flatten_cons, flatten_fileLines, List.append_assoc,
            List.singleton_append, fileLines_line hbody]
      | succ number => rw [List.drop_succ_cons, ih]

theorem textLines_drop (number : Nat) (text : List Char) :
    textLines ((fileLines text).drop number).flatten = (textLines text).drop number := by
  rw [textLines, fileLines_drop, List.map_drop, textLines]

/-- Behind the last newline there is an empty part. -/
theorem splitOn_eq_textLines (text : List Char) :
    text.splitOn '\n' = textLines text ++ if LinesEnd text then [[]] else [] := by
  induction text using @Lines.text_induction _ '\n' with
  | nil => rfl
  | part body hne hbody =>
      rw [Lines.splitOn_of_notMem hbody, textLines_of_notMem hne hbody,
        if_neg (not_linesEnd_of_notMem hne hbody), List.append_nil]
  | line body rest hbody ih =>
      rw [Lines.splitOn_append_cons hbody, ih, textLines_line hbody, List.cons_append]
      simp only [linesEnd_line_iff]

/-- Lines that are written one after another. -/
theorem textLines_flatMap_append {lines : List (List Char)} (hlines : ∀ line ∈ lines, '\n' ∉ line)
    (other : List Char) :
    textLines (lines.flatMap (· ++ ['\n']) ++ other) = lines ++ textLines other := by
  induction lines with
  | nil => rfl
  | cons line lines ih =>
      rw [List.flatMap_cons, List.append_assoc, List.append_assoc, List.singleton_append,
        textLines_line (hlines line List.mem_cons_self),
        ih fun later hlater => hlines later (List.mem_cons_of_mem _ hlater), List.cons_append]

/-- An open line goes on with what is put behind it. -/
theorem length_textLines_append (hopen : ¬LinesEnd text) (hbody : '\n' ∉ body) (rest : List Char) :
    (textLines (text ++ (body ++ '\n' :: rest))).length =
      (textLines text).length + (textLines rest).length := by
  induction text using @Lines.text_induction _ '\n' with
  | nil => exact absurd (.inl rfl) hopen
  | part first hne hfirst =>
      have hboth : '\n' ∉ first ++ body := by
        rw [List.mem_append, not_or]
        exact ⟨hfirst, hbody⟩
      rw [← List.append_assoc, textLines_line hboth, textLines_of_notMem hne hfirst,
        List.length_cons, List.length_singleton, Nat.add_comm]
  | line first later hfirst ih =>
      rw [linesEnd_line_iff] at hopen
      rw [List.append_assoc, List.cons_append, textLines_line hfirst, textLines_line hfirst,
        List.length_cons, List.length_cons, ih hopen]
      omega

end ShuttleFlow.FileEditor
