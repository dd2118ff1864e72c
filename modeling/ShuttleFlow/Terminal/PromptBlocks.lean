import ShuttleFlow.Library.JsonRoundTrip
import ShuttleFlow.Terminal.CmdOutputMetadata

/-! # The blocks on a screen

A screen shows text, whole blocks and damaged ones, each from the beginning of a line. Exactly
the whole blocks are found. The argument goes line by line: no marker has a newline, so none
lies across two pieces.
-/

namespace ShuttleFlow

namespace CmdOutputMetadata

/-- What stands on a screen from the beginning of a line. -/
inductive ScreenPiece
  | plain (text : List Char)
  | block (json : List Char)
  | opened (rest : List Char)
  | closed (rest : List Char)

namespace ScreenPiece

def shown : ScreenPiece → List Char
  | .plain text => text
  | .block json => ps1Begin ++ '\n' :: json ++ '\n' :: ps1End
  | .opened rest => ps1Begin ++ rest
  | .closed rest => ps1End ++ rest

/-- The blocks to be found in the piece, when it begins at the position. -/
def found (position : Nat) : ScreenPiece → List Ps1Block
  | .block json =>
      [{ start := position
         stop := position + (ScreenPiece.block json).shown.length
         content := '\n' :: json ++ ['\n'] }]
  | _ => []

end ScreenPiece

open ScreenPiece

def screen (pieces : List ScreenPiece) : List Char :=
  ['\n'].intercalate (pieces.map shown)

def wholeBlocks (position : Nat) : List ScreenPiece → List Ps1Block
  | [] => []
  | piece :: rest =>
      piece.found position ++ wholeBlocks (position + piece.shown.length + 1) rest

def MarkerFree (text : List Char) : Prop :=
  ¬ps1Begin <:+: text ∧ ¬ps1End <:+: text

/-- Every piece is what it is called. An end marker does not follow an open begin marker. -/
def WellFormed (isJson : List Char → Prop) : (isOpen : Bool) → List ScreenPiece → Prop
  | _, [] => True
  | isOpen, .plain text :: rest => MarkerFree text ∧ WellFormed isJson isOpen rest
  | _, .block json :: rest => isJson json ∧ WellFormed isJson false rest
  | _, .opened text :: rest => MarkerFree text ∧ WellFormed isJson true rest
  | isOpen, .closed text :: rest =>
      isOpen = false ∧ MarkerFree text ∧ WellFormed isJson false rest

/-- No marker begins in the first text and ends in the second. -/
def Unjoined (marker front back : List Char) : Prop :=
  ∀ left right, marker = left ++ right → left <:+ front → right <+: back → left = [] ∨ right = []

/-! ## Markers in two texts -/

variable {Value : Type} {marker front back text rest : List Char} {isOpen lineStart : Bool}
  {position : Nat}

theorem Unjoined.of_suffix {behind : List Char} (hunjoined : Unjoined marker front back)
    (hsuffix : behind <:+ front) : Unjoined marker behind back :=
  fun left right hsplit hleft hright => hunjoined left right hsplit (hleft.trans hsuffix) hright

/-- A marker without newlines does not lie across the end of a line. -/
theorem Unjoined.of_newline (hmarker : '\n' ∉ marker) (hback : ∀ c ∈ back.head?, c = '\n') :
    Unjoined marker front back := by
  rintro left right rfl - hright
  cases right with
  | nil => exact .inr rfl
  | cons c right =>
      obtain ⟨behind, rfl⟩ := hright
      obtain rfl := hback c rfl
      simp at hmarker

theorem prefix_append_iff (hunjoined : Unjoined marker front back) (hne : front ≠ []) :
    marker <+: front ++ back ↔ marker <+: front := by
  refine ⟨fun hstarts => ?_, fun hstarts => hstarts.trans (List.prefix_append front back)⟩
  rcases List.prefix_or_prefix_of_prefix hstarts (List.prefix_append front back) with hin | hover
  · exact hin
  · obtain ⟨right, rfl⟩ := hover
    rw [List.prefix_append_right_inj] at hstarts
    rcases hunjoined front right rfl (List.suffix_refl _) hstarts with hnil | rfl
    · exact absurd hnil hne
    · rw [List.append_nil]

theorem not_prefix_append (hclean : ¬marker <:+: front) (hunjoined : Unjoined marker front back)
    (hne : front ≠ []) : ¬marker <+: front ++ back :=
  fun hstarts => hclean ((prefix_append_iff hunjoined hne).mp hstarts).isInfix

theorem MarkerFree.of_suffix {behind : List Char} (hfree : MarkerFree front)
    (hsuffix : behind <:+ front) : MarkerFree behind :=
  ⟨fun hmarker => hfree.1 (hmarker.trans hsuffix.isInfix),
    fun hmarker => hfree.2 (hmarker.trans hsuffix.isInfix)⟩

/-- No marker lies across the two texts. -/
def Apart (front back : List Char) : Prop :=
  Unjoined ps1Begin front back ∧ Unjoined ps1End front back

theorem Apart.of_suffix {behind : List Char} (hapart : Apart front back)
    (hsuffix : behind <:+ front) : Apart behind back :=
  ⟨hapart.1.of_suffix hsuffix, hapart.2.of_suffix hsuffix⟩

theorem Apart.of_newline (hback : ∀ c ∈ back.head?, c = '\n') : Apart front back :=
  ⟨.of_newline (by decide) hback, .of_newline (by decide) hback⟩

/-! ## The content of a block -/

theorem contentLength_append (hfree : MarkerFree front) (hapart : Apart front back) :
    contentLength (front ++ back) = (contentLength back).map (front.length + ·) := by
  induction front with
  | nil => simp
  | cons first front ih =>
      have hsuffix := List.suffix_cons first front
      have hend := not_prefix_append hfree.2 hapart.2 (List.cons_ne_nil first front)
      have hbegin := not_prefix_append hfree.1 hapart.1 (List.cons_ne_nil first front)
      rw [List.cons_append] at hend hbegin ⊢
      rw [contentLength, if_neg hend, if_neg hbegin,
        ih (hfree.of_suffix hsuffix) (hapart.of_suffix hsuffix), Option.map_map]
      congr 1
      funext length
      simp only [Function.comp_apply, List.length_cons]
      omega

theorem contentLength_eq_none (hfree : MarkerFree front) : contentLength front = none := by
  have happend := contentLength_append hfree (@Apart.of_newline front [] (by simp))
  rwa [List.append_nil, contentLength, Option.map_none] at happend

theorem contentLength_of_end (hend : ps1End <+: text) : contentLength text = some 0 := by
  cases text with
  | nil => exact absurd (List.prefix_nil.mp hend) (by decide)
  | cons first rest => rw [contentLength, if_pos hend]

theorem contentLength_of_begin (hbegin : ps1Begin <+: text) : contentLength text = none := by
  have hend : ¬ps1End <+: text := by
    intro hend
    exact absurd (List.prefix_of_prefix_length_le hend hbegin (by decide)) (by decide)
  cases text with
  | nil => rfl
  | cons first rest => rw [contentLength, if_neg hend, if_pos hbegin]

theorem length_le_of_contentLength {length : Nat} (hlength : contentLength text = some length) :
    length ≤ text.length := by
  induction text generalizing length with
  | nil => cases hlength
  | cons first rest ih =>
      rw [contentLength] at hlength
      split at hlength
      · cases hlength
        exact Nat.zero_le _
      · split at hlength
        · cases hlength
        · obtain ⟨shorter, hshorter, rfl⟩ := Option.map_eq_some_iff.mp hlength
          exact Nat.succ_le_succ (ih hshorter)

/-! ## Lines -/

theorem blocksFrom_newline :
    blocksFrom lineStart position 0 ('\n' :: rest) = blocksFrom true (position + 1) 0 rest := by
  have hbegin : ¬ps1Begin <+: '\n' :: rest := by
    intro hbegin
    have hhead := (List.cons_prefix_cons.mp (show '#' :: ps1Begin.tail <+: _ from hbegin)).1
    exact absurd hhead (by decide)
  rw [blocksFrom, blockAt, decide_eq_false hbegin, Bool.and_false, if_neg Bool.false_ne_true]
  rfl

/-- Nothing begins in the middle of a line. -/
theorem blocksFrom_inLine (hfront : '\n' ∉ front) :
    blocksFrom false position 0 (front ++ back) =
      blocksFrom false (position + front.length) 0 back := by
  induction front generalizing position with
  | nil => rfl
  | cons first front ih =>
      rw [List.mem_cons, not_or] at hfront
      rw [List.cons_append, blocksFrom, blockAt, Bool.false_and, if_neg Bool.false_ne_true]
      simp only [decide_eq_false (fun heq => hfront.1 (Eq.symm heq)), ih hfront.2,
        List.length_cons]
      congr 1
      omega

theorem blocksFrom_markerFree (hfree : MarkerFree front) (hapart : Apart front back) :
    ∃ lineStart', blocksFrom lineStart position 0 (front ++ back) =
      blocksFrom lineStart' (position + front.length) 0 back := by
  induction front generalizing position lineStart with
  | nil => exact ⟨lineStart, rfl⟩
  | cons first front ih =>
      have hsuffix := List.suffix_cons first front
      have hbegin := not_prefix_append hfree.1 hapart.1 (List.cons_ne_nil first front)
      rw [List.cons_append] at hbegin ⊢
      rw [blocksFrom, blockAt, decide_eq_false hbegin, Bool.and_false, if_neg Bool.false_ne_true]
      obtain ⟨lineStart', hrest⟩ := @ih (first = '\n') (position + 1)
        (hfree.of_suffix hsuffix) (hapart.of_suffix hsuffix)
      refine ⟨lineStart', hrest.trans ?_⟩
      rw [List.length_cons]
      congr 1
      omega

/-- A block is skipped once it is found. -/
theorem blocksFrom_skip :
    ∃ lineStart', blocksFrom lineStart position front.length (front ++ back) =
      blocksFrom lineStart' (position + front.length) 0 back := by
  induction front generalizing position lineStart with
  | nil => exact ⟨lineStart, rfl⟩
  | cons first front ih =>
      obtain ⟨lineStart', hrest⟩ := @ih (first = '\n') (position + 1)
      refine ⟨lineStart', ?_⟩
      rw [List.length_cons, List.cons_append, blocksFrom, hrest]
      congr 1
      omega

/-! ## Pieces -/

/-- What follows a piece: the next pieces, each on a new line. -/
def following (pieces : List ScreenPiece) : List Char :=
  pieces.flatMap fun piece => '\n' :: piece.shown

theorem screen_cons (piece : ScreenPiece) (pieces : List ScreenPiece) :
    screen (piece :: pieces) = piece.shown ++ following pieces := by
  induction pieces generalizing piece with
  | nil => simp [screen, following]
  | cons next rest ih =>
      have hrest := ih next
      rw [screen, List.map_cons, List.map_cons, List.intercalate_cons_cons,
        ← List.map_cons, ← screen, hrest]
      simp [following]

theorem apart_following (pieces : List ScreenPiece) : Apart front (following pieces) := by
  refine .of_newline fun c hc => ?_
  cases pieces with
  | nil => cases hc
  | cons piece rest => exact (Option.mem_some_iff.mp hc).symm

@[simp] theorem following_nil : following [] = [] := rfl

theorem following_cons (piece : ScreenPiece) (pieces : List ScreenPiece) :
    following (piece :: pieces) = '\n' :: (piece.shown ++ following pieces) := rfl

theorem contentLength_newline :
    contentLength ('\n' :: rest) = (contentLength rest).map (1 + ·) := by
  have hfree : MarkerFree ['\n'] := by
    constructor <;> intro hmarker <;> exact absurd hmarker.length_le (by decide)
  have hunjoined : ∀ marker, '\n' ∉ marker → Unjoined marker ['\n'] rest := by
    rintro _ hmarker left right rfl hleft -
    rcases List.suffix_cons_iff.mp hleft with rfl | hnil
    · simp at hmarker
    · exact .inl (List.suffix_nil.mp hnil)
  exact contentLength_append hfree ⟨hunjoined _ (by decide), hunjoined _ (by decide)⟩

/-- An open begin marker stays open. -/
theorem contentLength_following {isJson : List Char → Prop} {pieces : List ScreenPiece}
    (hwell : WellFormed isJson true pieces) : contentLength (following pieces) = none := by
  induction pieces with
  | nil => rfl
  | cons piece rest ih =>
      rw [following_cons, contentLength_newline, Option.map_eq_none_iff]
      cases piece with
      | plain text =>
          rw [shown, contentLength_append hwell.1 (apart_following rest), ih hwell.2,
            Option.map_none]
      | block json =>
          refine contentLength_of_begin ?_
          rw [shown, List.append_assoc]
          exact List.prefix_append _ _
      | opened text =>
          refine contentLength_of_begin ?_
          rw [shown, List.append_assoc]
          exact List.prefix_append _ _
      | closed text => cases hwell.1

theorem blockAt_opened (hrest : contentLength rest = none) :
    blockAt lineStart (ps1Begin ++ rest) = none := by
  simp only [blockAt, List.drop_left, hrest, Option.map_none, ite_self]

theorem blockAt_closed : blockAt lineStart (ps1End ++ rest) = none := by
  refine if_neg fun hbegins => ?_
  rw [Bool.and_eq_true, decide_eq_true_eq] at hbegins
  have hbegin := List.prefix_of_prefix_length_le (List.prefix_append ps1End rest) hbegins.2
    (by decide)
  exact absurd hbegin (by decide)

/-- The rest of a line whose marker begins no block. -/
theorem blocksFrom_marker (hmarker : '\n' ∉ marker) (hne : marker ≠ [])
    (hnone : blockAt true (marker ++ text ++ back) = none) (hfree : MarkerFree text)
    (hapart : Apart text back) :
    ∃ lineStart', blocksFrom true position 0 (marker ++ text ++ back) =
      blocksFrom lineStart' (position + (marker ++ text).length) 0 back := by
  cases marker with
  | nil => exact absurd rfl hne
  | cons first marker =>
      rw [List.mem_cons, not_or] at hmarker
      obtain ⟨lineStart', hrest⟩ := @blocksFrom_markerFree text back false
        (position + 1 + marker.length) hfree hapart
      refine ⟨lineStart', ?_⟩
      rw [List.cons_append, List.cons_append] at hnone ⊢
      rw [blocksFrom, hnone]
      simp only [decide_eq_false (fun heq => hmarker.1 (Eq.symm heq))]
      rw [List.append_assoc, blocksFrom_inLine hmarker.2, hrest, List.length_cons,
        List.length_append]
      congr 1
      omega

theorem blockAt_block {json : List Char} (hfree : MarkerFree json) :
    blockAt true (shown (.block json) ++ back) = some ('\n' :: json ++ ['\n']) := by
  have hshown : shown (.block json) ++ back =
      ps1Begin ++ ('\n' :: json ++ ['\n'] ++ (ps1End ++ back)) := by
    simp [shown]
  have hlength : contentLength ('\n' :: json ++ ['\n'] ++ (ps1End ++ back)) =
      some ('\n' :: json ++ ['\n']).length := by
    rw [List.append_assoc, List.cons_append, List.singleton_append, contentLength_newline,
      contentLength_append hfree (.of_newline (by simp)), contentLength_newline,
      contentLength_of_end (List.prefix_append _ _)]
    simp only [Option.map_some, List.length_append, List.length_cons, List.length_nil,
      Option.some.injEq]
    omega
  rw [hshown, blockAt, Bool.true_and, if_pos (by simp)]
  simp only [List.drop_left, hlength, Option.map_some, List.take_left]

theorem blocksFrom_found {first : Char} {content : List Char}
    (hblock : blockAt lineStart (first :: front ++ back) = some content)
    (hlength : ps1Begin.length + content.length + ps1End.length = front.length + 1) :
    ∃ lineStart', blocksFrom lineStart position 0 (first :: front ++ back) =
      { start := position, stop := position + (front.length + 1), content } ::
        blocksFrom lineStart' (position + (front.length + 1)) 0 back := by
  obtain ⟨lineStart', hrest⟩ := @blocksFrom_skip front back (first = '\n') (position + 1)
  refine ⟨lineStart', ?_⟩
  rw [List.cons_append] at hblock ⊢
  rw [blocksFrom, hblock]
  simp only [hlength, Nat.add_sub_cancel]
  rw [hrest, Nat.add_assoc, Nat.add_comm 1]

/-- A whole block is found where it stands, and is skipped. -/
theorem blocksFrom_block {json : List Char} (hfree : MarkerFree json) :
    ∃ lineStart', blocksFrom true position 0 (shown (.block json) ++ back) =
      found position (.block json) ++
        blocksFrom lineStart' (position + (shown (.block json)).length) 0 back := by
  have hblock := @blockAt_block back json hfree
  have hlength : ps1Begin.length + ('\n' :: json ++ ['\n']).length + ps1End.length =
      (shown (.block json)).length := by
    simp only [shown, List.length_append, List.length_cons, List.length_nil]
    omega
  rw [found]
  generalize shown (.block json) = block at hblock hlength ⊢
  cases block with
  | nil =>
      have hbegin : ps1Begin.length = 13 := by decide
      simp only [List.length_nil] at hlength
      omega
  | cons first behind => exact blocksFrom_found hblock hlength

/-- Each piece gives its blocks, and leaves the rest alone. -/
theorem blocksFrom_piece {isJson : List Char → Prop} {piece : ScreenPiece}
    {pieces : List ScreenPiece} (hclean : ∀ json, isJson json → MarkerFree json)
    (hwell : WellFormed isJson isOpen (piece :: pieces)) :
    ∃ lineStart', blocksFrom true position 0 (piece.shown ++ following pieces) =
      piece.found position ++
        blocksFrom lineStart' (position + piece.shown.length) 0 (following pieces) := by
  have hapart := fun {front} => @apart_following front pieces
  cases piece with
  | plain text => exact blocksFrom_markerFree hwell.1 hapart
  | block json => exact blocksFrom_block (hclean json hwell.1)
  | opened text =>
      have hopen : contentLength (text ++ following pieces) = none := by
        rw [contentLength_append hwell.1 hapart, contentLength_following hwell.2,
          Option.map_none]
      refine blocksFrom_marker (by decide) (by decide) ?_ hwell.1 hapart
      rw [List.append_assoc]
      exact blockAt_opened hopen
  | closed text =>
      refine blocksFrom_marker (by decide) (by decide) ?_ hwell.2.1 hapart
      rw [List.append_assoc]
      exact blockAt_closed

theorem WellFormed.tail {isJson : List Char → Prop} {piece : ScreenPiece}
    {pieces : List ScreenPiece} (hwell : WellFormed isJson isOpen (piece :: pieces)) :
    ∃ isOpen', WellFormed isJson isOpen' pieces := by
  cases piece with
  | plain text => exact ⟨_, hwell.2⟩
  | block json => exact ⟨_, hwell.2⟩
  | opened text => exact ⟨_, hwell.2⟩
  | closed text => exact ⟨_, hwell.2.2⟩

theorem blocksFrom_following {isJson : List Char → Prop} {pieces : List ScreenPiece}
    (hclean : ∀ json, isJson json → MarkerFree json) (hwell : WellFormed isJson isOpen pieces) :
    blocksFrom lineStart position 0 (following pieces) = wholeBlocks (position + 1) pieces := by
  induction pieces generalizing position lineStart isOpen with
  | nil => rfl
  | cons piece rest ih =>
      obtain ⟨isOpen', hrest⟩ := hwell.tail
      obtain ⟨lineStart', hpiece⟩ := @blocksFrom_piece _ (position + 1) _ _ _ hclean hwell
      rw [following_cons, blocksFrom_newline, hpiece, ih hrest, wholeBlocks]

theorem blocksFrom_screen {isJson : List Char → Prop} {pieces : List ScreenPiece}
    (hclean : ∀ json, isJson json → MarkerFree json) (hwell : WellFormed isJson isOpen pieces) :
    blocksFrom true 0 0 (screen pieces) = wholeBlocks 0 pieces := by
  cases pieces with
  | nil => rfl
  | cons piece rest =>
      obtain ⟨isOpen', hrest⟩ := hwell.tail
      obtain ⟨lineStart', hpiece⟩ := @blocksFrom_piece _ 0 _ _ _ hclean hwell
      rw [screen_cons, hpiece, blocksFrom_following hclean hrest, wholeBlocks]

/-! ## Text that is appended -/

theorem contentLength_append_markerFree (hfree : MarkerFree back) (hapart : Apart text back) :
    contentLength (text ++ back) = contentLength text := by
  induction text with
  | nil => exact contentLength_eq_none hfree
  | cons first rest ih =>
      have hend := prefix_append_iff hapart.2 (List.cons_ne_nil first rest)
      have hbegin := prefix_append_iff hapart.1 (List.cons_ne_nil first rest)
      rw [List.cons_append] at hend hbegin ⊢
      rw [contentLength, contentLength, ih (hapart.of_suffix (List.suffix_cons first rest))]
      simp only [hend, hbegin]

theorem blockAt_append_markerFree (hfree : MarkerFree back) (hapart : Apart text back)
    (hne : text ≠ []) : blockAt lineStart (text ++ back) = blockAt lineStart text := by
  have hbegin := prefix_append_iff hapart.1 hne
  rw [blockAt, blockAt]
  simp only [hbegin]
  split
  next hbegins =>
    rw [Bool.and_eq_true, decide_eq_true_eq] at hbegins
    have hsuffix : text.drop ps1Begin.length <:+ text := List.drop_suffix _ _
    rw [List.drop_append_of_le_length hbegins.2.length_le,
      contentLength_append_markerFree hfree (hapart.of_suffix hsuffix)]
    cases hlength : contentLength (text.drop ps1Begin.length) with
    | none => rfl
    | some length =>
        rw [Option.map_some, Option.map_some,
          List.take_append_of_le_length (length_le_of_contentLength hlength)]
  next => rfl

theorem blocksFrom_eq_nil {skip : Nat} (hfree : MarkerFree text) :
    blocksFrom lineStart position skip text = [] := by
  induction text generalizing lineStart position skip with
  | nil => cases skip <;> rfl
  | cons first rest ih =>
      have hrest := hfree.of_suffix (List.suffix_cons first rest)
      cases skip with
      | zero =>
          have hbegin : ¬ps1Begin <+: first :: rest := fun hbegin => hfree.1 hbegin.isInfix
          rw [blocksFrom, blockAt, decide_eq_false hbegin, Bool.and_false,
            if_neg Bool.false_ne_true]
          exact ih hrest
      | succ skip => rw [blocksFrom, ih hrest]

/-- Text without markers changes nothing, unless a marker lies across the end of the screen. -/
theorem blocksFrom_append_markerFree {skip : Nat} (hfree : MarkerFree back)
    (hapart : Apart text back) :
    blocksFrom lineStart position skip (text ++ back) =
      blocksFrom lineStart position skip text := by
  induction text generalizing lineStart position skip with
  | nil =>
      rw [List.nil_append, blocksFrom_eq_nil hfree]
      cases skip <;> rfl
  | cons first rest ih =>
      have hrest := hapart.of_suffix (List.suffix_cons first rest)
      have hblock := @blockAt_append_markerFree back _ lineStart hfree hapart
        (List.cons_ne_nil first rest)
      rw [List.cons_append] at hblock ⊢
      cases skip with
      | zero =>
          rw [blocksFrom, blocksFrom, hblock]
          split
          · exact ih hrest
          · simp only [ih hrest]
      | succ skip => rw [blocksFrom, blocksFrom, ih hrest]

/-! ## Recognition -/

/-- A text that can be read as JSON. -/
def Readable (loads : List Char → Loaded Value) (json : List Char) : Prop :=
  ∃ value, loads (PythonText.trim json) = .value value

theorem readable_wholeBlocks {loads : List Char → Loaded Value} {isJson : List Char → Prop}
    {pieces : List ScreenPiece} (hreads : ∀ json, isJson json → Readable loads json)
    (hwell : WellFormed isJson isOpen pieces) :
    readable loads (wholeBlocks position pieces) = .ok (wholeBlocks position pieces) := by
  induction pieces generalizing position isOpen with
  | nil => rfl
  | cons piece rest ih =>
      obtain ⟨isOpen', hrest⟩ := hwell.tail
      rw [wholeBlocks]
      cases piece with
      | block json =>
          obtain ⟨value, hvalue⟩ := hreads json hwell.1
          rw [← PythonText.trim_newlines] at hvalue
          simp only [found, List.singleton_append, readable, hvalue, ih hrest]
          rfl
      | plain text => exact ih hrest
      | opened text => exact ih hrest
      | closed text => exact ih hrest

/-- Exactly the whole blocks are found, also behind appended text, when the JSON texts have no
marker and none lies across the end of the screen. -/
theorem matchesPs1Metadata_screen (loads : List Char → Loaded Value) (pieces : List ScreenPiece)
    (hwell : WellFormed (fun json => Readable loads json ∧ MarkerFree json) false pieces) :
    matchesPs1Metadata loads (screen pieces) = .ok (wholeBlocks 0 pieces) ∧
      ∀ appended, MarkerFree appended → Apart (screen pieces) appended →
        matchesPs1Metadata loads (screen pieces ++ appended) = .ok (wholeBlocks 0 pieces) := by
  have hblocks := blocksFrom_screen (fun _ hjson => hjson.2) hwell
  have hreads : readable loads (blocksFrom true 0 0 (screen pieces)) =
      .ok (wholeBlocks 0 pieces) := by
    rw [hblocks]
    exact readable_wholeBlocks (fun _ hjson => hjson.1) hwell
  refine ⟨hreads, fun appended hfree hapart => ?_⟩
  rw [matchesPs1Metadata, blocksFrom_append_markerFree hfree hapart, hreads]

def plainLoads (text : List Char) : Loaded (JsonValue (Nat × Fin 10)) :=
  (JsonText.loads .tenths text).elim .decodeError .value

theorem readable_plainLoads {json : List Char}
    (hjson : (JsonText.loads .tenths (PythonText.trim json)).isSome = true) :
    Readable plainLoads json := by
  obtain ⟨value, hvalue⟩ := Option.isSome_iff_exists.mp hjson
  exact ⟨value, by rw [plainLoads, hvalue, Option.elim_some]⟩

def prompt : List Char := "\x7b\"exit_code\": 0\x7d".toList

theorem matchesPs1Metadata_damaged :
    matchesPs1Metadata plainLoads
        (screen [.closed [], .opened "\n\x7b\"pid".toList, .block prompt] ++ "\n$".toList) =
      .ok [{ start := 33, stop := 76, content := '\n' :: prompt ++ ['\n'] }] := by
  have hread : Readable plainLoads prompt := readable_plainLoads (by decide +kernel)
  have hwell : WellFormed (fun json => Readable plainLoads json ∧ MarkerFree json) false
      [.closed [], .opened "\n\x7b\"pid".toList, .block prompt] :=
    ⟨rfl, ⟨by decide +kernel, by decide +kernel⟩, ⟨by decide +kernel, by decide +kernel⟩,
      ⟨hread, by decide +kernel, by decide +kernel⟩, trivial⟩
  have happended : MarkerFree "\n$".toList := ⟨by decide +kernel, by decide +kernel⟩
  exact (matchesPs1Metadata_screen plainLoads _ hwell).2 _ happended (.of_newline (by simp))

def endInside : ScreenPiece :=
  .block "\x7b\"a\": \"###PS1END###\"\x7d".toList

def unfinished : ScreenPiece :=
  .opened "\n\x7b\x7d\n###PS1END##".toList

/-- An end marker inside the JSON text ends the block there. An end marker that is completed
later turns a damaged block into a whole one. -/
theorem not_matchesPs1Metadata_screen :
    (WellFormed (Readable plainLoads) false [endInside] ∧
      matchesPs1Metadata plainLoads (screen [endInside]) ≠ .ok (wholeBlocks 0 [endInside])) ∧
    (WellFormed (Readable plainLoads) false [unfinished] ∧ MarkerFree ['#'] ∧
      matchesPs1Metadata plainLoads (screen [unfinished] ++ ['#']) ≠
        matchesPs1Metadata plainLoads (screen [unfinished])) :=
  ⟨⟨⟨readable_plainLoads (by decide +kernel), trivial⟩, by decide +kernel⟩,
    ⟨⟨by decide +kernel, by decide +kernel⟩, trivial⟩, ⟨by decide, by decide⟩,
    by decide +kernel⟩

end CmdOutputMetadata

end ShuttleFlow
