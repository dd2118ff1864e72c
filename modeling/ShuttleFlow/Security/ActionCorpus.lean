import Mathlib.Data.List.Induction
import ShuttleFlow.Library.JsonScan

/-! # The texts of an action that a security analyzer reads

The texts are put behind one another with spaces between them, as far as there is room. A text
is the list of its code points.
-/

namespace ShuttleFlow

abbrev CodePoints : Type := List Nat

def codePoints (text : List Char) : CodePoints := text.map Char.toNat

/-- `" ".join`. -/
def joinSpaces (segments : List CodePoints) : CodePoints := List.intercalate [32] segments

/-! ## Segments with a bound -/

structure BoundedSegments where
  cap : Nat
  segments : List CodePoints
  total : Nat

namespace BoundedSegments

def init (cap : Nat) : BoundedSegments := { cap, segments := [], total := 0 }

/-- The separator takes room too. What does not fit is cut off, and nothing is added when there is
no room. -/
def add (text : CodePoints) (buf : BoundedSegments) : BoundedSegments :=
  let separatorLen : Nat := if buf.segments = [] then 0 else 1
  let remaining : Int := buf.cap - buf.total - separatorLen
  if remaining ≤ 0 then buf
  else
    let text := if remaining < text.length then text.take remaining.toNat else text
    { buf with
      segments := buf.segments ++ [text]
      total := buf.total + (text.length + separatorLen) }

def addAll (buf : BoundedSegments) (texts : List CodePoints) : BoundedSegments :=
  texts.foldl (fun buf text => buf.add text) buf

end BoundedSegments

/-! ## Corpora -/

structure ActionTexts where
  /-- `tool_call.arguments` -/
  arguments : List Char
  toolName : List Char
  /-- `tool_call.name` -/
  callName : List Char
  summary : Option (List Char)
  reasoningContent : Option (List Char)
  thought : List (List Char)

/-- What stops `json.loads`: it finds no JSON, or it exceeds a limit of the interpreter. -/
inductive JsonLoadError
  | jsonDecodeError
  | recursionError
  | otherError
  deriving DecidableEq

/-- The limits that a call meets: those of `json.loads`, and the frames that are left. -/
structure CallLimits where
  exceeded : List Char → Option JsonLoadError
  frames : Nat

namespace ActionTexts

open JsonTree

def extractHardCap : Nat := 30000

variable {Float : Type}

/-- `_walk_json_strings`. There is nothing where the recursion is too deep. -/
def walkJsonStrings : Nat → JsonTree Float → Option (List CodePoints)
  | 0, _ => none
  | _ + 1, .str units => some [units]
  | frames + 1, .obj entries =>
      (entries.mapM fun entry => walkJsonStrings frames entry.2).map List.flatten
  | frames + 1, .arr items =>
      (items.mapM fun item => walkJsonStrings frames item).map List.flatten
  | _ + 1, _ => some []

variable (read : List Char → Float) (limits : CallLimits)

def jsonLoads (text : List Char) : Except JsonLoadError (JsonTree Float) :=
  match limits.exceeded text with
  | some error => .error error
  | none =>
      match loads read (literal true) text with
      | some parsed => .ok parsed
      | none => .error .jsonDecodeError

/-- What the arguments give. An error that is not caught is given on. -/
def argumentSegments (arguments : List Char) : Except JsonLoadError (List CodePoints) :=
  match jsonLoads read limits arguments with
  | .ok parsed => .ok ((walkJsonStrings limits.frames parsed).getD [codePoints arguments])
  | .error .jsonDecodeError => .ok [codePoints arguments]
  | .error .recursionError => .ok [codePoints arguments]
  | .error .otherError => .error .otherError

/-- A field without a text is left out. -/
def addField (text : List Char) (buf : BoundedSegments) : BoundedSegments :=
  if text = [] then buf else buf.add (codePoints text)

/-- `_extract_exec_segments`. -/
def extractExecSegments (action : ActionTexts) : Except JsonLoadError (List CodePoints) := do
  let buf := BoundedSegments.init extractHardCap
  let buf ←
    if action.arguments = [] then .ok buf
    else (argumentSegments read limits action.arguments).map buf.addAll
  return (addField action.callName (addField action.toolName buf)).segments

/-- `_extract_text_segments`. -/
def extractTextSegments (action : ActionTexts) : List CodePoints :=
  let buf := BoundedSegments.init extractHardCap
  let buf := addField (action.summary.getD []) buf
  let buf := addField (action.reasoningContent.getD []) buf
  (action.thought.foldl (fun buf text => addField text buf) buf).segments

def extractSegments (action : ActionTexts) : Except JsonLoadError (List CodePoints) :=
  (action.extractExecSegments read limits).map (· ++ action.extractTextSegments)

/-- `_extract_content`. -/
def extractContent (action : ActionTexts) : Except JsonLoadError CodePoints :=
  (action.extractSegments read limits).map joinSpaces

/-- `_extract_exec_content`. -/
def extractExecContent (action : ActionTexts) : Except JsonLoadError CodePoints :=
  (action.extractExecSegments read limits).map joinSpaces

end ActionTexts

theorem joinSpaces_concat (texts : List CodePoints) (text : CodePoints) (hne : texts ≠ []) :
    joinSpaces (texts ++ [text]) = joinSpaces texts ++ 32 :: text := by
  induction texts with
  | nil => exact absurd rfl hne
  | cons first rest ih =>
      cases rest with
      | nil => simp [joinSpaces, List.intercalate_cons_cons]
      | cons second others =>
          have htail := ih (List.cons_ne_nil _ _)
          simp only [joinSpaces, List.cons_append, List.intercalate_cons_cons,
            List.append_assoc] at htail ⊢
          rw [htail]

theorem joinSpaces_prefix_concat (texts : List CodePoints) (text : CodePoints) :
    joinSpaces texts <+: joinSpaces (texts ++ [text]) := by
  cases texts with
  | nil => exact List.nil_prefix
  | cons first rest =>
      rw [joinSpaces_concat _ _ (List.cons_ne_nil _ _)]
      exact List.prefix_append _ _

/-- A beginning of a text that leaves no room for more. -/
structure Capped (cap : Nat) (kept whole : CodePoints) : Prop where
  isPrefix : kept <+: whole
  length_le : kept.length ≤ cap
  full : cap ≤ whole.length → cap ≤ kept.length + 1

namespace BoundedSegments

variable {buf : BoundedSegments} {texts : List CodePoints}

/-- What is known after texts have been added: all of them are there, or there is no room left. -/
structure Holds (texts : List CodePoints) (buf : BoundedSegments) : Prop where
  total : buf.total = (joinSpaces buf.segments).length
  isPrefix : joinSpaces buf.segments <+: joinSpaces texts
  length_le : buf.total ≤ buf.cap
  whole : buf.segments = texts ∨ buf.segments ≠ [] ∧ buf.cap ≤ buf.total + 1

theorem holds_init (cap : Nat) : Holds [] (init cap) where
  total := rfl
  isPrefix := List.prefix_rfl
  length_le := Nat.zero_le cap
  whole := .inl rfl

theorem add_of_full (hne : buf.segments ≠ []) (hfull : buf.cap ≤ buf.total + 1)
    (text : CodePoints) : buf.add text = buf := by
  rw [add, if_neg hne]
  exact if_pos (by omega)

/-- What a segment takes, with the space in front of it. -/
theorem length_joinSpaces_concat (segments : List CodePoints) (text : CodePoints) :
    (joinSpaces (segments ++ [text])).length =
      (joinSpaces segments).length + (text.length + if segments = [] then 0 else 1) := by
  by_cases hnil : segments = []
  · subst hnil
    simp [joinSpaces]
  · rw [joinSpaces_concat _ _ hnil, if_neg hnil, List.length_append, List.length_cons]

theorem joinSpaces_take_prefix (segments : List CodePoints) (text : CodePoints) (count : Nat) :
    joinSpaces (segments ++ [text.take count]) <+: joinSpaces (segments ++ [text]) := by
  cases segments with
  | nil => simpa [joinSpaces] using List.take_prefix count text
  | cons first rest =>
      rw [joinSpaces_concat _ _ (List.cons_ne_nil _ _),
        joinSpaces_concat _ _ (List.cons_ne_nil _ _), List.prefix_append_right_inj,
        List.cons_prefix_cons]
      exact ⟨rfl, List.take_prefix count text⟩

/-- There is no room, or a beginning of the text is added, and all of it where there is room. -/
theorem add_cases (buf : BoundedSegments) (text : CodePoints) :
    (buf.add text = buf ∧ buf.cap ≤ buf.total + if buf.segments = [] then 0 else 1) ∨
      ∃ count total, buf.add text =
          { buf with segments := buf.segments ++ [text.take count], total := total } ∧
        total = buf.total + ((text.take count).length + if buf.segments = [] then 0 else 1) ∧
        total ≤ buf.cap ∧ (text.take count = text ∨ total = buf.cap) := by
  rw [add]
  generalize (if buf.segments = [] then 0 else 1) = separatorLen
  by_cases hroom : (buf.cap : Int) - buf.total - (separatorLen : Nat) ≤ 0
  · exact .inl ⟨if_pos hroom, by omega⟩
  · right
    simp only [if_neg hroom]
    by_cases hlong : (buf.cap : Int) - buf.total - (separatorLen : Nat) < text.length
    · simp only [if_pos hlong]
      refine ⟨_, _, rfl, rfl, ?_, ?_⟩
      · rw [List.length_take]
        omega
      · right
        rw [List.length_take]
        omega
    · simp only [if_neg hlong]
      refine ⟨text.length, _, by rw [List.take_length], by rw [List.take_length], by omega, .inl ?_⟩
      exact List.take_length

theorem Holds.add (hholds : Holds texts buf) (hcap : 0 < buf.cap) (text : CodePoints) :
    Holds (texts ++ [text]) (buf.add text) := by
  have hprefix := hholds.isPrefix.trans (joinSpaces_prefix_concat texts text)
  obtain hwhole | ⟨hne, hfull⟩ := hholds.whole
  · obtain ⟨hsame, hfull⟩ | ⟨count, total, hadd, htotal, hle, hends⟩ := add_cases buf text
    · -- the first text finds room, so that there is one before this
      have hne : buf.segments ≠ [] := by
        intro hnil
        have hzero := hholds.total
        rw [hnil] at hzero
        rw [if_pos hnil, hzero] at hfull
        exact absurd hfull (not_le.mpr hcap)
      rw [if_neg hne] at hfull
      rw [hsame]
      exact ⟨hholds.total, hprefix, hholds.length_le, .inr ⟨hne, hfull⟩⟩
    · rw [hadd]
      refine ⟨?_, ?_, hle, ?_⟩
      · rw [htotal, length_joinSpaces_concat, hholds.total]
      · rw [hwhole]
        exact joinSpaces_take_prefix texts text count
      · obtain htake | hcapped := hends
        · left
          rw [hwhole, htake]
        · right
          exact ⟨List.concat_ne_nil _ _, Nat.le_succ_of_le hcapped.ge⟩
  · rw [add_of_full hne hfull]
    exact ⟨hholds.total, hprefix, hholds.length_le, .inr ⟨hne, hfull⟩⟩

theorem cap_add (buf : BoundedSegments) (text : CodePoints) : (buf.add text).cap = buf.cap := by
  obtain ⟨hsame, -⟩ | ⟨count, total, hadd, -⟩ := add_cases buf text
  · rw [hsame]
  · rw [hadd]

theorem Holds.addAll (hholds : Holds texts buf) (hcap : 0 < buf.cap) (added : List CodePoints) :
    Holds (texts ++ added) (buf.addAll added) := by
  induction added generalizing texts buf with
  | nil =>
      rw [List.append_nil]
      exact hholds
  | cons text rest ih =>
      have hnext := ih (hholds.add hcap text) (by rwa [cap_add])
      rw [List.append_assoc, List.singleton_append] at hnext
      exact hnext

theorem cap_addAll (buf : BoundedSegments) (texts : List CodePoints) :
    (buf.addAll texts).cap = buf.cap := by
  induction texts generalizing buf with
  | nil => rfl
  | cons text rest ih => exact (ih (buf.add text)).trans (cap_add buf text)

theorem addAll_append (buf : BoundedSegments) (first second : List CodePoints) :
    buf.addAll (first ++ second) = (buf.addAll first).addAll second :=
  List.foldl_append

theorem Holds.capped (hholds : Holds texts buf) :
    Capped buf.cap (joinSpaces buf.segments) (joinSpaces texts) := by
  have htotal := hholds.total
  refine ⟨hholds.isPrefix, htotal ▸ hholds.length_le, fun hlong => ?_⟩
  obtain hwhole | ⟨-, hfull⟩ := hholds.whole
  · rw [hwhole]
    exact Nat.le_succ_of_le hlong
  · omega

/-- What is kept of any texts. -/
theorem capped_addAll {cap : Nat} (hcap : 0 < cap) (texts : List CodePoints) :
    Capped cap (joinSpaces ((init cap).addAll texts).segments) (joinSpaces texts) := by
  have hcapped := ((holds_init cap).addAll hcap texts).capped
  rw [cap_addAll, List.nil_append] at hcapped
  exact hcapped

end BoundedSegments

namespace ActionTexts

open JsonTree

variable {Float : Type}

/-! ## What the arguments hold -/

mutual

/-- The strings of a document, in their order. -/
def leaves : JsonTree Float → List CodePoints
  | .str units => [units]
  | .obj entries => leavesOfEntries entries
  | .arr items => leavesOfItems items
  | .null => []
  | .bool _ => []
  | .int _ => []
  | .float _ => []

def leavesOfItems : List (JsonTree Float) → List CodePoints
  | [] => []
  | item :: rest => leaves item ++ leavesOfItems rest

def leavesOfEntries : List (List Nat × JsonTree Float) → List CodePoints
  | [] => []
  | (_, value) :: rest => leaves value ++ leavesOfEntries rest

end

mutual

def depth : JsonTree Float → Nat
  | .obj entries => depthOfEntries entries + 1
  | .arr items => depthOfItems items + 1
  | .str _ => 1
  | .null => 1
  | .bool _ => 1
  | .int _ => 1
  | .float _ => 1

def depthOfItems : List (JsonTree Float) → Nat
  | [] => 0
  | item :: rest => max (depth item) (depthOfItems rest)

def depthOfEntries : List (List Nat × JsonTree Float) → Nat
  | [] => 0
  | (_, value) :: rest => max (depth value) (depthOfEntries rest)

end

theorem flatten_mapM_cons {α β : Type} (f : α → Option (List β)) (item : α) (rest : List α) :
    ((item :: rest).mapM f).map List.flatten =
      (f item).bind fun first => ((rest.mapM f).map List.flatten).map (first ++ ·) := by
  rw [List.mapM_cons]
  cases f item with
  | none => rfl
  | some first =>
      cases rest.mapM f with
      | none => rfl
      | some others => rfl

/-- The frames are enough for a list if they are enough for its head and for its tail. -/
theorem bind_if_le {first rest frames : Nat} (here : List CodePoints) (there : List CodePoints) :
    ((if first ≤ frames then some here else none).bind fun found =>
        (if rest ≤ frames then some there else none).map (found ++ ·)) =
      if max first rest ≤ frames then some (here ++ there) else none := by
  by_cases hfirst : first ≤ frames
  · by_cases hrest : rest ≤ frames
    · rw [if_pos hfirst, if_pos hrest, if_pos (max_le hfirst hrest)]
      rfl
    · rw [if_pos hfirst, if_neg hrest, if_neg fun hmax => hrest ((le_max_right _ _).trans hmax)]
      rfl
  · rw [if_neg hfirst, if_neg fun hmax => hfirst ((le_max_left _ _).trans hmax)]
    rfl

section Frames

variable {frames : Nat}

theorem walkItems_eq (hwalk : ∀ tree : JsonTree Float,
      walkJsonStrings frames tree = if depth tree ≤ frames then some (leaves tree) else none)
    (items : List (JsonTree Float)) :
    (items.mapM fun item => walkJsonStrings frames item).map List.flatten =
      if depthOfItems items ≤ frames then some (leavesOfItems items) else none := by
  induction items with
  | nil => rw [depthOfItems, if_pos (Nat.zero_le frames)]; rfl
  | cons item rest ih => rw [flatten_mapM_cons, ih, hwalk, bind_if_le, depthOfItems, leavesOfItems]

theorem walkEntries_eq (hwalk : ∀ tree : JsonTree Float,
      walkJsonStrings frames tree = if depth tree ≤ frames then some (leaves tree) else none)
    (entries : List (List Nat × JsonTree Float)) :
    (entries.mapM fun entry => walkJsonStrings frames entry.2).map List.flatten =
      if depthOfEntries entries ≤ frames then some (leavesOfEntries entries) else none := by
  induction entries with
  | nil => rw [depthOfEntries, if_pos (Nat.zero_le frames)]; rfl
  | cons entry rest ih =>
      rw [flatten_mapM_cons, ih, hwalk, bind_if_le, depthOfEntries, leavesOfEntries]

end Frames

theorem depth_pos (tree : JsonTree Float) : 0 < depth tree := by
  cases tree with
  | obj entries => exact Nat.succ_pos _
  | arr items => exact Nat.succ_pos _
  | str units => exact Nat.one_pos
  | null => exact Nat.one_pos
  | bool value => exact Nat.one_pos
  | int value => exact Nat.one_pos
  | float value => exact Nat.one_pos

/-- The walk gives all strings if there are enough frames for the depth. -/
theorem walkJsonStrings_eq (frames : Nat) (tree : JsonTree Float) :
    walkJsonStrings frames tree = if depth tree ≤ frames then some (leaves tree) else none := by
  induction frames generalizing tree with
  | zero =>
      rw [if_neg (not_le.mpr (depth_pos tree)), walkJsonStrings]
  | succ frames ih =>
      cases tree with
      | obj entries =>
          rw [walkJsonStrings, walkEntries_eq ih, depth, leaves]
          simp only [Nat.add_le_add_iff_right]
      | arr items =>
          rw [walkJsonStrings, walkItems_eq ih, depth, leaves]
          simp only [Nat.add_le_add_iff_right]
      | str units => simp [walkJsonStrings, depth, leaves]
      | null => simp [walkJsonStrings, depth, leaves]
      | bool value => simp [walkJsonStrings, depth, leaves]
      | int value => simp [walkJsonStrings, depth, leaves]
      | float value => simp [walkJsonStrings, depth, leaves]

/-! ## The corpus and its bound -/

variable {read : List Char → Float} {limits : CallLimits} {action : ActionTexts}

/-- The strings of the arguments, or the arguments as they are if they cannot be read so. -/
def uncappedArguments (read : List Char → Float) (limits : CallLimits) (arguments : List Char) :
    List CodePoints :=
  match jsonLoads read limits arguments with
  | .ok parsed =>
      if depth parsed ≤ limits.frames then leaves parsed else [codePoints arguments]
  | .error _ => [codePoints arguments]

/-- What is extracted without a bound: nothing stands for a field without a text. -/
def uncappedExecSegments (read : List Char → Float) (limits : CallLimits)
    (action : ActionTexts) : List CodePoints :=
  (if action.arguments = [] then [] else uncappedArguments read limits action.arguments) ++
    ([action.toolName, action.callName].filter (· ≠ [])).map codePoints

/-- The fields that have a text are added one after another. -/
theorem foldl_addField (texts : List (List Char)) (buf : BoundedSegments) :
    texts.foldl (fun buf text => addField text buf) buf =
      buf.addAll ((texts.filter (· ≠ [])).map codePoints) := by
  induction texts generalizing buf with
  | nil => rfl
  | cons text rest ih =>
      rw [List.foldl_cons, ih, addField]
      by_cases hempty : text = []
      · rw [if_pos hempty, List.filter_cons_of_neg (by simpa using hempty)]
      · rw [if_neg hempty, List.filter_cons_of_pos (by simpa using hempty)]
        rfl

/-- Unless `json.loads` fails in another way, the arguments are put in front. -/
theorem argumentSegments_eq (arguments : List Char)
    (hcaught : jsonLoads read limits arguments ≠ .error .otherError) :
    argumentSegments read limits arguments = .ok (uncappedArguments read limits arguments) := by
  rw [argumentSegments, uncappedArguments]
  cases hloads : jsonLoads read limits arguments with
  | ok parsed =>
      simp only [walkJsonStrings_eq]
      split
      next => rfl
      next => rfl
  | error error =>
      cases error with
      | jsonDecodeError => rfl
      | recursionError => rfl
      | otherError => exact absurd hloads hcaught

/-- An error of another kind comes from `json.loads`. Otherwise everything is put in the buffer. -/
theorem extractExecSegments_cases (read : List Char → Float) (limits : CallLimits)
    (action : ActionTexts) :
    (jsonLoads read limits action.arguments = .error .otherError ∧
        action.extractExecSegments read limits = .error .otherError) ∨
      action.extractExecSegments read limits =
        .ok ((BoundedSegments.init extractHardCap).addAll
          (action.uncappedExecSegments read limits)).segments := by
  rw [extractExecSegments, uncappedExecSegments, BoundedSegments.addAll_append]
  have hnames : ∀ buf, addField action.callName (addField action.toolName buf) =
      buf.addAll (([action.toolName, action.callName].filter (· ≠ [])).map codePoints) :=
    foldl_addField [action.toolName, action.callName]
  simp only [hnames]
  by_cases hempty : action.arguments = []
  · right
    simp only [if_pos hempty]
    rfl
  · simp only [if_neg hempty]
    by_cases hother : jsonLoads read limits action.arguments = .error .otherError
    · left
      rw [argumentSegments, hother]
      exact ⟨rfl, rfl⟩
    · right
      rw [argumentSegments_eq _ hother]
      rfl

/-- The corpus is a beginning of what there is to extract, and misses at most a space of its bound
if there is as much. Only what `json.loads` raises keeps it from being extracted. -/
theorem extractExecContent_capped (read : List Char → Float) (limits : CallLimits)
    (action : ActionTexts) :
    (∀ corpus, action.extractExecContent read limits = .ok corpus →
      Capped extractHardCap corpus (joinSpaces (action.uncappedExecSegments read limits))) ∧
    (jsonLoads read limits action.arguments ≠ .error .otherError →
      ∃ corpus, action.extractExecContent read limits = .ok corpus) := by
  obtain ⟨hother, herror⟩ | hsegments := extractExecSegments_cases read limits action
  · rw [extractExecContent, herror]
    constructor
    · intro corpus hcorpus
      cases hcorpus
    · intro hcaught
      exact absurd hother hcaught
  · rw [extractExecContent, hsegments]
    constructor
    · intro corpus hcorpus
      obtain rfl := Except.ok.inj hcorpus
      exact BoundedSegments.capped_addAll (by decide) _
    · intro _
      exact ⟨_, rfl⟩

/-- An action whose arguments are empty, and whose fields are all put behind one another. -/
def withoutArguments : ActionTexts where
  arguments := []
  toolName := ['a']
  callName := ['b']
  summary := none
  reasoningContent := none
  thought := []

def everySegment (read : List Char → Float) (limits : CallLimits) (action : ActionTexts) :
    List CodePoints :=
  uncappedArguments read limits action.arguments ++
    [codePoints action.toolName, codePoints action.callName]

/-- An empty text has no place in the corpus, not even a space. -/
theorem exists_not_prefix_everySegment :
    ∃ corpus,
      withoutArguments.extractExecContent (fun _ => ()) ⟨fun _ => none, 100⟩ = .ok corpus ∧
        ¬ corpus <+:
          joinSpaces (withoutArguments.everySegment (fun _ => ()) ⟨fun _ => none, 100⟩) := by
  refine ⟨[97, 32, 98], rfl, ?_⟩
  decide +kernel

end ActionTexts

end ShuttleFlow
