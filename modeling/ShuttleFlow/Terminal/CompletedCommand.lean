import ShuttleFlow.Terminal.TerminalSession

/-! # Completed commands are reported

A command prints what it likes, also blocks that look like prompts. Whatever reads as JSON is
matched, but only some of it can be decoded: exactly then the session reports the command and is
ready for the next one.
-/

namespace ShuttleFlow

open CmdOutputMetadata

namespace CmdOutputMetadata

variable {Float : Type} {reader : MetadataReader Float} {metadata : MetadataEntries Float}
  {field : List Char}

/-- The number is finite, or none at all. -/
def Tame (number : ParsedFloat) : Prop :=
  number ≠ .infinite ∧ ∀ error, number ≠ .raised error

/-- Metadata whose fields hold what they should. -/
structure Usable (reader : MetadataReader Float) (metadata : MetadataEntries Float) : Prop where
  numbers : ∀ field ∈ ["pid".toList, "exit_code".toList], ∀ value,
    metadata.lookup field = some value → Tame (reader.float value)
  optional : ∀ field ∈ optionalFields, ∀ value, metadata.lookup field = some value →
    value = .null ∨ ∃ text, value = .str text
  texts : ∀ field ∈ textFields, ∀ value, metadata.lookup field = some value →
    ∃ text, value = .str text

/-- The content is an object, also with the spaces around it, and its fields can be used. -/
def Decodable (reader : MetadataReader Float) (content : List Char) : Prop :=
  ∃ metadata, reader.loads content = .value (.obj metadata) ∧ Usable reader metadata

/-! ## Fields -/

theorem exists_intField_iff :
    (∃ number, intField reader metadata field = .ok number) ↔
      ∀ value, metadata.lookup field = some value → Tame (reader.float value) := by
  unfold intField
  cases metadata.lookup field with
  | none => simp
  | some value =>
      simp only [Option.some.injEq, forall_eq']
      cases reader.float value <;> simp [Tame]

theorem isNone_optionalField_iff :
    (optionalField metadata field).isNone = false ↔ ∀ value,
      metadata.lookup field = some value → value = .null ∨ ∃ text, value = .str text := by
  unfold optionalField
  cases metadata.lookup field with
  | none => simp
  | some value =>
      simp only [Option.elim_some, Option.some.injEq, forall_eq']
      cases value <;> simp [MetadataValue.textOrNull?]

theorem isNone_textField_iff :
    (textField metadata field).isNone = false ↔ ∀ value,
      metadata.lookup field = some value → ∃ text, value = .str text := by
  unfold textField
  cases metadata.lookup field with
  | none => simp
  | some value =>
      simp only [Option.elim_some, Option.some.injEq, forall_eq']
      cases value <;> simp [MetadataValue.text?]

/-- Exactly metadata whose fields hold texts is valid. -/
theorem exists_validate_iff {pid exitCode : Int} :
    (∃ result, validate metadata pid exitCode = .ok result) ↔
      (∀ field ∈ optionalFields, ∀ value, metadata.lookup field = some value →
        value = .null ∨ ∃ text, value = .str text) ∧
      ∀ field ∈ textFields, ∀ value, metadata.lookup field = some value →
        ∃ text, value = .str text := by
  have hvalid : (∃ result, validate metadata pid exitCode = .ok result) ↔
      invalidFields metadata = [] := by
    unfold validate
    split
    next hnil => exact iff_of_true ⟨_, rfl⟩ hnil
    next hinvalid => exact iff_of_false (fun ⟨_, hresult⟩ => by cases hresult) hinvalid
  rw [hvalid, invalidFields, List.append_eq_nil_iff, List.filter_eq_nil_iff,
    List.filter_eq_nil_iff]
  simp only [Bool.not_eq_true, isNone_optionalField_iff, isNone_textField_iff]

/-! ## Blocks -/

theorem exists_fromObject_iff {block : Ps1Block}
    (hloads : reader.loads block.content = .value (.obj metadata)) :
    (∃ result, fromPs1Match reader block = .ok result) ↔ Usable reader metadata := by
  have hpid := @exists_intField_iff _ reader metadata "pid".toList
  have hexit := @exists_intField_iff _ reader metadata "exit_code".toList
  rw [fromPs1Match, hloads]
  constructor
  · rintro ⟨result, hresult⟩
    cases hnumber : intField reader metadata "pid".toList with
    | error failure =>
        simp only [hnumber] at hresult
        cases hresult
    | ok pid =>
        cases hcode : intField reader metadata "exit_code".toList with
        | error failure =>
            simp only [hnumber, hcode] at hresult
            cases hresult
        | ok exitCode =>
            simp only [hnumber, hcode] at hresult
            obtain ⟨hoptional, htexts⟩ := exists_validate_iff.mp ⟨result, hresult⟩
            refine ⟨?_, hoptional, htexts⟩
            simp only [List.forall_mem_cons]
            exact ⟨hpid.mp ⟨pid, hnumber⟩, hexit.mp ⟨exitCode, hcode⟩, by simp⟩
  · intro husable
    obtain ⟨pid, hnumber⟩ := hpid.mpr (husable.numbers _ (by simp))
    obtain ⟨exitCode, hcode⟩ := hexit.mpr (husable.numbers _ (by simp))
    simp only [hnumber, hcode]
    exact exists_validate_iff.mpr ⟨husable.optional, husable.texts⟩

/-- Exactly the decodable blocks are decoded. -/
theorem exists_fromPs1Match_iff {block : Ps1Block} :
    (∃ result, fromPs1Match reader block = .ok result) ↔ Decodable reader block.content := by
  have hnot : ∀ failure : DecodeFailure, ¬∃ result : CmdOutputMetadata,
      Except.error failure = .ok result := by
    rintro failure ⟨result, hresult⟩
    cases hresult
  cases hloads : reader.loads block.content with
  | value value =>
      cases value with
      | obj metadata =>
          rw [exists_fromObject_iff hloads]
          refine ⟨fun husable => ⟨metadata, hloads, husable⟩, ?_⟩
          rintro ⟨other, hother, husable⟩
          cases hloads.symm.trans hother
          exact husable
      | _ =>
          refine iff_of_false ?_ ?_
          · rw [fromPs1Match, hloads]
            exact hnot _
          · rintro ⟨metadata, hmetadata, -⟩
            cases hloads.symm.trans hmetadata
  | _ =>
      refine iff_of_false ?_ ?_
      · rw [fromPs1Match, hloads]
        exact hnot _
      · rintro ⟨metadata, hmetadata, -⟩
        cases hloads.symm.trans hmetadata

end CmdOutputMetadata

namespace TerminalSession

open PythonText (trim)

variable {terminal : TerminalInterface} {session : TerminalSession} {command content : List Char}

/-- The command is reported, and nothing of it is left in the session. -/
structure Completes (result : Except DecodeFailure TerminalObservation × TerminalSession) :
    Prop where
  returns : ∃ observation, result.1 = .ok observation
  status : result.2.prevStatus = some .completed
  output : result.2.prevOutput = []
  filter : result.2.pending = []

theorem completes_complete (raw : List Char) (metadata : CmdOutputMetadata) :
    Completes (complete terminal session command raw metadata) :=
  ⟨⟨_, rfl⟩, rfl, rfl, rfl⟩

/-- A special key has a last letter. -/
theorem exists_sentKey (terminal : TerminalInterface) (command : List Char) :
    ∃ key, sentKey terminal command = .ok key := by
  unfold sentKey
  split
  next hspecial =>
    rw [isSpecialKey, Bool.and_eq_true, decide_eq_true_eq, decide_eq_true_eq] at hspecial
    cases hlast : command.getLast? with
    | none =>
        rw [List.getLast?_eq_none_iff.mp hlast] at hspecial
        cases hspecial.2
    | some letter => exact ⟨_, rfl⟩
  next => exact ⟨_, rfl⟩

theorem completes_completeWith (blocks : List Ps1Block) (metadata : CmdOutputMetadata) :
    Completes (completeWith terminal session command content blocks metadata) := by
  obtain ⟨key, hkey⟩ := exists_sentKey terminal command
  rw [completeWith, hkey]
  exact completes_complete _ _

/-- A completed command is reported exactly if the last block can be decoded, and each block that
was matched can be decoded exactly if it is decodable. -/
theorem completes_iff_decodable {Float : Type} (reader : MetadataReader Float)
    (terminal : TerminalInterface) (session : TerminalSession) (command content : List Char)
    (blocks : List Ps1Block) :
    (Completes (handleCompletedCommand reader terminal session command content blocks) ↔
      ∀ last ∈ blocks.getLast?, Decodable reader last.content) ∧
    ∀ block ∈ blocks, (∃ metadata, fromPs1Match reader block = .ok metadata) ↔
      Decodable reader block.content := by
  refine ⟨?_, fun block _ => exists_fromPs1Match_iff⟩
  unfold handleCompletedCommand
  cases blocks.getLast? with
  | none => exact iff_of_true (completes_complete _ _) (by simp)
  | some last =>
      have hlast := @exists_fromPs1Match_iff _ reader last
      simp only [Option.mem_some_iff, forall_eq']
      rw [← hlast]
      cases fromPs1Match reader last with
      | error failure =>
          refine iff_of_false ?_ ?_
          · intro hcompletes
            obtain ⟨observation, hobservation⟩ := hcompletes.returns
            cases hobservation
          · rintro ⟨metadata, hmetadata⟩
            cases hmetadata
      | ok metadata => exact iff_of_true (completes_completeWith _ _) ⟨metadata, rfl⟩

def printedNumber : List Char := "###PS1JSON###\n5\n###PS1END###".toList

def numberBlock : Ps1Block where
  start := 0
  stop := 28
  content := "\n5\n".toList

/-- Reads the number five, and nothing else. -/
def numberReader : MetadataReader Nat where
  loads text := if trim text = ['5'] then .value (.int 5) else .decodeError
  float _ := .finite 5

/-- A command that prints a block with a number crashes the session. -/
theorem not_completes_printedNumber :
    matchesPs1Metadata numberReader.loads printedNumber = .ok [numberBlock] ∧
      ¬Completes (handleCompletedCommand numberReader { isPowershell := false, upper := ([·]) }
        { cwd := ['/'] } "cat log".toList printedNumber [numberBlock]) ∧
      ¬∃ metadata, fromPs1Match numberReader numberBlock = .ok metadata := by
  have hfails : fromPs1Match numberReader numberBlock =
      .error (.attributeError "'int' object has no attribute 'copy'") := by
    have hcontent : trim numberBlock.content = ['5'] := by decide
    have hloads : numberReader.loads numberBlock.content = .value (.int 5) := by
      simp only [numberReader, hcontent, if_true]
    rw [fromPs1Match, hloads]
    rfl
  refine ⟨by decide +kernel, ?_, ?_⟩
  · intro hcompletes
    obtain ⟨observation, hobservation⟩ := hcompletes.returns
    have hlast : [numberBlock].getLast? = some numberBlock := rfl
    rw [handleCompletedCommand, hlast] at hobservation
    simp only [hfails] at hobservation
    cases hobservation
  · rintro ⟨metadata, hmetadata⟩
    cases hfails.symm.trans hmetadata

end TerminalSession

end ShuttleFlow
