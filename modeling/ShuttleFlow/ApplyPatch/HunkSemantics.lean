import Mathlib.Data.List.Forall2
import ShuttleFlow.ApplyPatch.ApplyPatch

/-! # What the sections of an update do to a file

A chunk deletes some lines in a row and inserts others in their place. The lines to delete are
found with the lines around them, up to spaces where the patch is not exact.
-/

namespace ShuttleFlow

/-! ## Replacing ranges of lines -/

/-- How a line of the file may differ from the one in the patch, with so much fuzz. -/
def NearLine (fuzz : Nat) (line wanted : Line) : Prop :=
  line = wanted ∨ (1 ≤ fuzz ∧ PythonText.rstrip line = PythonText.rstrip wanted) ∨
    (100 ≤ fuzz ∧ PythonText.trim line = PythonText.trim wanted)

theorem NearLine.mono {fuzz more : Nat} {line wanted : Line} (hnear : NearLine fuzz line wanted)
    (hle : fuzz ≤ more) : NearLine more line wanted := by
  rcases hnear with heq | ⟨hfuzz, heq⟩ | ⟨hfuzz, heq⟩
  · exact .inl heq
  · exact .inr (.inl ⟨hfuzz.trans hle, heq⟩)
  · exact .inr (.inr ⟨hfuzz.trans hle, heq⟩)

/-- From a place of the file on, each chunk replaces a range of lines like those that it deletes.
All other lines stay as they are. -/
inductive Edited (near : Line → Line → Prop) :
    (place : Nat) → (lines : List Line) → List Chunk → (result : List Line) → Prop
  | rest (place : Nat) (lines : List Line) : Edited near place lines [] lines
  | chunk {place : Nat} {kept deleted lines : List Line} {chunk : Chunk} {chunks : List Chunk}
      {result : List Line} :
      chunk.origIndex = place + kept.length →
      List.Forall₂ near deleted chunk.delLines →
      Edited near (place + kept.length + deleted.length) lines chunks result →
      Edited near place (kept ++ deleted ++ lines) (chunk :: chunks)
        (kept ++ chunk.insLines ++ result)

/-- The range of the file is like the lines that the chunk deletes. -/
def Chunk.Fits (near : Line → Line → Prop) (lines : List Line) (chunk : Chunk) : Prop :=
  chunk.origIndex ≤ lines.length ∧
    List.Forall₂ near ((lines.drop chunk.origIndex).take chunk.delLines.length) chunk.delLines

theorem Chunk.Fits.mono {lines : List Line} {fuzz more : Nat} {chunk : Chunk}
    (hfits : chunk.Fits (NearLine fuzz) lines) (hle : fuzz ≤ more) :
    chunk.Fits (NearLine more) lines :=
  ⟨hfits.1, hfits.2.imp fun _ _ hnear => hnear.mono hle⟩

/-- The ranges of the chunks come one after another, between two places. -/
def Ordered : (start : Nat) → List Chunk → (stop : Nat) → Prop
  | start, [], stop => start ≤ stop
  | start, chunk :: rest, stop =>
      start ≤ chunk.origIndex ∧ Ordered (chunk.origIndex + chunk.delLines.length) rest stop

variable {near : Line → Line → Prop} {place start stop : Nat}
  {lines first second result later : List Line} {chunks more : List Chunk}

namespace Edited

theorem keep (hedited : Edited near (place + first.length) second chunks result) :
    Edited near place (first ++ second) chunks (first ++ result) := by
  cases hedited with
  | rest => exact .rest place _
  | @chunk _ kept deleted lines chunk chunks result horig hdeleted hrest =>
      have hlength : place + (first ++ kept).length = place + first.length + kept.length := by
        rw [List.length_append]
        omega
      have hlonger := @Edited.chunk near place (first ++ kept) deleted lines chunk chunks result
        (by rw [hlength]; exact horig) hdeleted (by rw [hlength]; exact hrest)
      simpa only [List.append_assoc] using hlonger

theorem append (hfirst : Edited near place first chunks result)
    (hsecond : Edited near (place + first.length) second more later) :
    Edited near place (first ++ second) (chunks ++ more) (result ++ later) := by
  induction hfirst with
  | rest place lines => exact hsecond.keep
  | @chunk place kept deleted lines chunk chunks result horig hdeleted hrest ih =>
      have hlength : place + (kept ++ deleted ++ lines).length =
          place + kept.length + deleted.length + lines.length := by
        rw [List.length_append, List.length_append]
        omega
      rw [hlength] at hsecond
      have hboth := Edited.chunk horig hdeleted (ih hsecond)
      simpa only [List.append_assoc, List.cons_append] using hboth

/-- One more chunk at the end. -/
theorem concat (hedited : Edited near place first chunks result) {deleted : List Line}
    {chunk : Chunk} (horig : chunk.origIndex = place + first.length)
    (hdeleted : List.Forall₂ near deleted chunk.delLines) :
    Edited near place (first ++ deleted) (chunks ++ [chunk]) (result ++ chunk.insLines) := by
  have hlast := @Edited.chunk near (place + first.length) [] deleted [] chunk [] []
    horig hdeleted (.rest _ _)
  simpa only [List.append_nil, List.nil_append] using hedited.append hlast

theorem ordered (hedited : Edited near place lines chunks result) :
    Ordered place chunks (place + lines.length) := by
  induction hedited with
  | rest place lines => exact Nat.le_add_right _ _
  | @chunk place kept deleted lines chunk chunks result horig hdeleted hrest ih =>
      have hlength := hdeleted.length_eq
      refine ⟨by omega, ?_⟩
      rw [horig, ← hlength, List.length_append, List.length_append]
      convert ih using 1
      omega

theorem fits {before : List Line} (hbefore : before.length = place)
    (hedited : Edited near place lines chunks result) :
    ∀ chunk ∈ chunks, chunk.Fits near (before ++ lines) := by
  induction hedited generalizing before with
  | rest => nofun
  | @chunk place kept deleted lines chunk chunks result horig hdeleted hrest ih =>
      intro other hmem
      rcases List.mem_cons.mp hmem with rfl | hmem
      · have hfront : (before ++ kept).length = other.origIndex := by
          rw [List.length_append, hbefore, horig]
        have hsplit : before ++ (kept ++ deleted ++ lines) =
            before ++ kept ++ (deleted ++ lines) := by
          simp only [List.append_assoc]
        rw [Chunk.Fits, hsplit, ← hfront, List.drop_left, ← hdeleted.length_eq, List.take_left]
        refine ⟨?_, hdeleted⟩
        simp only [List.length_append]
        omega
      · have hlater := @ih (before ++ kept ++ deleted)
          (by rw [List.length_append, List.length_append, hbefore]) other hmem
        simpa only [List.append_assoc] using hlater

end Edited

theorem Ordered.append {middle : Nat} (hfirst : Ordered start chunks middle)
    (hsecond : Ordered middle more stop) : Ordered start (chunks ++ more) stop := by
  induction chunks generalizing start with
  | nil =>
      cases more with
      | nil => exact Nat.le_trans hfirst hsecond
      | cons chunk more => exact ⟨Nat.le_trans hfirst hsecond.1, hsecond.2⟩
  | cons chunk rest ih => exact ⟨hfirst.1, ih hfirst.2⟩

theorem Ordered.weaken {earlier : Nat} (hordered : Ordered start chunks stop)
    (hle : earlier ≤ start) : Ordered earlier chunks stop := by
  cases chunks with
  | nil => exact Nat.le_trans hle hordered
  | cons chunk rest => exact ⟨Nat.le_trans hle hordered.1, hordered.2⟩

theorem Ordered.shift (hordered : Ordered start chunks stop) (amount : Nat) :
    Ordered (start + amount)
      (chunks.map fun chunk => { chunk with origIndex := chunk.origIndex + amount })
      (stop + amount) := by
  induction chunks generalizing start with
  | nil => exact Nat.add_le_add_right hordered _
  | cons chunk rest ih =>
      refine ⟨Nat.add_le_add_right hordered.1 _, ?_⟩
      have hrest := ih hordered.2
      rw [Nat.add_right_comm] at hrest
      exact hrest

theorem drop_eq_ranges (lines : List Line) {start place : Nat} (count : Nat)
    (hle : start ≤ place) (hplace : place ≤ lines.length) :
    lines.drop start = (lines.take place).drop start ++ (lines.drop place).take count ++
      lines.drop (place + count) := by
  have htaken : start ≤ (lines.take place).length := by
    rw [List.length_take]
    omega
  rw [List.append_assoc, ← List.drop_drop, List.take_append_drop,
    ← List.drop_append_of_le_length htaken, List.take_append_drop]

theorem length_take_drop {start place : Nat} (hle : start ≤ place)
    (hplace : place ≤ lines.length) :
    start + ((lines.take place).drop start).length = place := by
  rw [List.length_drop, List.length_take]
  omega

/-- Chunks in order that fit can be made. -/
theorem Ordered.exists_edited (hordered : Ordered start chunks stop)
    (hfits : ∀ chunk ∈ chunks, chunk.Fits near lines) :
    ∃ result, Edited near start (lines.drop start) chunks result := by
  induction chunks generalizing start with
  | nil => exact ⟨_, .rest _ _⟩
  | cons chunk rest ih =>
      obtain ⟨hle, hlater⟩ := hordered
      obtain ⟨hplace, hdeleted⟩ := hfits chunk List.mem_cons_self
      obtain ⟨result, hresult⟩ := ih hlater fun other hmem => hfits other (.tail _ hmem)
      have hkept := length_take_drop hle hplace
      rw [drop_eq_ranges lines chunk.delLines.length hle hplace]
      have hlast : Edited near (start + ((lines.take chunk.origIndex).drop start).length +
          ((lines.drop chunk.origIndex).take chunk.delLines.length).length)
          (lines.drop (chunk.origIndex + chunk.delLines.length)) rest result := by
        rw [hkept, hdeleted.length_eq]
        exact hresult
      exact ⟨_, .chunk hkept.symm hdeleted hlast⟩

namespace ApplyPatch

variable {path : List Char} {origLines : List Line}

theorem ordered_of_updatedLines
    (hupdated : updatedLines path origLines start chunks = .ok result) :
    Ordered start chunks origLines.length := by
  induction chunks generalizing start result with
  | nil =>
      unfold updatedLines at hupdated
      split at hupdated
      next => cases hupdated
      next hle => exact Nat.not_lt.mp hle
  | cons chunk rest ih =>
      unfold updatedLines at hupdated
      split at hupdated
      next => cases hupdated
      next =>
        split at hupdated
        next => cases hupdated
        next hle =>
          refine ⟨Nat.not_lt.mp hle, ?_⟩
          cases hrest : updatedLines path origLines (chunk.origIndex + chunk.delLines.length)
              rest with
          | error error =>
              rw [hrest] at hupdated
              cases hupdated
          | ok lines => exact ih hrest

/-- The lines that are put together are those of the edited file. -/
theorem updatedLines_of_edited {before : List Line} (hbefore : before.length = place)
    (hedited : Edited near place lines chunks result) :
    updatedLines path (before ++ lines) place chunks = .ok result := by
  induction hedited generalizing before with
  | rest place lines =>
      have hle : ¬(before ++ lines).length < place := by
        rw [List.length_append]
        omega
      rw [updatedLines, if_neg hle, ← hbefore, List.drop_left]
  | @chunk place kept deleted lines chunk chunks result horig hdeleted hrest ih =>
      have hlater := @ih (before ++ kept ++ deleted)
        (by rw [List.length_append, List.length_append, hbefore])
      have hsplit : before ++ (kept ++ deleted ++ lines) =
          before ++ kept ++ (deleted ++ lines) := by
        simp only [List.append_assoc]
      have hfront : (before ++ kept).length = chunk.origIndex := by
        rw [List.length_append, hbefore, horig]
      have hinside : ¬(before ++ kept ++ (deleted ++ lines)).length < chunk.origIndex := by
        rw [List.length_append, hfront]
        omega
      rw [List.append_assoc (before ++ kept)] at hlater
      rw [updatedLines, hsplit, if_neg hinside, if_neg (by omega), ← hfront, List.take_left,
        ← hbefore, List.drop_left, hfront, horig, ← hdeleted.length_eq, hlater]
      rfl

end ApplyPatch

/-! ## Sections -/

namespace PatchParser

/-- The lines of the file that a section is about. -/
def oldLines (hunk : List Line) : List Line :=
  hunk.filterMap fun line =>
    match readMode line with
    | some (.keep, text) | some (.delete, text) => some text
    | _ => none

/-- The lines that a section leaves of these. -/
def newLines (hunk : List Line) : List Line :=
  hunk.filterMap fun line =>
    match readMode line with
    | some (.keep, text) | some (.add, text) => some text
    | _ => none

/-- What has been read of a section leaves these lines. Behind a line that is kept, no change is
pending. -/
structure Leaves (part : PatchSection) (result : List Line) : Prop where
  made : ∃ kept edited, part.old = kept ++ part.delLines ∧
    Edited (· = ·) 0 kept part.chunks edited ∧ result = edited ++ part.insLines
  pending : part.mode = .keep → part.delLines = [] ∧ part.insLines = []

variable {part : PatchSection}

theorem Leaves.empty : Leaves {} [] :=
  ⟨⟨[], [], rfl, .rest 0 [], rfl⟩, fun _ => ⟨rfl, rfl⟩⟩

theorem Leaves.flush (hleaves : Leaves part result) :
    Edited (· = ·) 0 part.old part.flush.chunks result := by
  obtain ⟨kept, edited, hold, hedited, rfl⟩ := hleaves.made
  unfold PatchSection.flush
  dsimp only
  split
  next hnone =>
    rw [hold, hnone.1, hnone.2, List.append_nil, List.append_nil]
    exact hedited
  next =>
    rw [hold]
    apply hedited.concat
    · change (kept ++ part.delLines).length - part.delLines.length = 0 + kept.length
      rw [List.length_append]
      omega
    · exact List.forall₂_eq_eq_eq.symm ▸ rfl

theorem Leaves.keep (hleaves : Leaves part result) (text : Line) :
    Leaves (part.add .keep text) (result ++ [text]) := by
  by_cases hmode : part.mode = .keep
  · obtain ⟨kept, edited, hold, hedited, rfl⟩ := hleaves.made
    obtain ⟨hdel, hins⟩ := hleaves.pending hmode
    have hadd : part.add .keep text = { part with mode := .keep, old := part.old ++ [text] } := by
      unfold PatchSection.add
      rw [if_neg (by simp [hmode])]
    rw [hadd, hins, List.append_nil]
    refine ⟨⟨kept ++ [text], edited ++ [text], ?_, ?_, ?_⟩, fun _ => ⟨hdel, rfl⟩⟩
    · change part.old ++ [text] = kept ++ [text] ++ part.delLines
      rw [hold, hdel, List.append_nil, List.append_nil]
    · simpa only [List.append_nil] using hedited.append (.rest _ [text])
    · exact (List.append_nil _).symm
  · have hadd : part.add .keep text =
        { part.flush with mode := .keep, old := part.flush.old ++ [text] } := by
      unfold PatchSection.add
      rw [if_pos ⟨rfl, hmode⟩]
    rw [hadd]
    refine ⟨⟨part.old ++ [text], result ++ [text], ?_, ?_, ?_⟩, fun _ => ⟨rfl, rfl⟩⟩
    · exact (List.append_nil _).symm
    · simpa only [List.append_nil] using hleaves.flush.append (.rest _ [text])
    · exact (List.append_nil _).symm

theorem Leaves.insert (hleaves : Leaves part result) (text : Line) :
    Leaves (part.add .add text) (result ++ [text]) := by
  obtain ⟨kept, edited, hold, hedited, rfl⟩ := hleaves.made
  refine ⟨⟨kept, edited, hold, hedited, ?_⟩, nofun⟩
  exact List.append_assoc _ _ _

theorem Leaves.delete (hleaves : Leaves part result) (text : Line) :
    Leaves (part.add .delete text) result := by
  obtain ⟨kept, edited, hold, hedited, rfl⟩ := hleaves.made
  refine ⟨⟨kept, edited, ?_, hedited, rfl⟩, nofun⟩
  change part.old ++ [text] = kept ++ (part.delLines ++ [text])
  rw [hold, List.append_assoc]

theorem old_add (part : PatchSection) (mode : LineMode) (text : Line) :
    (part.add mode text).old = part.old ++ (if mode = .add then [] else [text]) := by
  unfold PatchSection.add
  cases mode with
  | add => exact (List.append_nil _).symm
  | delete => rfl
  | keep =>
      split
      next => rfl
      next => rfl

/-- The lines that are read are those of the section, and it leaves what they say. -/
theorem readSection_ok {rest : List Line} {after : PatchSection} {count : Nat}
    (hread : readSection part rest = .ok (after, count)) :
    count ≤ rest.length ∧ after.old = part.old ++ oldLines (rest.take count) ∧
      ∀ result, Leaves part result → Leaves after (result ++ newLines (rest.take count)) := by
  induction rest generalizing part count with
  | nil =>
      cases hread
      refine ⟨Nat.le_refl _, (List.append_nil _).symm, fun result hleaves => ?_⟩
      rw [List.take_nil, newLines, List.filterMap_nil, List.append_nil]
      exact hleaves
  | cons line rest ih =>
      unfold readSection at hread
      split at hread
      next =>
        cases hread
        refine ⟨Nat.zero_le _, (List.append_nil _).symm, fun result hleaves => ?_⟩
        rw [List.take_zero, newLines, List.filterMap_nil, List.append_nil]
        exact hleaves
      next =>
        split at hread
        next => cases hread
        next =>
          split at hread
          next => cases hread
          next mode text hmode =>
            cases hlater : readSection (part.add mode text) rest with
            | error error =>
                rw [hlater] at hread
                cases hread
            | ok outcome =>
                rw [hlater] at hread
                cases hread
                obtain ⟨hcount, hold, hleaves⟩ := ih hlater
                refine ⟨Nat.succ_le_succ hcount, ?_, fun result hpart => ?_⟩
                · rw [hold, old_add, List.take_succ_cons, List.append_assoc]
                  congr 1
                  cases mode with
                  | add => simp [oldLines, hmode]
                  | delete => simp [oldLines, hmode]
                  | keep => simp [oldLines, hmode]
                · rw [List.take_succ_cons]
                  cases mode with
                  | add =>
                      have hnew := hleaves _ (hpart.insert text)
                      simpa [newLines, hmode] using hnew
                  | delete =>
                      have hnew := hleaves _ (hpart.delete text)
                      simpa [newLines, hmode] using hnew
                  | keep =>
                      have hnew := hleaves _ (hpart.keep text)
                      simpa [newLines, hmode] using hnew

/-- What a section says: its lines of the file, its changes of these, and what they leave. -/
theorem peekNextSection_ok {index : Nat} {context : List Line} {chunks : List Chunk} {stop : Nat}
    {eof : Bool} (hpeek : peekNextSection lines index = .ok (context, chunks, stop, eof)) :
    ∃ count, context = oldLines ((lines.drop index).take count) ∧
      Edited (· = ·) 0 context chunks (newLines ((lines.drop index).take count)) ∧
      if eof then stop = index + count + 1 ∧
        lines[index + count]? = some "*** End of File".toList
      else stop = index + count := by
  unfold peekNextSection at hpeek
  split at hpeek
  next => cases hpeek
  next part count hread =>
    obtain ⟨-, hold, hleaves⟩ := readSection_ok hread
    have hedited := (hleaves [] .empty).flush
    rw [List.nil_append] at hedited
    have hcontext : part.flush.old = oldLines ((lines.drop index).take count) := hold
    have hchunks : Edited (· = ·) 0 part.flush.old part.flush.chunks
        (newLines ((lines.drop index).take count)) := hedited
    dsimp only at hpeek
    split at hpeek
    next hfile =>
      cases hpeek
      exact ⟨count, hcontext, hchunks, rfl, hfile⟩
    next =>
      split at hpeek
      next =>
        split at hpeek
        next => cases hpeek
        next => cases hpeek
      next =>
        cases hpeek
        exact ⟨count, hcontext, hchunks, rfl⟩

/-! ## Where a section is found -/

/-- The lines from there on are like those that are looked for. -/
def FoundAt (near : Line → Line → Prop) (lines context : List Line) (place : Nat) : Prop :=
  place + context.length ≤ lines.length ∧
    List.Forall₂ near ((lines.drop place).take context.length) context

theorem forall₂_of_map_eq {norm : Line → Line} {found other : List Line}
    (hsame : found.map norm = other.map norm) :
    List.Forall₂ (fun line wanted => norm line = norm wanted) found other := by
  have hmapped : List.Forall₂ (· = ·) (found.map norm) (other.map norm) := by
    rw [hsame]
    exact List.forall₂_refl _
  exact List.forall₂_map_right_iff.mp (List.forall₂_map_left_iff.mp hmapped)

theorem findFrom_ok {norm : Line → Line} {context : List Line} {index : Nat}
    (hcontext : context ≠ []) (hfind : findFrom norm lines context start = some index) :
    start ≤ index ∧ FoundAt (fun line wanted => norm line = norm wanted) lines context index := by
  unfold findFrom at hfind
  have hsame := List.find?_some hfind
  have hrange := List.mem_range'_1.mp (List.mem_of_find?_eq_some hfind)
  have hforall := forall₂_of_map_eq (of_decide_eq_true hsame)
  refine ⟨hrange.1, ?_, hforall⟩
  have hlength := hforall.length_eq
  have hpos := List.length_pos_of_ne_nil hcontext
  rw [List.length_take, List.length_drop] at hlength
  omega

theorem FoundAt.imp {near weaker : Line → Line → Prop} {context : List Line} {index : Nat}
    (hfound : FoundAt near lines context index)
    (himp : ∀ line wanted, near line wanted → weaker line wanted) :
    FoundAt weaker lines context index :=
  ⟨hfound.1, hfound.2.imp himp⟩

theorem findContextCore_ok {context : List Line} {index fuzz : Nat} (hstart : start ≤ lines.length)
    (hfind : findContextCore lines context start = (some index, fuzz)) :
    start ≤ index ∧ FoundAt (NearLine fuzz) lines context index := by
  unfold findContextCore at hfind
  split at hfind
  next hcontext =>
    cases hfind
    rw [hcontext]
    exact ⟨Nat.le_refl _, hstart, .nil⟩
  next hcontext =>
    split at hfind
    next place hexact =>
      cases hfind
      obtain ⟨hle, hfound⟩ := findFrom_ok hcontext hexact
      exact ⟨hle, hfound.imp fun line wanted heq => .inl heq⟩
    next =>
      split at hfind
      next trailing htrailing =>
        cases hfind
        obtain ⟨hle, hfound⟩ := findFrom_ok hcontext htrailing
        exact ⟨hle, hfound.imp fun line wanted heq => .inr (.inl ⟨Nat.le_refl _, heq⟩)⟩
      next =>
        split at hfind
        next spaced hspaced =>
          cases hfind
          obtain ⟨hle, hfound⟩ := findFrom_ok hcontext hspaced
          exact ⟨hle, hfound.imp fun line wanted heq => .inr (.inr ⟨Nat.le_refl _, heq⟩)⟩
        next => cases hfind

/-- Only at the end of the file may a section be found before the place where it is looked for. -/
theorem findContext_ok {context : List Line} {index fuzz : Nat} {eof : Bool}
    (hstart : start ≤ lines.length)
    (hfind : findContext lines context start eof = (some index, fuzz)) :
    (eof = false → start ≤ index) ∧ FoundAt (NearLine fuzz) lines context index := by
  unfold findContext at hfind
  split at hfind
  next heof =>
    subst heof
    refine ⟨nofun, ?_⟩
    cases hend : findContextCore lines context (lines.length - context.length) with
    | mk found endFuzz =>
        rw [hend] at hfind
        cases found with
        | some place =>
            cases hfind
            exact (findContextCore_ok (Nat.sub_le _ _) hend).2
        | none =>
            cases hcore : findContextCore lines context start with
            | mk found coreFuzz =>
                rw [hcore] at hfind
                cases hfind
                have hfound := (findContextCore_ok hstart hcore).2
                exact hfound.imp fun line wanted hnear => hnear.mono (Nat.le_add_right _ _)
  next =>
    have hcore := findContextCore_ok hstart hfind
    exact ⟨fun _ => hcore.1, hcore.2⟩

theorem seek_ok {same : Line → Bool} {index place : Nat}
    (hseek : seek same lines index = some place) :
    index ≤ place ∧ place < lines.length := by
  unfold seek at hseek
  split at hseek
  next => cases hseek
  next =>
    obtain ⟨offset, hoffset, rfl⟩ := Option.map_eq_some_iff.mp hseek
    have hlt := (List.findIdx?_eq_some_iff_getElem.mp hoffset).1
    rw [List.length_drop] at hlt
    omega

theorem seekSection_ok {index : Nat} (hindex : index ≤ lines.length) (defStr : Line) :
    index ≤ (seekSection lines index defStr).1 ∧
      (seekSection lines index defStr).1 ≤ lines.length := by
  unfold seekSection
  split
  next => exact ⟨Nat.le_refl _, hindex⟩
  next =>
    split
    next place hplace =>
      have hfound := seek_ok hplace
      exact ⟨Nat.le_succ_of_le hfound.1, hfound.2⟩
    next =>
      split
      next place hplace =>
        have hfound := seek_ok hplace
        exact ⟨Nat.le_succ_of_le hfound.1, hfound.2⟩
      next => exact ⟨Nat.le_refl _, hindex⟩

/-- A chunk that fits the lines of a section fits the file where these are found. -/
theorem fits_of_foundAt {context : List Line} {index : Nat}
    (hfound : FoundAt near lines context index) {chunk : Chunk}
    (hfits : chunk.Fits (· = ·) context) :
    ({ chunk with origIndex := chunk.origIndex + index } : Chunk).Fits near lines := by
  obtain ⟨hinside, hnear⟩ := hfound
  obtain ⟨hplace, hdeleted⟩ := hfits
  have hlength := hdeleted.length_eq
  rw [List.forall₂_eq_eq_eq] at hdeleted
  rw [List.length_take, List.length_drop] at hlength
  refine ⟨by dsimp only; omega, ?_⟩
  have hrange := List.forall₂_take chunk.delLines.length (List.forall₂_drop chunk.origIndex hnear)
  rw [hdeleted] at hrange
  rw [List.drop_take, List.drop_drop, List.take_take, Nat.min_eq_left (by omega),
    Nat.add_comm index] at hrange
  exact hrange

end PatchParser

end ShuttleFlow
