import Mathlib.Data.List.Induction
import Mathlib.Data.Nat.Basic
import Mathlib.Order.Basic

/-! # UTF-8 with replacements

Bytes are decoded one after another. A sequence that is broken off counts as one character, and so
does each byte that cannot begin one.
-/

namespace ShuttleFlow.Utf8

def replacement : Char := Char.ofNat 0xFFFD

/-- A sequence that is not complete: what it stands for so far, where its next byte has to lie, and
how many bytes follow that one. -/
structure Pending where
  code : Nat
  low : Nat
  high : Nat
  later : Nat
  deriving DecidableEq, Repr

/-- What comes of a byte: characters, and a sequence that has begun. -/
abbrev Decoded : Type := List Char × Option Pending

def Pending.Accepts (pending : Pending) (byte : UInt8) : Prop :=
  pending.low ≤ byte.toNat ∧ byte.toNat ≤ pending.high

instance (pending : Pending) (byte : UInt8) : Decidable (pending.Accepts byte) :=
  inferInstanceAs (Decidable (_ ∧ _))

/-- A byte that does not go on with a sequence. Some first bytes leave fewer second ones, for
overlong sequences, surrogates, and codes that are too large. -/
def begin (byte : UInt8) : Decoded :=
  let value := byte.toNat
  if value < 0x80 then ([Char.ofNat value], none)
  else if value < 0xC2 then ([replacement], none)
  else if value < 0xE0 then ([], some ⟨value - 0xC0, 0x80, 0xBF, 0⟩)
  else if value < 0xF0 then
    ([], some ⟨value - 0xE0, if value = 0xE0 then 0xA0 else 0x80,
      if value = 0xED then 0x9F else 0xBF, 1⟩)
  else if value < 0xF5 then
    ([], some ⟨value - 0xF0, if value = 0xF0 then 0x90 else 0x80,
      if value = 0xF4 then 0x8F else 0xBF, 2⟩)
  else ([replacement], none)

/-- A byte that goes on with a sequence. -/
def Pending.advance (pending : Pending) (byte : UInt8) : Decoded :=
  let code := pending.code * 64 + (byte.toNat - 0x80)
  match pending.later with
  | 0 => ([Char.ofNat code], none)
  | later + 1 => ([], some ⟨code, 0x80, 0xBF, later⟩)

def step (state : Option Pending) (byte : UInt8) : Decoded :=
  match state with
  | none => begin byte
  | some pending =>
      if pending.Accepts byte then pending.advance byte
      else (replacement :: (begin byte).1, (begin byte).2)

/-- What is left of a sequence when there are no more bytes. -/
def flush (state : Option Pending) : List Char :=
  if state.isSome then [replacement] else []

def decodeFrom (state : Option Pending) : List UInt8 → List Char
  | [] => flush state
  | byte :: bytes => (step state byte).1 ++ decodeFrom (step state byte).2 bytes

/-- `bytes.decode("utf-8", errors="replace")`. -/
def decode (bytes : List UInt8) : List Char :=
  decodeFrom none bytes

/-! ## Bytes in pieces -/

/-- The sequence that the bytes break off. -/
def pendingAfter (state : Option Pending) (bytes : List UInt8) : Option Pending :=
  bytes.foldl (fun state byte => (step state byte).2) state

/-- The bytes break off a sequence, and the others go on with it. -/
def Splits (bytes others : List UInt8) : Prop :=
  ∃ pending ∈ pendingAfter none bytes, ∃ byte ∈ others.head?, pending.Accepts byte

instance (bytes others : List UInt8) : Decidable (Splits bytes others) :=
  inferInstanceAs (Decidable (∃ pending ∈ pendingAfter none bytes, ∃ byte ∈ others.head?, _))

/-- Every byte that is accepted is not accepted as a first one. -/
structure Follows (pending : Pending) : Prop where
  low : 0x80 ≤ pending.low
  high : pending.high ≤ 0xBF

variable {bytes others : List UInt8} {byte : UInt8} {pending : Pending} {state : Option Pending}

theorem follows_of_begin (hbegun : (begin byte).2 = some pending) : Follows pending := by
  unfold begin at hbegun
  dsimp only at hbegun
  split at hbegun
  · cases hbegun
  · split at hbegun
    · cases hbegun
    · split at hbegun
      · obtain rfl := Option.some.inj hbegun
        exact ⟨le_rfl, le_rfl⟩
      · split at hbegun
        · obtain rfl := Option.some.inj hbegun
          constructor <;> dsimp only <;> split <;> omega
        · split at hbegun
          · obtain rfl := Option.some.inj hbegun
            constructor <;> dsimp only <;> split <;> omega
          · cases hbegun

theorem follows_of_step (hstate : ∀ pending ∈ state, Follows pending)
    (hstep : (step state byte).2 = some pending) : Follows pending := by
  cases state with
  | none => exact follows_of_begin hstep
  | some earlier =>
      unfold step at hstep
      dsimp only at hstep
      split at hstep
      · unfold Pending.advance at hstep
        dsimp only at hstep
        split at hstep
        · simp at hstep
        · obtain rfl := Option.some.inj hstep
          exact ⟨le_rfl, le_rfl⟩
      · exact follows_of_begin hstep

theorem begin_of_accepts (hfollows : Follows pending) (haccepts : pending.Accepts byte) :
    begin byte = ([replacement], none) := by
  have hlow := hfollows.low.trans haccepts.1
  have hhigh := haccepts.2.trans hfollows.high
  unfold begin
  dsimp only
  rw [if_neg (by omega), if_pos (by omega)]

/-- The others begin anew where they do not go on with the sequence. -/
theorem decodeFrom_of_not_accepts (hnot : ¬pending.Accepts byte) (bytes : List UInt8) :
    decodeFrom (some pending) (byte :: bytes) = replacement :: decode (byte :: bytes) := by
  simp only [decode, decodeFrom, step, if_neg hnot, List.cons_append]

/-- A sequence that goes on takes a byte which would be a character of its own. -/
theorem length_decodeFrom_of_accepts (hfollows : Follows pending) (haccepts : pending.Accepts byte)
    (bytes : List UInt8) :
    (decodeFrom (some pending) (byte :: bytes)).length ≤ (decode (byte :: bytes)).length := by
  induction bytes generalizing pending byte with
  | nil =>
      simp only [decode, decodeFrom, step, if_pos haccepts, begin_of_accepts hfollows haccepts,
        Pending.advance]
      split
      · simp
      · simp [flush]
  | cons second bytes ih =>
      have hrest : (decode (byte :: second :: bytes)).length =
          (decode (second :: bytes)).length + 1 := by
        rw [decode, decodeFrom, step, begin_of_accepts hfollows haccepts]
        rfl
      simp only [hrest, @decodeFrom.eq_2 (some pending), step, if_pos haccepts, Pending.advance]
      split
      · rw [List.length_append, Nat.add_comm]
        exact le_rfl
      next later hlater =>
        have hnext : Follows ⟨pending.code * 64 + (byte.toNat - 0x80), 0x80, 0xBF, later⟩ :=
          ⟨le_rfl, le_rfl⟩
        rw [List.nil_append]
        by_cases haccepts' : Pending.Accepts
            ⟨pending.code * 64 + (byte.toNat - 0x80), 0x80, 0xBF, later⟩ second
        · exact (ih hnext haccepts').trans (Nat.le_succ _)
        · rw [decodeFrom_of_not_accepts haccepts']
          exact le_rfl

/-! ### Two pieces -/

/-- What is decoded before the end is known. -/
def emitted (state : Option Pending) : List UInt8 → List Char
  | [] => []
  | byte :: bytes => (step state byte).1 ++ emitted (step state byte).2 bytes

theorem decodeFrom_append (state : Option Pending) (bytes others : List UInt8) :
    decodeFrom state (bytes ++ others) =
      emitted state bytes ++ decodeFrom (pendingAfter state bytes) others := by
  induction bytes generalizing state with
  | nil => rfl
  | cons byte bytes ih =>
      rw [List.cons_append, decodeFrom, ih, emitted, List.append_assoc]
      rfl

theorem decodeFrom_eq (state : Option Pending) (bytes : List UInt8) :
    decodeFrom state bytes = emitted state bytes ++ flush (pendingAfter state bytes) := by
  have happend := decodeFrom_append state bytes []
  rwa [List.append_nil] at happend

theorem follows_of_pendingAfter (hstate : ∀ pending ∈ state, Follows pending)
    (bytes : List UInt8) : ∀ pending ∈ pendingAfter state bytes, Follows pending := by
  induction bytes generalizing state with
  | nil => exact hstate
  | cons byte bytes ih => exact ih fun pending hpending => follows_of_step hstate hpending

theorem decode_append (hwhole : ¬Splits bytes others) :
    decode (bytes ++ others) = decode bytes ++ decode others := by
  rw [decode, decodeFrom_append, decode, decodeFrom_eq none bytes, List.append_assoc,
    List.append_cancel_left_eq]
  cases hpending : pendingAfter none bytes with
  | none => rfl
  | some pending =>
      cases others with
      | nil => rfl
      | cons byte others =>
          refine decodeFrom_of_not_accepts (fun haccepts => hwhole ?_) others
          exact ⟨pending, hpending, byte, rfl, haccepts⟩

theorem length_decode_append_lt (hsplits : Splits bytes others) :
    (decode (bytes ++ others)).length < (decode bytes).length + (decode others).length := by
  obtain ⟨pending, hpending, byte, hbyte, haccepts⟩ := hsplits
  obtain ⟨later, rfl⟩ : ∃ later, others = byte :: later := by
    cases others with
    | nil => cases hbyte
    | cons first later => exact ⟨later, by rw [Option.some.inj hbyte]⟩
  have hfollows : Follows pending :=
    follows_of_pendingAfter (fun _ hnone => by cases hnone) bytes pending hpending
  have hle := length_decodeFrom_of_accepts hfollows haccepts later
  have hbytes : (decode bytes).length = (emitted none bytes).length + 1 := by
    rw [decode, decodeFrom_eq, Option.mem_def.mp hpending, List.length_append]
    rfl
  rw [decode, decodeFrom_append, Option.mem_def.mp hpending, List.length_append, hbytes]
  omega

theorem length_decode_append_le (bytes others : List UInt8) :
    (decode (bytes ++ others)).length ≤ (decode bytes).length + (decode others).length := by
  by_cases hsplits : Splits bytes others
  · exact (length_decode_append_lt hsplits).le
  · rw [decode_append hsplits, List.length_append]

/-! ### Many pieces -/

theorem length_decode_flatten_le (chunks : List (List UInt8)) :
    (decode chunks.flatten).length ≤ (chunks.flatMap decode).length := by
  induction chunks with
  | nil => exact le_rfl
  | cons chunk chunks ih =>
      have happend := length_decode_append_le chunk chunks.flatten
      rw [List.flatten_cons, List.flatMap_cons, List.length_append]
      omega

/-- Pieces are decoded as a whole exactly if no sequence goes on from one to the next. -/
theorem flatMap_decode_iff (chunks : List (List UInt8)) :
    chunks.flatMap decode = decode chunks.flatten ↔
      ∀ before after, chunks = before ++ after → ¬Splits before.flatten after.flatten := by
  constructor
  · rintro heq before after rfl hsplits
    have hlt := length_decode_append_lt hsplits
    have hbefore := length_decode_flatten_le before
    have hafter := length_decode_flatten_le after
    have hlength := congrArg List.length heq
    rw [List.flatMap_append, List.flatten_append, List.length_append] at hlength
    omega
  · intro hwhole
    induction chunks using List.reverseRecOn with
    | nil => rfl
    | append_singleton chunks chunk ih =>
        have hlast : ¬Splits chunks.flatten chunk := by
          have hsplit := hwhole chunks [chunk] rfl
          rwa [List.flatten_singleton] at hsplit
        have hrest : chunks.flatMap decode = decode chunks.flatten := by
          refine ih fun before after hchunks hsplits => ?_
          refine hwhole before (after ++ [chunk]) (by rw [hchunks, List.append_assoc]) ?_
          obtain ⟨pending, hpending, byte, hbyte, haccepts⟩ := hsplits
          refine ⟨pending, hpending, byte, ?_, haccepts⟩
          rw [List.flatten_append, List.head?_append, Option.mem_def.mp hbyte]
          rfl
        rw [List.flatMap_append, hrest, List.flatten_append, List.flatMap_singleton,
          List.flatten_singleton, decode_append hlast]

theorem isSome_of_begin (hbegun : (begin byte).1 = []) : (begin byte).2.isSome := by
  unfold begin at hbegun ⊢
  dsimp only at hbegun ⊢
  split_ifs at hbegun ⊢ <;> rfl

/-- A byte gives a character, or leaves a sequence that will. -/
theorem isSome_of_step (hstep : (step state byte).1 = []) : (step state byte).2.isSome := by
  cases state with
  | none => exact isSome_of_begin hstep
  | some pending =>
      unfold step at hstep ⊢
      dsimp only at hstep ⊢
      by_cases haccepts : pending.Accepts byte
      · rw [if_pos haccepts] at hstep ⊢
        unfold Pending.advance at hstep ⊢
        dsimp only at hstep ⊢
        split at hstep
        · cases hstep
        · rfl
      · rw [if_neg haccepts] at hstep
        cases hstep

theorem decodeFrom_ne_nil (hpending : state.isSome ∨ bytes ≠ []) : decodeFrom state bytes ≠ [] := by
  induction bytes generalizing state with
  | nil =>
      obtain ⟨pending, rfl⟩ := Option.isSome_iff_exists.mp (hpending.resolve_right (fun h => h rfl))
      exact List.cons_ne_nil _ _
  | cons byte bytes ih =>
      intro hnil
      obtain ⟨hstep, hrest⟩ := List.append_eq_nil_iff.mp hnil
      exact ih (.inl (isSome_of_step hstep)) hrest

theorem decode_ne_nil (hne : bytes ≠ []) : decode bytes ≠ [] :=
  decodeFrom_ne_nil (.inr hne)

end ShuttleFlow.Utf8
