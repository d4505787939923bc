import Mathlib.Algebra.Order.Ring.Nat
import Mathlib.Data.List.Basic

/-!
# Reading what was written to a byte string

A reader consumes bytes from the front of its input and may fail.
-/

namespace ByteReaders

open List

abbrev Reader := StateT (List UInt8) (Except String)

variable {α β : Type}

/-- On input that starts with `written`, the reader returns `value` and stops behind it. -/
def Reads (reader : Reader α) (written : List UInt8) (value : α) : Prop :=
  ∀ rest, reader.run (written ++ rest) = .ok (value, rest)

variable {reader : Reader α} {value : α} {written : List UInt8}

theorem Reads.run_eq (reads : Reads reader written value) :
    reader.run written = .ok (value, []) := by
  have whole := reads []
  rwa [append_nil] at whole

theorem Reads.pure (value : α) : Reads (pure value) [] value := fun _ => rfl

variable {result : β}

theorem Reads.bind {next : α → Reader β} {first second : List UInt8}
    (reads : Reads reader first value) (readsNext : Reads (next value) second result) :
    Reads (reader >>= next) (first ++ second) result := by
  intro rest
  rw [StateT.run_bind, append_assoc, reads (second ++ rest)]
  exact readsNext rest

theorem Reads.bind_nil {next : α → Reader β} (reads : Reads reader written value)
    (readsNext : Reads (next value) [] result) : Reads (reader >>= next) written result := by
  have whole := reads.bind readsNext
  rwa [append_nil] at whole

/-- A fallible computation inside a reader consumes nothing. -/
theorem Reads.lift {computation : Except String α} (succeeds : computation = .ok value) :
    Reads (StateT.lift computation) [] value := by
  intro rest
  rw [succeeds]
  rfl

def orCause (cause : String) (reader : Reader α) : Reader α := fun input =>
  match reader input with
  | .error _ => .error cause
  | .ok result => .ok result

theorem Reads.orCause (reads : Reads reader written value) (cause : String) :
    Reads (orCause cause reader) written value := by
  intro rest
  have whole : reader (written ++ rest) = .ok (value, rest) := reads rest
  simp only [ByteReaders.orCause, StateT.run, whole]

/-- Output that is put together from fallible pieces has each of them. -/
theorem exists_of_bind_eq_ok {ε : Type*} {piece : Except ε α} {next : α → Except ε β}
    (made : (piece >>= next) = .ok result) :
    ∃ value, piece = .ok value ∧ next value = .ok result := by
  cases piece with
  | error cause => cases made
  | ok value => exact ⟨value, rfl, made⟩

def readExact (count : Nat) : Reader (List UInt8) := fun input =>
  if count ≤ input.length then .ok (input.splitAt count)
  else .error "failed to fill whole buffer"

theorem reads_exact {count : Nat} {block : List UInt8} (length : block.length = count) :
    Reads (readExact count) block block := by
  intro rest
  subst length
  simp [readExact, StateT.run]

def remaining : Reader Nat := fun input => .ok (input.length, input)

/-- The low `width` bytes of `word`, the lowest first. -/
def littleEndian : Nat → Nat → List UInt8
  | 0, _ => []
  | width + 1, word => UInt8.ofNat word :: littleEndian width (word / 256)

def ofLittleEndian : List UInt8 → Nat
  | [] => 0
  | byte :: bytes => byte.toNat + 256 * ofLittleEndian bytes

@[simp] theorem length_littleEndian (width word : Nat) :
    (littleEndian width word).length = width := by
  induction width generalizing word with
  | zero => rfl
  | succ width ih => simp [littleEndian, ih]

/-- A word that does not fit loses its high bytes. -/
theorem ofLittleEndian_littleEndian (width word : Nat) :
    ofLittleEndian (littleEndian width word) = word % 256 ^ width := by
  induction width generalizing word with
  | zero => simp [littleEndian, ofLittleEndian, Nat.mod_one]
  | succ width ih =>
    rw [littleEndian, ofLittleEndian, ih, UInt8.toNat_ofNat', Nat.pow_succ' (n := width),
      Nat.mod_mul]

theorem ofLittleEndian_lt (bytes : List UInt8) : ofLittleEndian bytes < 256 ^ bytes.length := by
  induction bytes with
  | nil => exact Nat.one_pos
  | cons byte bytes ih =>
    have small := byte.toNat_lt
    rw [ofLittleEndian, length_cons, Nat.pow_succ]
    omega

def readWord (width : Nat) : Reader Nat := do
  return ofLittleEndian (← readExact width)

theorem lt_of_readWord {width word : Nat} {cause : String} {input rest : List UInt8}
    (read : orCause cause (readWord width) input = .ok (word, rest)) : word < 256 ^ width := by
  have inner : readWord width input = .ok (word, rest) := by
    unfold orCause at read
    split at read
    · cases read
    next found => exact found.trans read
  obtain ⟨⟨bytes, left⟩, taken, last⟩ := exists_of_bind_eq_ok inner
  unfold readExact at taken
  split_ifs at taken with enough
  rw [splitAt_eq] at taken
  cases taken
  cases last
  have bound := ofLittleEndian_lt (input.take width)
  rwa [length_take_of_le enough] at bound

theorem reads_word (width word : Nat) :
    Reads (readWord width) (littleEndian width word) (word % 256 ^ width) := by
  rw [← ofLittleEndian_littleEndian]
  apply (reads_exact (length_littleEndian width word)).bind_nil
  exact Reads.pure _

theorem reads_word_of_lt {width word : Nat} (fits : word < 256 ^ width) :
    Reads (readWord width) (littleEndian width word) word := by
  have reads := reads_word width word
  rwa [Nat.mod_eq_of_lt fits] at reads

def readMany (reader : Reader α) : Nat → Reader (List α)
  | 0 => return []
  | count + 1 => do
      let value ← reader
      let values ← readMany reader count
      return value :: values

theorem reads_many {pieces : List (List UInt8)} {values : List α}
    (each : List.Forall₂ (Reads reader) pieces values) :
    Reads (readMany reader values.length) pieces.flatten values := by
  induction each with
  | nil => exact Reads.pure []
  | cons reads _ ih =>
    apply reads.bind
    apply ih.bind_nil
    exact Reads.pure _

theorem forall₂_of_mapM_eq_ok {ε : Type*} {write : α → Except ε β} {values : List α}
    {pieces : List β} (made : values.mapM write = .ok pieces) :
    List.Forall₂ (fun piece value => write value = .ok piece) pieces values := by
  induction values generalizing pieces with
  | nil =>
    cases made
    exact .nil
  | cons value values ih =>
    rw [mapM_cons] at made
    obtain ⟨piece, pieceOk, made⟩ := exists_of_bind_eq_ok made
    obtain ⟨later, laterOk, made⟩ := exists_of_bind_eq_ok made
    cases made
    exact .cons pieceOk (ih laterOk)

end ByteReaders
