import HyperbyteDb.ServiceErrors
import HyperbyteDb.WalValueCodec

/-!
# Stored hints

A write that could not be sent is stored as a magic word, the database, the retention policy,
the precision if there is one, and the body.
-/

namespace HyperbyteDb

open ByteReaders

structure ReplicationHintPayload where
  database : String
  retentionPolicy : String
  precision : Option String
  lineBody : List UInt8
deriving DecidableEq

def hhMagic : List UInt8 := [67, 70, 104, 49]

def utf8Bytes (text : String) : List UInt8 := text.toByteArray.data.toList

def sizedBlock (width : Nat) (block : List UInt8) : List UInt8 :=
  littleEndian width block.length ++ block

def precisionBlock (precision : List UInt8) : List UInt8 :=
  if precision.isEmpty then [0] else 1 :: sizedBlock 2 precision

namespace ReplicationHintPayload

def writtenFields (payload : ReplicationHintPayload) : List UInt8 :=
  sizedBlock 4 (utf8Bytes payload.database) ++ (sizedBlock 4 (utf8Bytes payload.retentionPolicy) ++
    (precisionBlock (utf8Bytes (payload.precision.getD "")) ++ sizedBlock 8 payload.lineBody))

def encodeHintValue (payload : ReplicationHintPayload) : Except HyperbytedbError (List UInt8) :=
  if 4294967295 < (utf8Bytes payload.database).length ∨
      4294967295 < (utf8Bytes payload.retentionPolicy).length then
    .error (.internal "replication hint: db/rp name too long")
  else if 65535 < (utf8Bytes (payload.precision.getD "")).length then
    .error (.internal "replication hint: precision too long")
  else if 18446744073709551615 < payload.lineBody.length then
    .error (.internal "replication hint: body too large")
  else .ok (hhMagic ++ payload.writtenFields)

end ReplicationHintPayload

/-- A length in `width` bytes, then as many bytes, or the failure named. -/
def readSized (width : Nat) (cause : String) : Reader (List UInt8) := do
  let len ← orCause "replication hint: truncated" (readWord width)
  orCause cause (readExact len)

def readSizedText (width : Nat) (cause : String) : Reader String := do
  decodeUtf8 (← readSized width cause)

def readPrecision : Reader (Option String) := do
  let flag ← orCause "replication hint: missing flags" (readWord 1)
  if flag = 0 then return none
  else if flag = 1 then
    let text ← readSizedText 2 "replication hint: truncated precision"
    return some text
  else throw "replication hint: bad precision flag"

def readHint : Reader ReplicationHintPayload := do
  let database ← readSizedText 4 "replication hint: truncated db"
  let retentionPolicy ← readSizedText 4 "replication hint: truncated rp"
  let precision ← readPrecision
  let lineBody ← readSized 8 "replication hint: truncated body"
  return ⟨database, retentionPolicy, precision, lineBody⟩

def decodeHintValue (data : List UInt8) : Except HyperbytedbError ReplicationHintPayload :=
  if hhMagic.isPrefixOf data then
    match readHint.run (data.drop 4) with
    | .error cause => .error (.internal cause)
    | .ok (payload, _) => .ok payload
  else .error (.internal "replication hint: bad magic or unsupported legacy format")

theorem reads_sized {width : Nat} {block : List UInt8} (fits : block.length < 256 ^ width)
    (cause : String) : Reads (readSized width cause) (sizedBlock width block) block := by
  apply ((reads_word_of_lt fits).orCause _).bind
  exact (reads_exact rfl).orCause cause

theorem decodeUtf8_utf8Bytes (text : String) : decodeUtf8 (utf8Bytes text) = .ok text :=
  decodeUtf8_toByteArray text

theorem reads_sizedText {width : Nat} {text : String}
    (fits : (utf8Bytes text).length < 256 ^ width) (cause : String) :
    Reads (readSizedText width cause) (sizedBlock width (utf8Bytes text)) text := by
  apply (reads_sized fits cause).bind_nil
  exact Reads.lift (decodeUtf8_utf8Bytes text)

theorem utf8Bytes_eq_nil_iff {text : String} : utf8Bytes text = [] ↔ text = "" := by
  constructor
  · intro empty
    have same := decodeUtf8_utf8Bytes text
    rw [empty] at same
    exact Except.ok.inj (same.symm.trans (decodeUtf8_utf8Bytes ""))
  · rintro rfl
    rfl

theorem reads_precision {precision : Option String}
    (fits : (utf8Bytes (precision.getD "")).length < 256 ^ 2) :
    Reads readPrecision (precisionBlock (utf8Bytes (precision.getD "")))
      (precision.filter (· ≠ "")) := by
  have flag : ∀ word < 256, Reads (orCause "replication hint: missing flags" (readWord 1))
      (littleEndian 1 word) word := fun word small =>
    (reads_word_of_lt (by omega)).orCause _
  by_cases empty : precision.getD "" = ""
  · have none : precision.filter (· ≠ "") = none := by
      cases precision with
      | none => rfl
      | some text =>
        obtain rfl : text = "" := empty
        rfl
    rw [none, empty]
    apply (flag 0 (by omega)).bind_nil
    exact Reads.pure _
  · obtain ⟨text, rfl⟩ : ∃ text, precision = some text := by
      cases precision with
      | none => exact absurd rfl empty
      | some text => exact ⟨text, rfl⟩
    have written : precisionBlock (utf8Bytes text) =
        littleEndian 1 1 ++ sizedBlock 2 (utf8Bytes text) := by
      rw [precisionBlock, if_neg]
      · rfl
      · simpa [utf8Bytes_eq_nil_iff] using empty
    have kept : (some text).filter (· ≠ "") = some text := by
      simpa using empty
    rw [kept, Option.getD_some, written]
    apply (flag 1 (by omega)).bind
    apply (reads_sizedText fits _).bind_nil
    exact Reads.pure _

theorem decodeHintValue_encodeHintValue {payload : ReplicationHintPayload}
    {value : List UInt8} (made : payload.encodeHintValue = .ok value) :
    decodeHintValue value =
      .ok { payload with precision := payload.precision.filter (· ≠ "") } := by
  revert made
  fun_cases ReplicationHintPayload.encodeHintValue <;> rintro ⟨⟩
  have reads : Reads readHint payload.writtenFields
      { payload with precision := payload.precision.filter (· ≠ "") } := by
    have dbFits : (utf8Bytes payload.database).length < 256 ^ 4 := by omega
    have rpFits : (utf8Bytes payload.retentionPolicy).length < 256 ^ 4 := by omega
    have lineBodyFits : payload.lineBody.length < 256 ^ 8 := by omega
    apply (reads_sizedText dbFits _).bind
    apply (reads_sizedText rpFits _).bind
    apply (reads_precision (by omega)).bind
    apply (reads_sized lineBodyFits _).bind_nil
    exact Reads.pure _
  have magic : hhMagic.isPrefixOf (hhMagic ++ payload.writtenFields) = true := rfl
  have behind : (hhMagic ++ payload.writtenFields).drop 4 = payload.writtenFields := rfl
  rw [decodeHintValue, if_pos magic, behind, reads.run_eq]

/-! ## Indices of the decoder -/

def readFields : Reader (String × String × Option String) := do
  let database ← readSizedText 4 "replication hint: truncated db"
  let retentionPolicy ← readSizedText 4 "replication hint: truncated rp"
  return (database, retentionPolicy, ← readPrecision)

def readFieldsAndLength : Reader ((String × String × Option String) × Nat) := do
  return (← readFields, ← orCause "replication hint: truncated" (readWord 8))

/-- The decoder with its running index, the number of bytes before the rest: where the sum with
the body's length overflows, it panics or wraps to below the start of the slice, which panics. -/
def decodeHintAt (data : List UInt8) : Option (Except HyperbytedbError ReplicationHintPayload) :=
  if hhMagic.isPrefixOf data then
    match readFieldsAndLength (data.drop 4) with
    | .error cause => some (.error (.internal cause))
    | .ok (((database, retentionPolicy, precision), len), rest) =>
      if 2 ^ 64 ≤ data.length - rest.length + len then none
      else if rest.length < len then
        some (.error (.internal "replication hint: truncated body"))
      else some (.ok ⟨database, retentionPolicy, precision, rest.take len⟩)
  else some (.error (.internal "replication hint: bad magic or unsupported legacy format"))

/-- Behind the fields stands a body length that overflows when the index is added to it. -/
def OverlongBody (data : List UInt8) : Prop :=
  hhMagic.isPrefixOf data ∧ ∃ fields len rest,
    readFieldsAndLength (data.drop 4) = .ok ((fields, len), rest) ∧
      2 ^ 64 ≤ data.length - rest.length + len

theorem decodeHintAt_eq_none_iff {data : List UInt8} :
    decodeHintAt data = none ↔ OverlongBody data := by
  unfold decodeHintAt OverlongBody
  split_ifs with magic
  · cases read : readFieldsAndLength (data.drop 4) with
    | error cause => simp [magic]
    | ok result =>
      obtain ⟨⟨fields, len⟩, rest⟩ := result
      simp only [magic, true_and]
      split_ifs <;> simp_all
  · simp [magic]

theorem readHint_eq (input : List UInt8) : readHint input =
    match readFieldsAndLength input with
    | .error cause => .error cause
    | .ok (((database, retentionPolicy, precision), len), rest) =>
      if len ≤ rest.length then
        .ok (⟨database, retentionPolicy, precision, rest.take len⟩, rest.drop len)
      else .error "replication hint: truncated body" := by
  have parts : readHint = do
      let ((database, retentionPolicy, precision), len) ← readFieldsAndLength
      let lineBody ← orCause "replication hint: truncated body" (readExact len)
      return ⟨database, retentionPolicy, precision, lineBody⟩ := by
    simp only [readHint, readFieldsAndLength, readFields, readSized, bind_assoc, pure_bind]
  rw [parts]
  change Except.bind (readFieldsAndLength input) _ = _
  cases readFieldsAndLength input with
  | error cause => rfl
  | ok result =>
    obtain ⟨⟨fields, len⟩, rest⟩ := result
    change Except.bind (orCause _ (readExact len) rest) _ = _
    unfold orCause readExact
    simp only
    split_ifs
    · rw [List.splitAt_eq]
      rfl
    · rfl

theorem decodeHintValue_eq_of_decodeHintAt {data : List UInt8}
    {result : Except HyperbytedbError ReplicationHintPayload}
    (returns : decodeHintAt data = some result) : decodeHintValue data = result := by
  unfold decodeHintAt at returns
  rw [decodeHintValue, StateT.run, readHint_eq]
  split_ifs at returns ⊢
  · cases read : readFieldsAndLength (data.drop 4) with
    | error cause =>
      rw [read] at returns
      exact Option.some.inj returns
    | ok found =>
      rw [read] at returns
      simp only at returns ⊢
      split_ifs at returns ⊢ <;> first | omega | exact Option.some.inj returns
  · exact Option.some.inj returns

def overlongHint : List UInt8 :=
  hhMagic ++ ([0, 0, 0, 0, 0, 0, 0, 0, 0] ++ List.replicate 8 255)

end HyperbyteDb
