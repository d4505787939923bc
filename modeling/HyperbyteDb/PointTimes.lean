import HyperbyteDb.GuardedRuns
import HyperbyteDb.HintRecords
import HyperbyteDb.LineProtocolText

/-!
# The times of points on other nodes

A batch of lines goes from node to node: the body is passed on as it came, or the points
are written anew, as lines at the precision of the request or as binary frames.  Every
node reads what arrives, at once or much later.  The times stay what they were where the
batch was accepted as long as lines without a time are not read again by another clock,
and no time is written at a precision that cannot hold it.
-/

namespace HyperbyteDb

open ByteReaders GuardedRuns LineParser List ParsedLine PointWire

variable {α : Type}

def keepAt (kept : Nat → Bool) (items : List α) : List α :=
  (items.zipIdx.filter fun item => kept item.2).map Prod.fst

theorem keepAt_map {β : Type} (kept : Nat → Bool) (f : α → β) (items : List α) :
    keepAt kept (items.map f) = (keepAt kept items).map f := by
  rw [keepAt, zipIdx_map, filter_map, map_map, keepAt, map_map]
  rfl

/-- How a node makes the body that it sends on. -/
inductive BodyForm where
  | relay
  | lines (kept : Nat → Bool)
  | binary (kept : Nat → Bool)

/-- A body that is sent on, and the node that reads it. -/
structure Hop where
  form : BodyForm
  clock : Nat → Option Int64
  maxPoints : Nat

/-- A batch at a node: the body that the node has read, the points read from it, and the
times these had where the batch was accepted. -/
structure CarriedBatch where
  body : List UInt8
  points : List Point
  accepted : List Int64

def CarriedBatch.start (body : List UInt8) (points : List Point) : CarriedBatch :=
  ⟨body, points, points.map (·.timestamp)⟩

structure BatchFormat where
  parser : LineParser
  wire : PointWire
  precision : Option String

variable {points : List Point} {text : String}

namespace BatchFormat

variable (format : BatchFormat)

variable {hop : Hop} {body : List UInt8} {points : List Point} {batch : CarriedBatch}

def unit : Precision := .fromStrOpt format.precision

def read (hop : Hop) (body : List UInt8) : Except HyperbytedbError (List Point) :=
  format.parser.parseBody format.wire format.precision hop.clock hop.maxPoints body

def send (batch : CarriedBatch) : BodyForm → Except HyperbytedbError CarriedBatch
  | .relay => .ok batch
  | .lines kept => do
      let text ← encodePointsToLineProtocol format.parser.numberToLpFloat format.unit
        (keepAt kept batch.points)
      return ⟨utf8Bytes text, keepAt kept batch.points, keepAt kept batch.accepted⟩
  | .binary kept => do
      let body ← format.wire.encodePointsBinary (keepAt kept batch.points)
      return ⟨body, keepAt kept batch.points, keepAt kept batch.accepted⟩

/-- A body that cannot be written or read goes nowhere. -/
def next (batch : CarriedBatch) (hop : Hop) : CarriedBatch :=
  match format.send batch hop.form with
  | .error _ => batch
  | .ok sent =>
    match format.read hop sent.body with
    | .error _ => batch
    | .ok points => ⟨sent.body, points, sent.accepted⟩

def linesOf (body : List UInt8) : List (Except String ParsedLine) :=
  match decodeUtf8 body with
  | .error _ => []
  | .ok input => format.parser.parseLines input

def TimesAgree (batch : CarriedBatch) : Prop :=
  batch.points.map (·.timestamp) = batch.accepted

/-- No measurement makes a written text start like a frame. -/
def WritesText (batch : CarriedBatch) (hop : Hop) : Prop :=
  ∀ kept sent, hop.form = .lines kept → format.send batch hop.form = .ok sent →
    isBinaryPoints sent.body = false

/-- The condition on a hop whose body is accepted where it arrives: a line without a time is
read when the clock shows the time it was accepted with, and the precision of the request
holds every time that is written in it. -/
def KeepsTimes (batch : CarriedBatch) (hop : Hop) : Prop :=
  ∀ sent points, format.send batch hop.form = .ok sent → format.read hop sent.body = .ok points →
    match hop.form with
    | .relay => isBinaryPoints sent.body = false →
        ∀ index line, (format.linesOf sent.body)[index]? = some (.ok line) →
          line.timestamp = none → hop.clock index = sent.accepted[index]?
    | .lines _ => ∀ point ∈ sent.points,
        format.unit.toNanos (format.unit.fromNanos point.timestamp) = point.timestamp
    | .binary _ => True

variable {format}

theorem read_text (isText : isBinaryPoints body = false) (read : format.read hop body = .ok points) :
    ∃ lines : List ParsedLine, format.linesOf body = lines.map .ok ∧
      points.map (fun point => some point.timestamp) =
        lines.mapIdx fun index line => line.timeAt format.unit (hop.clock index) := by
  rw [BatchFormat.read, parseBody, isText] at read
  obtain ⟨input, lines, decoded, isLines, times⟩ := times_of_parseLineBodyInner read
  exact ⟨lines, by rw [linesOf, decoded]; exact isLines, times⟩

theorem eq_of_read_frames {hop other : Hop} {again : List Point}
    (isBinary : isBinaryPoints body = true) (read : format.read hop body = .ok points)
    (readAgain : format.read other body = .ok again) : again = points := by
  rw [BatchFormat.read, parseBody, if_pos isBinary] at read readAgain
  exact eq_of_decodeFrames read readAgain

variable {times : List Int64}

theorem map_some_eq_map_some_iff :
    points.map (fun point => some point.timestamp) = times.map some ↔
      points.map (·.timestamp) = times := by
  rw [← map_injective_iff.mpr (Option.some_injective Int64) |>.eq_iff, map_map]
  rfl

/-- Lines read again have the same times exactly if the clock gives those of the lines
without one. -/
theorem times_reread_iff {lines : List ParsedLine} {unit : Precision}
    {clock later : Nat → Option Int64}
    (accepted : times.map some = lines.mapIdx fun index line => line.timeAt unit (clock index)) :
    (lines.mapIdx fun index line => line.timeAt unit (later index)) = times.map some ↔
      ∀ index line, lines[index]? = some line → line.timestamp = none →
        later index = times[index]? := by
  have shown : ∀ index (line : ParsedLine), lines[index]? = some line →
      times[index]? = line.timeAt unit (clock index) := by
    intro index line here
    have same := congrArg (·[index]?) accepted
    simp only [getElem?_map, getElem?_mapIdx, here] at same
    obtain ⟨time, isTime, same⟩ := Option.map_eq_some_iff.mp same
    rw [isTime, same]
  rw [accepted, mapIdx_eq_mapIdx_iff]
  constructor
  · intro same index line here untimed
    obtain ⟨inside, isLine⟩ := List.getElem?_eq_some_iff.mp here
    have agrees := same index inside
    rw [isLine] at agrees
    rw [shown index line here, ← agrees, timeAt, untimed]
  · intro untimed index inside
    have here := getElem?_eq_getElem inside
    cases stamp : lines[index].timestamp with
    | some ts => simp only [timeAt, stamp]
    | none =>
      rw [← shown index _ here, ← untimed index _ here stamp, timeAt, stamp]

/-- Written lines come back with the times that the precision holds. -/
theorem times_of_read_lines {kept : List Point}
    (written : encodePointsToLineProtocol format.parser.numberToLpFloat format.unit kept = .ok text)
    (isText : isBinaryPoints (utf8Bytes text) = false)
    (read : format.read hop (utf8Bytes text) = .ok points) :
    points.map (·.timestamp) = kept.map fun point =>
      format.unit.toNanos (format.unit.fromNanos point.timestamp) := by
  obtain ⟨lines, isLines, times⟩ := read_text isText read
  simp only [linesOf, decodeUtf8_utf8Bytes] at isLines
  have stamps := format.parser.timestamps_encoded written isLines
  refine map_some_eq_map_some_iff.mp (times.trans (mapIdx_eq_iff.mpr fun index => ?_))
  have here := congrArg (·[index]?) stamps
  simp only [getElem?_map] at here ⊢
  cases atIndex : lines[index]? with
  | none =>
    rw [atIndex, Option.map_none, eq_comm, Option.map_eq_none_iff] at here
    rw [here]
    rfl
  | some line =>
    rw [atIndex, Option.map_some, eq_comm, Option.map_eq_some_iff] at here
    obtain ⟨point, isPoint, stamp⟩ := here
    rw [isPoint]
    simp only [Option.map_some, timeAt, ← stamp]

theorem eq_of_read_binary {kept : List Point}
    (written : format.wire.encodePointsBinary kept = .ok body)
    (read : format.read hop body = .ok points) : points = kept := by
  have isBinary := isBinaryPoints_of_encodePointsBinary written
  have taken : format.wire.parseLineBodyToPointsLimited format.precision hop.maxPoints body =
      .ok points := by
    rw [parseLineBodyToPointsLimited, if_pos isBinary]
    rwa [BatchFormat.read, parseBody, if_pos isBinary] at read
  exact eq_of_parse_binary written taken

def IsRead (batch : CarriedBatch) : Prop :=
  ∃ hop, format.read hop batch.body = .ok batch.points

theorem IsRead.next (known : format.IsRead batch) (hop : Hop) :
    format.IsRead (format.next batch hop) := by
  fun_cases BatchFormat.next with
  | case1 | case2 => exact known
  | case3 sent isSent points read => exact ⟨hop, read⟩

theorem times_relayed_iff {first hop : Hop} (isText : isBinaryPoints batch.body = false)
    (firstRead : format.read first batch.body = .ok batch.points) (agree : TimesAgree batch)
    (read : format.read hop batch.body = .ok points) :
    points.map (·.timestamp) = batch.accepted ↔
      ∀ index line, (format.linesOf batch.body)[index]? = some (.ok line) →
        line.timestamp = none → hop.clock index = batch.accepted[index]? := by
  obtain ⟨lines, isLines, times⟩ := read_text isText firstRead
  obtain ⟨again, isAgain, later⟩ := read_text isText read
  cases map_injective_iff.mpr (fun _ _ => Except.ok.inj) (isLines.symm.trans isAgain)
  have accepted := (map_some_eq_map_some_iff.mpr agree).symm.trans times
  rw [← map_some_eq_map_some_iff, later, times_reread_iff accepted]
  simp [isLines]

theorem timesAgree_next_iff (known : format.IsRead batch) (agree : TimesAgree batch)
    (writes : format.WritesText batch hop) :
    TimesAgree (format.next batch hop) ↔ format.KeepsTimes batch hop := by
  fun_cases BatchFormat.next with
  | case1 cause unsent =>
    refine iff_of_true agree fun sent points isSent => ?_
    cases unsent.symm.trans isSent
  | case2 sent isSent cause unread =>
    refine iff_of_true agree fun other points isOther read => ?_
    cases isSent.symm.trans isOther
    cases unread.symm.trans read
  | case3 sent isSent points read =>
    have guarded : format.KeepsTimes batch hop ↔ _ :=
      ⟨fun keeps => keeps sent points isSent read, fun holds other others isOther readOther => by
        cases isSent.symm.trans isOther
        exact holds⟩
    rw [guarded]
    obtain ⟨form, clock, maxPoints⟩ := hop
    cases form with
    | relay =>
      cases isSent
      obtain ⟨first, firstRead⟩ := known
      cases isText : isBinaryPoints batch.body with
      | true =>
        cases eq_of_read_frames isText firstRead read
        exact iff_of_true agree fun impossible => nomatch impossible
      | false =>
        rw [TimesAgree, times_relayed_iff isText firstRead agree read]
        exact ⟨fun keeps _ => keeps, fun keeps => keeps rfl⟩
    | lines kept =>
      have isText := writes kept sent rfl isSent
      obtain ⟨text, written, isSent⟩ := exists_of_bind_eq_ok isSent
      cases isSent
      rw [TimesAgree, times_of_read_lines written isText read, ← agree, keepAt_map]
      exact map_inj_left
    | binary kept =>
      obtain ⟨body, written, isSent⟩ := exists_of_bind_eq_ok isSent
      cases isSent
      cases eq_of_read_binary written read
      refine iff_of_true ?_ trivial
      rw [TimesAgree, ← agree, keepAt_map]

/-- For every accepted batch and every way that it takes from node to node, the times are
everywhere those it was accepted with exactly if every hop meets the condition. -/
theorem times_agree_iff {first : Hop} {body : List UInt8} {points : List Point}
    (accepted : format.read first body = .ok points) {hops : List Hop}
    (writes : Along format.next format.WritesText (.start body points) hops) :
    (∀ earlier, earlier <+: hops →
      TimesAgree (run format.next (.start body points) earlier)) ↔
      Along format.next format.KeepsTimes (.start body points) hops := by
  have known : format.IsRead (.start body points) := ⟨first, accepted⟩
  have agree : TimesAgree (.start body points) := rfl
  exact forall_prefix_iff_along_of_allowed
    (fun _ hop (known : format.IsRead _) => known.next hop)
    (fun _ _ known agree writes => timesAgree_next_iff known agree writes) known agree writes

end BatchFormat

section Samples

variable {numberToLpFloat : UInt64 → String}

def EndsInDigit (text : String) : Prop :=
  ∃ front digit, text.toList = front ++ [digit] ∧ digit.isDigit = true

theorem EndsInDigit.append (first : String) {second : String} (ends : EndsInDigit second) :
    EndsInDigit (first ++ second) := by
  obtain ⟨front, digit, same, isDigit⟩ := ends
  exact ⟨first.toList ++ front, digit, by rw [String.toList_append, same, append_assoc], isDigit⟩

theorem endsInDigit_nat (value : Nat) : EndsInDigit (toString value) := by
  have digits : (toString value).toList = Nat.toDigits 10 value := String.toList_ofList
  have open_ : Nat.toDigits 10 value ≠ [] := Nat.toDigits_ne_nil
  refine ⟨(Nat.toDigits 10 value).dropLast, (Nat.toDigits 10 value).getLast open_, ?_, ?_⟩
  · exact digits.trans (dropLast_append_getLast open_).symm
  · exact Nat.isDigit_of_mem_toDigits (by decide) (by decide) (getLast_mem open_)

theorem endsInDigit_int64 (value : Int64) : EndsInDigit (toString value) := by
  change EndsInDigit (toString value.toInt)
  cases value.toInt with
  | ofNat value => exact endsInDigit_nat value
  | negSucc value => exact (endsInDigit_nat (value + 1)).append "-"

theorem endsInDigit_joinTexts {separator : String} {texts : List String}
    (ends : ∀ text ∈ texts, EndsInDigit text) (some : texts ≠ []) :
    EndsInDigit (joinTexts separator texts) := by
  induction texts with
  | nil => exact absurd rfl some
  | cons text texts ih =>
    obtain ⟨here, later⟩ := forall_mem_cons.mp ends
    cases texts with
    | nil => exact here
    | cons next rest => exact (ih later (by simp)).append _

variable {precision : Precision}

theorem endsInDigit_writePoint {point : Point} {line : String}
    (written : writePoint numberToLpFloat precision point = .ok line) : EndsInDigit line := by
  unfold writePoint at written
  split at written
  · cases written
  · rw [← Except.ok.inj written]
    exact (endsInDigit_int64 _).append _

theorem endsInDigit_encode
    (some : points ≠ [])
    (written : encodePointsToLineProtocol numberToLpFloat precision points = .ok text) :
    EndsInDigit text := by
  obtain ⟨lines, isLines, same⟩ := exists_of_bind_eq_ok written
  cases same
  have each := forall₂_of_mapM_eq_ok isLines
  apply endsInDigit_joinTexts
  · intro line member
    obtain ⟨index, inside, rfl⟩ := mem_iff_getElem.mp member
    exact endsInDigit_writePoint (each.get inside (each.length_eq ▸ inside))
  · rintro rfl
    cases each
    exact some rfl

def untimedText : String := "cpu v=1i"

def untimedLine : ParsedLine := ⟨"cpu", [], [("v", .integer 1)], none⟩

def untimedParser : LineParser where
  numberToLpFloat _ := "0"
  parseLines input := if input = untimedText then [.ok untimedLine] else [.error "invalid line"]
  timestamps_encoded {precision points text lines} written isLines := by
    have noDigit : ¬EndsInDigit untimedText := by
      rintro ⟨front, digit, same, isDigit⟩
      have last := congrArg getLast? same
      rw [getLast?_concat, show untimedText.toList.getLast? = some 'i' by decide +kernel] at last
      cases last
      cases isDigit
    split at isLines
    next same =>
      cases points with
      | nil =>
        cases written
        exact absurd same (by decide +kernel)
      | cons point points => exact absurd (same ▸ endsInDigit_encode (by simp) written) noDigit
    next => cases lines <;> cases isLines

def untimedFormat : BatchFormat := ⟨untimedParser, byteWire, none⟩

/-- The line as read at a node whose clock shows `now`. -/
def pointAt (now : Int64) : Point :=
  ⟨untimedLine.measurement, .ofList untimedLine.tagSet, .ofList untimedLine.fieldSet, now⟩

theorem read_untimed (form : BodyForm) (now : Int64) :
    untimedFormat.read ⟨form, fun _ => some now, 0⟩ (utf8Bytes untimedText) =
      .ok [pointAt now] := by
  have isText : isBinaryPoints (utf8Bytes untimedText) = false := by decide +kernel
  rw [BatchFormat.read, parseBody]
  rfl

/-- A second relay of the line before the clock moves on. -/
theorem relayedLine_same_time :
    BatchFormat.TimesAgree (run untimedFormat.next (.start (utf8Bytes untimedText) [pointAt 7])
      [⟨.relay, fun _ => some 7, 0⟩]) := by
  refine (BatchFormat.times_agree_iff (read_untimed .relay 7) ?_).mpr ?_ _ prefix_rfl
  · exact ⟨fun kept sent isLines => (nomatch isLines), trivial⟩
  · refine ⟨fun sent points isSent _ => ?_, trivial⟩
    cases isSent
    intro _ index line here _
    cases index with
    | zero => rfl
    | succ index => cases here

/-- Another node reads the line a nanosecond later. -/
theorem relayedLine_other_time :
    untimedFormat.read ⟨.relay, fun _ => some 7, 0⟩ (utf8Bytes untimedText) = .ok [pointAt 7] ∧
      ¬BatchFormat.TimesAgree (run untimedFormat.next
        (.start (utf8Bytes untimedText) [pointAt 7]) [⟨.relay, fun _ => some 8, 0⟩]) := by
  refine ⟨read_untimed .relay 7, ?_⟩
  exact fun same => absurd (cons.inj same).1 (by decide)

end Samples

end HyperbyteDb
