import HyperbyteDb.ColumnarBatches
import HyperbyteDb.PointFrames
import HyperbyteDb.WalValueCodec

/-!
# Line protocol as text

Points are written one to a line, with their times at the precision of the request.
-/

namespace HyperbyteDb

open List

def Precision.fromNanos (precision : Precision) (nanos : Int64) : Int64 :=
  match precision with
  | .nanosecond => nanos
  | .microsecond => nanos / 1000
  | .millisecond => nanos / 1000000
  | .second => nanos / 1000000000

section Writing

variable (text : String)

def escapeInfluxIdent (chars : List Char) : String :=
  String.ofList (text.toList.flatMap fun ch =>
    if ch ∈ chars ∨ ch = '\\' then ['\\', ch] else [ch])

def escapeMeasurement : String := escapeInfluxIdent text [',', ' ']

def escapeTagKey : String := escapeInfluxIdent text [',', '=', ' ']

def escapeTagValue : String := escapeInfluxIdent text [',', '=', ' ']

def escapeFieldKey : String := escapeInfluxIdent text [',', '=', ' ']

/-- Backslashes first, then quotes. -/
def escapeStringField : String :=
  String.ofList (text.toList.flatMap fun ch =>
    if ch = '\\' ∨ ch = '"' then ['\\', ch] else [ch])

variable (numberToLpFloat : UInt64 → String)

/-- The text of a float is left to the formatter. -/
def fieldValueToLp : FieldValue → String
  | .float bits => numberToLpFloat bits
  | .integer value => toString value ++ "i"
  | .uinteger value => toString value ++ "u"
  | .string value => "\"" ++ escapeStringField value ++ "\""
  | .boolean value => if value then "true" else "false"

def writeTags (tags : List (String × String)) : String :=
  tags.foldl (fun line tag =>
    if tag.2 = "" then line
    else line ++ "," ++ escapeTagKey tag.1 ++ "=" ++ escapeTagValue tag.2) ""

def writeField (field : String × FieldValue) : String :=
  escapeFieldKey field.1 ++ "=" ++ fieldValueToLp numberToLpFloat field.2

def joinTexts (separator : String) : List String → String
  | [] => ""
  | [text] => text
  | text :: texts => text ++ separator ++ joinTexts separator texts

def writePoint (precision : Precision) (point : Point) : Except HyperbytedbError String :=
  if point.fields.isEmpty then
    .error (.lineProtocolParse point.measurement "cannot encode point with no fields")
  else
    .ok (escapeMeasurement point.measurement ++ writeTags point.tags.toList ++ " " ++
      joinTexts "," (point.fields.toList.map (writeField numberToLpFloat)) ++ " " ++
      toString (precision.fromNanos point.timestamp))

def encodePointsToLineProtocol (precision : Precision) (points : List Point) :
    Except HyperbytedbError String := do
  let lines ← points.mapM (writePoint numberToLpFloat precision)
  return joinTexts "\n" lines

end Writing

structure ParsedLine where
  measurement : String
  tagSet : List (String × String)
  fieldSet : List (String × FieldValue)
  timestamp : Option Int64

/-- The formatter of floats and the parser of lines.  Where written lines are read without
an error, the times are read as they were written. -/
structure LineParser where
  numberToLpFloat : UInt64 → String
  parseLines : String → List (Except String ParsedLine)
  timestamps_encoded : ∀ {precision points text} {lines : List ParsedLine},
    encodePointsToLineProtocol numberToLpFloat precision points = .ok text →
    parseLines text = lines.map .ok →
    lines.map (·.timestamp) = points.map fun point => some (precision.fromNanos point.timestamp)

/-- A line without a time gets the reading of the clock. -/
def parsedLineToPoint (parsed : ParsedLine) (precision : Precision) (now : Option Int64) :
    Except HyperbytedbError Point :=
  match parsed.timestamp, now with
  | some ts, _ => .ok ⟨parsed.measurement, .ofList parsed.tagSet, .ofList parsed.fieldSet,
      precision.toNanos ts⟩
  | none, some ns => .ok ⟨parsed.measurement, .ofList parsed.tagSet, .ofList parsed.fieldSet, ns⟩
  | none, none => .error .wallClockTimestampUnavailable

namespace LineParser

variable (parser : LineParser)

def parseLineBodyInner (precision : Option String) (clock : Nat → Option Int64)
    (limit : Nat) (body : List UInt8) : Except HyperbytedbError (List Point) :=
  match decodeUtf8 body with
  | .error reason => .error (.lineProtocolParse "" reason)
  | .ok input =>
    takeLines limit [] ((parser.parseLines input).mapIdx fun index result =>
      match result with
      | .error reason => .error (.lineProtocolParse "" reason)
      | .ok parsed => parsedLineToPoint parsed (.fromStrOpt precision) (clock index))

def parseBody (wire : PointWire) (precision : Option String) (clock : Nat → Option Int64)
    (maxPoints : Nat) (body : List UInt8) : Except HyperbytedbError (List Point) :=
  if isBinaryPoints body then wire.decodePointsFrames (pointLimit maxPoints) body
  else parser.parseLineBodyInner precision clock (pointLimit maxPoints) body

end LineParser

variable (line : ParsedLine) (precision : Precision) (now : Option Int64)

def ParsedLine.timeAt : Option Int64 :=
  match line.timestamp with
  | some ts => some (precision.toNanos ts)
  | none => now

theorem timestamp_parsedLineToPoint :
    (parsedLineToPoint line precision now).toOption.map (·.timestamp) =
      line.timeAt precision now := by
  unfold parsedLineToPoint ParsedLine.timeAt
  cases line.timestamp with
  | some ts => rfl
  | none => cases now <;> rfl

theorem exists_map_ok_of_forall {ε α : Type} {results : List (Except ε α)}
    (good : ∀ result ∈ results, ∃ value, result = .ok value) :
    ∃ values : List α, results = values.map .ok := by
  induction results with
  | nil => exact ⟨[], rfl⟩
  | cons result results ih =>
    obtain ⟨⟨value, rfl⟩, others⟩ := forall_mem_cons.mp good
    obtain ⟨values, rfl⟩ := ih others
    exact ⟨value :: values, rfl⟩

theorem LineParser.times_of_parseLineBodyInner {parser : LineParser} {precision : Option String}
    {clock : Nat → Option Int64} {limit : Nat} {body : List UInt8} {points : List Point}
    (read : parser.parseLineBodyInner precision clock limit body = .ok points) :
    ∃ input, ∃ lines : List ParsedLine, decodeUtf8 body = .ok input ∧
      parser.parseLines input = lines.map .ok ∧
      points.map (fun point => some point.timestamp) =
        lines.mapIdx fun index line => line.timeAt (.fromStrOpt precision) (clock index) := by
  unfold parseLineBodyInner at read
  split at read
  · cases read
  next input decoded =>
  obtain ⟨parsed, same, rfl, -⟩ := (takeLines_eq_ok_iff (Nat.zero_le _)).mp read
  have good : ∀ result ∈ parser.parseLines input, ∃ line, result = .ok line := by
    intro result member
    obtain ⟨index, inside, isResult⟩ := mem_iff_getElem.mp member
    have here := congrArg (·[index]?) same
    simp only [getElem?_mapIdx, getElem?_eq_getElem inside] at here
    cases result with
    | ok line => exact ⟨line, rfl⟩
    | error reason =>
      rw [isResult] at here
      simp [eq_comm] at here
  obtain ⟨lines, isLines⟩ := exists_map_ok_of_forall good
  refine ⟨input, lines, decoded, isLines, ?_⟩
  rw [isLines] at same
  refine (mapIdx_eq_iff.mpr fun index => ?_).symm
  have here := mapIdx_eq_iff.mp same index
  simp only [getElem?_map] at here ⊢
  have times := congrArg (Option.map fun result : Except HyperbytedbError Point =>
    result.toOption.map (·.timestamp)) here
  simp only [Option.map_map] at times
  refine times.trans (congrArg (Option.map · lines[index]?) (funext fun line => ?_))
  exact timestamp_parsedLineToPoint line _ _

end HyperbyteDb
