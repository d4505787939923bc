import HyperbyteDb.ByteReaders
import HyperbyteDb.PointCoalescing
import HyperbyteDb.ServiceErrors

/-!
# The bodies in which points travel between nodes

A body holds binary frames or line protocol.  A frame is a magic word, the length of its
payload and the payload; frames concatenate, with whitespace allowed between them.
-/

namespace HyperbyteDb

open ByteReaders List Point

namespace Point

def series (point : Point) : String × Std.ExtTreeMap String String :=
  (point.measurement, point.tags)

/-- The series as line protocol writes it, which has no empty tag value. -/
def writtenSeries (point : Point) : String × Std.ExtTreeMap String String :=
  (point.measurement, point.tags.filter fun _ value => value != "")

end Point

def pointsFrameMagic : List UInt8 := [0, 72, 66, 80]

/-- Line protocol never starts with NUL. -/
def isBinaryPoints (body : List UInt8) : Bool :=
  pointsFrameMagic.isPrefixOf body

/-- The serializer of point vectors and the two directions of line protocol.  The
serializer reads back what it wrote.  Encoded lines are no frame, parse without an
error and keep the series as written; lines behind a body that parses are parsed as
on their own. -/
structure PointWire where
  serialize : List Point → Except String (List UInt8)
  deserialize : List UInt8 → Except String (List Point)
  encodeLines : Option String → List Point → Except HyperbytedbError (List UInt8)
  lines : Option String → List UInt8 →
    Except HyperbytedbError (List (Except HyperbytedbError Point))
  deserialize_serialize : ∀ {points bytes}, serialize points = .ok bytes →
    deserialize bytes = .ok points
  encodeLines_text : ∀ {precision points body},
    encodeLines precision points = .ok body → isBinaryPoints body = false
  lines_encodeLines : ∀ {precision points body},
    encodeLines precision points = .ok body →
    ∃ parsed : List Point, lines precision body = .ok (parsed.map .ok) ∧
      parsed.map series = points.map writtenSeries
  lines_append : ∀ {precision first second} {parsed : List Point} {rest},
    lines precision first = .ok (parsed.map .ok) → lines precision second = .ok rest →
    lines precision (first ++ 10 :: second) = .ok (parsed.map .ok ++ rest)

namespace PointWire

variable (wire : PointWire)

def encodePointsBinary (points : List Point) : Except HyperbytedbError (List UInt8) :=
  match wire.serialize points with
  | .error cause => .error (.internal s!"encode points: {cause}")
  | .ok payload =>
    if payload.length < 2 ^ 32 then
      .ok (pointsFrameMagic ++ littleEndian 4 payload.length ++ payload)
    else .error (.payloadTooLarge "points frame over 4 GiB")

end PointWire

def isAsciiWhitespace (byte : UInt8) : Bool :=
  byte == 32 || byte == 9 || byte == 10 || byte == 12 || byte == 13

def badFrames (cause : String) : HyperbytedbError :=
  .lineProtocolParse "" s!"binary points: {cause}"

/-- The slices of one frame, payload and rest; `none` is an index out of range. -/
def frameAt (rest : List UInt8) : Option (Except HyperbytedbError (List UInt8 × List UInt8)) :=
  if pointsFrameMagic.isPrefixOf rest && 8 ≤ rest.length then do
    let end_ := 8 + ofLittleEndian [← rest[4]?, ← rest[5]?, ← rest[6]?, ← rest[7]?]
    if rest.length < end_ then return .error (badFrames "frame shorter than its length")
    else if end_ ≤ rest.length then return .ok ((rest.take end_).drop 8, rest.drop end_)
    else none
  else return .error (badFrames "truncated or mixed body")

theorem frameAt_eq (rest : List UInt8) : frameAt rest = some (
    if pointsFrameMagic.isPrefixOf rest && 8 ≤ rest.length then
      let len := ofLittleEndian ((rest.drop 4).take 4)
      if 8 + len ≤ rest.length then .ok ((rest.drop 8).take len, rest.drop (8 + len))
      else .error (badFrames "frame shorter than its length")
    else .error (badFrames "truncated or mixed body")) := by
  unfold frameAt
  split_ifs with isFrame
  · obtain ⟨-, long⟩ := Bool.and_eq_true_iff.mp isFrame
    rw [decide_eq_true_eq] at long
    have word : (rest.drop 4).take 4 = [rest[4], rest[5], rest[6], rest[7]] := by
      rw [drop_eq_getElem_cons (by omega), drop_eq_getElem_cons (by omega),
        drop_eq_getElem_cons (by omega), drop_eq_getElem_cons (by omega)]
      rfl
    simp only [word, getElem?_eq_getElem, show 4 < rest.length by omega,
      show 5 < rest.length by omega, show 6 < rest.length by omega, show 7 < rest.length by omega, Option.bind_eq_bind, Option.bind_some]
    split_ifs
    · omega
    · rfl
    · rw [drop_take]; simp
    · omega
  · rfl

namespace PointWire

variable (wire : PointWire)

def decodeFrames (limit : Nat) (out : List Point) (body : List UInt8) :
    Except HyperbytedbError (List Point) :=
  let rest := body.dropWhile isAsciiWhitespace
  if _done : rest = [] then .ok out
  else if pointsFrameMagic.isPrefixOf rest && 8 ≤ rest.length then
    let len := ofLittleEndian ((rest.drop 4).take 4)
    if 8 + len ≤ rest.length then
      match wire.deserialize ((rest.drop 8).take len) with
      | .error cause => .error (badFrames cause)
      | .ok points =>
        if limit < out.length + points.length then
          .error (.payloadTooLarge s!"more than {limit} points in one request")
        else decodeFrames limit (out ++ points) (rest.drop (8 + len))
    else .error (badFrames "frame shorter than its length")
  else .error (badFrames "truncated or mixed body")
termination_by body.length
decreasing_by
  have shorter : (body.dropWhile isAsciiWhitespace).length ≤ body.length :=
    (dropWhile_sublist _).length_le
  have some : 0 < (body.dropWhile isAsciiWhitespace).length :=
    length_pos_of_ne_nil _done
  rw [length_drop]
  omega

def decodePointsFrames (limit : Nat) (body : List UInt8) : Except HyperbytedbError (List Point) :=
  wire.decodeFrames limit [] body

end PointWire

def takeLines (limit : Nat) (points : List Point) :
    List (Except HyperbytedbError Point) → Except HyperbytedbError (List Point)
  | [] => .ok points
  | .error cause :: _ => .error cause
  | .ok point :: rest =>
    if limit < points.length + 1 then
      .error (.requestPointLimitExceeded (points.length + 1) limit)
    else takeLines limit (points ++ [point]) rest

def defaultMaxPointsPerRequest : Nat := 500000

/-- A configured limit of zero stands for the default. -/
def pointLimit (maxPoints : Nat) : Nat :=
  if maxPoints = 0 then defaultMaxPointsPerRequest else maxPoints

namespace PointWire

variable (wire : PointWire)

def parseLineBodyToPointsLimited (precision : Option String) (maxPoints : Nat)
    (body : List UInt8) : Except HyperbytedbError (List Point) :=
  if isBinaryPoints body then wire.decodePointsFrames (pointLimit maxPoints) body
  else
    match wire.lines precision body with
    | .error cause => .error cause
    | .ok results => takeLines (pointLimit maxPoints) [] results

variable {wire} {points : List Point}

theorem decodeFrames_frame {frame : List UInt8} (made : wire.encodePointsBinary points = .ok frame)
    (limit : Nat) (out : List Point) (rest : List UInt8) :
    wire.decodeFrames limit out (frame ++ rest) =
      if limit < out.length + points.length then
        .error (.payloadTooLarge s!"more than {limit} points in one request")
      else wire.decodeFrames limit (out ++ points) rest := by
  revert made
  fun_cases encodePointsBinary with
  | case2 payload serialized fits =>
    rintro ⟨⟩
    have decoded := wire.deserialize_serialize serialized
    generalize sized : littleEndian 4 payload.length = size
    have four : size.length = 4 := sized ▸ length_littleEndian 4 payload.length
    have length : ofLittleEndian size = payload.length := by
      rw [← sized, ofLittleEndian_littleEndian, Nat.mod_eq_of_lt (by omega)]
    let whole := pointsFrameMagic ++ size ++ payload ++ rest
    have starts : whole.dropWhile isAsciiWhitespace = whole := rfl
    have isFrame : pointsFrameMagic.isPrefixOf whole = true := by
      simp [whole]
    have sizeAt : (whole.drop 4).take 4 = size := by
      simp [whole, pointsFrameMagic, four]
    have payloadAt : (whole.drop 8).take payload.length = payload := by
      simp [whole, pointsFrameMagic, four]
    have restAt : whole.drop (8 + payload.length) = rest := by
      rw [← drop_drop]
      simp [whole, pointsFrameMagic, four]
    have long : 8 + payload.length ≤ whole.length := by
      simp [whole, pointsFrameMagic]
      omega
    rw [decodeFrames]
    rw [starts, dif_neg (by simp [whole, pointsFrameMagic]), isFrame, sizeAt, length,
      if_pos (by simp; omega), if_pos long, payloadAt, decoded, restAt]
  | _ => rintro ⟨⟩

variable {out : List Point} {limit : Nat}

theorem decodeFrames_spaced {pieces : List (List UInt8 × List UInt8)} {parts : List (List Point)}
    (made : Forall₂ (fun piece points => wire.encodePointsBinary points = .ok piece.2) pieces parts)
    (blank : ∀ piece ∈ pieces, piece.1.all isAsciiWhitespace) {last : List UInt8}
    (blankLast : last.all isAsciiWhitespace) (within : out.length ≤ limit) :
    wire.decodeFrames limit out (pieces.flatMap (fun piece => piece.1 ++ piece.2) ++ last) =
      if out.length + parts.flatten.length ≤ limit then .ok (out ++ parts.flatten)
      else .error (.payloadTooLarge s!"more than {limit} points in one request") := by
  have skip : ∀ {gap} body out, gap.all isAsciiWhitespace →
      wire.decodeFrames limit out (gap ++ body) = wire.decodeFrames limit out body := by
    intro gap body out isBlank
    rw [decodeFrames, decodeFrames, dropWhile_append_of_pos (all_eq_true.mp isBlank)]
  induction made generalizing out with
  | nil =>
    rw [flatMap_nil, nil_append, ← append_nil last, skip [] out blankLast]
    simp [decodeFrames, within]
  | @cons piece points pieces parts here made ih =>
    simp only [flatMap_cons, append_assoc, flatten_cons, length_append]
    rw [skip _ _ (blank piece mem_cons_self), decodeFrames_frame here]
    split_ifs with past fits
    · omega
    · rfl
    · rw [ih (fun other member => blank other (mem_cons_of_mem _ member)) (by simp; omega),
        if_pos (by rw [length_append]; omega), append_assoc]
    · rw [ih (fun other member => blank other (mem_cons_of_mem _ member)) (by simp; omega),
        if_neg (by rw [length_append]; omega)]

/-- What follows a body that decodes, behind a newline, is decoded as on its own. -/
theorem decodeFrames_append {first : List UInt8}
    (decoded : wire.decodeFrames limit out first = .ok points) (second : List UInt8) :
    wire.decodeFrames limit out (first ++ 10 :: second) =
      wire.decodeFrames limit points second := by
  fun_induction decodeFrames wire limit out first with
  | case1 out body rest done =>
    cases decoded
    have blank : (body ++ 10 :: second).dropWhile isAsciiWhitespace =
        second.dropWhile isAsciiWhitespace := by
      rw [dropWhile_append, isEmpty_iff.mpr done]
      rfl
    rw [decodeFrames, decodeFrames, blank]
  | case2 | case3 | case5 | case6 => cases decoded
  | case4 out body rest open_ isFrame len inside parsed deserialized within ih =>
    obtain ⟨magic, long⟩ := Bool.and_eq_true_iff.mp isFrame
    rw [decide_eq_true_eq] at long
    have trimmed : (body ++ 10 :: second).dropWhile isAsciiWhitespace =
        rest ++ 10 :: second := by
      rw [dropWhile_append, if_neg (by rwa [List.isEmpty_iff])]
    have stillFrame : pointsFrameMagic.isPrefixOf (rest ++ 10 :: second) = true :=
      isPrefixOf_iff_prefix.mpr ((List.isPrefixOf_iff_prefix.mp magic).trans (prefix_append _ _))
    have sameSize : ((rest ++ 10 :: second).drop 4).take 4 = (rest.drop 4).take 4 := by
      rw [drop_append_of_le_length (by omega),
        take_append_of_le_length (by rw [length_drop]; omega)]
    have samePayload : ((rest ++ 10 :: second).drop 8).take len =
        (rest.drop 8).take len := by
      rw [drop_append_of_le_length long, take_append_of_le_length (by rw [length_drop]; omega)]
    rw [decodeFrames]
    rw [trimmed, dif_neg (by simp), stillFrame, sameSize,
      if_pos (by simp; omega),
      if_pos (by rw [length_append]; omega), samePayload, deserialized]
    dsimp only
    rw [if_neg within, drop_append_of_le_length inside]
    exact ih decoded

/-- **Frames concatenate**: frames with whitespace between, before and behind them decode to all
their points, or to the error if these are more than the limit; and no pass of the loop, from
any state, takes an index out of range. -/
theorem decodePointsFrames_exact (wire : PointWire) (limit : Nat) :
    (∀ (pieces : List (List UInt8 × List UInt8)) (parts : List (List Point)) (last : List UInt8),
      Forall₂ (fun piece points => wire.encodePointsBinary points = .ok piece.2) pieces parts →
      (∀ piece ∈ pieces, piece.1.all isAsciiWhitespace) → last.all isAsciiWhitespace →
      wire.decodePointsFrames limit (pieces.flatMap (fun piece => piece.1 ++ piece.2) ++ last) =
        if parts.flatten.length ≤ limit then .ok parts.flatten
        else .error (.payloadTooLarge s!"more than {limit} points in one request")) ∧
    ∀ out body, some (wire.decodeFrames limit out body) =
      if body.dropWhile isAsciiWhitespace = [] then some (.ok out)
      else (frameAt (body.dropWhile isAsciiWhitespace)).map fun
        | .error cause => .error cause
        | .ok (payload, after) =>
          match wire.deserialize payload with
          | .error cause => .error (badFrames cause)
          | .ok points =>
            if limit < out.length + points.length then
              .error (.payloadTooLarge s!"more than {limit} points in one request")
            else wire.decodeFrames limit (out ++ points) after := by
  constructor
  · intro pieces parts last made blank blankLast
    rw [decodePointsFrames, decodeFrames_spaced made blank blankLast (Nat.zero_le _)]
    simp
  · intro out body
    rw [decodeFrames, frameAt_eq]
    simp only [dite_eq_ite]
    split_ifs <;> rfl

end PointWire

theorem takeLines_eq_ok_iff {results : List (Except HyperbytedbError Point)}
    (within : points.length ≤ limit) :
    takeLines limit points results = .ok out ↔
      ∃ parsed : List Point, results = parsed.map .ok ∧ out = points ++ parsed ∧
        out.length ≤ limit := by
  fun_induction takeLines limit points results with
  | case1 points =>
    constructor
    · rintro ⟨⟩
      exact ⟨[], rfl, by simp, within⟩
    · rintro ⟨parsed, none, rfl, -⟩
      rw [map_eq_nil_iff.mp none.symm, append_nil]
  | case2 points cause results =>
    constructor
    · rintro ⟨⟩
    · rintro ⟨parsed, same, -⟩
      cases parsed <;> simp at same
  | case3 points point results full =>
    constructor
    · rintro ⟨⟩
    · rintro ⟨parsed, same, rfl, short⟩
      cases parsed with
      | nil => cases same
      | cons => simp at short; omega
  | case4 points point results room ih =>
    rw [ih (by simp; omega)]
    constructor
    · rintro ⟨parsed, rfl, rfl, short⟩
      exact ⟨point :: parsed, rfl, by simp, short⟩
    · rintro ⟨parsed, same, rfl, short⟩
      cases parsed with
      | nil => cases same
      | cons head tail =>
        obtain ⟨rfl, rfl⟩ := same
        exact ⟨tail, rfl, by simp, short⟩

namespace PointWire

variable {wire : PointWire} {precision : Option String} {maxPoints : Nat}
  {points parsed : List Point} {body : List UInt8}

theorem isBinaryPoints_of_encodePointsBinary (made : wire.encodePointsBinary points = .ok body) :
    isBinaryPoints body = true := by
  revert made
  fun_cases encodePointsBinary <;> rintro ⟨⟩
  simp [isBinaryPoints]

theorem eq_of_parse_binary (made : wire.encodePointsBinary points = .ok body)
    (taken : wire.parseLineBodyToPointsLimited precision maxPoints body = .ok parsed) :
    parsed = points := by
  have isBinary := isBinaryPoints_of_encodePointsBinary made
  have decoded := decodeFrames_frame made (pointLimit maxPoints) [] []
  rw [append_nil] at decoded
  rw [parseLineBodyToPointsLimited, if_pos isBinary, decodePointsFrames, decoded] at taken
  split at taken
  · cases taken
  · rw [decodeFrames] at taken
    cases taken
    rfl

theorem series_of_parse_lines (made : wire.encodeLines precision points = .ok body)
    (taken : wire.parseLineBodyToPointsLimited precision maxPoints body = .ok parsed) :
    parsed.map series = points.map writtenSeries := by
  obtain ⟨lines, read, series⟩ := wire.lines_encodeLines made
  rw [parseLineBodyToPointsLimited, wire.encodeLines_text made, read] at taken
  obtain ⟨same, results, rfl, -⟩ := (takeLines_eq_ok_iff (Nat.zero_le _)).mp taken
  rw [map_injective_iff.mpr (fun _ _ => Except.ok.inj) results] at series
  exact series

/-- A body that decodes holds the same points behind any others and under any limit. -/
theorem decodeFrames_spec (decoded : wire.decodeFrames limit out body = .ok points) :
    ∃ parsed, points = out ++ parsed ∧ (out.length ≤ limit → points.length ≤ limit) ∧
      ∀ other before, wire.decodeFrames other before body = .ok (before ++ parsed) ∨
        other < before.length + parsed.length ∧
          ∃ cause, wire.decodeFrames other before body = .error cause := by
  fun_induction decodeFrames wire limit out body with
  | case1 out body rest done =>
    cases decoded
    refine ⟨[], by simp, id, fun other before => .inl ?_⟩
    rw [decodeFrames, append_nil]
    exact dif_pos done
  | case2 | case3 | case5 | case6 => cases decoded
  | case4 out body rest open_ isFrame len inside parsed deserialized room ih =>
    obtain ⟨later, rfl, short, again⟩ := ih decoded
    refine ⟨parsed ++ later, by simp,
      fun _ => short (by rw [length_append]; omega), fun other before => ?_⟩
    rw [decodeFrames, dif_neg open_, if_pos isFrame, if_pos inside, deserialized]
    dsimp only
    split
    · exact .inr ⟨by rw [length_append]; omega, _, rfl⟩
    · have rest := again other (before ++ parsed)
      rwa [append_assoc, length_append, Nat.add_assoc, ← length_append] at rest

theorem eq_of_decodeFrames {other : Nat} {decoded : List Point}
    (read : wire.decodeFrames limit out body = .ok points)
    (again : wire.decodeFrames other out body = .ok decoded) : decoded = points := by
  obtain ⟨parsed, rfl, -, spec⟩ := decodeFrames_spec read
  rcases spec other out with same | ⟨-, cause, failed⟩
  · exact Except.ok.inj (again.symm.trans same)
  · rw [failed] at again
    cases again

theorem length_le_of_parseLineBodyToPointsLimited
    (parsed : wire.parseLineBodyToPointsLimited precision maxPoints body = .ok points) :
    points.length ≤ pointLimit maxPoints := by
  revert parsed
  fun_cases parseLineBodyToPointsLimited with
  | case1 =>
    intro parsed
    obtain ⟨-, -, short, -⟩ := decodeFrames_spec parsed
    exact short (Nat.zero_le _)
  | case2 => rintro ⟨⟩
  | case3 =>
    intro parsed
    obtain ⟨-, -, -, short⟩ := (takeLines_eq_ok_iff (Nat.zero_le _)).mp parsed
    exact short

/-- The limit refuses bodies and changes none: whichever limit a body was read under, the
points are the same, and another limit admits them exactly if they are no more than it. -/
theorem parseLineBody_limit_iff : wire.parseLineBodyToPointsLimited precision maxPoints body =
      .ok points ↔ (∃ other, wire.parseLineBodyToPointsLimited precision other body =
        .ok points) ∧ points.length ≤ pointLimit maxPoints := by
  constructor
  · intro parsed
    exact ⟨⟨maxPoints, parsed⟩, length_le_of_parseLineBodyToPointsLimited parsed⟩
  · rintro ⟨⟨other, parsed⟩, short⟩
    revert parsed
    unfold parseLineBodyToPointsLimited decodePointsFrames
    split
    · intro parsed
      obtain ⟨_, rfl, -, spec⟩ := decodeFrames_spec parsed
      exact (spec _ []).resolve_right fun full => Nat.not_lt.mpr short (by simpa using full.1)
    · split
      · exact id
      · intro parsed
        obtain ⟨lines, read, same, -⟩ := (takeLines_eq_ok_iff (Nat.zero_le _)).mp parsed
        exact (takeLines_eq_ok_iff (Nat.zero_le _)).mpr ⟨lines, read, same, short⟩

theorem isBinaryPoints_append (first second : List UInt8) :
    isBinaryPoints (first ++ 10 :: second) = isBinaryPoints first := by
  unfold isBinaryPoints pointsFrameMagic
  -- A newline is no byte of the magic word, so a short body does not become a frame.
  rcases first with _ | ⟨a, _ | ⟨b, _ | ⟨c, _ | ⟨d, rest⟩⟩⟩⟩ <;>
    simp [isPrefixOf]

/-- Two bodies of one encoding, joined by a newline, parse to the points of both. -/
theorem parseLineBodyToPointsLimited_append {first second : List UInt8}
    {more : List Point} (same : isBinaryPoints first = isBinaryPoints second)
    (parsed : wire.parseLineBodyToPointsLimited precision maxPoints first = .ok points)
    (parsedMore : wire.parseLineBodyToPointsLimited precision maxPoints second = .ok more)
    (within : points.length + more.length ≤ pointLimit maxPoints) :
    wire.parseLineBodyToPointsLimited precision maxPoints (first ++ 10 :: second) =
      .ok (points ++ more) := by
  unfold parseLineBodyToPointsLimited at parsed parsedMore ⊢
  rw [isBinaryPoints_append]
  rw [← same] at parsedMore
  split at parsed
  next binary =>
    rw [if_pos binary] at parsedMore ⊢
    unfold decodePointsFrames at parsed parsedMore ⊢
    rw [decodeFrames_append parsed]
    obtain ⟨added, rfl, -, spec⟩ := decodeFrames_spec parsedMore
    exact (spec _ points).resolve_right fun full => Nat.not_lt.mpr within full.1
  next text =>
    rw [if_neg text] at parsedMore ⊢
    split at parsed
    next => cases parsed
    next results read =>
      split at parsedMore
      next => cases parsedMore
      next resultsMore readMore =>
        obtain ⟨_, rfl, rfl, -⟩ := (takeLines_eq_ok_iff (Nat.zero_le _)).mp parsed
        obtain ⟨_, rfl, rfl, -⟩ := (takeLines_eq_ok_iff (Nat.zero_le _)).mp parsedMore
        rw [wire.lines_append read readMore]
        rw [← map_append]
        exact (takeLines_eq_ok_iff (Nat.zero_le _)).mpr
          ⟨points ++ more, rfl, rfl, by simpa using within⟩

end PointWire

def bytePoint (byte : UInt8) : Point where
  measurement := "cpu"
  tags := (∅ : Std.ExtTreeMap String String).insert "host"
    (if byte % 2 = 1 then "a" else "b")
  fields := (∅ : Std.ExtTreeMap String FieldValue).insert "value"
    (if byte < 100 then .float 0 else .string "up")
  timestamp := Int64.ofNat byte.toNat

/-- The byte that stands for a point; NUL and newline stand for none. -/
def pointByte (point : Point) : Except String UInt8 :=
  let byte := UInt8.ofNat point.timestamp.toInt.toNat
  if bytePoint byte = point ∧ byte ≠ 0 ∧ byte ≠ 10 then .ok byte
  else .error "no byte for the point"

theorem pointByte_eq_ok {point : Point} {byte : UInt8} (made : pointByte point = .ok byte) :
    bytePoint byte = point ∧ byte ≠ 0 ∧ byte ≠ 10 := by
  unfold pointByte at made
  dsimp only at made
  split at made
  next holds =>
    cases made
    exact holds
  next => cases made

/-- The bytes of points are the bytes, none NUL or newline, that stand for them. -/
theorem mapM_pointByte_eq_ok {bytes : List UInt8} (made : points.mapM pointByte = .ok bytes) :
    bytes.map bytePoint = points ∧ ∀ byte ∈ bytes, byte ≠ 0 ∧ byte ≠ 10 := by
  have each := forall₂_of_mapM_eq_ok made
  clear made
  induction each with
  | nil => simp
  | cons here rest ih =>
    obtain ⟨same, valid⟩ := pointByte_eq_ok here
    obtain ⟨sames, valids⟩ := ih
    exact ⟨by rw [map_cons, same, sames], forall_mem_cons.mpr ⟨valid, valids⟩⟩

theorem writtenSeries_bytePoint (byte : UInt8) :
    (bytePoint byte).writtenSeries = (bytePoint byte).series := by
  unfold bytePoint writtenSeries series
  dsimp only
  split <;> decide +kernel

def byteWire : PointWire where
  serialize points := points.mapM pointByte
  deserialize bytes :=
    if 0 ∈ bytes then .error "invalid payload" else .ok (bytes.map bytePoint)
  encodeLines _ points :=
    match points.mapM pointByte with
    | .ok bytes => .ok bytes
    | .error cause => .error (.internal cause)
  lines _ body := .ok ((body.filter (· != 10)).map fun byte =>
    if byte = 0 then .error (.lineProtocolParse "" "invalid line") else .ok (bytePoint byte))
  deserialize_serialize made := by
    obtain ⟨same, valid⟩ := mapM_pointByte_eq_ok made
    rw [if_neg fun zero => (valid 0 zero).1 rfl, same]
  encodeLines_text made := by
    split at made
    next bytes encoded =>
      cases made
      obtain ⟨-, valid⟩ := mapM_pointByte_eq_ok encoded
      rw [Bool.eq_false_iff]
      intro starts
      have zero := (List.isPrefixOf_iff_prefix.mp starts).subset mem_cons_self
      exact (valid 0 zero).1 rfl
    next => cases made
  lines_encodeLines made := by
    split at made
    next bytes encoded =>
      obtain rfl := Except.ok.inj made
      obtain ⟨rfl, valid⟩ := mapM_pointByte_eq_ok encoded
      refine ⟨bytes.map bytePoint, ?_, ?_⟩
      · rw [filter_eq_self.mpr fun byte member => by simpa using (valid byte member).2,
          map_map]
        congr 1
        apply map_congr_left
        intro byte member
        exact if_neg (valid byte member).1
      · rw [map_map, map_map]
        exact map_congr_left fun byte _ => (writtenSeries_bytePoint byte).symm
    next => cases made
  lines_append first second := by
    cases second
    rw [← Except.ok.inj first]
    simp [filter_append]

end HyperbyteDb
