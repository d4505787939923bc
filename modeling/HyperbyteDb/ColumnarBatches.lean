import HyperbyteDb.ByteReaders
import HyperbyteDb.MachineWords
import HyperbyteDb.PointCoalescing

/-!
# Columnar batches

A columnar write carries many values of one field of one series.  It stands for one
point for each value.
-/

namespace HyperbyteDb

inductive Precision where
  | nanosecond
  | microsecond
  | millisecond
  | second
deriving DecidableEq, Repr, Inhabited

namespace Precision

/-- Unknown units count as nanoseconds. -/
def fromStrOpt : Option String → Precision
  | some "ns" | none => .nanosecond
  | some "us" | some "u" => .microsecond
  | some "ms" => .millisecond
  | some "s" => .second
  | _ => .nanosecond

def toNanos (precision : Precision) (ts : Int64) : Int64 :=
  match precision with
  | .nanosecond => ts
  | .microsecond => ts.saturatingMul 1000
  | .millisecond => ts.saturatingMul 1000000
  | .second => ts.saturatingMul 1000000000

end Precision

structure ColumnarMsgpackBatch where
  measurement : String
  tags : Std.ExtTreeMap String String
  field : String
  /-- The values, each held by its 64-bit pattern. -/
  values : List UInt64
  timestamps : Option (List Int64)

namespace ColumnarMsgpackBatch

variable (wire : ColumnarMsgpackBatch) (precision : Option String) (clock : Option Int64)

def columnarTimestampsNs : Except String (List Int64) :=
  let count := wire.values.length
  if count = 0 then .ok []
  else
    match wire.timestamps with
    | some ts =>
      if ts.length ≠ count then
        .error s!"timestamps length {ts.length} does not match values length {count}"
      else .ok (ts.map (Precision.fromStrOpt precision).toNanos)
    | none =>
      match clock with
      | some now => .ok (List.replicate count now)
      | none => .error
          "wall clock not available for implicit timestamp on line protocol point"

def columnarBatchToPoints : Except String (List Point) :=
  if wire.field.isEmpty then .error "field name must be non-empty"
  else if wire.values.length = 0 then .ok []
  else do
    let timestamps ← wire.columnarTimestampsNs precision clock
    return List.zipWith (fun value timestamp =>
      Point.mk wire.measurement wire.tags
        ((∅ : Std.ExtTreeMap String FieldValue).insert wire.field (.float value)) timestamp)
      wire.values timestamps

variable {wire precision clock}

theorem length_columnarTimestampsNs {timestamps : List Int64}
    (made : wire.columnarTimestampsNs precision clock = .ok timestamps) :
    timestamps.length = wire.values.length := by
  revert made
  fun_cases columnarTimestampsNs with
  | case1 _ _ empty =>
    rintro ⟨⟩
    exact empty.symm
  | case3 _ _ _ _ _ same =>
    rintro ⟨⟩
    rw [List.length_map]
    exact not_not.mp same
  | case4 =>
    rintro ⟨⟩
    exact List.length_replicate
  | _ => rintro ⟨⟩

theorem length_columnarBatchToPoints {points : List Point}
    (made : wire.columnarBatchToPoints precision clock = .ok points) :
    points.length = wire.values.length := by
  revert made
  fun_cases columnarBatchToPoints with
  | case1 => rintro ⟨⟩
  | case2 _ empty =>
    rintro ⟨⟩
    exact empty.symm
  | case3 =>
    intro made
    obtain ⟨timestamps, timestampsOk, ⟨⟩⟩ := ByteReaders.exists_of_bind_eq_ok made
    rw [List.length_zipWith, length_columnarTimestampsNs timestampsOk, Nat.min_self]

end ColumnarMsgpackBatch

end HyperbyteDb
