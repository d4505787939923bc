import Mathlib.Algebra.Order.Ring.Nat

/-!
# The syntax of queries

Statements as the parser returns them.  Floating-point literals stand for their bit
patterns.
-/

namespace HyperbyteDb.Ast

inductive DurationUnit where
  | nanosecond | microsecond | millisecond | second | minute | hour | day | week
deriving DecidableEq

structure Duration where
  value : Int64
  unit : DurationUnit
deriving DecidableEq

def unitNanos : DurationUnit → Int
  | .nanosecond => 1
  | .microsecond => 1000
  | .millisecond => 1000000
  | .second => 1000000000
  | .minute => 60 * 1000000000
  | .hour => 3600 * 1000000000
  | .day => 86400 * 1000000000
  | .week => 7 * 86400 * 1000000000

/-- A duration in nanoseconds, at most the greatest 64-bit number. -/
def Duration.toNanos (duration : Duration) : Int :=
  max (-2 ^ 63) (min (2 ^ 63 - 1) (duration.value.toInt * unitNanos duration.unit))

inductive BinaryOp where
  | add | sub | mul | div | mod
  | eq | neq | lt | lte | gt | gte
  | and | or
  | regexMatch | regexNotMatch
deriving DecidableEq

inductive UnaryOp where
  | neg | not
deriving DecidableEq

/-- The cast of a reference: `name::field` or `name::tag`. -/
inductive FieldType where
  | field | tag
deriving DecidableEq

inductive Expr where
  | identifier (name : String)
  | star
  | stringLiteral (value : String)
  | integerLiteral (value : Int64)
  | floatLiteral (bits : UInt64)
  | booleanLiteral (value : Bool)
  | durationLiteral (value : Duration)
  | timeLiteral (value : String)
  | regex (pattern : String)
  | call (name : String) (args : List Expr)
  | binaryExpr (left : Expr) (op : BinaryOp) (right : Expr)
  | unaryExpr (op : UnaryOp) (inner : Expr)
  | wildcard
  | fieldRef (name : String) (typ : Option FieldType)
  | now

structure Field where
  expr : Expr
  alias_ : Option String := none

inductive FillOption where
  | null
  | none
  | previous
  | linear
  | value (bits : UInt64)
deriving DecidableEq

inductive Dimension where
  | time (interval : Duration) (offset : Option Duration)
  | tag (name : String)
  | allTags
  | regex (pattern : String)
deriving DecidableEq

structure GroupBy where
  dimensions : List Dimension
deriving DecidableEq

namespace GroupBy

def timeDimension (groupBy : GroupBy) : Option Dimension :=
  groupBy.dimensions.find? fun
    | .time .. => true
    | _ => false

end GroupBy

structure OrderBy where
  timeDesc : Bool
deriving DecidableEq

inductive MeasurementName where
  | name (name : String)
  | regex (pattern : String)
deriving DecidableEq

structure Measurement where
  database : Option String := none
  retentionPolicy : Option String := none
  name : MeasurementName
deriving DecidableEq

mutual

structure SelectStatement where
  fields : List Field
  into : Option Measurement := none
  from_ : List MeasurementSource := []
  condition : Option Expr := none
  groupBy : Option GroupBy := none
  orderBy : Option OrderBy := none
  limit : Option UInt64 := none
  offset : Option UInt64 := none
  slimit : Option UInt64 := none
  soffset : Option UInt64 := none
  fill : Option FillOption := none
  timezone : Option String := none

inductive MeasurementSource where
  | concrete (measurement : Measurement)
  | subquery (statement : SelectStatement)

end

end HyperbyteDb.Ast
