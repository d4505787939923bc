import HyperbyteDb.LiteralPatterns
import HyperbyteDb.QueryAst
import HyperbyteDb.ServingRegions

/-!
# Choosing the regions of a query

A condition that fixes the value of every tag names the series that can match it, and only
the regions of these series are queried.  The exact values are read off equalities,
alternatives of equalities and literal patterns.  What a condition means for a series is
defined beside it: a tag that the series does not carry reads as the empty text, and what is
said about times and fields may hold or not.
-/

namespace HyperbyteDb

open Ast List Std

abbrev TagMap := ExtTreeMap String String

abbrev TagValueSets := ExtTreeMap String (List String)

def maxSeriesIdsForRouting : Nat := 10000

def isTimeIdentifier (name : String) : Bool :=
  name.toList.map Char.toLower = "time".toList

def isTimeBoundExpr : Expr → Bool
  | .identifier name | .fieldRef name _ => isTimeIdentifier name
  | .now => true
  | .binaryExpr left _ right => isTimeBoundExpr left || isTimeBoundExpr right
  | .unaryExpr _ inner => isTimeBoundExpr inner
  | .durationLiteral _ | .timeLiteral _ | .call .. => true
  | _ => false

def parseTagIdentifierEq : Expr → Expr → Option (String × String)
  | .identifier tag, .stringLiteral value | .stringLiteral value, .identifier tag =>
    some (tag, value)
  | _, _ => none

def tagValueSet : Expr → Option (String × List String)
  | .binaryExpr left .eq right => do
      let (tag, value) ← parseTagIdentifierEq left right
      if isTimeIdentifier tag then none else some (tag, [value])
  | .binaryExpr left .or right => do
      let (tag, values) ← tagValueSet left
      let (other, more) ← tagValueSet right
      if tag = other then some (tag, values ++ more) else none
  | .binaryExpr (.identifier tag) .regexMatch (.regex pattern) =>
    if isTimeIdentifier tag then none
    else (regexLiteralAlternatives pattern).map (tag, ·)
  | _ => none

def isOrderComparison : BinaryOp → Bool
  | .gt | .gte | .lt | .lte => true
  | _ => false

/-- Time bounds are skipped, and every other term must give exact values for a tag that has
none yet. -/
def collectTagValueSets : Expr → TagValueSets → Option TagValueSets
  | .binaryExpr left op right, sets =>
    if op = .and then
      match collectTagValueSets left sets with
      | some sets => collectTagValueSets right sets
      | none => none
    else if isOrderComparison op then
      if isTimeBoundExpr left || isTimeBoundExpr right then some sets else none
    else if op = .eq &&
        (parseTagIdentifierEq left right).any fun item => isTimeIdentifier item.1 then
      some sets
    else
      match tagValueSet (.binaryExpr left op right) with
      | some (tag, values) => if tag ∈ sets then none else some (sets.insert tag values)
      | none => none
  | _, _ => none

/-- Every combination so far with every value of a further tag. -/
def extendCombos (combos : List TagMap) (tag : String) (values : List String) :
    Option (List TagMap) :=
  if maxSeriesIdsForRouting < combos.length * values.length then none
  else some (combos.flatMap fun combo => values.map fun value => combo.insert tag value)

def routableCombos (measurementTagKeys : List String) (condition : Option Expr) :
    Option (List TagMap) := do
  let sets ← collectTagValueSets (← condition) ∅
  if measurementTagKeys.insertionSort (· ≤ ·) = sets.keys then
    sets.toList.foldlM (fun combos item => extendCombos combos item.1 item.2) [∅]
  else none

def routableSeriesIds (seriesId : String → TagMap → UInt64) (measurement : String)
    (measurementTagKeys : List String) (condition : Option Expr) : Option (List UInt64) :=
  (routableCombos measurementTagKeys condition).map (·.map (seriesId measurement))

inductive RegionSelection where
  | all
  | single (region : ShardRegion)
  | subset (regions : List ShardRegion)
deriving DecidableEq

def RegionSelection.regions (selection : RegionSelection) (space : MeasurementShardSpace) :
    List ShardRegion :=
  match selection with
  | .all => space.regions
  | .single region => [region]
  | .subset regions => regions

/-- Locate the series one by one, and keep one region of each identifier. -/
def locateAll (space : MeasurementShardSpace) :
    List UInt64 → List ShardRegion → Option (List ShardRegion)
  | [], regions => some regions
  | sid :: sids, regions =>
    match space.locate sid with
    | none => none
    | some region =>
      locateAll space sids
        (if region.regionId ∈ regions.map (·.regionId) then regions else regions ++ [region])

def selectRegionsForQuery (seriesId : String → TagMap → UInt64) (space : MeasurementShardSpace)
    (measurement : String) (measurementTagKeys : Option (List String)) (stmt : SelectStatement) :
    RegionSelection :=
  match measurementTagKeys with
  | none => .all
  | some keys =>
    match routableSeriesIds seriesId measurement keys stmt.condition with
    | none => .all
    | some sids =>
      if sids.isEmpty || maxSeriesIdsForRouting < sids.length then .all
      else
        match locateAll space sids [] with
        | none | some [] => .all
        | some [region] => .single region
        | some regions => .subset regions

/-! ## What a condition means for a series -/

/-- A tag that the series does not carry reads as the empty text. -/
def readTag (tags : TagMap) (tag : String) : String := (tags[tag]?).getD ""

def tagOperand (keys : List String) : Expr → Option String
  | .identifier name => if name ∈ keys ∧ !isTimeIdentifier name then some name else none
  | .fieldRef name typ =>
    if typ ≠ some .field ∧ name ∈ keys ∧ !isTimeIdentifier name then some name else none
  | _ => none

/-- A tag and the text it is compared with, on either side. -/
def tagAndText (keys : List String) : Expr → Expr → Option (String × String)
  | left, .stringLiteral value => (tagOperand keys left).map (·, value)
  | .stringLiteral value, right => (tagOperand keys right).map (·, value)
  | _, _ => none

def tagAndPattern (keys : List String) : Expr → Expr → Option (String × String)
  | left, .regex pattern => (tagOperand keys left).map (·, pattern)
  | _, _ => none

/-- The truth of a condition for a point of a series; `other` decides the terms that are not
about tags, or compare them in other ways. -/
def conditionHolds (engine : RegexEngine) (keys : List String) (tags : TagMap)
    (other : Expr → Bool) : Expr → Bool
  | .binaryExpr left op right =>
    match op with
    | .and =>
      conditionHolds engine keys tags other left && conditionHolds engine keys tags other right
    | .or =>
      conditionHolds engine keys tags other left || conditionHolds engine keys tags other right
    | .eq =>
      match tagAndText keys left right with
      | some (tag, value) => readTag tags tag = value
      | none => other (.binaryExpr left op right)
    | .neq =>
      match tagAndText keys left right with
      | some (tag, value) => readTag tags tag ≠ value
      | none => other (.binaryExpr left op right)
    | .regexMatch =>
      match tagAndPattern keys left right with
      | some (tag, pattern) => engine.isMatch pattern (readTag tags tag)
      | none => other (.binaryExpr left op right)
    | .regexNotMatch =>
      match tagAndPattern keys left right with
      | some (tag, pattern) => !engine.isMatch pattern (readTag tags tag)
      | none => other (.binaryExpr left op right)
    | op => other (.binaryExpr left op right)
  | .unaryExpr .not inner => !conditionHolds engine keys tags other inner
  | expr => other expr

/-- Some point of the series can satisfy the condition. -/
def Matches (engine : RegexEngine) (keys : List String) (tags : TagMap)
    (condition : Option Expr) : Prop :=
  ∀ expr ∈ condition, ∃ other, conditionHolds engine keys tags other expr = true

/-! ## Exact values -/

variable {values : List String}

section Values

variable {engine : RegexEngine} {keys : List String} {tags : TagMap} {other : Expr → Bool}
  {tag : String}

theorem tagOperand_identifier (isKey : tag ∈ keys) (notTime : isTimeIdentifier tag = false) :
    tagOperand keys (.identifier tag) = some tag := by
  simp [tagOperand, isKey, notTime]

theorem getElem?_insert_eq_ite {α : Type} (entries : ExtTreeMap String α)
    (tag name : String) (value : α) :
    (entries.insert tag value)[name]? = if tag = name then some value else entries[name]? := by
  simp [ExtTreeMap.getElem?_insert]

variable {left right : Expr}

theorem tagAndText_of_parse {value : String}
    (parsed : parseTagIdentifierEq left right = some (tag, value)) (isKey : tag ∈ keys)
    (notTime : isTimeIdentifier tag = false) : tagAndText keys left right = some (tag, value) := by
  unfold parseTagIdentifierEq at parsed
  split at parsed
  · cases parsed
    simp [tagAndText, tagOperand_identifier isKey notTime]
  · cases parsed
    simp [tagAndText, tagOperand_identifier isKey notTime]
  · cases parsed

variable {expr : Expr}

variable (engine keys tags other) in
/-- A term with exact values holds for the series that read as one of them. -/
theorem conditionHolds_of_tagValueSet
    (isSet : tagValueSet expr = some (tag, values)) :
    values ≠ [] ∧ (tag ∈ keys →
      conditionHolds engine keys tags other expr = decide (readTag tags tag ∈ values)) := by
  induction expr using tagValueSet.induct generalizing tag values with
  | case1 left right =>
    rw [tagValueSet] at isSet
    obtain ⟨⟨name, value⟩, parsed, isSet⟩ := Option.bind_eq_some_iff.mp isSet
    rw [Option.ite_none_left_eq_some] at isSet
    obtain ⟨notTime, same⟩ := isSet
    cases same
    refine ⟨cons_ne_nil _ _, fun isKey => ?_⟩
    rw [conditionHolds, tagAndText_of_parse parsed isKey (by simpa using notTime)]
    simp
  | case2 left right leftHolds rightHolds =>
    rw [tagValueSet] at isSet
    obtain ⟨⟨name, first⟩, isFirst, isSet⟩ := Option.bind_eq_some_iff.mp isSet
    obtain ⟨⟨also, more⟩, isMore, isSet⟩ := Option.bind_eq_some_iff.mp isSet
    rw [Option.ite_none_right_eq_some] at isSet
    obtain ⟨rfl, same⟩ := isSet
    cases same
    refine ⟨append_ne_nil_of_left_ne_nil (leftHolds isFirst).1 _, fun isKey => ?_⟩
    rw [conditionHolds, (leftHolds isFirst).2 isKey, (rightHolds isMore).2 isKey]
    simp
  | case3 name pattern isTime => simp [tagValueSet, isTime] at isSet
  | case4 name pattern notTime =>
    rw [tagValueSet, if_neg notTime] at isSet
    obtain ⟨alternatives, isLiteral, same⟩ := Option.map_eq_some_iff.mp isSet
    cases same
    rw [Bool.not_eq_true] at notTime
    refine ⟨regexLiteralAlternatives_ne_nil isLiteral, fun isKey => ?_⟩
    rw [conditionHolds, tagAndPattern, tagOperand_identifier isKey notTime]
    exact engine.isMatch_of_alternatives isLiteral _
  | case5 expr notEq notOr notRegex =>
    rw [tagValueSet.eq_4 expr notEq notOr notRegex] at isSet
    cases isSet

def Fits (sets : TagValueSets) (tags : TagMap) : Prop :=
  ∀ (tag : String) (values : List String), sets[tag]? = some values → readTag tags tag ∈ values

variable {sets : TagValueSets}

theorem fits_insert (fresh : tag ∉ sets) :
    Fits (sets.insert tag values) tags ↔ readTag tags tag ∈ values ∧ Fits sets tags := by
  simp only [Fits, getElem?_insert_eq_ite]
  constructor
  · intro fits
    refine ⟨fits tag values (if_pos rfl), fun name others found => fits name others ?_⟩
    rw [if_neg, found]
    rintro rfl
    exact fresh (ExtTreeMap.mem_iff_isSome_getElem?.mpr (by simp [found]))
  · rintro ⟨here, fits⟩ name others found
    split at found
    next same =>
      cases found
      exact same ▸ here
    next => exact fits name others found

/-- What the collection of exact values says about a condition. -/
structure Collected (engine : RegexEngine) (keys : List String) (tags : TagMap) (expr : Expr)
    (sets out : TagValueSets) : Prop where
  kept : ∀ tag ∈ sets, tag ∈ out
  nonempty : (∀ (tag : String) (values : List String), sets[tag]? = some values → values ≠ []) →
    ∀ (tag : String) (values : List String), out[tag]? = some values → values ≠ []
  fits : (∀ tag ∈ out, tag ∈ keys) → ∀ other,
    conditionHolds engine keys tags other expr = true → Fits sets tags → Fits out tags
  holds : (∀ tag ∈ out, tag ∈ keys) → Fits out tags →
    conditionHolds engine keys tags (fun _ => true) expr = true ∧ Fits sets tags

theorem Collected.skip (sets : TagValueSets)
    (unconstrained : conditionHolds engine keys tags (fun _ => true) expr = true) :
    Collected engine keys tags expr sets sets where
  kept _ member := member
  nonempty nonempty := nonempty
  fits _ _ _ fits := fits
  holds _ fits := ⟨unconstrained, fits⟩

theorem Collected.insert
    (isSet : tagValueSet expr = .some (tag, values)) (fresh : tag ∉ sets) :
    Collected engine keys tags expr sets (sets.insert tag values) where
  kept name member := by simp [member]
  nonempty nonempty := by
    intro name others found
    rw [getElem?_insert_eq_ite] at found
    split at found
    next =>
      cases found
      exact (conditionHolds_of_tagValueSet engine keys tags (fun _ => true) isSet).1
    next => exact nonempty name others found
  fits known other holds fits := by
    rw [(conditionHolds_of_tagValueSet _ _ _ _ isSet).2 (known tag (by simp)),
      decide_eq_true_eq] at holds
    exact (fits_insert fresh).mpr ⟨holds, fits⟩
  holds known fits := by
    obtain ⟨here, earlier⟩ := (fits_insert fresh).mp fits
    refine ⟨?_, earlier⟩
    rw [(conditionHolds_of_tagValueSet _ _ _ _ isSet).2 (known tag (by simp)), decide_eq_true_eq]
    exact here

theorem Collected.and {middle out : TagValueSets}
    (first : Collected engine keys tags left sets middle)
    (second : Collected engine keys tags right middle out) :
    Collected engine keys tags (.binaryExpr left .and right) sets out where
  kept tag member := second.kept tag (first.kept tag member)
  nonempty nonempty := second.nonempty (first.nonempty nonempty)
  fits known other holds fits := by
    rw [conditionHolds, Bool.and_eq_true] at holds
    exact second.fits known other holds.2
      (first.fits (fun tag member => known tag (second.kept tag member)) other holds.1 fits)
  holds known fits := by
    obtain ⟨rightHolds, middleFits⟩ := second.holds known fits
    obtain ⟨leftHolds, setsFit⟩ :=
      first.holds (fun tag member => known tag (second.kept tag member)) middleFits
    exact ⟨by rw [conditionHolds, leftHolds, rightHolds]; rfl, setsFit⟩

theorem conditionHolds_of_order {op : BinaryOp} (isOrder : isOrderComparison op = true)
    (left right : Expr) :
    conditionHolds engine keys tags (fun _ => true) (.binaryExpr left op right) = true := by
  cases op <;> simp [isOrderComparison] at isOrder <;> rfl

theorem conditionHolds_of_time
    (isTime : ((parseTagIdentifierEq left right).any fun item => isTimeIdentifier item.1) = true) :
    conditionHolds engine keys tags (fun _ => true) (.binaryExpr left .eq right) = true := by
  have notTag : tagAndText keys left right = none := by
    unfold parseTagIdentifierEq at isTime
    split at isTime
    · simp_all [tagAndText, tagOperand]
    · simp_all [tagAndText, tagOperand]
    · cases isTime
  rw [conditionHolds, notTag]

theorem collected_of_collectTagValueSets {out : TagValueSets}
    (collected : collectTagValueSets expr sets = some out) :
    Collected engine keys tags expr sets out := by
  fun_induction collectTagValueSets expr sets generalizing out with
  | case1 left right sets middle isFirst first second =>
    exact (first isFirst).and (second collected)
  | case3 left op right sets notAnd isOrder isTime =>
    cases collected
    exact .skip sets (conditionHolds_of_order isOrder left right)
  | case5 left op right sets notAnd notOrder isTime =>
    cases collected
    rw [Bool.and_eq_true, decide_eq_true_eq] at isTime
    obtain ⟨rfl, isTime⟩ := isTime
    exact .skip sets (conditionHolds_of_time isTime)
  | case7 left op right sets notAnd notOrder notTime tag values isSet fresh =>
    cases collected
    exact .insert isSet fresh
  | _ => cases collected

end Values

/-! ## Combinations of values -/

variable {combos out : List TagMap}

theorem extendCombos_eq_some :
    extendCombos combos tag values = some out ↔
      combos.length * values.length ≤ maxSeriesIdsForRouting ∧
        (combos.flatMap fun combo => values.map fun value => combo.insert tag value) = out := by
  rw [extendCombos, Option.ite_none_left_eq_some, Nat.not_lt, Option.some.injEq]

variable {items : List (String × List String)}

theorem mem_foldlM_extendCombos (distinct : items.Pairwise fun first second => first.1 ≠ second.1)
    (folded : items.foldlM (fun combos item => extendCombos combos item.1 item.2) combos =
      some out) {combo : TagMap} :
    combo ∈ out ↔ ∃ start ∈ combos,
      (∀ item ∈ items, ∃ value ∈ item.2, combo[item.1]? = some value) ∧
        ∀ tag, (∀ item ∈ items, item.1 ≠ tag) → combo[tag]? = start[tag]? := by
  induction items generalizing combos with
  | nil =>
    cases folded
    constructor
    · exact fun member => ⟨combo, member, by simp, by simp⟩
    · rintro ⟨start, member, -, same⟩
      rwa [ExtTreeMap.ext_getElem? fun tag => same tag (by simp)]
  | cons item items ih =>
    obtain ⟨middle, extended, folded⟩ := Option.bind_eq_some_iff.mp folded
    obtain ⟨-, rfl⟩ := extendCombos_eq_some.mp extended
    obtain ⟨apart, distinct⟩ := pairwise_cons.mp distinct
    rw [ih distinct folded]
    constructor
    · rintro ⟨start, member, chosen, same⟩
      obtain ⟨first, inCombos, inValues⟩ := mem_flatMap.mp member
      obtain ⟨value, isValue, rfl⟩ := mem_map.mp inValues
      refine ⟨first, inCombos, ?_, ?_⟩
      · intro other isItem
        rcases mem_cons.mp isItem with rfl | later
        · refine ⟨value, isValue, ?_⟩
          rw [same other.1 fun later isLater => (apart later isLater).symm]
          simp
        · exact chosen other later
      · intro tag untouched
        rw [same tag fun later isLater => untouched later (by simp [isLater]),
          getElem?_insert_eq_ite, if_neg (untouched item (by simp))]
    · rintro ⟨start, member, chosen, same⟩
      obtain ⟨value, isValue, isHere⟩ := chosen item (by simp)
      refine ⟨start.insert item.1 value, mem_flatMap.mpr ⟨start, member,
        mem_map_of_mem isValue⟩, fun other later => chosen other (by simp [later]), ?_⟩
      intro tag untouched
      by_cases isTag : item.1 = tag
      · subst isTag
        simp [isHere]
      · rw [getElem?_insert_eq_ite, if_neg isTag]
        refine same tag fun other isItem => ?_
        rcases mem_cons.mp isItem with rfl | later
        · exact isTag
        · exact untouched other later

theorem size_foldlM_extendCombos
    (folded : items.foldlM (fun combos item => extendCombos combos item.1 item.2) combos =
      some out) : (combos.length ≤ maxSeriesIdsForRouting → out.length ≤ maxSeriesIdsForRouting) ∧
      ((∀ item ∈ items, item.2 ≠ []) → combos ≠ [] → out ≠ []) := by
  induction items generalizing combos with
  | nil =>
    cases folded
    exact ⟨id, fun _ => id⟩
  | cons item items ih =>
    obtain ⟨middle, extended, folded⟩ := Option.bind_eq_some_iff.mp folded
    obtain ⟨fits, rfl⟩ := extendCombos_eq_some.mp extended
    refine ⟨fun _ => (ih folded).1 (by simpa [length_flatMap] using fits), ?_⟩
    intro nonempty some
    refine (ih folded).2 (fun other later => nonempty other (by simp [later])) ?_
    obtain ⟨combo, member⟩ := exists_mem_of_ne_nil _ some
    obtain ⟨value, isValue⟩ := exists_mem_of_ne_nil _ (nonempty item (by simp))
    exact ne_nil_of_mem (mem_flatMap.mpr ⟨combo, member,
      mem_map_of_mem isValue⟩)

structure Routable (engine : RegexEngine) (keys : List String) (condition : Option Expr)
    (combos : List TagMap) : Prop where
  nonempty : combos ≠ []
  few : combos.length ≤ maxSeriesIdsForRouting
  /-- A combination is a series that matches. -/
  matches_ : ∀ combo ∈ combos, (∀ tag ∈ combo, tag ∈ keys) ∧ Matches engine keys combo condition
  /-- A series that matches and carries every tag is a combination. -/
  complete : ∀ tags : TagMap, (∀ tag ∈ tags, tag ∈ keys) → (∀ tag ∈ keys, tag ∈ tags) →
    Matches engine keys tags condition → tags ∈ combos

theorem routable_of_routableCombos (engine : RegexEngine) {keys : List String}
    {condition : Option Expr} (isRoutable : routableCombos keys condition = some combos) :
    Routable engine keys condition combos := by
  cases condition with
  | none => cases isRoutable
  | some expr =>
  obtain ⟨sets, collected, isRoutable⟩ := Option.bind_eq_some_iff.mp isRoutable
  rw [Option.ite_none_right_eq_some] at isRoutable
  obtain ⟨sameKeys, folded⟩ := isRoutable
  have isKey : ∀ tag, tag ∈ keys ↔ tag ∈ sets := by
    intro tag
    rw [← (perm_insertionSort (· ≤ ·) keys).mem_iff, sameKeys, ExtTreeMap.mem_keys]
  have isItem : ∀ {tag : String} {values : List String},
      (tag, values) ∈ sets.toList ↔ sets[tag]? = some values :=
    ExtTreeMap.mem_toList_iff_getElem?_eq_some
  have untouched : ∀ {tag : String}, tag ∉ keys → ∀ item ∈ sets.toList, item.1 ≠ tag := by
    rintro tag notKey ⟨name, values⟩ member rfl
    exact notKey ((isKey name).mpr (ExtTreeMap.mem_iff_isSome_getElem?.mpr
      (by simp [isItem.mp member])))
  have distinct : sets.toList.Pairwise fun first second => first.1 ≠ second.1 :=
    ExtTreeMap.distinct_keys_toList.imp fun {first second} distinct same =>
      distinct (by simp [same])
  have spec : ∀ tags, Collected engine keys tags expr ∅ sets := fun tags =>
    collected_of_collectTagValueSets collected
  have known : ∀ tag ∈ sets, tag ∈ keys := fun tag member => (isKey tag).mpr member
  have combos_iff := fun combo : TagMap =>
    (mem_foldlM_extendCombos distinct folded : combo ∈ combos ↔ _)
  constructor
  · refine (size_foldlM_extendCombos folded).2 ?_ (by simp)
    exact fun item member => (spec ∅).nonempty (by simp) item.1 item.2 (isItem.mp member)
  · exact (size_foldlM_extendCombos folded).1 (by decide)
  · intro combo member
    obtain ⟨start, isStart, chosen, same⟩ := (combos_iff combo).mp member
    obtain rfl := mem_singleton.mp isStart
    constructor
    · intro tag inCombo
      by_contra notKey
      rw [ExtTreeMap.mem_iff_isSome_getElem?, same tag (untouched notKey)] at inCombo
      simp at inCombo
    · rintro condition ⟨rfl⟩
      refine ⟨fun _ => true, ((spec combo).holds known ?_).1⟩
      intro tag values found
      obtain ⟨value, isValue, isHere⟩ := chosen (tag, values) (isItem.mpr found)
      rwa [readTag, isHere]
  · intro tags within full isMatch
    obtain ⟨other, holds⟩ := isMatch expr rfl
    have fits := (spec tags).fits known other holds (by simp [Fits])
    refine (combos_iff tags).mpr ⟨∅, by simp, ?_, ?_⟩
    · rintro ⟨tag, values⟩ member
      have inTags := full tag ((isKey tag).mpr (ExtTreeMap.mem_iff_isSome_getElem?.mpr
        (by simp [isItem.mp member])))
      obtain ⟨value, isHere⟩ := Option.isSome_iff_exists.mp
        (ExtTreeMap.mem_iff_isSome_getElem?.mp inTags)
      have isValue := fits tag values (isItem.mp member)
      rw [readTag, isHere] at isValue
      exact ⟨value, isValue, isHere⟩
    · intro tag notItem
      have notTag : tag ∉ tags := by
        intro inTags
        have inSets := (isKey tag).mp (within tag inTags)
        obtain ⟨values, found⟩ := Option.isSome_iff_exists.mp
          (ExtTreeMap.mem_iff_isSome_getElem?.mp inSets)
        exact notItem (tag, values) (isItem.mpr found) rfl
      rw [ExtTreeMap.getElem?_eq_none notTag]
      simp

/-! ## The selected regions -/

variable {regions : List ShardRegion} {space : MeasurementShardSpace}

variable {sids : List UInt64}

theorem locateAll_eq_none :
    locateAll space sids regions = none ↔ ∃ sid ∈ sids, space.locate sid = none := by
  fun_induction locateAll space sids regions with
  | case1 => simp
  | case2 sid sids regions none => simp [none]
  | case3 sid sids regions region found ih => simp only [ih, mem_cons, exists_eq_or_imp, found,
      reduceCtorEq, false_or]

/-- What is located: one region of every identifier that a series was found under. -/
structure LocatedAll (space : MeasurementShardSpace) (sids : List UInt64)
    (regions out : List ShardRegion) : Prop where
  found : ∀ sid ∈ sids, ∃ region, space.locate sid = some region ∧
    region.regionId ∈ out.map (·.regionId)
  located : ∀ region ∈ out, region ∈ regions ∨ ∃ sid ∈ sids, space.locate sid = some region
  kept : ∀ region ∈ regions, region ∈ out
  unique : (regions.map (·.regionId)).Nodup → (out.map (·.regionId)).Nodup

variable {out : List ShardRegion}

theorem locatedAll_of_locateAll
    (isLocated : locateAll space sids regions = some out) : LocatedAll space sids regions out := by
  fun_induction locateAll space sids regions with
  | case1 =>
    cases isLocated
    exact ⟨by simp, fun _ member => Or.inl member, fun _ member => member, id⟩
  | case2 => cases isLocated
  | case3 sid sids regions region isRegion ih =>
    have later := ih isLocated
    have present : region.regionId ∈ out.map (·.regionId) := by
      by_cases known : region.regionId ∈ regions.map (·.regionId)
      · obtain ⟨other, member, same⟩ := mem_map.mp known
        exact mem_map.mpr ⟨other, later.kept other (by simp [known, member]), same⟩
      · exact mem_map_of_mem (later.kept region (by simp [known]))
    constructor
    · intro other member
      rcases mem_cons.mp member with rfl | isLater
      · exact ⟨region, isRegion, present⟩
      · exact later.found other isLater
    · intro other member
      rcases later.located other member with earlier | ⟨at_, isLater, isOther⟩
      · split at earlier
        · exact Or.inl earlier
        · rcases mem_append.mp earlier with earlier | isNew
          · exact Or.inl earlier
          · obtain rfl := mem_singleton.mp isNew
            exact Or.inr ⟨sid, by simp, isRegion⟩
      · exact Or.inr ⟨at_, by simp [isLater], isOther⟩
    · intro other member
      apply later.kept
      split
      · exact member
      · exact mem_append_left _ member
    · intro distinct
      apply later.unique
      split
      next => exact distinct
      next fresh =>
        rw [map_append, nodup_append]
        refine ⟨distinct, by simp, ?_⟩
        rintro first isFirst second isSecond rfl
        rw [map_singleton, mem_singleton] at isSecond
        exact fresh (isSecond ▸ isFirst)

variable (engine : RegexEngine) (seriesId : String → TagMap → UInt64) (measurement : String)
  (keys : List String)

/-- Whenever the condition fixes the tags to values whose series are all found in the space:
a series that lacks a tag and matches is in an entry with one of the fixed combinations, and
the combinations are not in different entries of one region identifier. -/
def CombosNameEntries (space : MeasurementShardSpace) (condition : Option Expr) : Prop :=
  ∀ combos, routableCombos keys condition = some combos →
    (∀ combo ∈ combos, (space.locate (seriesId measurement combo)).isSome) →
    (∀ tags : TagMap, (∀ tag ∈ tags, tag ∈ keys) → (∃ tag ∈ keys, tag ∉ tags) →
      Matches engine keys tags condition →
      ∀ entry, space.locate (seriesId measurement tags) = some entry →
        ∃ combo ∈ combos, space.locate (seriesId measurement combo) = some entry) ∧
    ∀ combo ∈ combos, ∀ other ∈ combos, ∀ entry also,
      space.locate (seriesId measurement combo) = some entry →
      space.locate (seriesId measurement other) = some also →
      entry.regionId = also.regionId → entry = also

section Selection

variable {engine seriesId measurement keys} {space : MeasurementShardSpace}
  {stmt : SelectStatement} {combos : List TagMap}

variable (routable : Routable engine keys stmt.condition combos)
include routable

variable (isRoutable : routableCombos keys stmt.condition = some combos)
include isRoutable

variable (seriesId measurement space) in
theorem selectRegionsForQuery_of_combos :
    selectRegionsForQuery seriesId space measurement (some keys) stmt =
      match locateAll space (combos.map (seriesId measurement)) [] with
      | none | some [] => .all
      | some [region] => .single region
      | some regions => .subset regions := by
  have few : ¬((combos.map (seriesId measurement)).isEmpty ||
      maxSeriesIdsForRouting < (combos.map (seriesId measurement)).length) = true := by
    simp [routable.nonempty, routable.few]
  simp only [selectRegionsForQuery, routableSeriesIds, isRoutable, Option.map_some, if_neg few]

theorem selection_of_locateAll
    (isLocated : locateAll space (combos.map (seriesId measurement)) [] = some out) :
    let selection := selectRegionsForQuery seriesId space measurement (some keys) stmt
    selection ≠ .all ∧ selection.regions space = out := by
  intro selection
  have selected := selectRegionsForQuery_of_combos seriesId measurement space routable isRoutable
  rw [isLocated] at selected
  obtain ⟨combo, member⟩ := exists_mem_of_ne_nil _ routable.nonempty
  obtain ⟨region, -, present⟩ := (locatedAll_of_locateAll isLocated).found _
    (mem_map_of_mem member)
  change selection = _ at selected
  match out with
  | [] => cases present
  | [region] =>
    rw [selected]
    exact ⟨nofun, rfl⟩
  | first :: second :: rest =>
    rw [selected]
    exact ⟨nofun, rfl⟩

theorem combosNameEntries_of_sound
    (located : LocatedAll space (combos.map (seriesId measurement)) [] out)
    (sound : ∀ tags : TagMap, (∀ tag ∈ tags, tag ∈ keys) →
      Matches engine keys tags stmt.condition → ∀ entry,
        space.locate (seriesId measurement tags) = some entry → entry ∈ out) :
    CombosNameEntries engine seriesId measurement keys space stmt.condition := by
  intro others isOthers _
  rw [isRoutable, Option.some.injEq] at isOthers
  subst isOthers
  constructor
  · intro tags within _ isMatch entry found
    rcases located.located entry (sound tags within isMatch entry found) with none | isLocated
    · cases none
    · obtain ⟨sid, member, isEntry⟩ := isLocated
      obtain ⟨combo, inCombos, rfl⟩ := mem_map.mp member
      exact ⟨combo, inCombos, isEntry⟩
  · intro combo inCombos other isOther entry also found alsoFound sameId
    have selected : ∀ combo ∈ combos, ∀ entry,
        space.locate (seriesId measurement combo) = some entry → entry ∈ out :=
      fun combo inCombos => sound combo (routable.matches_ combo inCombos).1
        (routable.matches_ combo inCombos).2
    exact inj_on_of_nodup_map (located.unique nodup_nil)
      (selected combo inCombos entry found) (selected other isOther also alsoFound) sameId

theorem mem_of_combosNameEntries
    (located : LocatedAll space (combos.map (seriesId measurement)) [] out)
    (named : CombosNameEntries engine seriesId measurement keys space stmt.condition)
    {tags : TagMap} (within : ∀ tag ∈ tags, tag ∈ keys)
    (isMatch : Matches engine keys tags stmt.condition) {entry : ShardRegion}
    (found : space.locate (seriesId measurement tags) = some entry) : entry ∈ out := by
  have allFound : ∀ combo ∈ combos, ∃ region,
      space.locate (seriesId measurement combo) = some region ∧
        region.regionId ∈ out.map (·.regionId) := fun combo inCombos =>
    located.found _ (mem_map_of_mem inCombos)
  obtain ⟨lacking, unique⟩ := named combos isRoutable fun combo inCombos => by
    obtain ⟨region, isRegion, -⟩ := allFound combo inCombos
    simp [isRegion]
  have named : ∃ combo ∈ combos, space.locate (seriesId measurement combo) = some entry := by
    by_cases full : ∀ tag ∈ keys, tag ∈ tags
    · exact ⟨tags, routable.complete tags within full isMatch, found⟩
    · push Not at full
      exact lacking tags within full isMatch entry found
  obtain ⟨combo, inCombos, isEntry⟩ := named
  obtain ⟨region, isRegion, present⟩ := allFound combo inCombos
  obtain rfl := Option.some.inj (isEntry.symm.trans isRegion)
  obtain ⟨other, inOut, sameId⟩ := mem_map.mp present
  rcases located.located other inOut with none | isLocated
  · cases none
  · obtain ⟨sid, member, isOther⟩ := isLocated
    obtain ⟨also, alsoCombo, rfl⟩ := mem_map.mp member
    rwa [← unique also alsoCombo combo inCombos other entry isOther isEntry sameId]

end Selection

theorem materialiseServing_covers (covers : CoversSeries regions) :
    CoversSeries (materialiseServing regions) := by
  rw [materialiseServing_eq_map covers]
  refine IntervalPartitions.Spans.congr ?_ covers
  rw [map_map]
  refine map_congr_left fun region _ => ?_
  simp [materialiseRegion_range regions region]

/-- Every series that can match a condition is in a region that is queried, exactly if the
fixed combinations of tag values name all the entries. -/
theorem selectRegionsForQuery_sound_iff (key : MeasurementKey) {regions : List ShardRegion}
    (covers : CoversSeries regions) (stmt : SelectStatement) :
    let view : MeasurementShardSpace := ⟨key, materialiseServing regions⟩
    let selection := selectRegionsForQuery seriesId view measurement (some keys) stmt
    (∀ tags : TagMap, (∀ tag ∈ tags, tag ∈ keys) →
      Matches engine keys tags stmt.condition → ∀ entry ∈ view.regions,
        entry.contains (seriesId measurement tags) = true →
        selection = .all ∨ entry ∈ selection.regions view) ↔
    CombosNameEntries engine seriesId measurement keys view stmt.condition := by
  intro view selection
  have viewCovers : CoversSeries view.regions := materialiseServing_covers covers
  cases isRoutable : routableCombos keys stmt.condition with
  | none =>
    have isAll : selection = .all := by
      simp [selection, selectRegionsForQuery, routableSeriesIds, isRoutable]
    simp [isAll, CombosNameEntries, isRoutable]
  | some combos =>
    have routable := routable_of_routableCombos engine isRoutable
    cases isLocated : locateAll view (combos.map (seriesId measurement)) [] with
    | none =>
      have isAll : selection = .all := by
        simp only [selection, isLocated,
          selectRegionsForQuery_of_combos seriesId measurement view routable isRoutable]
      obtain ⟨sid, member, none⟩ := locateAll_eq_none.mp isLocated
      obtain ⟨combo, inCombos, rfl⟩ := mem_map.mp member
      refine ⟨fun _ others isOthers found => ?_, fun _ _ _ _ _ _ _ => Or.inl isAll⟩
      rw [isRoutable, Option.some.injEq] at isOthers
      subst isOthers
      have := found combo inCombos
      simp [none] at this
    | some out =>
      obtain ⟨notAll, isOut⟩ := selection_of_locateAll routable isRoutable isLocated
      have located := locatedAll_of_locateAll isLocated
      rw [isOut]
      constructor
      · intro sound
        refine combosNameEntries_of_sound routable isRoutable located ?_
        intro tags within isMatch entry found
        obtain ⟨member, contains⟩ := mem_of_locateInRegions found
        exact (sound tags within isMatch entry member contains).resolve_left notAll
      · intro named tags within isMatch entry member contains
        exact Or.inr (mem_of_combosNameEntries routable isRoutable located named within isMatch
          (locateInRegions_of_contains viewCovers member contains))

section Samples

variable (state : RegionState)

/-- A region and the child it was split from it, which may still be staging. -/
def samplePrunedRegions : List ShardRegion :=
  [{ regionId := 1, start := 0, end_ := 100, epoch := {}, peers := [1], primary := 1 },
    { regionId := 2, start := 100, end_ := UInt64.maxValue, epoch := {}, peers := [1],
      primary := 1, state, stagedFrom := if state = .serving then none else some 1 }]

def samplePrunedView : MeasurementShardSpace :=
  ⟨⟨"db", "autogen", "cpu"⟩, materialiseServing (samplePrunedRegions state)⟩

theorem samplePrunedRegions_covers : CoversSeries (samplePrunedRegions state) := by
  refine ⟨rfl, ?_, rfl, ?_, rfl⟩
  · exact UInt64.zero_le
  · exact (by decide : (100 : UInt64) ≤ UInt64.maxValue)

def sampleHostId (_ : String) (tags : TagMap) : UInt64 :=
  if tags["host"]? = some "" ∨ tags["host"]? = some "a" then 5 else 200

def hostIs (host : String) : Expr :=
  .binaryExpr (.identifier "host") .eq (.stringLiteral host)

def sampleSelection (condition : Expr) : RegionSelection :=
  selectRegionsForQuery sampleHostId (samplePrunedView state) "cpu" (some ["host"])
    { fields := [], condition := some condition }

theorem sampleHost_selected :
    sampleSelection .serving (hostIs "a") = .all ∨
      { regionId := 1, start := 0, end_ := 100, epoch := {}, peers := [1], primary := 1 } ∈
        (sampleSelection .serving (hostIs "a")).regions (samplePrunedView .serving) := by
  refine (selectRegionsForQuery_sound_iff literalEngine sampleHostId "cpu" ["host"] _
    (samplePrunedRegions_covers .serving) { fields := [], condition := some (hostIs "a") }).mpr ?_
      ((∅ : TagMap).insert "host" "a") (by simp)
      (by rintro expr ⟨rfl⟩; exact ⟨fun _ => true, by decide +kernel⟩) _ (by decide +kernel)
      (by decide +kernel)
  have isRoutable : routableCombos ["host"] (some (hostIs "a")) =
      some [(∅ : TagMap).insert "host" "a"] := by decide +kernel
  intro combos isCombos _
  obtain rfl := Option.some.inj (isRoutable.symm.trans isCombos)
  constructor
  · rintro tags - ⟨tag, isHost, lacks⟩ isMatch
    obtain rfl := mem_singleton.mp isHost
    obtain ⟨other, holds⟩ := isMatch _ rfl
    have notTime : isTimeIdentifier "host" = false := by decide +kernel
    simp [hostIs, conditionHolds, tagAndText, tagOperand, notTime, readTag,
      ExtTreeMap.getElem?_eq_none lacks] at holds
  · intro combo inCombos other isOther entry also found alsoFound _
    rw [mem_singleton.mp inCombos, ← mem_singleton.mp isOther] at found
    exact Option.some.inj (found.symm.trans alsoFound)

/-- The series without the tag is not queried for `host = ''`; and while a child is staging,
its series is not queried beside one of the region it stands for. -/
theorem matchingSeries_not_selected :
    Matches literalEngine ["host"] ∅ (some (hostIs "")) ∧
    (∃ entry ∈ (samplePrunedView .serving).regions,
      entry.contains (sampleHostId "cpu" ∅) = true ∧
      sampleSelection .serving (hostIs "") ≠ .all ∧
      entry ∉ (sampleSelection .serving (hostIs "")).regions (samplePrunedView .serving)) ∧
    Matches literalEngine ["host"] ((∅ : TagMap).insert "host" "b")
      (some (.binaryExpr (hostIs "a") .or (hostIs "b"))) ∧
    ∃ entry ∈ (samplePrunedView .staging).regions,
      entry.contains (sampleHostId "cpu" ((∅ : TagMap).insert "host" "b")) = true ∧
      sampleSelection .staging (.binaryExpr (hostIs "a") .or (hostIs "b")) ≠ .all ∧
      entry ∉ (sampleSelection .staging (.binaryExpr (hostIs "a") .or (hostIs "b"))).regions
        (samplePrunedView .staging) := by
  refine ⟨?_, by decide +kernel, ?_, by decide +kernel⟩
  · rintro expr ⟨rfl⟩
    exact ⟨fun _ => true, by decide +kernel⟩
  · rintro expr ⟨rfl⟩
    exact ⟨fun _ => true, by decide +kernel⟩

end Samples

end HyperbyteDb
