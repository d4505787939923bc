
/-!
# Anchored patterns of literal alternatives

Patterns such as `^(a|b)$` name finitely many texts.  The query router reads these texts off
the pattern.
-/

namespace HyperbyteDb

open List

/-- Characters with a meaning of their own in a pattern, apart from the backslash. -/
def isPatternOperator (c : Char) : Bool :=
  c ∈ ['.', '+', '*', '?', '(', ')', '[', ']', '\x7b', '\x7d', '^', '$', '|']

def isAsciiPunctuation (c : Char) : Bool :=
  '!' ≤ c && c ≤ '/' || ':' ≤ c && c ≤ '@' || '[' ≤ c && c ≤ '\x60' || '\x7b' ≤ c && c ≤ '~'

def stripFront (c : Char) : List Char → Option (List Char)
  | [] => none
  | first :: rest => if first = c then some rest else none

def stripBack (c : Char) (text : List Char) : Option (List Char) :=
  (stripFront c text.reverse).map reverse

/-- The inside of a group, and whether there is one. -/
def patternBody : List Char → Option (List Char × Bool)
  | '(' :: '?' :: ':' :: inner => (stripBack ')' inner).map (·, true)
  | '(' :: inner => (stripBack ')' inner).map (·, true)
  | body => some (body, false)

/-- Go through the body; `values` are finished and `value` is not. -/
def scanAlternatives (grouped : Bool) : List Char → List (List Char) → List Char →
    Option (List (List Char))
  | [], values, value => some (values ++ [value])
  | '\\' :: escaped :: rest, values, value =>
    if isAsciiPunctuation escaped then scanAlternatives grouped rest values (value ++ [escaped])
    else none
  | ['\\'], _, _ => none
  | c :: rest, values, value =>
    if c = '|' && grouped then scanAlternatives grouped rest (values ++ [value]) []
    else if isPatternOperator c then none
    else scanAlternatives grouped rest values (value ++ [c])

def regexLiteralAlternatives (pattern : String) : Option (List String) := do
  let body ← (stripFront '^' pattern.toList).bind (stripBack '$')
  let (body, grouped) ← patternBody body
  let values ← scanAlternatives grouped body [] []
  if values.any isEmpty then none else some (values.map String.ofList)

/-! ## Literal patterns -/

/-- A character of a pattern that stands for itself, or an escaped one. -/
inductive PatternAtom where
  | plain (c : Char)
  | escaped (c : Char)

namespace PatternAtom

def IsLiteral : PatternAtom → Prop
  | .plain c => isPatternOperator c = false ∧ c ≠ '\\'
  | .escaped c => isAsciiPunctuation c = true

def written : PatternAtom → List Char
  | .plain c => [c]
  | .escaped c => ['\\', c]

def char : PatternAtom → Char
  | .plain c => c
  | .escaped c => c

end PatternAtom

def literalText (atoms : List PatternAtom) : List Char := atoms.map PatternAtom.char

def writtenAtoms (atoms : List PatternAtom) : List Char := atoms.flatMap PatternAtom.written

def writtenAlternatives : List (List PatternAtom) → List Char
  | [] => []
  | [atoms] => writtenAtoms atoms
  | atoms :: rest => writtenAtoms atoms ++ '|' :: writtenAlternatives rest

def AllLiteral (atoms : List PatternAtom) : Prop := ∀ atom ∈ atoms, atom.IsLiteral

/-- What is known of the database's regular expressions. -/
structure RegexEngine where
  isMatch : String → String → Bool
  /-- An anchored sequence of literals matches what it stands for. -/
  literal : ∀ (atoms : List PatternAtom), AllLiteral atoms → atoms ≠ [] → ∀ text : List Char,
    isMatch (.ofList ('^' :: writtenAtoms atoms ++ ['$'])) (.ofList text) =
      decide (text = literalText atoms)
  /-- An anchored group matches what one of its alternatives stands for. -/
  group : ∀ (opener : List Char), opener = ['('] ∨ opener = ['(', '?', ':'] →
    ∀ (alternatives : List (List PatternAtom)), alternatives ≠ [] →
    (∀ atoms ∈ alternatives, AllLiteral atoms ∧ atoms ≠ []) → ∀ text : List Char,
    isMatch (.ofList ('^' :: opener ++ writtenAlternatives alternatives ++ [')', '$']))
      (.ofList text) = decide (text ∈ alternatives.map literalText)

variable {alternatives : List (List PatternAtom)}

section Scan

variable {grouped : Bool} {c : Char}

theorem scanAlternatives_plain (notOperator : isPatternOperator c = false) (notEscape : c ≠ '\\')
    (rest : List Char) (values : List (List Char)) (value : List Char) :
    scanAlternatives grouped (c :: rest) values value =
      scanAlternatives grouped rest values (value ++ [c]) := by
  have notBar : c ≠ '|' := by
    rintro rfl
    simp [isPatternOperator] at notOperator
  rw [scanAlternatives.eq_4 (c := c)]
  · simp [notBar, notOperator]
  · exact fun _ _ isEscape _ => notEscape isEscape
  · exact fun isEscape _ => notEscape isEscape

theorem scanAlternatives_escaped (punctuation : isAsciiPunctuation c = true) (rest : List Char)
    (values : List (List Char)) (value : List Char) :
    scanAlternatives grouped ('\\' :: c :: rest) values value =
      scanAlternatives grouped rest values (value ++ [c]) := by
  simp [scanAlternatives, punctuation]

theorem scanAlternatives_bar (rest : List Char) (values : List (List Char)) (value : List Char) :
    scanAlternatives true ('|' :: rest) values value =
      scanAlternatives true rest (values ++ [value]) [] := by
  simp [scanAlternatives]

variable {atoms : List PatternAtom}

theorem scanAlternatives_written (literal : AllLiteral atoms) (rest : List Char)
    (values : List (List Char)) (value : List Char) :
    scanAlternatives grouped (writtenAtoms atoms ++ rest) values value =
      scanAlternatives grouped rest values (value ++ literalText atoms) := by
  induction atoms generalizing value with
  | nil => simp [writtenAtoms, literalText]
  | cons atom atoms ih =>
    have here := literal atom (by simp)
    have later := ih fun other member => literal other (by simp [member])
    cases atom with
    | plain c =>
      exact (scanAlternatives_plain here.1 here.2 _ _ _).trans
        ((later _).trans (by rw [append_assoc]; rfl))
    | escaped c =>
      exact (scanAlternatives_escaped here _ _ _).trans
        ((later _).trans (by rw [append_assoc]; rfl))

theorem scanAlternatives_group
    (some : alternatives ≠ []) (literal : ∀ atoms ∈ alternatives, AllLiteral atoms)
    (values : List (List Char)) :
    scanAlternatives true (writtenAlternatives alternatives) values [] =
      .some (values ++ alternatives.map literalText) := by
  induction alternatives generalizing values with
  | nil => exact absurd rfl some
  | cons atoms rest ih =>
    have here := literal atoms (by simp)
    cases rest with
    | nil =>
      have read : scanAlternatives true (writtenAtoms atoms ++ []) values [] = _ :=
        scanAlternatives_written here [] values []
      simpa [writtenAlternatives, scanAlternatives] using read
    | cons next rest =>
      rw [writtenAlternatives, scanAlternatives_written here, scanAlternatives_bar,
        ih (by simp) fun other member => literal other (by simp [member])]
      · simp
      · simp

variable (grouped) in
/-- The text writes literal alternatives, and `out` adds what they stand for to the values
read so far; only a group has several. -/
def IsScan (text : List Char) (values : List (List Char)) (value : List Char)
    (out : List (List Char)) : Prop :=
  ∃ (atoms : List PatternAtom) (rest : List (List PatternAtom)),
    text = writtenAlternatives (atoms :: rest) ∧
    out = values ++ (value ++ literalText atoms) :: rest.map literalText ∧
    (∀ others ∈ atoms :: rest, AllLiteral others) ∧ (grouped = false → rest = [])

variable {text value : List Char} {values out : List (List Char)}

theorem IsScan.extend {atom : PatternAtom} (isLiteral : atom.IsLiteral)
    (isScan : IsScan grouped text values (value ++ [atom.char]) out) :
    IsScan grouped (atom.written ++ text) values value out := by
  obtain ⟨atoms, rest, rfl, rfl, literal, single⟩ := isScan
  refine ⟨atom :: atoms, rest, ?_, ?_, ?_, single⟩
  · cases rest <;> simp [writtenAlternatives, writtenAtoms]
  · simp [literalText]
  · intro others member
    rcases mem_cons.mp member with rfl | later
    · intro other inAtoms
      rcases mem_cons.mp inAtoms with rfl | later
      · exact isLiteral
      · exact literal atoms (by simp) other later
    · exact literal others (by simp [later])

theorem isScan_of_scanAlternatives
    (scanned : scanAlternatives grouped text values value = some out) :
    IsScan grouped text values value out := by
  induction text, values, value using scanAlternatives.induct grouped with
  | case1 values value =>
    cases scanned
    exact ⟨[], [], rfl, by simp [literalText], by simp [AllLiteral], fun _ => rfl⟩
  | case2 escaped rest values value punctuation ih =>
    rw [scanAlternatives_escaped punctuation] at scanned
    exact IsScan.extend (show (PatternAtom.escaped escaped).IsLiteral from punctuation)
      (ih scanned)
  | case3 escaped rest values value notPunctuation =>
    simp [scanAlternatives, notPunctuation] at scanned
  | case4 values value => simp [scanAlternatives] at scanned
  | case5 c rest values value notEscape notLast isBar ih =>
    rw [scanAlternatives.eq_4 (c := c) _ _ _ _ notEscape notLast, if_pos isBar] at scanned
    simp only [Bool.and_eq_true, decide_eq_true_eq] at isBar
    obtain ⟨atoms, others, rfl, rfl, literal, -⟩ := ih scanned
    refine ⟨[], atoms :: others, ?_, ?_, ?_, ?_⟩
    · simp [writtenAlternatives, writtenAtoms, isBar.1]
    · simp [literalText]
    · intro other member
      rcases mem_cons.mp member with rfl | later
      · simp [AllLiteral]
      · exact literal other later
    · simp [isBar.2]
  | case6 c rest values value notEscape notLast notBar isOperator =>
    rw [scanAlternatives.eq_4 (c := c) _ _ _ _ notEscape notLast, if_neg notBar,
      if_pos isOperator] at scanned
    cases scanned
  | case7 c rest values value notEscape notLast notBar notOperator ih =>
    have isPlain : c ≠ '\\' := by
      rintro rfl
      cases rest with
      | nil => exact notLast rfl rfl
      | cons next rest => exact notEscape next rest rfl rfl
    rw [Bool.not_eq_true] at notOperator
    rw [scanAlternatives_plain notOperator isPlain] at scanned
    exact IsScan.extend (show (PatternAtom.plain c).IsLiteral from ⟨notOperator, isPlain⟩)
      (ih scanned)

end Scan

/-! ## What the patterns match -/

variable {rest : List Char}

theorem stripFront_eq_some :
    stripFront c text = some rest ↔ text = c :: rest := by
  cases text with
  | nil => simp [stripFront]
  | cons first tail =>
    rw [stripFront, Option.ite_none_right_eq_some, Option.some.injEq, cons.injEq]

theorem stripBack_eq_some :
    stripBack c text = some rest ↔ text = rest ++ [c] := by
  rw [stripBack, Option.map_eq_some_iff]
  constructor
  · rintro ⟨reversed, stripped, rfl⟩
    rw [stripFront_eq_some] at stripped
    rw [← reverse_reverse text, stripped, reverse_cons]
  · rintro rfl
    exact ⟨rest.reverse, by simp [stripFront], reverse_reverse rest⟩

variable {body : List Char} {grouped : Bool}

theorem patternBody_eq_some
    (isBody : patternBody text = some (body, grouped)) :
    (grouped = true ∧ ∃ opener, (opener = ['('] ∨ opener = ['(', '?', ':']) ∧
      text = opener ++ body ++ [')']) ∨ grouped = false ∧ text = body := by
  unfold patternBody at isBody
  split at isBody
  next inner =>
    obtain ⟨stripped, isStripped, same⟩ := Option.map_eq_some_iff.mp isBody
    cases same
    rw [stripBack_eq_some.mp isStripped]
    exact Or.inl ⟨rfl, ['(', '?', ':'], Or.inr rfl, rfl⟩
  next inner _ =>
    obtain ⟨stripped, isStripped, same⟩ := Option.map_eq_some_iff.mp isBody
    cases same
    rw [stripBack_eq_some.mp isStripped]
    exact Or.inl ⟨rfl, ['('], Or.inl rfl, rfl⟩
  next =>
    cases isBody
    exact Or.inr ⟨rfl, rfl⟩

theorem literalText_eq_nil : literalText atoms = [] ↔ atoms = [] :=
  map_eq_nil_iff

theorem mem_map_ofList {text : String} {values : List (List Char)} :
    text ∈ values.map String.ofList ↔ text.toList ∈ values := by
  rw [mem_map]
  constructor
  · rintro ⟨value, member, rfl⟩
    rwa [String.toList_ofList]
  · exact fun member => ⟨text.toList, member, String.ofList_toList⟩

variable {values : List String} {pattern : String}

/-- A pattern with a list of values is an anchored text or group of literals, and the values are
what these stand for. -/
theorem exists_of_regexLiteralAlternatives
    (isLiteral : regexLiteralAlternatives pattern = some values) :
    ∃ (anchored : List Char) (grouped : Bool) (atoms : List PatternAtom)
      (rest : List (List PatternAtom)),
      pattern = .ofList ('^' :: anchored ++ ['$']) ∧
      patternBody anchored = some (writtenAlternatives (atoms :: rest), grouped) ∧
      values = ((atoms :: rest).map literalText).map String.ofList ∧
      (∀ others ∈ atoms :: rest, AllLiteral others ∧ others ≠ []) ∧
      (grouped = false → rest = []) := by
  obtain ⟨anchored, isAnchored, isLiteral⟩ := Option.bind_eq_some_iff.mp isLiteral
  obtain ⟨started, isStarted, isEnded⟩ := Option.bind_eq_some_iff.mp isAnchored
  obtain ⟨⟨body, grouped⟩, isBody, isLiteral⟩ := Option.bind_eq_some_iff.mp isLiteral
  obtain ⟨scanned, isScanned, isLiteral⟩ := Option.bind_eq_some_iff.mp isLiteral
  rw [Option.ite_none_left_eq_some] at isLiteral
  obtain ⟨nonempty, isValues⟩ := isLiteral
  rw [stripFront_eq_some] at isStarted
  rw [stripBack_eq_some] at isEnded
  obtain ⟨atoms, rest, rfl, rfl, literal, single⟩ := isScan_of_scanAlternatives isScanned
  refine ⟨anchored, grouped, atoms, rest, ?_, isBody, (Option.some.inj isValues).symm, ?_, single⟩
  · rw [← String.ofList_toList (s := pattern), isStarted, isEnded, cons_append]
  · intro others member
    refine ⟨literal others member, fun isEmpty => nonempty ?_⟩
    rw [any_eq_true]
    refine ⟨literalText others, ?_, by simp [isEmpty, literalText]⟩
    simpa using mem_map_of_mem (f := literalText) member

theorem RegexEngine.isMatch_of_alternatives (engine : RegexEngine)
    (isLiteral : regexLiteralAlternatives pattern = some values) (text : String) :
    engine.isMatch pattern text = decide (text ∈ values) := by
  obtain ⟨anchored, grouped, atoms, rest, rfl, isBody, rfl, literal, single⟩ :=
    exists_of_regexLiteralAlternatives isLiteral
  rw [decide_eq_decide.mpr mem_map_ofList]
  rcases patternBody_eq_some isBody with ⟨-, opener, isOpener, rfl⟩ | ⟨notGrouped, rfl⟩
  · have matched := engine.group opener isOpener (atoms :: rest) (by simp) literal text.toList
    rw [← matched]
    simp
  · obtain rfl := single notGrouped
    obtain ⟨isLiteral, someAtom⟩ := literal atoms (by simp)
    have matched := engine.literal atoms isLiteral someAtom text.toList
    simpa [writtenAlternatives] using matched

theorem regexLiteralAlternatives_ne_nil
    (isLiteral : regexLiteralAlternatives pattern = some values) : values ≠ [] := by
  obtain ⟨anchored, grouped, atoms, rest, -, -, rfl, -⟩ :=
    exists_of_regexLiteralAlternatives isLiteral
  simp

/-! ## An engine that knows literal patterns only -/

theorem exists_head_writtenAtoms (literal : AllLiteral atoms) (some : atoms ≠ []) :
    ∃ first rest, writtenAtoms atoms = first :: rest ∧ first ≠ '(' ∧ first ≠ '?' := by
  cases atoms with
  | nil => exact absurd rfl some
  | cons atom atoms =>
    have isLiteral := literal atom (by simp)
    cases atom with
    | plain c =>
      refine ⟨c, writtenAtoms atoms, rfl, ?_, ?_⟩ <;>
      · rintro rfl
        exact absurd isLiteral.1 (by decide)
    | escaped c => exact ⟨'\\', c :: writtenAtoms atoms, rfl, by decide, by decide⟩

theorem exists_head_writtenAlternatives
    (some : alternatives ≠ []) (literal : ∀ atoms ∈ alternatives, AllLiteral atoms ∧ atoms ≠ []) :
    ∃ first rest, writtenAlternatives alternatives = first :: rest ∧ first ≠ '?' := by
  cases alternatives with
  | nil => exact absurd rfl some
  | cons atoms others =>
    obtain ⟨first, rest, written, -, notOption⟩ :=
      exists_head_writtenAtoms (literal atoms (by simp)).1 (literal atoms (by simp)).2
    cases others with
    | nil => exact ⟨first, rest, written, notOption⟩
    | cons next others =>
      exact ⟨first, rest ++ '|' :: writtenAlternatives (next :: others), by
        simp [writtenAlternatives, written], notOption⟩

theorem patternBody_opener {opener : List Char}
    (isOpener : opener = ['('] ∨ opener = ['(', '?', ':'])
    (notOption : ∃ first rest, body = first :: rest ∧ first ≠ '?') :
    patternBody (opener ++ body ++ [')']) = some (body, true) := by
  have stripped : stripBack ')' (body ++ [')']) = some body := stripBack_eq_some.mpr rfl
  rcases isOpener with rfl | rfl
  · obtain ⟨first, rest, rfl, isOther⟩ := notOption
    rw [append_assoc, singleton_append, patternBody.eq_2, stripped]
    · rfl
    · intro inner isSame
      exact isOther (cons.inj isSame).1
  · simp [patternBody, stripped]

theorem regexLiteralAlternatives_of_body {anchored : List Char}
    {values : List (List Char)} (isBody : patternBody anchored = some (body, grouped))
    (isScanned : scanAlternatives grouped body [] [] = some values)
    (nonempty : ∀ value ∈ values, value ≠ []) :
    regexLiteralAlternatives (.ofList ('^' :: anchored ++ ['$'])) =
      some (values.map String.ofList) := by
  have ended : stripBack '$' (anchored ++ ['$']) = some anchored := stripBack_eq_some.mpr rfl
  have notEmpty : [] ∉ values := fun member => nonempty [] member rfl
  simp [regexLiteralAlternatives, stripFront, ended, isBody, isScanned,
    notEmpty]

theorem mem_singleton_ofList : String.ofList text ∈ [value].map String.ofList ↔ text = value := by
  rw [mem_map_ofList, String.toList_ofList, mem_singleton]

def literalEngine : RegexEngine where
  isMatch pattern text :=
    match regexLiteralAlternatives pattern with
    | some values => decide (text ∈ values)
    | none => false
  literal := by
    intro atoms literal some text
    obtain ⟨first, rest, written, notGroup, -⟩ := exists_head_writtenAtoms literal some
    have isBody : patternBody (writtenAtoms atoms) = .some (writtenAtoms atoms, false) := by
      rw [written]
      unfold patternBody
      split
      next isSame => exact absurd (cons.inj isSame).1 notGroup
      next isSame => exact absurd (cons.inj isSame).1 notGroup
      next => rfl
    have isScanned : scanAlternatives false (writtenAtoms atoms) [] [] =
        .some [literalText atoms] := by
      have read : scanAlternatives false (writtenAtoms atoms ++ []) [] [] = _ :=
        scanAlternatives_written literal [] [] []
      rwa [append_nil] at read
    rw [regexLiteralAlternatives_of_body isBody isScanned
      (by simpa [literalText] using some)]
    exact decide_eq_decide.mpr mem_singleton_ofList
  group := by
    intro opener isOpener alternatives some literal text
    have isBody := patternBody_opener isOpener (exists_head_writtenAlternatives some literal)
    have isScanned := scanAlternatives_group some (fun atoms member => (literal atoms member).1) []
    have nonempty : ∀ value ∈ [] ++ alternatives.map literalText, value ≠ [] := by
      intro value member
      obtain ⟨atoms, inAlternatives, rfl⟩ := mem_map.mp member
      exact fun isEmpty => (literal atoms inAlternatives).2 (literalText_eq_nil.mp isEmpty)
    have read := regexLiteralAlternatives_of_body isBody isScanned nonempty
    have sameText : '^' :: opener ++ writtenAlternatives alternatives ++ [')', '$'] =
        '^' :: (opener ++ writtenAlternatives alternatives ++ [')']) ++ ['$'] := by simp
    rw [sameText, read]
    exact decide_eq_decide.mpr (by rw [mem_map_ofList, String.toList_ofList, nil_append])

/-- The values are exactly the texts that the pattern matches, and the empty text is not one. -/
theorem alternatives_exact (engine : RegexEngine) {pattern : String} {values : List String}
    (isLiteral : regexLiteralAlternatives pattern = some values) :
    (∀ text, engine.isMatch pattern text = true ↔ text ∈ values) ∧
      engine.isMatch pattern "" = false := by
  have matches_ := engine.isMatch_of_alternatives isLiteral
  refine ⟨fun text => by rw [matches_, decide_eq_true_eq], ?_⟩
  obtain ⟨anchored, grouped, atoms, rest, -, -, rfl, literal, -⟩ :=
    exists_of_regexLiteralAlternatives isLiteral
  rw [matches_, decide_eq_false_iff_not, mem_map_ofList]
  intro isEmpty
  obtain ⟨others, member, nothing⟩ := mem_map.mp isEmpty
  exact (literal others member).2 (literalText_eq_nil.mp nothing)

theorem group_alternatives_exact :
    (∀ text, literalEngine.isMatch "^(web\\.1|b)$" text = true ↔ text ∈ ["web.1", "b"]) ∧
      literalEngine.isMatch "^(web\\.1|b)$" "" = false :=
  alternatives_exact literalEngine (by decide +kernel)

end HyperbyteDb
