import Exemplar.Configuration
import Exemplar.Proofs.Runs

/-!
The two naming strategies against each other. A name of words joined by underscores becomes one of
words joined by capitals and comes back, unless a word inside it is a single letter: its capital
then stands before a capital, where no underscore is put. The way there never takes two names to
one, and a name of capitalized words of two characters or more comes back from its underscores.
-/

namespace Exemplar.Text

def isSmall (character : Char) : Bool := 'a' ≤ character && character ≤ 'z'

section Characters

variable {character : Char}

/-- What holds of the first 128 code points holds of every ASCII character. -/
theorem of_ascii {motive : Char → Prop} (each : ∀ code < 128, motive (Char.ofNat code))
    (ascii : character.toNat < 128) : motive character :=
  Char.ofNat_toNat character ▸ each character.toNat ascii

theorem toNat_le_of_le {bound : Char} (below : character ≤ bound) :
    character.toNat ≤ bound.toNat :=
  UInt32.le_iff_toNat_le.mp (Char.le_def.mp below)

theorem ascii_of_isSmallOrDigit (plain : isSmallOrDigit character) : character.toNat < 128 := by
  simp only [isSmallOrDigit, Bool.or_eq_true, Bool.and_eq_true, decide_eq_true_eq] at plain
  rcases plain with ⟨-, below⟩ | ⟨-, below⟩
  · exact Nat.lt_of_le_of_lt (toNat_le_of_le below) (by decide)
  · exact Nat.lt_of_le_of_lt (toNat_le_of_le below) (by decide)

theorem ascii_of_isCapital (capital : isCapital character) : character.toNat < 128 := by
  simp only [isCapital, Bool.and_eq_true, decide_eq_true_eq] at capital
  exact Nat.lt_of_le_of_lt (toNat_le_of_le capital.2) (by decide)

theorem isSmallOrDigit_of_isSmall (small : isSmall character) : isSmallOrDigit character :=
  Bool.or_eq_true_iff.mpr (.inl small)

theorem toLower_of_isSmallOrDigit (plain : isSmallOrDigit character) :
    character.toLower = character :=
  of_ascii (motive := fun character => isSmallOrDigit character → character.toLower = character)
    (by decide) (ascii_of_isSmallOrDigit plain) plain

theorem not_isCapital_of_isSmallOrDigit (plain : isSmallOrDigit character) :
    isCapital character = false :=
  of_ascii (motive := fun character => isSmallOrDigit character → isCapital character = false)
    (by decide) (ascii_of_isSmallOrDigit plain) plain

theorem not_isSmallOrDigit_of_isCapital (capital : isCapital character) :
    isSmallOrDigit character = false :=
  Bool.eq_false_iff.mpr fun plain =>
    Bool.false_ne_true ((not_isCapital_of_isSmallOrDigit plain).symm.trans capital)

theorem raise_isSmall (small : isSmall character) :
    isCapital character.toUpper ∧ character.toUpper.toLower = character :=
  of_ascii (motive := fun character => isSmall character →
      isCapital character.toUpper ∧ character.toUpper.toLower = character)
    (by decide) (ascii_of_isSmallOrDigit (isSmallOrDigit_of_isSmall small)) small

theorem lower_isCapital (capital : isCapital character) :
    isSmall character.toLower ∧ character.toLower.toUpper = character :=
  of_ascii (motive := fun character => isCapital character →
      isSmall character.toLower ∧ character.toLower.toUpper = character)
    (by decide) (ascii_of_isCapital capital) capital

theorem upperCharacter_of_ascii (ascii : character.toNat < 128) :
    upperCharacter character = [character.toUpper] :=
  if_pos ascii

theorem lowerFrom_of_ascii {text : List Char} (ascii : ∀ character ∈ text, character.toNat < 128)
    (before : List Char) : lowerFrom before text = text.map Char.toLower := by
  induction text generalizing before with
  | nil => rfl
  | cons character rest ih =>
    have small := ascii character List.mem_cons_self
    have notSigma : character ≠ 'Σ' := by
      rintro rfl
      exact absurd small (by decide)
    rw [lowerFrom, if_neg notSigma, lowerCharacter, if_pos small,
      ih (fun character member => ascii character (List.mem_cons_of_mem _ member))]
    rfl

end Characters

/-- A small letter, then small letters and digits. -/
def isWord : List Char → Bool
  | [] => false
  | first :: rest => isSmall first && rest.all isSmallOrDigit

/-- A capital, then small letters and digits. -/
def isHump : List Char → Bool
  | [] => false
  | first :: rest => isCapital first && rest.all isSmallOrDigit

/-- Words joined by underscores. -/
structure SnakeName where
  first : List Char
  others : List (List Char)
  isWord_first : isWord first
  isWord_others : ∀ word ∈ others, isWord word

/-- A word, then capitalized words of two characters or more. -/
structure CamelName where
  first : List Char
  humps : List (List Char)
  isWord_first : isWord first
  isHump_humps : ∀ hump ∈ humps, isHump hump
  long_humps : ∀ hump ∈ humps, 2 ≤ hump.length

def SnakeName.text (name : SnakeName) : String :=
  String.ofList (['_'].intercalate (name.first :: name.others))

/-- The words between the first and the last one. -/
def SnakeName.interior (name : SnakeName) : List (List Char) := name.others.dropLast

def CamelName.text (name : CamelName) : String :=
  String.ofList (name.first ++ name.humps.flatten)

section Words

variable {word hump : List Char}

theorem isWord_cons {first : Char} {rest : List Char} (known : isWord (first :: rest)) :
    isSmall first ∧ ∀ character ∈ rest, isSmallOrDigit character := by
  simpa [isWord] using known

theorem isHump_cons {first : Char} {rest : List Char} (known : isHump (first :: rest)) :
    isCapital first ∧ ∀ character ∈ rest, isSmallOrDigit character := by
  simpa [isHump] using known

theorem isSmallOrDigit_of_mem {character : Char} (known : isWord word) (member : character ∈ word) :
    isSmallOrDigit character := by
  cases word with
  | nil => cases member
  | cons first rest =>
    obtain ⟨small, plain⟩ := isWord_cons known
    rcases List.mem_cons.mp member with rfl | member
    · exact isSmallOrDigit_of_isSmall small
    · exact plain character member

theorem isHump_capitalized (known : isWord word) : isHump (capitalized word) := by
  cases word with
  | nil => cases known
  | cons first rest =>
    obtain ⟨small, plain⟩ := isWord_cons known
    have ascii := ascii_of_isSmallOrDigit (isSmallOrDigit_of_isSmall small)
    simpa [capitalized, upperCharacter_of_ascii ascii, isHump, (raise_isSmall small).1] using plain

theorem map_toLower_of_isSmallOrDigit {text : List Char}
    (plain : ∀ character ∈ text, isSmallOrDigit character) : text.map Char.toLower = text :=
  (List.map_congr_left fun character member => toLower_of_isSmallOrDigit (plain character member))
    |>.trans (List.map_id text)

theorem map_toLower_capitalized (known : isWord word) :
    (capitalized word).map Char.toLower = word := by
  cases word with
  | nil => rfl
  | cons first rest =>
    obtain ⟨small, plain⟩ := isWord_cons known
    have ascii := ascii_of_isSmallOrDigit (isSmallOrDigit_of_isSmall small)
    simp [capitalized, upperCharacter_of_ascii ascii, (raise_isSmall small).2,
      map_toLower_of_isSmallOrDigit plain]

theorem isWord_lowered (known : isHump hump) : isWord (hump.map Char.toLower) := by
  cases hump with
  | nil => cases known
  | cons first rest =>
    obtain ⟨capital, plain⟩ := isHump_cons known
    simpa [isWord, map_toLower_of_isSmallOrDigit plain, (lower_isCapital capital).1] using plain

theorem capitalized_lowered (known : isHump hump) :
    capitalized (hump.map Char.toLower) = hump := by
  cases hump with
  | nil => cases known
  | cons first rest =>
    obtain ⟨capital, plain⟩ := isHump_cons known
    obtain ⟨small, back⟩ := lower_isCapital capital
    have ascii := ascii_of_isSmallOrDigit (isSmallOrDigit_of_isSmall small)
    simp [capitalized, upperCharacter_of_ascii ascii, back, map_toLower_of_isSmallOrDigit plain]

theorem ascii_of_isHump (known : isHump hump) : ∀ character ∈ hump, character.toNat < 128 := by
  cases hump with
  | nil => cases known
  | cons first rest =>
    obtain ⟨capital, plain⟩ := isHump_cons known
    intro character member
    rcases List.mem_cons.mp member with rfl | member
    · exact ascii_of_isCapital capital
    · exact ascii_of_isSmallOrDigit (plain character member)

end Words

section Separation

variable {character next : Char} {first body rest : List Char} {humps others : List (List Char)}

theorem separateCapitals_cons (plain : isSmallOrDigit next) :
    separateCapitals (character :: next :: rest) = character :: separateCapitals (next :: rest) := by
  rw [separateCapitals, not_isCapital_of_isSmallOrDigit plain, Bool.and_false, if_neg nofun]

theorem separateCapitals_of_plain (plain : ∀ character ∈ body, isSmallOrDigit character) :
    separateCapitals (character :: body) = character :: body := by
  induction body generalizing character with
  | nil => rfl
  | cons next body ih =>
    rw [separateCapitals_cons (plain next List.mem_cons_self),
      ih fun character member => plain character (List.mem_cons_of_mem _ member)]

/-- The capital is separated unless it follows a capital at once. -/
theorem separateCapitals_append (plain : ∀ character ∈ body, isSmallOrDigit character)
    (capital : isCapital next) :
    separateCapitals (character :: (body ++ next :: rest)) =
      character :: (body ++ ((if isSmallOrDigit character ∨ body ≠ [] then ['_'] else []) ++
        separateCapitals (next :: rest))) := by
  induction body generalizing character with
  | nil =>
    by_cases closed : isSmallOrDigit character <;> simp [separateCapitals, closed, capital]
  | cons second body ih =>
    have small := plain second List.mem_cons_self
    rw [List.cons_append, separateCapitals_cons small,
      ih fun character member => plain character (List.mem_cons_of_mem _ member)]
    simp [small]

/-- Puts an underscore before each hump that follows a small letter or a digit: the word in front
ends in one, and every hump of two characters or more. -/
def underscored (closed : Bool) : List (List Char) → List Char
  | [] => []
  | hump :: humps =>
      (if closed then ['_'] else []) ++ hump ++ underscored (2 ≤ hump.length) humps

theorem separateCapitals_flatten (plain : ∀ character ∈ body, isSmallOrDigit character)
    (known : ∀ hump ∈ humps, isHump hump) :
    separateCapitals (character :: (body ++ humps.flatten)) =
      character :: (body ++ underscored (isSmallOrDigit character ∨ body ≠ []) humps) := by
  induction humps generalizing character body with
  | nil => simpa [underscored] using separateCapitals_of_plain plain
  | cons hump humps ih =>
    cases hump with
    | nil => cases known [] List.mem_cons_self
    | cons next rest =>
      obtain ⟨capital, small⟩ := isHump_cons (known _ List.mem_cons_self)
      rw [List.flatten_cons, List.cons_append, separateCapitals_append plain capital,
        ih small fun hump member => known hump (List.mem_cons_of_mem _ member)]
      simp [underscored, not_isSmallOrDigit_of_isCapital capital, Nat.succ_le_iff,
        List.length_pos_iff]

/-- Joined by capitals, a name of small words is cut before the words whose capital follows a small
letter or a digit. -/
theorem separateCapitals_name (known : isWord first) (capped : ∀ hump ∈ humps, isHump hump) :
    separateCapitals (first ++ humps.flatten) = first ++ underscored true humps := by
  cases first with
  | nil => cases known
  | cons character body =>
    obtain ⟨small, plain⟩ := isWord_cons known
    have separated : separateCapitals (character :: (body ++ humps.flatten)) = _ :=
      separateCapitals_flatten plain capped
    simpa [isSmallOrDigit_of_isSmall small] using separated

theorem map_toLower_underscored (closed : Bool) :
    (underscored closed humps).map Char.toLower =
      underscored closed (humps.map (List.map Char.toLower)) := by
  induction humps generalizing closed with
  | nil => rfl
  | cons hump humps ih =>
    rw [List.map_cons, underscored, underscored, List.map_append, List.map_append, ih,
      List.length_map]
    cases closed <;> rfl

theorem mem_underscored {closed : Bool} (member : character ∈ underscored closed humps) :
    character = '_' ∨ ∃ hump ∈ humps, character ∈ hump := by
  induction humps generalizing closed with
  | nil => cases member
  | cons hump humps ih =>
    rcases List.mem_append.mp member with member | member
    · rcases List.mem_append.mp member with member | member
      · cases closed <;> simp_all
      · exact .inr ⟨hump, List.mem_cons_self, member⟩
    · obtain rfl | ⟨other, among, member⟩ := ih member
      · exact .inl rfl
      · exact .inr ⟨other, List.mem_cons_of_mem _ among, member⟩

theorem toSnakeCase_ofList (known : isWord first) (capped : ∀ hump ∈ humps, isHump hump) :
    toSnakeCase (String.ofList (first ++ humps.flatten)) =
      String.ofList (first ++ underscored true (humps.map (List.map Char.toLower))) := by
  have ascii : ∀ character ∈ first ++ underscored true humps, character.toNat < 128 := by
    intro character member
    rcases List.mem_append.mp member with member | member
    · exact ascii_of_isSmallOrDigit (isSmallOrDigit_of_mem known member)
    · obtain rfl | ⟨hump, among, member⟩ := mem_underscored member
      · decide
      · exact ascii_of_isHump (capped hump among) character member
  rw [toSnakeCase, lower, String.toList_ofList, String.toList_ofList,
    separateCapitals_name known capped, lowerFrom_of_ascii ascii, List.map_append,
    map_toLower_underscored,
    map_toLower_of_isSmallOrDigit fun _ member => isSmallOrDigit_of_mem known member]

end Separation

section Joining

variable {first : List Char} {others : List (List Char)}

theorem intercalate_cons (first : List Char) (others : List (List Char)) :
    ['_'].intercalate (first :: others) = first ++ others.flatMap ('_' :: ·) := by
  induction others generalizing first with
  | nil => simp
  | cons word others ih => 
    rw [List.intercalate_cons_cons, ih]
    simp

/-- The underscores stand between all words just where only the last one may be a single letter. -/
theorem underscored_eq_iff {closed : Bool} (known : ∀ word ∈ others, isWord word) :
    underscored closed others = others.flatMap ('_' :: ·) ↔
      (others = [] ∨ closed = true) ∧ ∀ word ∈ others.dropLast, 2 ≤ word.length := by
  induction others generalizing closed with
  | nil => simp [underscored]
  | cons word others ih =>
    have rest := @ih (2 ≤ word.length)
      fun word member => known word (List.mem_cons_of_mem _ member)
    have notUnderscore : word ++ underscored (2 ≤ word.length) others ≠
        '_' :: (word ++ others.flatMap ('_' :: ·)) := by
      cases word with
      | nil => cases known [] List.mem_cons_self
      | cons first body =>
        rintro same
        rw [(List.cons.inj same).1] at known
        exact absurd (isWord_cons (known _ List.mem_cons_self)).1 (by decide)
    cases closed with
    | false => simpa [underscored] using notUnderscore
    | true =>
      cases others with
      | nil => simp [underscored]
      | cons second others =>
        rw [underscored, List.flatMap_cons, if_pos rfl, List.singleton_append, List.cons_append,
          List.cons_append, List.cons_inj_right, List.append_cancel_left_eq, rest]
        simp

theorem words_eq_splitOn (name : List Char) : words name = name.splitOn '_' := by
  induction name with
  | nil => rfl
  | cons character rest ih =>
    simp only [words, ih, List.splitOn, List.splitOnP_cons_eq_if_modifyHead]
    cases cut : rest.splitOnP (· == '_') with
    | nil => exact absurd cut (List.splitOnP_ne_nil _ _)
    | cons word others => simp

theorem words_text (name : SnakeName) : words name.text.toList = name.first :: name.others := by
  rw [words_eq_splitOn, SnakeName.text, String.toList_ofList]
  refine List.splitOn_intercalate '_' ?_ (List.cons_ne_nil _ _)
  intro word member among
  have known : isWord word := by
    rcases List.mem_cons.mp member with rfl | member
    · exact name.isWord_first
    · exact name.isWord_others word member
  exact absurd (isSmallOrDigit_of_mem known among) (by decide)

theorem toCamelCase_text (name : SnakeName) :
    toCamelCase name.text = String.ofList (name.first ++ (name.others.map capitalized).flatten) := by
  rw [toCamelCase, words_text]
  exact congrArg (fun humps => String.ofList (name.first ++ humps)) List.flatMap_def

end Joining

section Pieces

variable {first second : List Char} {humps others : List (List Char)}

theorem takeWhile_name (known : ∀ character ∈ first, isSmallOrDigit character)
    (capped : ∀ hump ∈ humps, isHump hump) :
    (first ++ humps.flatten).takeWhile isSmallOrDigit = first := by
  rw [List.takeWhile_append_of_pos known]
  cases humps with
  | nil => simp
  | cons hump humps =>
    cases hump with
    | nil => cases capped [] List.mem_cons_self
    | cons next rest =>
      have capital := (isHump_cons (capped _ List.mem_cons_self)).1
      simp [not_isSmallOrDigit_of_isCapital capital]

/-- A name joined by capitals is cut into its words in one way only. -/
theorem pieces_unique (known : ∀ character ∈ first, isSmallOrDigit character)
    (knownToo : ∀ character ∈ second, isSmallOrDigit character)
    (capped : ∀ hump ∈ humps, isHump hump) (cappedToo : ∀ hump ∈ others, isHump hump)
    (same : first ++ humps.flatten = second ++ others.flatten) : first = second ∧ humps = others := by
  induction humps generalizing first second others with
  | nil =>
    obtain rfl : first = second := by
      rw [← takeWhile_name known capped, same, takeWhile_name knownToo cappedToo]
    cases others with
    | nil => exact ⟨rfl, rfl⟩
    | cons hump others =>
      cases hump with
      | nil => cases cappedToo [] List.mem_cons_self
      | cons next rest => simp at same
  | cons hump humps ih =>
    obtain rfl : first = second := by
      rw [← takeWhile_name known capped, same, takeWhile_name knownToo cappedToo]
    have tails := List.append_cancel_left same
    cases hump with
    | nil => cases capped [] List.mem_cons_self
    | cons next rest =>
      cases others with
      | nil => cases tails
      | cons hump others =>
        cases hump with
        | nil => cases cappedToo [] List.mem_cons_self
        | cons character body =>
          obtain ⟨rfl, rests⟩ := List.cons.inj tails
          obtain ⟨rfl, rfl⟩ := ih (isHump_cons (capped _ List.mem_cons_self)).2
            (isHump_cons (cappedToo _ List.mem_cons_self)).2
            (fun hump member => capped hump (List.mem_cons_of_mem _ member))
            (fun hump member => cappedToo hump (List.mem_cons_of_mem _ member)) rests
          exact ⟨rfl, rfl⟩

end Pieces

section Names

theorem SnakeName.isHump_capitalized (name : SnakeName) :
    ∀ hump ∈ name.others.map capitalized, isHump hump := by
  simp only [List.mem_map, forall_exists_index, and_imp, forall_apply_eq_imp_iff₂]
  exact fun word member => Text.isHump_capitalized (name.isWord_others word member)

theorem SnakeName.lowered_capitalized (name : SnakeName) :
    (name.others.map capitalized).map (List.map Char.toLower) = name.others := by
  rw [List.map_map]
  exact (List.map_congr_left fun word member =>
    map_toLower_capitalized (name.isWord_others word member)).trans (List.map_id _)

theorem toSnakeCase_toCamelCase (name : SnakeName) :
    toSnakeCase (toCamelCase name.text) =
      String.ofList (name.first ++ underscored true name.others) := by
  rw [toCamelCase_text, toSnakeCase_ofList name.isWord_first name.isHump_capitalized,
    name.lowered_capitalized]

theorem comes_back_iff (name : SnakeName) :
    toSnakeCase (toCamelCase name.text) = name.text ↔
      ∀ word ∈ name.interior, 2 ≤ word.length := by
  rw [toSnakeCase_toCamelCase, SnakeName.text, intercalate_cons, String.ofList_inj,
    List.append_cancel_left_eq, underscored_eq_iff name.isWord_others]
  simp [SnakeName.interior]

theorem text_eq_of_toCamelCase {name other : SnakeName}
    (same : toCamelCase name.text = toCamelCase other.text) : name.text = other.text := by
  rw [toCamelCase_text, toCamelCase_text, String.ofList_inj] at same
  obtain ⟨firsts, humps⟩ := pieces_unique
    (fun _ member => isSmallOrDigit_of_mem name.isWord_first member)
    (fun _ member => isSmallOrDigit_of_mem other.isWord_first member)
    name.isHump_capitalized other.isHump_capitalized same
  have others : name.others = other.others := by
    rw [← name.lowered_capitalized, humps, other.lowered_capitalized]
  rw [SnakeName.text, firsts, others, SnakeName.text]

/-- The name with its capitals lowered and underscores before them. -/
def CamelName.lowered (name : CamelName) : SnakeName where
  first := name.first
  others := name.humps.map (List.map Char.toLower)
  isWord_first := name.isWord_first
  isWord_others := by
    simp only [List.mem_map, forall_exists_index, and_imp, forall_apply_eq_imp_iff₂]
    exact fun hump member => isWord_lowered (name.isHump_humps hump member)

theorem CamelName.capitalized_lowered (name : CamelName) :
    name.lowered.others.map capitalized = name.humps := by
  rw [lowered, List.map_map]
  exact (List.map_congr_left fun hump member =>
    Text.capitalized_lowered (name.isHump_humps hump member)).trans (List.map_id _)

theorem CamelName.long_interior (name : CamelName) :
    ∀ word ∈ name.lowered.interior, 2 ≤ word.length := by
  intro word member
  obtain ⟨hump, among, rfl⟩ := List.mem_map.mp (List.dropLast_subset _ member)
  simpa using name.long_humps hump among

/-- The underscored spelling of such a name is capitalized into the name itself. -/
theorem CamelName.toCamelCase_lowered (name : CamelName) :
    toCamelCase name.lowered.text = name.text := by
  rw [toCamelCase_text, name.capitalized_lowered]
  rfl

theorem CamelName.toSnakeCase_text (name : CamelName) :
    toSnakeCase name.text = name.lowered.text := by
  rw [← name.toCamelCase_lowered]
  exact (comes_back_iff name.lowered).mpr name.long_interior

end Names

/-- The strategies undo each other: from underscores and back just where no word inside is a single
letter, from capitals and back always. No two names of words are looked up under one key. -/
theorem spellings_invert :
    (∀ name : SnakeName, toSnakeCase (toCamelCase name.text) = name.text ↔
      ∀ word ∈ name.interior, 2 ≤ word.length) ∧
    (∀ name other : SnakeName,
      (toCamelCase name.text = toCamelCase other.text → name.text = other.text) ∧
      ∀ key before after start finish,
        (KeyStrategy.toCamelCase.keyOf name.text).Yields before key after →
        (KeyStrategy.toCamelCase.keyOf other.text).Yields start key finish →
        name.text = other.text) ∧
    ∀ name : CamelName, toCamelCase (toSnakeCase name.text) = name.text := by
  refine ⟨comes_back_iff, fun name other => ⟨text_eq_of_toCamelCase, ?_⟩, fun name => ?_⟩
  · intro key before after start finish read readToo
    have one := (Run.yields_pure.mp read).1
    have two := (Run.yields_pure.mp readToo).1
    exact text_eq_of_toCamelCase (one.symm.trans two)
  · rw [name.toSnakeCase_text, name.toCamelCase_lowered]

namespace Spellings

def createdAt : SnakeName := ⟨"created".toList, ["at".toList], by decide, by decide⟩

def pointXAxis : SnakeName :=
  ⟨"point".toList, ["x".toList, "axis".toList], by decide, by decide⟩

def pointXaxis : SnakeName := ⟨"point".toList, ["xaxis".toList], by decide, by decide⟩

def line2End : CamelName := ⟨"line2".toList, ["End".toList], by decide, by decide, by decide⟩

end Spellings

/-- `created_at` comes back, `point_x_axis` comes back as `pointx_axis`. -/
theorem spellings_invert_names :
    toSnakeCase (toCamelCase "created_at") = "created_at" ∧
      toSnakeCase (toCamelCase "point_x_axis") ≠ "point_x_axis" ∧
      toCamelCase "point_x_axis" ≠ toCamelCase "point_xaxis" ∧
      toCamelCase (toSnakeCase "line2End") = "line2End" := by
  obtain ⟨back, distinct, again⟩ := spellings_invert
  refine ⟨(back Spellings.createdAt).mpr (by decide),
    fun same => absurd ((back Spellings.pointXAxis).mp same) (by decide),
    fun same => absurd ((distinct Spellings.pointXAxis Spellings.pointXaxis).1 same) (by decide),
    again Spellings.line2End⟩

end Exemplar.Text
