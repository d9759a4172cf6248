import Mathlib.Data.List.Infix

/-!
# The configuration of the row cache

`innodb_row_cache_index` lists the indexes whose rows are cached: clauses with `;` between them, and
in a clause a pattern for tables and patterns for indexes with `:` between them.
`wildCaseCompareWl_iff` says what the matcher accepts, and `compare_index_config_iff` that
`compare_index_config` reads the configuration as it is meant.
-/

set_option autoImplicit false

namespace TdhSocket.RowCache

/-! ### The matcher -/

/-- The characters that stand for others in a pattern. -/
def isWild (c : Char) : Bool := c = '*' || c = '?'

/-- The loop behind a `*`. A pattern character `cmp` that comes next has to be met first. -/
def compareBehindMany (cmp : Option Char) (compare : List Char → Bool) : List Char → Bool
  | [] => cmp.isNone && compare []
  | c :: str =>
    if cmp.all fun d ↦ c.toUpper = d then
      compare (c :: str) || compareBehindMany cmp compare str
    else compareBehindMany cmp compare str

/-- `wild_case_compare_wl`; true stands for its result 0. `wild_prefix` is the end of a string and
is not part of a pattern. -/
def wildCaseCompareWl : List Char → List Char → Bool
  | str, [] => str.isEmpty
  | str, w :: wildstr =>
    if w = '*' then
      match wildstr.head? with
      | none => true
      | some next => compareBehindMany (if isWild next then none else some next.toUpper)
          (fun str ↦ wildCaseCompareWl str wildstr) str
    else
      match str with
      | [] => false
      | c :: str => (w = '?' || w.toUpper = c.toUpper) && wildCaseCompareWl str wildstr

/-- What a pattern stands for: `*` any string, `?` any character, another character itself in
either case. -/
inductive Matches : List Char → List Char → Prop
  | nil : Matches [] []
  | many {pattern text : List Char} (part : List Char) (hrest : Matches pattern text) :
      Matches ('*' :: pattern) (part ++ text)
  | one {pattern text : List Char} (c : Char) (hrest : Matches pattern text) :
      Matches ('?' :: pattern) (c :: text)
  | same {pattern text : List Char} {w c : Char} (hwild : isWild w = false)
      (hcase : w.toUpper = c.toUpper) (hrest : Matches pattern text) :
      Matches (w :: pattern) (c :: text)

/-- A `*` takes the characters in front of some end of the text. -/
theorem matches_many {pattern text : List Char} :
    Matches ('*' :: pattern) text ↔ ∃ rest, rest <:+ text ∧ Matches pattern rest := by
  constructor
  · intro hmatches
    cases hmatches with
    | many part hrest => exact ⟨_, List.suffix_append part _, hrest⟩
    | same hwild => simp [isWild] at hwild
  · rintro ⟨rest, ⟨part, rfl⟩, hrest⟩
    exact .many part hrest

/-- Another character takes one character. -/
theorem matches_cons {w : Char} {pattern text : List Char} (hmany : w ≠ '*') :
    Matches (w :: pattern) text ↔
      ∃ c rest, text = c :: rest ∧ (w = '?' ∨ w.toUpper = c.toUpper) ∧ Matches pattern rest := by
  constructor
  · intro hmatches
    cases hmatches with
    | many => exact absurd rfl hmany
    | one c hrest => exact ⟨c, _, rfl, .inl rfl, hrest⟩
    | same _ hcase hrest => exact ⟨_, _, rfl, .inr hcase, hrest⟩
  · rintro ⟨c, rest, rfl, hw, hrest⟩
    by_cases hone : w = '?'
    · subst hone
      exact .one c hrest
    · exact .same (by simp [isWild, hmany, hone]) (hw.resolve_left hone) hrest

/-- The loop tries the ends of the text one by one. Assumes: what it does not try is not
accepted. -/
theorem compareBehindMany_iff {cmp : Option Char} {compare : List Char → Bool}
    (hempty : cmp.isNone = false → compare [] = false)
    (hskipped : ∀ c str, (cmp.all fun d ↦ c.toUpper = d) = false → compare (c :: str) = false)
    (str : List Char) :
    compareBehindMany cmp compare str = true ↔ ∃ rest, rest <:+ str ∧ compare rest = true := by
  induction str with
  | nil =>
    have hand : (cmp.isNone && compare []) = compare [] := by
      cases hcmp : cmp.isNone with
      | true => rw [Bool.true_and]
      | false => rw [hempty hcmp, Bool.and_self]
    simp [compareBehindMany, hand]
  | cons c str ih =>
    simp only [List.suffix_cons_iff, or_and_right, exists_or, exists_eq_left, ← ih]
    rw [compareBehindMany]
    split_ifs with hmet
    · rw [Bool.or_eq_true]
    · rw [hskipped c str (by simpa using hmet)]
      simp

theorem wildCaseCompareWl_nil {w : Char} (hw : isWild w = false) (wildstr : List Char) :
    wildCaseCompareWl [] (w :: wildstr) = false := by
  have hmany : w ≠ '*' := by
    rintro rfl
    simp [isWild] at hw
  rw [wildCaseCompareWl, if_neg hmany]

/-- The matcher accepts what the pattern stands for. -/
theorem wildCaseCompareWl_iff (str wildstr : List Char) :
    wildCaseCompareWl str wildstr = true ↔ Matches wildstr str := by
  induction wildstr generalizing str with
  | nil =>
    rw [wildCaseCompareWl, List.isEmpty_iff]
    constructor
    · rintro rfl
      exact .nil
    · intro hmatches
      cases hmatches
      rfl
  | cons w wildstr ih =>
    by_cases hmany : w = '*'
    · subst hmany
      rw [matches_many, wildCaseCompareWl.eq_def]
      cases wildstr with
      | nil => simpa using ⟨[], List.nil_suffix, Matches.nil⟩
      | cons next wildstr =>
        simp only [if_true, List.head?_cons]
        rw [compareBehindMany_iff]
        · simp only [ih]
        -- a character behind the '*' matches neither the end nor what the loop passes over
        · intro hcmp
          split_ifs at hcmp with hwild
          · cases hcmp
          · exact wildCaseCompareWl_nil (by simpa using hwild) wildstr
        · intro c rest hcmp
          split_ifs at hcmp with hwild
          · cases hcmp
          · rw [isWild, Bool.or_eq_true, not_or] at hwild
            have hcase : next.toUpper ≠ c.toUpper := by simpa [eq_comm] using hcmp
            simp_all [wildCaseCompareWl]
    · rw [matches_cons hmany]
      cases str with
      | nil => simp [wildCaseCompareWl, hmany]
      | cons c str => simp [wildCaseCompareWl, hmany, ih]

/-! ### The configuration -/

section Config

variable (tableName indexName : List Char)

/-- The loop of `compare_index_config` from a character of a token on; `token` is what stands
between `o_config` and it. -/
def compareFrom (isIndexNow isTableMatching : Bool) (token : List Char) : List Char → Bool
  | [] =>
    -- behind a separator at the end of the configuration there is no further token
    !token.isEmpty && (isIndexNow && isTableMatching && wildCaseCompareWl indexName token)
  | c :: config =>
    if c = ':' then
      if !isIndexNow then compareFrom true (wildCaseCompareWl tableName token) [] config
      else isTableMatching && wildCaseCompareWl indexName token ||
        compareFrom isIndexNow isTableMatching [] config
    else if c = ';' then
      isIndexNow && isTableMatching && wildCaseCompareWl indexName token ||
        compareFrom false false [] config
    else compareFrom isIndexNow isTableMatching (token ++ [c]) config

/-- `compare_index_config`. -/
def compareIndexConfig (config : List Char) : Bool :=
  compareFrom tableName indexName false false [] config

/-- A clause, given by its tokens, names the table first and then the index. -/
def Selects (clause : List (List Char)) : Prop :=
  ∃ table indexes, clause = table :: indexes ∧ Matches table tableName ∧
    ∃ index ∈ indexes, Matches index indexName

/-- Some clause of the configuration selects the index. -/
def IsConfigured (config : List Char) : Prop :=
  ∃ clause ∈ config.splitOn ';', Selects tableName indexName (clause.splitOn ':')

end Config

variable {tableName indexName : List Char}

theorem splitOn_cons {sep c : Char} {text head : List Char} {tail : List (List Char)}
    (hsplit : text.splitOn sep = head :: tail) :
    (c :: text).splitOn sep = if c = sep then [] :: head :: tail else (c :: head) :: tail := by
  rw [List.splitOn] at hsplit ⊢
  rw [List.splitOnP_cons_eq_if_modifyHead, hsplit]
  simp

/-- What the loop still has to find, with the rest of the configuration split: a token of the clause
it is in, or another clause. -/
theorem compareFrom_iff (hname : indexName ≠ []) (config : List Char) (isIndexNow matching : Bool)
    (token : List Char) {clause : List Char} {clauses : List (List Char)}
    {first : List Char} {tokens : List (List Char)}
    (hclauses : config.splitOn ';' = clause :: clauses)
    (htokens : clause.splitOn ':' = first :: tokens) :
    compareFrom tableName indexName isIndexNow matching token config = true ↔
      (if isIndexNow then matching = true ∧ ∃ index ∈ (token ++ first) :: tokens,
          Matches index indexName
        else Selects tableName indexName ((token ++ first) :: tokens)) ∨
      ∃ other ∈ clauses, Selects tableName indexName (other.splitOn ':') := by
  induction config generalizing isIndexNow matching token clause clauses first tokens with
  | nil =>
    obtain ⟨rfl, rfl⟩ : clause = [] ∧ clauses = [] := by simpa [eq_comm] using hclauses
    have hempty : token = [] → ¬Matches token indexName := by
      rintro rfl hmatches
      cases hmatches
      exact hname rfl
    cases isIndexNow <;> by_cases htoken : token = [] <;>
      simp_all [compareFrom, Selects, wildCaseCompareWl_iff]
  | cons c config ih =>
    obtain ⟨next, others, hrest⟩ := List.exists_cons_of_ne_nil (List.splitOn_ne_nil ';' config)
    obtain ⟨second, more, hnext⟩ := List.exists_cons_of_ne_nil (List.splitOn_ne_nil ':' next)
    rw [splitOn_cons hrest] at hclauses
    by_cases htable : c = ':'
    · subst htable
      obtain ⟨rfl, rfl⟩ : _ ∧ _ := List.cons.inj hclauses
      obtain ⟨rfl, rfl⟩ : _ ∧ _ := List.cons.inj ((splitOn_cons hnext).symm.trans htokens)
      cases isIndexNow
      · simp [compareFrom, ih _ _ _ hrest hnext, wildCaseCompareWl_iff, Selects]
      · simp [compareFrom, ih _ _ _ hrest hnext, wildCaseCompareWl_iff, and_or_left, or_assoc]
    by_cases hindex : c = ';'
    · subst hindex
      obtain ⟨rfl, rfl⟩ : _ ∧ _ := List.cons.inj hclauses
      obtain ⟨rfl, rfl⟩ : first = [] ∧ tokens = [] := by simpa [eq_comm] using htokens
      cases isIndexNow <;>
        simp [compareFrom, ih _ _ _ hrest hnext, wildCaseCompareWl_iff, Selects, hnext]
    · rw [if_neg hindex] at hclauses
      obtain ⟨rfl, rfl⟩ : _ ∧ _ := List.cons.inj hclauses
      rw [splitOn_cons hnext, if_neg htable] at htokens
      obtain ⟨rfl, rfl⟩ : _ ∧ _ := List.cons.inj htokens
      rw [compareFrom, if_neg htable, if_neg hindex, ih _ _ _ hrest hnext, List.append_assoc]
      rfl

/-- Assumes: the index has a name. -/
theorem compare_index_config_iff (tableName indexName config : List Char)
    (hname : indexName ≠ []) :
    compareIndexConfig tableName indexName config = true ↔
      IsConfigured tableName indexName config := by
  obtain ⟨clause, clauses, hclauses⟩ := List.exists_cons_of_ne_nil (List.splitOn_ne_nil ';' config)
  obtain ⟨first, tokens, htokens⟩ := List.exists_cons_of_ne_nil (List.splitOn_ne_nil ':' clause)
  rw [compareIndexConfig, compareFrom_iff hname config false false [] hclauses htokens,
    IsConfigured, hclauses]
  simp [htokens]

theorem compare_index_config_primary :
    IsConfigured "db/t1".toList "PRIMARY".toList "db/x:a;DB/*:b:pri?ary".toList :=
  (compare_index_config_iff "db/t1".toList "PRIMARY".toList "db/x:a;DB/*:b:pri?ary".toList
    (by decide)).mp (by decide +kernel)

end TdhSocket.RowCache
