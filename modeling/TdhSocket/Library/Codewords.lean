import Mathlib.Data.List.Infix

/-!
# Cutting a concatenation of words

A byte stream is a concatenation of words followed by a part of one more word. However the bytes
read so far cut it, they are some of the words and a proper part of the next one, and what is still
to come completes them (`exists_split`). Where no word is a proper part of another, there is only
one way to see the bytes so (`flatten_append_inj`).
-/

set_option autoImplicit false

namespace TdhSocket.Library.Codewords

variable {Symbol : Type*}

/-- A list is a proper part of a word: a prefix of it that is shorter. -/
def ProperPart (part word : List Symbol) : Prop := part <+: word ∧ part.length < word.length

/-- Assumes: the bytes read so far and the bytes to come are a concatenation of words and a proper
part of one more word. The bytes read are the first of these words and a proper part of a word, and
with the bytes to come that part makes up the remaining words. -/
theorem exists_split (words : List (List Symbol)) (last tail : List Symbol)
    (htail : ProperPart tail last) (bytes rest : List Symbol)
    (hstream : bytes ++ rest = words.flatten ++ tail) :
    ∃ (count : ℕ) (part : List Symbol), count ≤ words.length ∧
      bytes = (words.take count).flatten ++ part ∧
      part ++ rest = (words.drop count).flatten ++ tail ∧
      ∃ word ∈ words ++ [last], ProperPart part word := by
  induction words generalizing bytes with
  | nil =>
    refine ⟨0, bytes, le_rfl, by simp, by simpa using hstream, last, by simp, ?_⟩
    have hbegins : bytes <+: tail := ⟨rest, by simpa using hstream⟩
    exact ⟨hbegins.trans htail.1, lt_of_le_of_lt hbegins.length_le htail.2⟩
  | cons word words ih =>
    rw [List.flatten_cons, List.append_assoc] at hstream
    by_cases hshort : bytes.length < word.length
    · refine ⟨0, bytes, by simp, by simp, by simpa using hstream, word, by simp, ?_, hshort⟩
      exact List.prefix_of_prefix_length_le ⟨rest, hstream⟩ ⟨_, rfl⟩ hshort.le
    · obtain ⟨more, rfl⟩ : word <+: bytes :=
        List.prefix_of_prefix_length_le ⟨_, rfl⟩ ⟨rest, hstream⟩ (not_lt.mp hshort)
      rw [List.append_assoc, List.append_cancel_left_eq] at hstream
      obtain ⟨count, part, hcount, hmore, hrest, other, hother, hpart⟩ := ih more hstream
      refine ⟨count + 1, part, by simpa using hcount, ?_, by simpa using hrest, other, ?_, hpart⟩
      · rw [hmore, List.take_succ_cons, List.flatten_cons, List.append_assoc]
      · exact List.mem_cons_of_mem _ hother

/-- No word of a code begins another word of it. -/
def NoWordBeginsAnother (code : Set (List Symbol)) : Prop :=
  ∀ word ∈ code, ∀ other ∈ code, word <+: other → word = other

/-- Assumes: no word of the code begins another. A proper part of a word does not begin with a whole
word. -/
theorem not_prefix_properPart {code : Set (List Symbol)} (hcode : NoWordBeginsAnother code)
    {word other part : List Symbol} (hword : word ∈ code) (hother : other ∈ code)
    (hpart : ProperPart part other) : ¬ word <+: part := by
  intro hbegins
  have heq := hcode word hword other hother (hbegins.trans hpart.1)
  have hle := hbegins.length_le
  rw [heq] at hle
  exact absurd hpart.2 (not_lt.mpr hle)

/-- Assumes: no word of the code begins another. Two ways to see a list as words of the code and a
proper part of a word are the same. -/
theorem flatten_append_inj {code : Set (List Symbol)} (hcode : NoWordBeginsAnother code)
    (words others : List (List Symbol)) (hwords : ∀ word ∈ words, word ∈ code)
    (hothers : ∀ word ∈ others, word ∈ code) {part rest : List Symbol}
    (hpart : ∃ word ∈ code, ProperPart part word) (hrest : ∃ word ∈ code, ProperPart rest word)
    (heq : words.flatten ++ part = others.flatten ++ rest) : words = others ∧ part = rest := by
  induction words generalizing others with
  | nil =>
    cases others with
    | nil => exact ⟨rfl, heq⟩
    | cons other others =>
      obtain ⟨word, hword, hproper⟩ := hpart
      refine absurd ?_ (not_prefix_properPart hcode (hothers other (by simp)) hword hproper)
      exact ⟨others.flatten ++ rest, by simpa using heq.symm⟩
  | cons first words ih =>
    cases others with
    | nil =>
      obtain ⟨word, hword, hproper⟩ := hrest
      refine absurd ?_ (not_prefix_properPart hcode (hwords first (by simp)) hword hproper)
      exact ⟨words.flatten ++ part, by simpa using heq⟩
    | cons other others =>
      simp only [List.flatten_cons, List.append_assoc] at heq
      have hfirst := hwords first (by simp)
      have hother := hothers other (by simp)
      have hsame : first = other := by
        rcases List.prefix_or_prefix_of_prefix ⟨_, heq⟩ ⟨_, rfl⟩ with hbegins | hbegins
        · exact hcode first hfirst other hother hbegins
        · exact (hcode other hother first hfirst hbegins).symm
      subst hsame
      obtain ⟨hrestWords, hparts⟩ := ih others (fun word hword ↦ hwords word (by simp [hword]))
        (fun word hword ↦ hothers word (by simp [hword])) (List.append_cancel_left heq)
      exact ⟨by rw [hrestWords], hparts⟩

end TdhSocket.Library.Codewords
