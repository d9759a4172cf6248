import Mathlib.Algebra.Group.Action.Defs
import Mathlib.Algebra.Order.BigOperators.Group.List
import TdhSocket.Client.Response
import TdhSocket.Execute.Reading

/-!
# Row counts as the client reads them

The answers of UPDATE, DELETE and COUNT have one row with the counters of the request. Their buffer
is made before the rows are visited, with ten bytes for each number, and the numbers are printed at
the end with `%d`. `row_counts_reach_client` gives the numbers for which the payload fits in the
buffer and is read by the client as these numbers. What the client reads is the printed texts in any
case (`parse_countsPayload`).
-/

set_option autoImplicit false

namespace TdhSocket.Client

open Execute Protocol Library Library.Program TdhSocket.Stream

variable {Outside Record : Type}

/-! ### The answer -/

/-- The counters that a request answers with. -/
inductive RowCounts where
  | updated (updateRowNum changeRowNum : ℕ)
  | counted (count : ℕ)
  deriving DecidableEq, Repr

namespace RowCounts

/-- The numbers in the order in which they are written. -/
def numbers : RowCounts → List ℕ
  | updated updateRowNum changeRowNum => [updateRowNum, changeRowNum]
  | counted count => [count]

/-- `write_update_ender_to_response` for UPDATE and DELETE, `write_count_ender_to_response` for
COUNT. -/
def writeEnder (owner : Owner) : RowCounts → Execution Outside Record Unit
  | updated updateRowNum changeRowNum =>
    writeUpdateEnderToResponse owner updateRowNum changeRowNum
  | counted count => writeCountEnderToResponse owner count

/-- The texts that stand in the payload. -/
def texts (counts : RowCounts) : List (List UInt8) :=
  counts.numbers.map fun number ↦ printedValue (printInt number)

end RowCounts

/-- The field size that `create_response_for_update` and `create_response_for_count` give. -/
def countFieldSize : ℕ := 10

/-- The bytes behind the frame header in the buffer of `write_update_header_to_response`. -/
def allocatedSize (num : ℕ) : ℕ := 4 + num + (4 + countFieldSize) * num

/-- The response from `tdhs_init_response` to the ender. -/
def answerCounts (world : World Outside Record) (owner : Owner) (counts : RowCounts) :
    Execution Outside Record RetCode := do
  tdhsInitResponse owner
  let ret ← writeUpdateHeaderToResponse world owner mysqlTypeLong countFieldSize
    counts.numbers.length
  if ret ≠ .ok then pure ret
  else do
    counts.writeEnder owner
    pure .ok

/-- The payload of the answer is that of a result with one row. -/
def countsPayload (counts : RowCounts) : List UInt8 :=
  encodeResult (List.replicate counts.numbers.length mysqlTypeLong) [counts.texts.map some]

/-! ### Printed texts -/

/-- The text `%d` prints begins with a digit or a minus sign, and so does what is copied of it. -/
theorem printedValue_printInt (number : ℕ) (hnumber : number < 2 ^ 32) :
    (number < 2 ^ 31 ∧ printedValue (printInt number) = decimal number) ∨
      (2 ^ 31 ≤ number ∧ ∃ rest, printedValue (printInt number) = 45 :: rest ∧
        rest.length ≤ 10) := by
  rcases Nat.lt_or_ge number (2 ^ 31) with hsmall | hlarge
  · have hprinted := (printed_eq_iff number).mpr hsmall
    rw [Nat.mod_eq_of_lt hnumber] at hprinted
    exact Or.inl ⟨hsmall, hprinted⟩
  · refine Or.inr ⟨hlarge,
      ((decimal (2 ^ 32 - number)).take 9 ++ [0]).take (decimal (2 ^ 32 - number)).length, ?_, ?_⟩
    · rw [printInt, if_neg (Nat.not_lt.mpr hlarge)]
      rfl
    · exact (List.length_take_le' _ _).trans (by simp)

variable {number : ℕ} {counts : RowCounts}

theorem printedValue_printInt_ne_nil (hnumber : number < 2 ^ 32) :
    printedValue (printInt number) ≠ [] := by
  rcases printedValue_printInt number hnumber with ⟨-, htext⟩ | ⟨-, rest, htext, -⟩
  · rw [htext]
    exact decimal_ne_nil number
  · rw [htext]
    exact List.cons_ne_nil _ _

theorem isSendable_printedValue (hnumber : number < 2 ^ 32) :
    IsSendable (some (printedValue (printInt number))) := by
  rcases printedValue_printInt number hnumber with ⟨hsmall, htext⟩ | ⟨-, rest, htext, hrest⟩
  · rw [htext]
    refine ⟨fun hzero ↦ ?_, ?_⟩
    · have hmem : (0 : UInt8) ∈ decimal number := by
        rw [Option.some.inj hzero]
        exact List.mem_cons_self
      exact absurd (toNat_of_mem_decimal hmem).1 (by decide)
    · have hlength : (decimal number).length ≤ 10 :=
        length_decimal_le (by decide) (lt_trans hsmall (by decide))
      exact lt_of_le_of_lt hlength (by decide)
  · rw [htext]
    refine ⟨fun hzero ↦ absurd (List.cons.inj (Option.some.inj hzero)).1 (by decide), ?_⟩
    exact lt_of_le_of_lt (Nat.succ_le_succ hrest) (by decide)

/-- Assumes: the number is a `uint32_t`. -/
theorem isDecimalOf_printed_iff (hnumber : number < 2 ^ 32) :
    IsDecimalOf number (printedValue (printInt number)) ↔ number < 2 ^ 31 := by
  rcases printedValue_printInt number hnumber with ⟨hsmall, htext⟩ | ⟨hlarge, rest, htext, -⟩
  · rw [htext]
    exact iff_of_true (isDecimalOf_decimal number) hsmall
  · refine iff_of_false (fun hdecimal ↦ ?_) (Nat.not_lt.mpr hlarge)
    have hminus := hdecimal.digits 45 (htext ▸ List.mem_cons_self)
    exact absurd hminus.1 (by decide)

/-! ### The payload -/

theorem appendValue_apply (owner : Owner) (text : List UInt8) (context : Context Outside Record) :
    ∃ after, appendValue owner text context = some ((), after) ∧
      (after.response owner).wbuff = (context.response owner).wbuff ++
        (BigEndian.toBytes text.length ++ text) ∧
      (after.response owner).length = (context.response owner).length + (4 + text.length) := by
  obtain ⟨after, hset, hresponse, -⟩ := setResponse_apply owner
    (fun response ↦
      { response with
        wbuff := response.wbuff ++ (BigEndian.toBytes text.length ++ text)
        length := response.length + (4 + text.length) }) context
  refine ⟨after, hset, ?_⟩
  rw [hresponse]
  exact ⟨rfl, rfl⟩

theorem encodeValue_some {text : List UInt8} (htext : text ≠ []) :
    encodeValue (some text) = BigEndian.toBytes text.length ++ text := by
  obtain ⟨byte, bytes, rfl⟩ := List.exists_cons_of_ne_nil htext
  rfl

/-- The ender appends the values of the row. Assumes: the numbers are of the type `uint32_t`. -/
theorem writeEnder_apply (hnumbers : ∀ number ∈ counts.numbers, number < 2 ^ 32) (owner : Owner)
    (context : Context Outside Record) :
    ∃ after, counts.writeEnder owner context = some ((), after) ∧
      (after.response owner).wbuff = (context.response owner).wbuff ++
        (counts.texts.map some).flatMap encodeValue ∧
      (after.response owner).length = (context.response owner).length +
        ((counts.texts.map some).flatMap encodeValue).length := by
  have hvalue : ∀ number ∈ counts.numbers, encodeValue (some (printedValue (printInt number))) =
      BigEndian.toBytes (printedValue (printInt number)).length ++
        printedValue (printInt number) := fun number hnumber ↦
    encodeValue_some (printedValue_printInt_ne_nil (hnumbers number hnumber))
  cases counts with
  | counted count =>
    obtain ⟨after, happend, hwbuff, hlength⟩ :=
      appendValue_apply owner (printedValue (printInt count)) context
    refine ⟨after, happend, ?_, ?_⟩
    · rw [hwbuff, ← hvalue count List.mem_cons_self]
      simp [RowCounts.texts, RowCounts.numbers]
    · have hsize := congrArg List.length (hvalue count List.mem_cons_self)
      rw [List.length_append, BigEndian.length_toBytes] at hsize
      rw [hlength, ← hsize]
      simp [RowCounts.texts, RowCounts.numbers]
  | updated updateRowNum changeRowNum =>
    have hsecond : changeRowNum ∈ (RowCounts.updated updateRowNum changeRowNum).numbers :=
      List.mem_cons_of_mem _ List.mem_cons_self
    obtain ⟨middle, hfirst, hwbuff, hlength⟩ :=
      appendValue_apply owner (printedValue (printInt updateRowNum)) context
    obtain ⟨after, happend, hwbuff', hlength'⟩ :=
      appendValue_apply owner (printedValue (printInt changeRowNum)) middle
    refine ⟨after, (bind_of_eq_some hfirst).trans happend, ?_, ?_⟩
    · rw [hwbuff', hwbuff, ← hvalue updateRowNum List.mem_cons_self, ← hvalue changeRowNum hsecond]
      simp [RowCounts.texts, RowCounts.numbers]
    · have hsize := congrArg List.length (hvalue updateRowNum List.mem_cons_self)
      have hsize' := congrArg List.length (hvalue changeRowNum hsecond)
      rw [List.length_append, BigEndian.length_toBytes] at hsize hsize'
      rw [hlength', hlength, ← hsize, ← hsize']
      simp [RowCounts.texts, RowCounts.numbers, Nat.add_assoc]

/-- Assumes: there is memory for the buffer, and the numbers are of the type `uint32_t`. -/
theorem answerCounts_apply {world : World Outside Record} {context : Context Outside Record}
    (hcreated : (world.easyBufCreate (allocatedSize counts.numbers.length + tdhSocketHeaderLength)
      context.outside).1 = true) (hnumbers : ∀ number ∈ counts.numbers, number < 2 ^ 32)
    (owner : Owner) :
    ∃ final, answerCounts world owner counts context = some (.ok, final) ∧
      (final.response owner).wbuff = countsPayload counts ∧
      (final.response owner).length = (countsPayload counts).length := by
  obtain ⟨ready, hready, hinit, houtside, -⟩ := setResponse_apply owner
    (fun response ↦ { response with code := clientStatusOk, length := 0 }) context
  rw [← houtside] at hcreated
  obtain ⟨opened, hheader, -, hresponse⟩ := writeHeader_apply hcreated owner
    (List.replicate counts.numbers.length mysqlTypeLong)
  obtain ⟨final, hender, hwbuff, hlength⟩ := writeEnder_apply hnumbers owner opened
  refine ⟨final, ?_, ?_, ?_⟩
  · have hstarted : tdhsInitResponse owner context = some ((), ready) := hready
    have hwritten : writeUpdateHeaderToResponse world owner mysqlTypeLong countFieldSize
        counts.numbers.length ready = some (.ok, opened) := hheader
    rw [answerCounts, bind_of_eq_some hstarted, bind_of_eq_some hwritten, if_neg (by decide),
      bind_of_eq_some hender]
    rfl
  · rw [hwbuff, hresponse]
    simp [countsPayload, encodeResult]
  · rw [hlength, hresponse, hinit]
    simp [countsPayload, encodeResult, Nat.add_assoc]

/-- The client reads the printed texts. Assumes: the numbers are of the type `uint32_t`. -/
theorem parse_countsPayload (hnumbers : ∀ number ∈ counts.numbers, number < 2 ^ 32) :
    parse (countsPayload counts) (countsPayload counts).length =
      some (List.replicate counts.numbers.length mysqlTypeLong, [counts.texts.map some]) := by
  have hsome : 0 < counts.numbers.length ∧ counts.numbers.length < 2 ^ 32 := by
    cases counts with
    | updated => exact ⟨Nat.two_pos, Nat.lt_of_sub_eq_succ rfl⟩
    | counted => exact ⟨Nat.one_pos, Nat.one_lt_two_pow (by decide)⟩
  refine parse_encodeResult ?_ ?_ fun row hrow ↦ ?_
  · intro hnil
    have hzero := congrArg List.length hnil
    rw [List.length_replicate] at hzero
    exact absurd hzero hsome.1.ne'
  · rw [List.length_replicate]
    exact hsome.2
  · rw [List.mem_singleton.mp hrow]
    refine ⟨by simp [RowCounts.texts], fun value hvalue ↦ ?_⟩
    obtain ⟨text, htext, rfl⟩ := List.mem_map.mp hvalue
    obtain ⟨number, hnumber, rfl⟩ := List.mem_map.mp htext
    exact isSendable_printedValue (hnumbers number hnumber)

/-- The response stays in its buffer, and the client reads numbers from it. -/
def ReachesClient (counts : RowCounts) (response : Response) : Prop :=
  response.wbuff.length ≤ allocatedSize counts.numbers.length ∧
    ∃ fieldTypes texts, parse response.wbuff response.length = some (fieldTypes, [texts.map some]) ∧
      List.Forall₂ IsDecimalOf counts.numbers texts

/-- Assumes: no text is longer than the field size. -/
theorem length_countsPayload_le
    (htexts : ∀ text ∈ counts.texts, text ≠ [] ∧ text.length ≤ countFieldSize) :
    (countsPayload counts).length ≤ allocatedSize counts.numbers.length := by
  have hsize : ∀ value ∈ counts.texts.map some,
      (encodeValue value).length ≤ 4 + countFieldSize := by
    intro value hvalue
    obtain ⟨text, htext, rfl⟩ := List.mem_map.mp hvalue
    rw [encodeValue_some (htexts text htext).1, List.length_append, BigEndian.length_toBytes]
    exact Nat.add_le_add_left (htexts text htext).2 4
  have hsum := List.sum_le_card_nsmul ((counts.texts.map some).map fun value ↦
    (encodeValue value).length) (4 + countFieldSize) fun size hmem ↦ by
      obtain ⟨value, hvalue, rfl⟩ := List.mem_map.mp hmem
      exact hsize value hvalue
  rw [List.length_map, List.length_map, RowCounts.texts, List.length_map, smul_eq_mul] at hsum
  rw [countsPayload, encodeResult, allocatedSize, List.flatMap_singleton, List.length_append,
    List.length_append, BigEndian.length_toBytes, List.length_replicate, List.length_flatMap,
    Nat.mul_comm]
  exact Nat.add_le_add_left hsum _

/-- The payload of an UPDATE, DELETE or COUNT stays in its buffer and is read by the client as the
numbers of rows, exactly if each of them is below `2 ^ 31`. Assumes: there is memory for the buffer,
and the numbers are of the type `uint32_t`. -/
theorem row_counts_reach_client {world : World Outside Record} {counts : RowCounts}
    {context : Context Outside Record}
    (hcreated : (world.easyBufCreate (allocatedSize counts.numbers.length + tdhSocketHeaderLength)
      context.outside).1 = true)
    (hnumbers : ∀ number ∈ counts.numbers, number < 2 ^ 32) (owner : Owner) :
    ∃ final, answerCounts world owner counts context = some (.ok, final) ∧
      (ReachesClient counts (final.response owner) ↔
        ∀ number ∈ counts.numbers, number < 2 ^ 31) := by
  obtain ⟨final, hanswer, hwbuff, hlength⟩ := answerCounts_apply hcreated hnumbers owner
  refine ⟨final, hanswer, ?_, fun hsmall ↦ ?_⟩
  · rintro ⟨-, fieldTypes, texts, hparse, hdenote⟩ number hnumber
    rw [hwbuff, hlength, parse_countsPayload hnumbers] at hparse
    have hrow := (List.cons.inj (Prod.mk.inj (Option.some.inj hparse)).2).1
    rw [← (List.map_injective_iff.mpr (Option.some_injective _)) hrow, RowCounts.texts,
      List.forall₂_map_right_iff, List.forall₂_same] at hdenote
    exact (isDecimalOf_printed_iff (hnumbers number hnumber)).mp (hdenote number hnumber)
  · rw [ReachesClient, hwbuff, hlength, parse_countsPayload hnumbers]
    refine ⟨length_countsPayload_le fun text htext ↦ ?_, _, counts.texts, rfl, ?_⟩
    · obtain ⟨number, hnumber, rfl⟩ := List.mem_map.mp htext
      refine ⟨printedValue_printInt_ne_nil (hnumbers number hnumber), ?_⟩
      have hprinted := (printed_eq_iff number).mpr (hsmall number hnumber)
      rw [Nat.mod_eq_of_lt (hnumbers number hnumber)] at hprinted
      rw [hprinted]
      exact length_decimal_le (by decide) (lt_trans (hsmall number hnumber) (by decide))
    · rw [RowCounts.texts, List.forall₂_map_right_iff, List.forall₂_same]
      exact fun number hnumber ↦
        (isDecimalOf_printed_iff (hnumbers number hnumber)).mpr (hsmall number hnumber)

/-- Two rows found and one changed. -/
theorem row_counts_reach_client_two :
    ∃ final, answerCounts (scriptedWorld fun _ ↦ false) ⟨0, 0⟩ (.updated 2 1) (scriptedStart []) =
        some (.ok, final) ∧ ReachesClient (.updated 2 1) (final.response ⟨0, 0⟩) := by
  obtain ⟨final, hanswer, hreaches⟩ := @row_counts_reach_client _ _ (scriptedWorld fun _ ↦ false)
    (.updated 2 1) (scriptedStart []) rfl (by decide) ⟨0, 0⟩
  exact ⟨final, hanswer, hreaches.mpr (by decide)⟩

/-- For 2147483648 rows twenty bytes are written behind the header of the frame, where nineteen were
allocated, and the text is not that of a number: it is "-214748364" and a zero byte. -/
theorem count_of_two_pow_31 :
    ∃ final, answerCounts (scriptedWorld fun _ ↦ false) ⟨0, 0⟩ (.counted (2 ^ 31))
        (scriptedStart []) = some (.ok, final) ∧
      ¬ (final.response ⟨0, 0⟩).wbuff.length ≤ allocatedSize 1 ∧
      parse (final.response ⟨0, 0⟩).wbuff (final.response ⟨0, 0⟩).length =
        some ([mysqlTypeLong], [[some [45, 50, 49, 52, 55, 52, 56, 51, 54, 52, 0]]]) := by
  obtain ⟨final, hanswer, hwbuff, hlength⟩ := answerCounts_apply
    (show ((scriptedWorld fun _ ↦ false).easyBufCreate _ (scriptedStart []).outside).1 = true
      from rfl) (show ∀ number ∈ (RowCounts.counted (2 ^ 31)).numbers, number < 2 ^ 32 by decide)
    ⟨0, 0⟩
  refine ⟨final, hanswer, ?_, ?_⟩
  · rw [hwbuff]
    decide +kernel
  · rw [hwbuff, hlength]
    decide +kernel

end TdhSocket.Client
