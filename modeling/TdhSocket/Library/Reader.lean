import Mathlib.Data.List.Basic

/-!
# Readers with a budget and a trace

A reader walks over a payload with a cursor: the position of the next byte and a budget, the number
of bytes it believes are left. It returns a value or a failure together with the cursor it stopped
at and the trace of its accesses, reads of payload bytes and stores to places of an arbitrary type.
The trace is kept when a reader fails.

Two notions compose along `bind` and along the counted loop `Reader.repeatFrom`. `Safe` says that
every run reads inside the payload and stores to allowed places only. `Recognises` says exactly
which words a reader accepts, and with which value: it accepts nothing else (`sound`) and every
such word in front of any bytes (`complete`). Where a reader is safe on some payloads only,
`safeOn_bind` and `safeOn_repeatFrom` say on which, in terms of the words read before.
-/

set_option autoImplicit false

namespace TdhSocket.Library

/-- The position of the next byte and the number of bytes believed to be left. -/
structure Cursor where
  pos : ℕ
  left : ℕ
  deriving DecidableEq, Repr

/-- An access of a run: a read of payload bytes or a store to a place. -/
inductive Access (Place : Type)
  | read (offset count : ℕ)
  | store (place : Place)
  deriving DecidableEq, Repr

/-- A read is inside a payload of a length, a store goes to an allowed place. -/
def Access.Inside {Place : Type} (allowed : Place → Prop) (length : ℕ) : Access Place → Prop
  | .read offset count => offset + count ≤ length
  | .store place => allowed place

/-- What a run of a reader leaves. -/
structure Outcome (Place Failure Value : Type) where
  result : Except Failure Value
  cursor : Cursor
  trace : List (Access Place)

/-- A reader of a payload from a cursor on. -/
def Reader (Place Failure Value : Type) : Type :=
  List UInt8 → Cursor → Outcome Place Failure Value

namespace Reader

variable {Place Failure Value Next Wire : Type}

/-! ### Operations -/

/-- Two readers one after the other: the first failure ends the run. -/
def bind (first : Reader Place Failure Value) (next : Value → Reader Place Failure Next) :
    Reader Place Failure Next := fun payload cursor ↦
  let outcome := first payload cursor
  match outcome.result with
  | .error failure => ⟨.error failure, outcome.cursor, outcome.trace⟩
  | .ok value =>
    let rest := next value payload outcome.cursor
    ⟨rest.result, rest.cursor, outcome.trace ++ rest.trace⟩

instance : Monad (Reader Place Failure) where
  pure value := fun _ cursor ↦ ⟨.ok value, cursor, []⟩
  bind := bind

/-- A reader that fails. -/
def fail (failure : Failure) : Reader Place Failure Value :=
  fun _ cursor ↦ ⟨.error failure, cursor, []⟩

/-- Go on only if a condition holds. -/
def ensure (condition : Bool) (failure : Failure) : Reader Place Failure Unit :=
  if condition then pure () else fail failure

/-- The next bytes, if the budget allows them. -/
def take (short : Failure) (count : ℕ) : Reader Place Failure (List UInt8) :=
  fun payload cursor ↦
    if cursor.left < count then ⟨.error short, cursor, []⟩
    else ⟨.ok ((payload.drop cursor.pos).take count),
      ⟨cursor.pos + count, cursor.left - count⟩, [.read cursor.pos count]⟩

/-- A store to a place. -/
def store (place : Place) : Reader Place Failure Unit :=
  fun _ cursor ↦ ⟨.ok (), cursor, [.store place]⟩

/-- The remaining budget. -/
def budget : Reader Place Failure ℕ := fun _ cursor ↦ ⟨.ok cursor.left, cursor, []⟩

/-- The loop `for (i = start; i < start + count; i++)` over a reader. -/
def repeatFrom (body : ℕ → Reader Place Failure Value) :
    ℕ → ℕ → Reader Place Failure (List Value)
  | _, 0 => pure []
  | start, count + 1 => do
    let value ← body start
    let values ← repeatFrom body (start + 1) count
    pure (value :: values)

/-- A reader whose every failure is reported as one code. -/
def failAs (failure : Failure) (reader : Reader Place Failure Value) :
    Reader Place Failure Value := fun payload cursor ↦
  let outcome := reader payload cursor
  match outcome.result with
  | .error _ => { outcome with result := .error failure }
  | .ok _ => outcome

/-- A reader that has to use up the payload. -/
def whole (failure : Failure) (reader : Reader Place Failure Value) :
    Reader Place Failure Value := do
  let value ← reader
  let left ← budget
  ensure (left == 0) failure
  pure value

/-- A run behind the bytes `before`, with the bytes `rest` left. -/
def runOn (reader : Reader Place Failure Value) (before rest : List UInt8) :
    Outcome Place Failure Value :=
  reader (before ++ rest) ⟨before.length, rest.length⟩

/-- The run succeeded with a value and used up a word of the rest. -/
def Yields (reader : Reader Place Failure Value) (before word tail : List UInt8) (value : Value) :
    Prop :=
  (runOn reader before (word ++ tail)).result = .ok value ∧
    (runOn reader before (word ++ tail)).cursor = ⟨(before ++ word).length, tail.length⟩

/-! ### Sequences -/

variable {before word tail rest part more : List UInt8} {value : Value} {failure other : Failure}
  {reader : Reader Place Failure Value} {Word : Value → List UInt8 → Prop}
  {body : ℕ → Reader Place Failure Value} {WordAt : ℕ → Value → List UInt8 → Prop}
  {view : Wire → Value} {allowed : Place → Prop} {first : Reader Place Failure Value}
  {next : Value → Reader Place Failure Next}

theorem runOn_bind_of_yields
    (hfirst : Yields first before word tail value) :
    runOn (first >>= next) before (word ++ tail) =
      ⟨(runOn (next value) (before ++ word) tail).result,
        (runOn (next value) (before ++ word) tail).cursor,
        (runOn first before (word ++ tail)).trace ++
          (runOn (next value) (before ++ word) tail).trace⟩ := by
  obtain ⟨hresult, hcursor⟩ := hfirst
  change bind first next _ _ = _
  unfold runOn at hresult hcursor ⊢
  simp only [bind, hresult, hcursor, List.append_assoc]

theorem runOn_bind_of_error
    (hfirst : (runOn first before rest).result = .error failure) :
    runOn (first >>= next) before rest =
      ⟨.error failure, (runOn first before rest).cursor, (runOn first before rest).trace⟩ := by
  change bind first next _ _ = _
  unfold runOn at hfirst ⊢
  simp only [bind, hfirst]

theorem Yields.bind
    {result : Next} (hfirst : Yields first before part (more ++ tail) value)
    (hnext : Yields (next value) (before ++ part) more tail result) :
    Yields (first >>= next) before (part ++ more) tail result := by
  obtain ⟨hresult, hcursor⟩ := hnext
  unfold Yields
  rw [List.append_assoc, runOn_bind_of_yields hfirst]
  refine ⟨hresult, hcursor.trans ?_⟩
  rw [List.append_assoc]

/-! ### Accepted words -/

/-- The words a reader accepts, with the values it returns for them. -/
structure Recognises (reader : Reader Place Failure Value) (Word : Value → List UInt8 → Prop) :
    Prop where
  sound : ∀ {before rest : List UInt8} {value : Value},
    (runOn reader before rest).result = .ok value →
      ∃ word tail, rest = word ++ tail ∧ Word value word ∧ Yields reader before word tail value
  complete : ∀ (before : List UInt8) {word : List UInt8} (tail : List UInt8) {value : Value},
    Word value word → Yields reader before word tail value

/-- The words of a reader are found in one way only. -/
theorem Recognises.unique (hreader : Recognises reader Word) {other : Value}
    (hword : Word value word) (hpart : Word other part) (hsame : word ++ tail = part ++ more) :
    value = other ∧ word = part ∧ tail = more := by
  have hfirst := hreader.complete [] tail hword
  have hsecond := hreader.complete [] more hpart
  rw [Yields, hsame, hsecond.1, hsecond.2] at hfirst
  obtain ⟨hvalue, hcursor⟩ := hfirst
  rw [Cursor.mk.injEq] at hcursor
  obtain ⟨hwords, htails⟩ := List.append_inj' hsame hcursor.2.symm
  exact ⟨(Except.ok.inj hvalue).symm, hwords, htails⟩

/-- The same words, described in another way. -/
theorem Recognises.congr {Word' : Value → List UInt8 → Prop} (hreader : Recognises reader Word)
    (hsame : ∀ value word, Word value word ↔ Word' value word) : Recognises reader Word' where
  sound := by
    intro before rest value hresult
    obtain ⟨word, tail, hrest, hword, hyields⟩ := hreader.sound hresult
    exact ⟨word, tail, hrest, (hsame value word).mp hword, hyields⟩
  complete := fun before _ tail _ hword ↦ hreader.complete before tail ((hsame _ _).mpr hword)

/-- A reader that uses nothing up and does not look at the payload. -/
theorem recognises_of_still (Accepts : Value → Prop)
    (hcursor : ∀ payload cursor, (reader payload cursor).cursor = cursor)
    (hresult : ∀ payload cursor value,
      (reader payload cursor).result = .ok value ↔ Accepts value) :
    Recognises reader fun value word ↦ Accepts value ∧ word = [] where
  sound := by
    intro before rest value hvalue
    refine ⟨[], rest, rfl, ⟨(hresult _ _ _).mp hvalue, rfl⟩, hvalue, ?_⟩
    rw [List.append_nil]
    exact hcursor _ _
  complete := by
    rintro before _ tail value ⟨hvalue, rfl⟩
    refine ⟨(hresult _ _ _).mpr hvalue, ?_⟩
    rw [List.append_nil]
    exact hcursor _ _

theorem recognises_pure (value : Value) :
    Recognises (pure value : Reader Place Failure Value)
      fun other word ↦ other = value ∧ word = [] :=
  recognises_of_still (· = value) (fun _ _ ↦ rfl) fun _ _ other ↦ by
    change Except.ok value = Except.ok other ↔ other = value
    rw [Except.ok.injEq, eq_comm]

theorem recognises_store (place : Place) :
    Recognises (store place : Reader Place Failure Unit) fun _ word ↦ word = [] :=
  (recognises_of_still (fun _ ↦ True) (fun _ _ ↦ rfl) fun _ _ other ↦ by
    simp [store]).congr fun _ _ ↦ by simp

theorem recognises_ensure (condition : Bool) (failure : Failure) :
    Recognises (ensure condition failure : Reader Place Failure Unit)
      fun _ word ↦ condition = true ∧ word = [] := by
  refine recognises_of_still (fun _ ↦ condition = true) ?_ ?_
  · intro payload cursor
    unfold ensure
    split_ifs <;> rfl
  · intro payload cursor other
    unfold ensure
    split_ifs with hcondition
    · simp [pure, hcondition]
    · simp [fail, hcondition]

theorem recognises_take (short : Failure) (count : ℕ) :
    Recognises (take short count : Reader Place Failure (List UInt8))
      fun bytes word ↦ bytes = word ∧ word.length = count where
  sound := by
    intro before rest bytes hresult
    unfold runOn take at hresult
    dsimp only at hresult
    split_ifs at hresult with hshort
    rw [List.drop_left] at hresult
    cases hresult
    have hcount : (rest.take count).length = count := by
      rw [List.length_take, Nat.min_eq_left (Nat.not_lt.mp hshort)]
    refine ⟨rest.take count, rest.drop count, (List.take_append_drop _ _).symm, ⟨rfl, hcount⟩, ?_⟩
    unfold Yields runOn take
    rw [List.take_append_drop]
    dsimp only
    rw [if_neg hshort, List.drop_left, List.length_append, hcount, List.length_drop]
    exact ⟨rfl, rfl⟩
  complete := by
    rintro before word tail bytes ⟨rfl, hcount⟩
    have henough : ¬ (bytes ++ tail).length < count := by
      rw [List.length_append]
      omega
    have hleft : (bytes ++ tail).length - count = tail.length := by
      rw [List.length_append]
      omega
    unfold Yields runOn take
    dsimp only
    rw [if_neg henough, hleft, List.drop_left, List.length_append, hcount]
    exact ⟨congrArg Except.ok (List.take_left' hcount), rfl⟩

/-- A sequence accepts a word of its first part followed by a word of its second part. -/
theorem Recognises.bind
    {NextWord : Value → Next → List UInt8 → Prop}
    (hfirst : Recognises first Word) (hnext : ∀ value, Recognises (next value) (NextWord value)) :
    Recognises (first >>= next) fun result word ↦ ∃ value part more,
      Word value part ∧ NextWord value result more ∧ word = part ++ more where
  sound := by
    intro before rest result hresult
    cases hmiddle : (runOn first before rest).result with
    | error failure =>
      rw [runOn_bind_of_error hmiddle] at hresult
      cases hresult
    | ok value =>
      obtain ⟨part, others, rfl, hpart, hyields⟩ := hfirst.sound hmiddle
      rw [runOn_bind_of_yields hyields] at hresult
      obtain ⟨more, tail, rfl, hmore, hdone⟩ := (hnext value).sound hresult
      exact ⟨part ++ more, tail, (List.append_assoc _ _ _).symm,
        ⟨value, part, more, hpart, hmore, rfl⟩, hyields.bind hdone⟩
  complete := by
    rintro before word tail result ⟨value, part, more, hpart, hmore, rfl⟩
    exact (hfirst.complete before _ hpart).bind ((hnext value).complete _ tail hmore)

theorem Recognises.failAs (hreader : Recognises reader Word) (failure : Failure) :
    Recognises (failAs failure reader) Word := by
  have hyields : ∀ {before word tail value}, Yields reader before word tail value →
      Yields (Reader.failAs failure reader) before word tail value := by
    rintro before word tail value ⟨hresult, hcursor⟩
    unfold Yields runOn Reader.failAs at *
    simp only [hresult, hcursor, and_self]
  constructor
  · intro before rest value hresult
    have hsame : (runOn reader before rest).result = .ok value := by
      unfold runOn Reader.failAs at hresult
      dsimp only at hresult
      split at hresult
      · cases hresult
      · exact hresult
    obtain ⟨word, tail, hrest, hword, hdone⟩ := hreader.sound hsame
    exact ⟨word, tail, hrest, hword, hyields hdone⟩
  · intro before word tail value hword
    exact hyields (hreader.complete before tail hword)

/-- The words of a loop: one word for each value, where the words may depend on the loop index. -/
def Words (WordAt : ℕ → Value → List UInt8 → Prop) : ℕ → List Value → List UInt8 → Prop
  | _, [], word => word = []
  | start, value :: values, word => ∃ part more, WordAt start value part ∧
    Words WordAt (start + 1) values more ∧ word = part ++ more

theorem Recognises.repeatFrom (hbody : ∀ index, Recognises (body index) (WordAt index))
    (start count : ℕ) :
    Recognises (repeatFrom body start count)
      fun values word ↦ values.length = count ∧ Words WordAt start values word := by
  induction count generalizing start with
  | zero =>
    refine (recognises_pure []).congr fun values word ↦ ?_
    constructor
    · rintro ⟨rfl, rfl⟩
      exact ⟨rfl, rfl⟩
    · rintro ⟨hlength, hword⟩
      obtain rfl := List.length_eq_zero_iff.mp hlength
      exact ⟨rfl, hword⟩
  | succ count ih =>
    refine ((hbody start).bind fun value ↦ (ih (start + 1)).bind fun values ↦
      recognises_pure (value :: values)).congr fun values word ↦ ?_
    constructor
    · rintro ⟨value, part, more, hpart, ⟨others, rest, last, ⟨hlength, hrest⟩, ⟨rfl, rfl⟩, rfl⟩,
        rfl⟩
      rw [List.append_nil]
      exact ⟨by rw [List.length_cons, hlength], part, rest, hpart, hrest, rfl⟩
    · rintro ⟨hlength, hword⟩
      cases values with
      | nil => cases hlength
      | cons value others =>
        obtain ⟨part, more, hpart, hmore, rfl⟩ := hword
        exact ⟨value, part, more, hpart,
          ⟨others, more, [], ⟨Nat.succ.inj hlength, hmore⟩, ⟨rfl, rfl⟩, by rw [List.append_nil]⟩,
          rfl⟩

/-- The words of a reader are the encodings of the things of a kind, each read as its view. -/
def Reads (reader : Reader Place Failure Value) (Valid : Wire → Prop) (view : Wire → Value)
    (encode : Wire → List UInt8) : Prop :=
  Recognises reader fun value word ↦
    ∃ wire, Valid wire ∧ value = view wire ∧ word = encode wire

/-- The words of a loop over the encodings of the things of a kind. -/
theorem words_iff {ValidAt : ℕ → Wire → Prop} {encode : Wire → List UInt8} (start : ℕ)
    (values : List Value) (word : List UInt8) :
    Words (fun index value part ↦
        ∃ wire, ValidAt index wire ∧ value = view wire ∧ part = encode wire) start values word ↔
      ∃ wires : List Wire,
        (∀ index wire, wires[index]? = some wire → ValidAt (start + index) wire) ∧
        values = wires.map view ∧ word = wires.flatMap encode := by
  induction values generalizing start word with
  | nil =>
    constructor
    · intro hword
      exact ⟨[], by simp, rfl, hword⟩
    · rintro ⟨wires, -, hvalues, rfl⟩
      obtain rfl := List.map_eq_nil_iff.mp hvalues.symm
      rfl
  | cons value values ih =>
    simp only [Words, ih]
    constructor
    · rintro ⟨_, _, ⟨wire, hwire, rfl, rfl⟩, ⟨wires, hwires, rfl, rfl⟩, rfl⟩
      refine ⟨wire :: wires, ?_, rfl, rfl⟩
      intro index other hother
      cases index with
      | zero =>
        obtain rfl : wire = other := by simpa using hother
        exact hwire
      | succ index =>
        have hvalid := hwires index other (by simpa using hother)
        rwa [Nat.add_right_comm] at hvalid
    · rintro ⟨wires, hwires, hvalues, rfl⟩
      cases wires with
      | nil => cases hvalues
      | cons wire wires =>
        obtain ⟨rfl, rfl⟩ := hvalues
        refine ⟨encode wire, wires.flatMap encode,
          ⟨wire, hwires 0 wire rfl, rfl, rfl⟩, ⟨wires, ?_, rfl, rfl⟩, rfl⟩
        intro index other hother
        have hvalid := hwires (index + 1) other hother
        rwa [← Nat.add_assoc, Nat.add_right_comm] at hvalid

/-- Assumes: each round of a loop reads things of a kind. The loop reads lists of them. -/
theorem Reads.repeatFrom {ValidAt : ℕ → Wire → Prop} {encode : Wire → List UInt8}
    (hbody : ∀ index, Reads (body index) (ValidAt index) view encode) (count : ℕ) :
    Reads (repeatFrom body 0 count)
      (fun wires : List Wire ↦ wires.length = count ∧
        ∀ index wire, wires[index]? = some wire → ValidAt index wire)
      (List.map view) (List.flatMap encode) := by
  refine (Recognises.repeatFrom hbody 0 count).congr fun values word ↦ ?_
  rw [words_iff]
  simp only [Nat.zero_add]
  constructor
  · rintro ⟨hlength, wires, hvalid, rfl, rfl⟩
    exact ⟨wires, ⟨by simpa using hlength, hvalid⟩, rfl, rfl⟩
  · rintro ⟨wires, ⟨hlength, hvalid⟩, rfl, rfl⟩
    exact ⟨by simpa using hlength, wires, hvalid, rfl, rfl⟩

section Reads

variable {Valid : Wire → Prop} {encode : Wire → List UInt8} {OtherWire : Type}

theorem reads_pure (value : Value) :
    Reads (pure value : Reader Place Failure Value) (fun _ : Unit ↦ True) (fun _ ↦ value)
      fun _ ↦ [] :=
  (recognises_pure value).congr fun _ _ ↦ by simp

/-- The value that is read is put into another one. -/
theorem Reads.map (hreads : Reads reader Valid view encode) (build : Value → Next) :
    Reads (reader >>= fun value ↦ pure (build value)) Valid (fun wire ↦ build (view wire))
      encode := by
  refine (Recognises.bind hreads fun value ↦ recognises_pure (build value)).congr fun _ _ ↦ ?_
  constructor
  · rintro ⟨_, _, _, ⟨wire, hvalid, rfl, rfl⟩, ⟨rfl, rfl⟩, rfl⟩
    exact ⟨wire, hvalid, rfl, List.append_nil _⟩
  · rintro ⟨wire, hvalid, rfl, rfl⟩
    exact ⟨_, _, [], ⟨wire, hvalid, rfl, rfl⟩, ⟨rfl, rfl⟩, (List.append_nil _).symm⟩

/-- One thing is read behind another. -/
theorem Reads.seq {OtherValid : Value → OtherWire → Prop}
    {otherView : Value → OtherWire → Next} {otherEncode : OtherWire → List UInt8}
    (hreads : Reads reader Valid view encode)
    (hnext : ∀ value, Reads (next value) (OtherValid value) (otherView value) otherEncode) :
    Reads (reader >>= next)
      (fun wire : Wire × OtherWire ↦ Valid wire.1 ∧ OtherValid (view wire.1) wire.2)
      (fun wire ↦ otherView (view wire.1) wire.2)
      (fun wire ↦ encode wire.1 ++ otherEncode wire.2) := by
  refine (Recognises.bind hreads hnext).congr fun _ _ ↦ ?_
  constructor
  · rintro ⟨_, _, _, ⟨wire, hvalid, rfl, rfl⟩, ⟨other, hother, rfl, rfl⟩, rfl⟩
    exact ⟨(wire, other), ⟨hvalid, hother⟩, rfl, rfl⟩
  · rintro ⟨⟨wire, other⟩, ⟨hvalid, hother⟩, rfl, rfl⟩
    exact ⟨_, _, _, ⟨wire, hvalid, rfl, rfl⟩, ⟨other, hother, rfl, rfl⟩, rfl⟩

/-- A check in front that reads nothing. -/
theorem Reads.behind {Passes : Prop} {check : Reader Place Failure Unit}
    (hcheck : Recognises check fun _ word ↦ Passes ∧ word = [])
    (hreads : Reads reader Valid view encode) :
    Reads (check >>= fun _ ↦ reader) (fun wire ↦ Passes ∧ Valid wire) view encode := by
  refine (hcheck.bind fun _ ↦ hreads).congr fun _ _ ↦ ?_
  constructor
  · rintro ⟨_, _, _, ⟨hpasses, rfl⟩, ⟨wire, hvalid, rfl, rfl⟩, rfl⟩
    exact ⟨wire, ⟨hpasses, hvalid⟩, rfl, rfl⟩
  · rintro ⟨wire, ⟨hpasses, hvalid⟩, rfl, rfl⟩
    exact ⟨(), [], _, ⟨hpasses, rfl⟩, ⟨wire, hvalid, rfl, rfl⟩, rfl⟩

/-- The things that are read, in another form. -/
theorem Reads.rewire {OtherValid : OtherWire → Prop} {otherEncode : OtherWire → List UInt8}
    (hreads : Reads reader Valid view encode) (form : OtherWire → Wire)
    (hencode : ∀ other, encode (form other) = otherEncode other)
    (hform : ∀ wire, Valid wire → ∃ other, form other = wire)
    (hvalid : ∀ other, OtherValid other ↔ Valid (form other)) :
    Reads reader OtherValid (fun other ↦ view (form other)) otherEncode := by
  refine Recognises.congr hreads fun _ _ ↦ ?_
  constructor
  · rintro ⟨wire, hwire, rfl, rfl⟩
    obtain ⟨other, rfl⟩ := hform wire hwire
    exact ⟨other, (hvalid other).mpr hwire, rfl, hencode other⟩
  · rintro ⟨other, hother, rfl, rfl⟩
    exact ⟨form other, (hvalid other).mp hother, rfl, (hencode other).symm⟩

end Reads

/-- A reader that has to use up the payload accepts the payloads that are its words. -/
theorem Recognises.whole_result_iff (hreader : Recognises reader Word) (failure : Failure)
    (payload : List UInt8) (value : Value) :
    (runOn (whole failure reader) [] payload).result = .ok value ↔ Word value payload := by
  have hend : ∀ (word tail : List UInt8) (result : Value),
      (runOn (budget >>= fun left ↦ ensure (left == 0) failure >>= fun _ ↦ pure result :
        Reader Place Failure Value) word tail).result =
      if tail = [] then .ok result else .error failure := by
    intro word tail result
    cases tail <;> rfl
  constructor
  · intro hresult
    cases hmiddle : (runOn reader [] payload).result with
    | error other =>
      rw [whole, runOn_bind_of_error hmiddle] at hresult
      cases hresult
    | ok result =>
      obtain ⟨word, tail, rfl, hword, hyields⟩ := hreader.sound hmiddle
      rw [whole, runOn_bind_of_yields hyields] at hresult
      rw [hend] at hresult
      split_ifs at hresult with hempty
      cases hresult
      rwa [hempty, List.append_nil]
  · intro hword
    have hyields := hreader.complete [] [] hword
    rw [← List.append_nil payload, whole, runOn_bind_of_yields hyields]
    rw [hend, if_pos rfl]

/-! ### Failures -/

section

variable (failure : Failure)

/-- Every failure of the reader is reported as one code. -/
def FailsOnlyAs (reader : Reader Place Failure Value) : Prop :=
  ∀ payload cursor other, (reader payload cursor).result = .error other → other = failure

/-- The result of a sequence. -/
theorem bind_result (first : Reader Place Failure Value)
    (next : Value → Reader Place Failure Next) (payload : List UInt8) (cursor : Cursor) :
    ((first >>= next) payload cursor).result = (first payload cursor).result.bind fun value ↦
      (next value payload (first payload cursor).cursor).result := by
  change (Reader.bind first next payload cursor).result = _
  unfold Reader.bind
  dsimp only
  split <;> rename_i hresult <;> rw [hresult] <;> rfl

theorem failsOnlyAs_pure (value : Value) :
    FailsOnlyAs failure (pure value : Reader Place Failure Value) :=
  fun _ _ _ herror ↦ nomatch herror

theorem failsOnlyAs_store (place : Place) :
    FailsOnlyAs failure (store place : Reader Place Failure Unit) :=
  fun _ _ _ herror ↦ nomatch herror

theorem failsOnlyAs_ensure (condition : Bool) :
    FailsOnlyAs failure (ensure condition failure : Reader Place Failure Unit) := by
  intro payload cursor other herror
  cases condition with
  | false => exact (Except.error.inj herror).symm
  | true => cases herror

theorem failsOnlyAs_take (count : ℕ) :
    FailsOnlyAs failure (take failure count : Reader Place Failure (List UInt8)) := by
  intro payload cursor other herror
  unfold take at herror
  split_ifs at herror
  exact (Except.error.inj herror).symm

end

theorem FailsOnlyAs.bind
    (hfirst : FailsOnlyAs failure first)
    (hnext : ∀ value, FailsOnlyAs failure (next value)) : FailsOnlyAs failure (first >>= next) := by
  intro payload cursor other herror
  rw [bind_result] at herror
  cases hresult : (first payload cursor).result with
  | error code =>
    rw [hresult] at herror
    rw [← Except.error.inj herror]
    exact hfirst payload cursor code hresult
  | ok value =>
    rw [hresult] at herror
    exact hnext value payload _ other herror

theorem FailsOnlyAs.repeatFrom (hbody : ∀ index, FailsOnlyAs failure (body index))
    (start count : ℕ) :
    FailsOnlyAs failure (repeatFrom body start count) := by
  induction count generalizing start with
  | zero => exact failsOnlyAs_pure failure []
  | succ count ih =>
    exact (hbody start).bind fun value ↦ (ih (start + 1)).bind fun values ↦
      failsOnlyAs_pure failure (value :: values)

/-- A failure that only the second part has comes behind a word of the first part. -/
theorem Recognises.bind_error_iff
    (hfirst : Recognises first Word)
    (hfails : FailsOnlyAs failure first) (hother : other ≠ failure) (before rest : List UInt8) :
    (runOn (first >>= next) before rest).result = .error other ↔
      ∃ value word tail, rest = word ++ tail ∧ Word value word ∧
        (runOn (next value) (before ++ word) tail).result = .error other := by
  constructor
  · intro herror
    cases hresult : (runOn first before rest).result with
    | error code =>
      rw [runOn_bind_of_error hresult] at herror
      have hcode : code = failure := hfails _ _ _ hresult
      exact absurd ((Except.error.inj herror).symm.trans hcode) hother
    | ok value =>
      obtain ⟨word, tail, rfl, hword, hyields⟩ := hfirst.sound hresult
      rw [runOn_bind_of_yields hyields] at herror
      exact ⟨value, word, tail, rfl, hword, herror⟩
  · rintro ⟨value, word, tail, rfl, hword, herror⟩
    rw [runOn_bind_of_yields (hfirst.complete before tail hword)]
    exact herror

/-- A failure that the second part does not have comes from the first part. -/
theorem bind_error_iff_of_next
    (hnext : ∀ value, FailsOnlyAs failure (next value))
    (hother : other ≠ failure) (before rest : List UInt8) :
    (runOn (first >>= next) before rest).result = .error other ↔
      (runOn first before rest).result = .error other := by
  change ((first >>= next) _ _).result = _ ↔ (first _ _).result = _
  rw [bind_result]
  cases hresult : (first (before ++ rest) ⟨before.length, rest.length⟩).result with
  | error code =>
    exact ⟨fun herror ↦ congrArg Except.error (Except.error.inj herror),
      fun herror ↦ congrArg Except.error (Except.error.inj herror)⟩
  | ok value => exact iff_of_false (fun herror ↦ hother (hnext value _ _ other herror)) nofun

/-- The result of a reader that has to use up the payload. -/
theorem runOn_whole_result (failure : Failure) (reader : Reader Place Failure Value)
    (before rest : List UInt8) :
    (runOn (whole failure reader) before rest).result =
      (runOn reader before rest).result.bind fun value ↦
        if (runOn reader before rest).cursor.left = 0 then .ok value else .error failure := by
  unfold runOn
  rw [whole, bind_result]
  cases (reader (before ++ rest) ⟨before.length, rest.length⟩).result with
  | error code => rfl
  | ok value =>
    change ((ensure _ failure >>= _) _ _).result = _
    rw [bind_result]
    split_ifs with hleft
    · simp [Except.bind, ensure, hleft, pure]
    · simp [Except.bind, ensure, hleft, fail]

/-- The outcome of a reader whose failures are reported as one code. -/
theorem runOn_failAs (failure : Failure) (reader : Reader Place Failure Value)
    (before rest : List UInt8) :
    (runOn (failAs failure reader) before rest).result =
        (runOn reader before rest).result.mapError (fun _ ↦ failure) ∧
      (runOn (failAs failure reader) before rest).cursor = (runOn reader before rest).cursor := by
  unfold runOn failAs
  dsimp only
  split <;> rename_i hresult
  · rw [hresult]
    exact ⟨rfl, rfl⟩
  · exact ⟨by rw [hresult]; rfl, rfl⟩

/-! ### Safe runs -/

/-- A run reads inside the payload and stores to allowed places. -/
def SafeOn (allowed : Place → Prop) (reader : Reader Place Failure Value)
    (before rest : List UInt8) : Prop :=
  ∀ access ∈ (runOn reader before rest).trace, access.Inside allowed (before ++ rest).length

/-- A sequence is safe when its first part is, and its second part is behind every word of the
first. -/
theorem safeOn_bind
    (hfirst : Recognises first Word) :
    SafeOn allowed (first >>= next) before rest ↔
      SafeOn allowed first before rest ∧
        ∀ value word tail, Word value word → rest = word ++ tail →
          SafeOn allowed (next value) (before ++ word) tail := by
  cases hmiddle : (runOn first before rest).result with
  | error failure =>
    unfold SafeOn
    rw [runOn_bind_of_error hmiddle]
    refine ⟨fun hsafe ↦ ⟨hsafe, ?_⟩, And.left⟩
    rintro value word tail hword rfl
    rw [(hfirst.complete before tail hword).1] at hmiddle
    cases hmiddle
  | ok value =>
    obtain ⟨word, tail, rfl, hword, hyields⟩ := hfirst.sound hmiddle
    unfold SafeOn
    rw [runOn_bind_of_yields hyields]
    simp only [List.mem_append, List.append_assoc]
    constructor
    · intro hsafe
      refine ⟨fun access haccess ↦ hsafe access (Or.inl haccess), ?_⟩
      intro other part more hother hsame access haccess
      obtain ⟨rfl, rfl, rfl⟩ := hfirst.unique hword hother hsame
      exact hsafe access (Or.inr haccess)
    · rintro ⟨hbefore, hafter⟩ access (haccess | haccess)
      · exact hbefore access haccess
      · exact hafter value word tail hword rfl access haccess

/-- A loop is safe when its body is, behind the words of any smaller number of rounds. -/
theorem safeOn_repeatFrom (hbody : ∀ index, Recognises (body index) (WordAt index))
    (start count : ℕ) (before rest : List UInt8) :
    SafeOn allowed (repeatFrom body start count) before rest ↔
      ∀ values word tail, values.length < count → Words WordAt start values word →
        rest = word ++ tail →
          SafeOn allowed (body (start + values.length)) (before ++ word) tail := by
  induction count generalizing start before rest with
  | zero =>
    refine ⟨fun _ values word tail hlength ↦ absurd hlength (Nat.not_lt_zero _), ?_⟩
    intro _ access haccess
    exact absurd haccess List.not_mem_nil
  | succ count ih =>
    have hpure : ∀ (value : Value) (values : List Value) (before rest : List UInt8),
        SafeOn allowed (pure (value :: values) : Reader Place Failure (List Value)) before rest :=
      fun _ _ _ _ ↦ List.forall_mem_nil _
    have hloop : ∀ (value : Value) (before rest : List UInt8),
        SafeOn allowed (repeatFrom body (start + 1) count >>= fun values ↦
          pure (value :: values)) before rest ↔
        SafeOn allowed (repeatFrom body (start + 1) count) before rest := by
      intro value before rest
      rw [safeOn_bind (Recognises.repeatFrom hbody (start + 1) count)]
      exact ⟨And.left, fun hsafe ↦ ⟨hsafe, fun values _ _ _ _ ↦ hpure value values _ _⟩⟩
    unfold repeatFrom
    rw [safeOn_bind (hbody start)]
    simp only [hloop, ih]
    constructor
    · rintro ⟨hfirst, hothers⟩ values word tail hlength hword rfl
      cases values with
      | nil =>
        rw [show word = [] from hword] at hfirst ⊢
        rwa [List.append_nil]
      | cons value values =>
        obtain ⟨part, more, hpart, hmore, rfl⟩ := hword
        have hsafe := hothers value part (more ++ tail) hpart (List.append_assoc _ _ _) values more
          tail (Nat.lt_of_succ_lt_succ hlength) hmore rfl
        rwa [List.append_assoc, Nat.add_right_comm] at hsafe
    · intro hall
      constructor
      · have hfirst := hall [] [] rest (Nat.succ_pos _) rfl rfl
        rwa [List.append_nil] at hfirst
      · rintro value part others hpart rfl values more tail hlength hmore rfl
        have hsafe := hall (value :: values) (part ++ more) tail (Nat.succ_lt_succ hlength)
          ⟨part, more, hpart, hmore, rfl⟩ (List.append_assoc _ _ _).symm
        rwa [← List.append_assoc, List.length_cons, ← Nat.add_assoc, Nat.add_right_comm] at hsafe

section

variable (allowed : Place → Prop)

/-- A reader that is safe on every payload. -/
def Safe (reader : Reader Place Failure Value) : Prop :=
  ∀ before rest, SafeOn allowed reader before rest

theorem safe_pure (value : Value) : Safe allowed (pure value : Reader Place Failure Value) :=
  fun _ _ ↦ List.forall_mem_nil _

theorem safe_ensure (condition : Bool) (failure : Failure) :
    Safe allowed (ensure condition failure : Reader Place Failure Unit) := by
  unfold ensure
  split_ifs
  · exact safe_pure allowed ()
  · exact fun _ _ ↦ List.forall_mem_nil _

end

/-- Assumes: the place is allowed. -/
theorem safe_store {place : Place} (hplace : allowed place) :
    Safe allowed (store place : Reader Place Failure Unit) := by
  intro before rest access haccess
  rw [List.mem_singleton.mp haccess]
  exact hplace

theorem safe_take (allowed : Place → Prop) (short : Failure) (count : ℕ) :
    Safe allowed (take short count : Reader Place Failure (List UInt8)) := by
  intro before rest access haccess
  unfold runOn take at haccess
  dsimp only at haccess
  split_ifs at haccess with hshort
  · exact absurd haccess List.not_mem_nil
  · rw [List.mem_singleton.mp haccess]
    change before.length + count ≤ (before ++ rest).length
    rw [List.length_append]
    omega

section

variable (hwords : Recognises first Word)

include hwords

theorem Safe.bind (hfirst : Safe allowed first) (hnext : ∀ value, Safe allowed (next value)) :
    Safe allowed (first >>= next) :=
  fun before rest ↦ (safeOn_bind hwords).mpr ⟨hfirst before rest,
    fun value _ _ _ _ ↦ hnext value _ _⟩

/-- Assumes: the first part is safe. A sequence is safe when its second part is, behind every word
of the first. -/
theorem safeOn_bind_right (hfirst : Safe allowed first) :
    SafeOn allowed (first >>= next) before rest ↔
      ∀ value word tail, Word value word → rest = word ++ tail →
        SafeOn allowed (next value) (before ++ word) tail := by
  rw [safeOn_bind hwords, and_iff_right (hfirst before rest)]

/-- Assumes: the second part is safe. A sequence is safe when its first part is. -/
theorem safeOn_bind_left (hnext : ∀ value, Safe allowed (next value)) :
    SafeOn allowed (first >>= next) before rest ↔ SafeOn allowed first before rest := by
  rw [safeOn_bind hwords]
  exact and_iff_left fun value _ _ _ _ ↦ hnext value _ _

end

theorem safeOn_store {place : Place} :
    SafeOn allowed (store place : Reader Place Failure Unit) before rest ↔ allowed place := by
  constructor
  · intro hsafe
    exact hsafe (.store place) (List.mem_singleton.mpr rfl)
  · intro hplace
    exact safe_store hplace before rest

theorem Safe.repeatFrom (hwords : ∀ index, Recognises (body index) (WordAt index))
    (hbody : ∀ index, Safe allowed (body index)) (start count : ℕ) :
    Safe allowed (repeatFrom body start count) :=
  fun before rest ↦ (safeOn_repeatFrom hwords start count before rest).mpr
    fun values _ _ _ _ _ ↦ hbody (start + values.length) _ _

theorem safeOn_failAs :
    SafeOn allowed (failAs failure reader) before rest ↔ SafeOn allowed reader before rest := by
  have hsame : (runOn (failAs failure reader) before rest).trace =
      (runOn reader before rest).trace := by
    unfold runOn failAs
    dsimp only
    split <;> rfl
  unfold SafeOn
  rw [hsame]

/-- The check that the payload is used up reads and stores nothing. -/
theorem safeOn_whole (hreader : Recognises reader Word) :
    SafeOn allowed (whole failure reader) before rest ↔ SafeOn allowed reader before rest := by
  rw [whole, safeOn_bind hreader]
  refine ⟨And.left, fun hsafe ↦ ⟨hsafe, fun value word tail _ _ ↦ ?_⟩⟩
  intro access haccess
  cases tail with
  | nil => exact absurd haccess List.not_mem_nil
  | cons byte tail => exact absurd haccess List.not_mem_nil

end Reader

end TdhSocket.Library
