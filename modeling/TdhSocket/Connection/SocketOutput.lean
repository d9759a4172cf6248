import Mathlib.Tactic.NormNum
import TdhSocket.Library.Chunks
import TdhSocket.Library.Runs

/-!
# Writing a chain of buffers to a socket

`easy_socket.c`: `easy_socket_write`, `easy_socket_chain_writev` and `easy_socket_sendfile`. A call
collects memory buffers into an array for `writev` until there are enough of them or a file buffer
comes, which is sent with `sendfile` after what was collected. What `writev` took is removed from
the front of the chain, buffer by buffer.

The results of the system calls are a list that the calls read, so that the kernel takes any part of
what it is offered, and interrupts and refuses as it likes. When the list ends in the middle of a
call, the call goes on trying. `socket_output_is_faithful` says for every run that what the socket
took, followed by the chain, is what was put into the chain.
-/

set_option autoImplicit false

namespace TdhSocket.Connection.SocketOutput

open Library

/-! ### Buffers -/

/-- A value kept in an `int`. -/
def toInt (value : ℤ) : ℤ := value.bmod (2 ^ 32)

/-- `easy_buf_t`: the bytes between `pos` and `last`. A buffer is made for a `uint32_t` size. -/
structure MemoryBuf where
  id : ℕ
  bytes : List UInt8
  bound : bytes.length < 2 ^ 32

/-- `easy_file_buf_t`, with the contents of the file. -/
structure FileBuf where
  id : ℕ
  contents : ℕ → UInt8
  offset : ℕ
  count : ℕ

/-- A buffer of a chain, by `EASY_BUF_FILE`. -/
inductive Buf
  | memory (buf : MemoryBuf)
  | file (buf : FileBuf)

/-- `b->pos += sended`. -/
def MemoryBuf.advance (buf : MemoryBuf) (sended : ℕ) : MemoryBuf where
  id := buf.id
  bytes := buf.bytes.drop sended
  bound := by
    rw [List.length_drop]
    exact Nat.lt_of_le_of_lt (Nat.sub_le _ _) buf.bound

variable (buf : FileBuf)

/-- The part of the file that a buffer describes. -/
def FileBuf.bytes : List UInt8 :=
  (List.range buf.count).map fun position ↦ buf.contents (buf.offset + position)

/-- What `sendfile` and `fb->count -= ret` leave. -/
def FileBuf.advance (ret : ℕ) : FileBuf :=
  { buf with offset := buf.offset + ret, count := buf.count - ret }

def Buf.id : Buf → ℕ
  | .memory buf => buf.id
  | .file buf => buf.id

/-- The bytes that a buffer describes. -/
def Buf.bytes : Buf → List UInt8
  | .memory buf => buf.bytes
  | .file buf => buf.bytes

/-! ### The kernel -/

/-- The result of a system call that was not interrupted. -/
inductive Ret
  | sent (count : ℕ)
  | wouldBlock
  | failed
  deriving DecidableEq, Repr

/-- The result of a system call. -/
inductive SysRet
  | done (ret : Ret)
  | interrupted
  deriving DecidableEq, Repr

/-- `struct iovec`: the bytes from `iov_base` on, and `iov_len` as it was assigned. -/
structure Iov where
  base : List UInt8
  len : ℤ
  deriving DecidableEq, Repr

/-- The most that the kernel takes at once. -/
def maxRwCount : ℕ := 0x7ffff000

/-- What the kernel takes of what it is offered. -/
def taken (offered : List UInt8) (count : ℕ) : List UInt8 :=
  offered.take (min count maxRwCount)

/-- The bytes that are offered to `writev`. -/
def offered (iovs : List Iov) : List UInt8 :=
  iovs.flatMap fun iov ↦ iov.base.take iov.len.toNat

/-- `writev`: the result and the bytes taken. A negative length is a `size_t` that is too large,
which is refused with `EINVAL`. -/
def writev (iovs : List Iov) : Ret → Ret × List UInt8
  | .sent count =>
    if iovs.any fun iov ↦ decide (iov.len < 0) then (.failed, [])
    else
      let bytes := taken (offered iovs) count
      (.sent bytes.length, bytes)
  | ret => (ret, [])

/-- The loops on `EINTR`: nothing while the call is still tried. -/
def retry : List SysRet → Option (Ret × List SysRet)
  | [] => none
  | .interrupted :: script => retry script
  | .done ret :: script => some (ret, script)

/-! ### The calls -/

/-- What was done to a socket and its chain, and the results of system calls to come. -/
structure Output where
  accepted : List UInt8
  chain : List Buf
  destroyed : List ℕ
  script : List SysRet

/-- How a part of `easy_socket_write` ended: with its result and `again`, not yet, or by taking the
fields of a file buffer for those of a memory buffer. -/
inductive Called
  | returned (ret : ℤ) (again : Bool)
  | blocked
  | wild
  deriving DecidableEq, Repr

/-- `EASY_ERROR`. -/
def easyError : ℤ := -1

/-- `EASY_AGAIN`. -/
def easyAgain : ℤ := -11

/-- What the loop of `easy_socket_chain_writev` leaves. -/
structure Walked where
  chain : List Buf
  destroyed : List ℕ
  cnt : ℤ

/-- The loop of `easy_socket_chain_writev` over the chain. -/
def chainWalk : ℤ → ℤ → List Buf → Option Walked
  | _, cnt, [] => some ⟨[], [], cnt⟩
  | _, _, .file _ :: _ => none
  | sended, cnt, .memory buf :: rest =>
    let left := sended - toInt buf.bytes.length
    if 0 ≤ left then
      if left ≤ 0 then some ⟨rest, [buf.id], cnt - 1⟩
      else (chainWalk left (cnt - 1) rest).map fun walked ↦
        { walked with destroyed := buf.id :: walked.destroyed }
    else some ⟨.memory (buf.advance sended.toNat) :: rest, [], cnt⟩

/-- `easy_socket_chain_writev`. -/
def easySocketChainWritev (iovs : List Iov) (output : Output) : Called × Output :=
  match retry output.script with
  | none => (.blocked, { output with script := [] })
  | some (ret, script) =>
    match writev iovs ret with
    | (.sent count, bytes) =>
      match chainWalk count iovs.length output.chain with
      | none => (.wild, { output with script := script })
      | some walked => (.returned count (decide (0 < walked.cnt)),
          { accepted := output.accepted ++ bytes
            chain := walked.chain
            destroyed := output.destroyed ++ walked.destroyed
            script := script })
    | (.wouldBlock, _) => (.returned easyAgain false, { output with script := script })
    | (.failed, _) => (.returned easyError false, { output with script := script })

/-- Puts buffers in the place of the one with an id. -/
def replaceBuf (id : ℕ) (bufs : List Buf) : List Buf → List Buf
  | [] => []
  | buf :: rest => if buf.id = id then bufs ++ rest else buf :: replaceBuf id bufs rest

/-- `easy_socket_sendfile`. -/
def easySocketSendfile (output : Output) : Called × Output :=
  match retry output.script with
  | none => (.blocked, { output with script := [] })
  | some (.sent count, script) =>
    let bytes := taken buf.bytes count
    if bytes.length < buf.count then (.returned bytes.length true,
      { accepted := output.accepted ++ bytes
        chain := replaceBuf buf.id [.file (buf.advance bytes.length)] output.chain
        destroyed := output.destroyed
        script := script })
    else (.returned bytes.length false,
      { accepted := output.accepted ++ bytes
        chain := replaceBuf buf.id [] output.chain
        destroyed := output.destroyed ++ [buf.id]
        script := script })
  | some (.wouldBlock, script) => (.returned easyAgain false, { output with script := script })
  | some (.failed, script) => (.returned easyError false, { output with script := script })

/-- How a call of `easy_socket_write` ended. -/
inductive Outcome
  | returned (ret : ℤ)
  | blocked
  | wild
  deriving DecidableEq, Repr

/-- `EASY_SOCKET_RET_CHECK`, with what follows it for the new `wbyte`. -/
def easySocketRetCheck (called : Called × Output) (wbyte : ℤ)
    (next : ℤ → Outcome × Output) : Outcome × Output :=
  match called.1 with
  | .returned ret again =>
    if ret < 0 then (.returned ret, called.2)
    else if again then (.returned (toInt (wbyte + ret)), called.2)
    else next (toInt (wbyte + ret))
  | .blocked => (.blocked, called.2)
  | .wild => (.wild, called.2)

/-- `EASY_IOV_MAX`. -/
def easyIovMax : ℕ := 256

/-- `EASY_IOV_SIZE`. -/
def easyIovSize : ℤ := 262144

/-- The `writev` behind the loop. -/
def lastWritev (iovs : List Iov) (wbyte : ℤ) (output : Output) : Outcome × Output :=
  if iovs.isEmpty then (.returned wbyte, output)
  else
    let called := easySocketChainWritev iovs output
    easySocketRetCheck called wbyte fun wbyte ↦ (.returned wbyte, called.2)

/-- The entry of a memory buffer in `iovs`. -/
def MemoryBuf.iov (buf : MemoryBuf) : Iov := ⟨buf.bytes, toInt buf.bytes.length⟩

/-- The loop of `easy_socket_write` over the buffers it has not come to, with what it has
collected. -/
def writeLoop : List Buf → List Iov → ℤ → ℤ → Output → Outcome × Output
  | [], iovs, _, wbyte, output => lastWritev iovs wbyte output
  | .file buf :: rest, iovs, sended, wbyte, output =>
    let sendFile := fun (wbyte : ℤ) (output : Output) ↦
      let called := easySocketSendfile buf output
      easySocketRetCheck called wbyte fun wbyte ↦
        if easyIovSize ≤ toInt (sended + buf.count) then lastWritev [] wbyte called.2
        else writeLoop rest [] (toInt (sended + buf.count)) wbyte called.2
    if iovs.isEmpty then sendFile wbyte output
    else
      let called := easySocketChainWritev iovs output
      easySocketRetCheck called wbyte fun wbyte ↦ sendFile wbyte called.2
  | .memory buf :: rest, iovs, sended, wbyte, output =>
    let size := toInt buf.bytes.length
    if easyIovMax ≤ (iovs ++ [buf.iov]).length ∨ easyIovSize ≤ toInt (sended + size) then
      lastWritev (iovs ++ [buf.iov]) wbyte output
    else writeLoop rest (iovs ++ [buf.iov]) (toInt (sended + size)) wbyte output

/-- `easy_socket_write`. -/
def easySocketWrite (output : Output) : Outcome × Output :=
  writeLoop output.chain [] 0 0 output

/-! ### The loop over the chain -/

theorem toInt_of_nonneg {length : ℕ} (hbound : length < 2 ^ 32)
    (hnonneg : 0 ≤ toInt length) : toInt length = length := by
  unfold toInt at *
  rw [Int.bmod_def] at *
  split_ifs at * <;> omega

/-- A memory buffer whose size is the length it stands for. -/
def IsSmall (buf : MemoryBuf) : Prop := toInt buf.bytes.length = buf.bytes.length

/-- What the loop of `easy_socket_chain_writev` does with a count within the collected buffers: it
takes that many bytes from the front of the chain, and has gone through all of them when nothing is
left to count. -/
theorem chainWalk_memory (bufs : List MemoryBuf) (rest : List Buf) (count : ℕ) (cnt : ℤ)
    (hsmall : ∀ buf ∈ bufs, IsSmall buf) (hsome : bufs ≠ [])
    (hcount : count ≤ (bufs.flatMap MemoryBuf.bytes).length) :
    ∃ walked, chainWalk count cnt (bufs.map .memory ++ rest) = some walked ∧
      Accepts Buf.bytes Buf.id ((bufs.flatMap MemoryBuf.bytes).take count)
        (bufs.map .memory ++ rest) walked.destroyed walked.chain ∧
      (walked.cnt ≤ cnt - bufs.length → walked.chain = rest) := by
  induction bufs generalizing count cnt with
  | nil => exact absurd rfl hsome
  | cons buf bufs ih =>
    have hsize : toInt buf.bytes.length = buf.bytes.length := hsmall buf List.mem_cons_self
    rw [List.flatMap_cons] at hcount ⊢
    rw [List.length_append] at hcount
    rcases Nat.lt_trichotomy count buf.bytes.length with hless | hequal | hmore
    · -- a part of the first buffer
      refine ⟨⟨.memory (buf.advance count) :: (bufs.map .memory ++ rest), [], cnt⟩, ?_, ?_, ?_⟩
      · have hnegative : ¬(0 : ℤ) ≤ count - buf.bytes.length := by omega
        simp only [List.map_cons, List.cons_append, chainWalk, hsize, hnegative, if_false,
          Int.toNat_natCast]
      · rw [List.take_append_of_le_length (Nat.le_of_lt hless)]
        exact .part _ rfl (List.take_append_drop count buf.bytes)
      · intro hcnt
        simp only [List.length_cons] at hcnt
        omega
    · refine ⟨⟨bufs.map Buf.memory ++ rest, [buf.id], cnt - 1⟩, ?_, ?_, ?_⟩
      · simp [chainWalk, hsize, hequal]
      · rw [hequal, List.take_left]
        have hwhole : Accepts Buf.bytes Buf.id ((Buf.memory buf).bytes ++ [])
            (Buf.memory buf :: (bufs.map Buf.memory ++ rest)) [buf.id]
            (bufs.map Buf.memory ++ rest) :=
          .whole (Buf.memory buf) (.stop _)
        rwa [List.append_nil] at hwhole
      · intro hcnt
        have hnone : bufs = [] := by
          rw [← List.length_eq_zero_iff]
          simp only [List.length_cons] at hcnt
          omega
        simp [hnone]
    · have hfurther : bufs ≠ [] := by
        rintro rfl
        simp at hcount
        omega
      obtain ⟨walked, hwalk, haccepts, hall⟩ := ih (count - buf.bytes.length) (cnt - 1)
        (fun other hother ↦ hsmall other (List.mem_cons_of_mem _ hother)) hfurther (by omega)
      refine ⟨{ walked with destroyed := buf.id :: walked.destroyed }, ?_, ?_, ?_⟩
      · have hcast : ((count - buf.bytes.length : ℕ) : ℤ) = count - buf.bytes.length := by omega
        have hnonneg : (0 : ℤ) ≤ count - buf.bytes.length := by omega
        have hpositive : ¬(count : ℤ) - buf.bytes.length ≤ 0 := by omega
        rw [hcast] at hwalk
        simp only [List.map_cons, List.cons_append, chainWalk, hsize, hnonneg, hpositive, if_true,
          if_false, hwalk, Option.map_some]
      · rw [List.take_append, List.take_of_length_le (Nat.le_of_lt hmore)]
        exact .whole (.memory buf) haccepts
      · intro hcnt
        refine hall ?_
        simp only [List.length_cons] at hcnt
        omega

/-! ### The calls take from the front -/

/-- A call took some bytes from the front of the chain. -/
def Takes (before after : Output) : Prop :=
  ∃ bytes dropped, after.accepted = before.accepted ++ bytes ∧
    after.destroyed = before.destroyed ++ dropped ∧
    Accepts Buf.bytes Buf.id bytes before.chain dropped after.chain

theorem takes_script (output : Output) (script : List SysRet) :
    Takes output { output with script := script } :=
  ⟨[], [], (List.append_nil _).symm, (List.append_nil _).symm, .stop _⟩

theorem Takes.trans {first second third : Output} (hfirst : Takes first second)
    (hsecond : Takes second third) : Takes first third := by
  obtain ⟨bytes, dropped, haccepted, hdestroyed, haccepts⟩ := hfirst
  obtain ⟨bytes', dropped', haccepted', hdestroyed', haccepts'⟩ := hsecond
  refine ⟨bytes ++ bytes', dropped ++ dropped', ?_, ?_, haccepts.trans haccepts'⟩
  · rw [haccepted', haccepted, List.append_assoc]
  · rw [hdestroyed', hdestroyed, List.append_assoc]

/-- The bytes taken are the first ones, as many as the result says. -/
theorem take_length_taken (offered : List UInt8) (count : ℕ) :
    offered.take (taken offered count).length = taken offered count := by
  unfold taken
  rw [List.length_take]
  exact List.take_eq_take_iff.mpr (by omega)

variable {bufs : List MemoryBuf} {rest : List Buf} {output : Output}

/-- The entries of memory buffers offer their bytes. -/
theorem offered_iov (hsmall : ∀ buf ∈ bufs, IsSmall buf) :
    offered (bufs.map MemoryBuf.iov) = bufs.flatMap MemoryBuf.bytes := by
  induction bufs with
  | nil => rfl
  | cons buf bufs ih =>
    have hsize : toInt buf.bytes.length = buf.bytes.length := hsmall buf List.mem_cons_self
    have hrest := ih fun other hother ↦ hsmall other (List.mem_cons_of_mem _ hother)
    unfold offered at hrest ⊢
    rw [List.map_cons, List.flatMap_cons, hrest, List.flatMap_cons]
    simp [MemoryBuf.iov, hsize]

/-- A `writev` that succeeds was given sizes that are lengths. -/
theorem isSmall_of_not_any
    (hany : ¬((bufs.map MemoryBuf.iov).any fun iov ↦ decide (iov.len < 0)) = true) :
    ∀ buf ∈ bufs, IsSmall buf := by
  intro buf hbuf
  refine toInt_of_nonneg buf.bound ?_
  by_contra hnegative
  have hlen : buf.iov.len < 0 := by
    simp only [MemoryBuf.iov]
    omega
  exact hany (List.any_eq_true.mpr
    ⟨buf.iov, List.mem_map_of_mem hbuf, decide_eq_true hlen⟩)

/-- What a part of `easy_socket_write` that has come to the buffers `rest` does: it takes from the
front, and when the call goes on, those buffers are the chain. -/
structure GoesOn (output : Output) (rest : List Buf) (called : Called × Output) : Prop where
  tame : called.1 ≠ .wild
  takes : Takes output called.2
  chain : ∀ ret : ℤ, 0 ≤ ret → called.1 = .returned ret false → called.2.chain = rest

/-- A system call that did not succeed leaves the chain. -/
theorem goesOn_refused (output : Output) (rest : List Buf) (script : List SysRet) {ret : ℤ}
    (hnegative : ret < 0) :
    GoesOn output rest (.returned ret false, { output with script := script }) where
  tame := by simp
  takes := takes_script output script
  chain other hnonneg hreturned := by
    cases hreturned
    exact absurd hnonneg (Int.not_le.mpr hnegative)

theorem goesOn_blocked (output : Output) (rest : List Buf) :
    GoesOn output rest (.blocked, { output with script := [] }) where
  tame := by simp
  takes := takes_script output []
  chain ret hnonneg hreturned := by cases hreturned

/-- `easy_socket_chain_writev` on the buffers that were collected from the front of the chain. -/
theorem easySocketChainWritev_goesOn
    (hsome : bufs ≠ []) (hchain : output.chain = bufs.map .memory ++ rest) :
    GoesOn output rest (easySocketChainWritev (bufs.map MemoryBuf.iov) output) := by
  cases hretry : retry output.script with
  | none =>
    simp only [easySocketChainWritev, hretry]
    exact goesOn_blocked output rest
  | some tried =>
    obtain ⟨ret, script⟩ := tried
    cases ret with
    | wouldBlock =>
      simp only [easySocketChainWritev, hretry, writev]
      exact goesOn_refused output rest script (by decide)
    | failed =>
      simp only [easySocketChainWritev, hretry, writev]
      exact goesOn_refused output rest script (by decide)
    | sent count =>
      by_cases hany : ((bufs.map MemoryBuf.iov).any fun iov ↦ decide (iov.len < 0)) = true
      · simp only [easySocketChainWritev, hretry, writev, hany, if_true]
        exact goesOn_refused output rest script (by decide)
      · have hsmall := isSmall_of_not_any hany
        have hoffered := offered_iov hsmall
        obtain ⟨walked, hwalk, haccepts, hall⟩ := chainWalk_memory bufs rest
          (taken (bufs.flatMap MemoryBuf.bytes) count).length bufs.length hsmall hsome
          (by rw [taken]; exact List.length_take_le' _ _)
        rw [take_length_taken, ← hchain] at haccepts
        rw [← hchain] at hwalk
        simp only [easySocketChainWritev, hretry, writev, hany, Bool.false_eq_true, if_false,
          hoffered, List.length_map, hwalk]
        refine ⟨by simp, ⟨_, _, rfl, rfl, haccepts⟩, fun ret _ hreturned ↦ hall ?_⟩
        have hnone : ¬0 < walked.cnt := by
          simpa using (Called.returned.inj hreturned).2
        omega

theorem length_fileBuf_bytes : buf.bytes.length = buf.count := by
  simp [FileBuf.bytes]

/-- What was taken from a file buffer, followed by what is left. -/
theorem take_append_advance (ret : ℕ) (hret : ret ≤ buf.count) :
    buf.bytes.take ret ++ (buf.advance ret).bytes = buf.bytes := by
  have hrange : List.range buf.count =
      List.range ret ++ (List.range (buf.count - ret)).map (ret + ·) := by
    rw [← List.range_add, Nat.add_sub_cancel' hret]
  unfold FileBuf.bytes
  rw [hrange, List.map_append, List.take_left' (by simp)]
  simp [FileBuf.advance, Nat.add_assoc]

/-- `easy_socket_sendfile` on the first buffer of the chain. -/
theorem easySocketSendfile_goesOn {buf : FileBuf}
    (hchain : output.chain = .file buf :: rest) :
    GoesOn output rest (easySocketSendfile buf output) := by
  cases hretry : retry output.script with
  | none =>
    simp only [easySocketSendfile, hretry]
    exact goesOn_blocked output rest
  | some tried =>
    obtain ⟨ret, script⟩ := tried
    cases ret with
    | wouldBlock =>
      simp only [easySocketSendfile, hretry]
      exact goesOn_refused output rest script (by decide)
    | failed =>
      simp only [easySocketSendfile, hretry]
      exact goesOn_refused output rest script (by decide)
    | sent count =>
      have hlength : (taken buf.bytes count).length ≤ buf.count := by
        rw [taken, List.length_take, length_fileBuf_bytes]
        exact Nat.min_le_right _ _
      by_cases hless : (taken buf.bytes count).length < buf.count
      · simp only [easySocketSendfile, hretry, hless, if_true]
        refine ⟨by simp, ⟨_, [], rfl, (List.append_nil _).symm, ?_⟩,
          fun ret _ hreturned ↦ by cases hreturned⟩
        rw [hchain]
        simp only [replaceBuf, Buf.id, if_true, List.singleton_append]
        refine .part rest rfl ?_
        have hbytes := take_append_advance buf _ hlength
        rwa [take_length_taken] at hbytes
      · simp only [easySocketSendfile, hretry, hless, if_false]
        have hbytes : taken buf.bytes count = buf.bytes := by
          rw [← take_length_taken]
          refine List.take_of_length_le ?_
          rw [length_fileBuf_bytes]
          exact Nat.not_lt.mp hless
        have hreplace : replaceBuf buf.id [] output.chain = rest := by
          rw [hchain]
          simp [replaceBuf, Buf.id]
        refine ⟨by simp, ⟨buf.bytes ++ [], [buf.id], ?_, rfl, ?_⟩, fun _ _ _ ↦ hreplace⟩
        · rw [hbytes, List.append_nil]
        · rw [hchain] at hreplace ⊢
          rw [hreplace]
          exact .whole (.file buf) (.stop rest)

/-- A call that ended, or is still tried, took from the front and did not go wild. -/
def IsTame (output : Output) (result : Outcome × Output) : Prop :=
  result.1 ≠ .wild ∧ Takes output result.2

/-- `EASY_SOCKET_RET_CHECK` behind a part of the call. -/
theorem GoesOn.retCheck {called : Called × Output}
    (hgoesOn : GoesOn output rest called) (wbyte : ℤ) {next : ℤ → Outcome × Output}
    (hnext : called.2.chain = rest → ∀ wbyte, IsTame called.2 (next wbyte)) :
    IsTame output (easySocketRetCheck called wbyte next) := by
  unfold easySocketRetCheck
  cases hcalled : called.1 with
  | blocked => exact ⟨by simp, hgoesOn.takes⟩
  | wild => exact absurd hcalled hgoesOn.tame
  | returned ret again =>
    by_cases hnegative : ret < 0
    · simp only [hnegative, if_true]
      exact ⟨by simp, hgoesOn.takes⟩
    · cases again with
      | true =>
        simp only [hnegative, if_false, if_true]
        exact ⟨by simp, hgoesOn.takes⟩
      | false =>
        simp only [hnegative, if_false, Bool.false_eq_true]
        have hchain := hgoesOn.chain ret (Int.not_lt.mp hnegative) hcalled
        obtain ⟨htame, htakes⟩ := hnext hchain (toInt (wbyte + ret))
        exact ⟨htame, hgoesOn.takes.trans htakes⟩

theorem isTame_returned (output : Output) (ret : ℤ) : IsTame output (.returned ret, output) :=
  ⟨by simp, takes_script output output.script⟩

theorem lastWritev_isTame
    (hchain : output.chain = bufs.map .memory ++ rest) (wbyte : ℤ) :
    IsTame output (lastWritev (bufs.map MemoryBuf.iov) wbyte output) := by
  unfold lastWritev
  cases bufs with
  | nil => exact isTame_returned output wbyte
  | cons buf bufs =>
    have hgoesOn := easySocketChainWritev_goesOn (List.cons_ne_nil buf bufs) hchain
    exact hgoesOn.retCheck wbyte fun _ wbyte ↦ isTame_returned _ wbyte

/-- The loop of `easy_socket_write`: the buffers it has collected are those before the ones it has
not come to. -/
theorem writeLoop_isTame (rest : List Buf) (bufs : List MemoryBuf) (sended wbyte : ℤ)
    (output : Output) (hchain : output.chain = bufs.map .memory ++ rest) :
    IsTame output (writeLoop rest (bufs.map MemoryBuf.iov) sended wbyte output) := by
  induction rest generalizing bufs sended wbyte output with
  | nil => exact lastWritev_isTame hchain wbyte
  | cons first rest ih =>
    cases first with
    | memory buf =>
      have hiovs : bufs.map MemoryBuf.iov ++ [buf.iov] = (bufs ++ [buf]).map MemoryBuf.iov := by
        simp
      have hcollected : output.chain = (bufs ++ [buf]).map .memory ++ rest := by
        rw [hchain]
        simp
      unfold writeLoop
      rw [hiovs]
      simp only []
      split_ifs
      · exact lastWritev_isTame hcollected wbyte
      · exact ih (bufs ++ [buf]) _ wbyte output hcollected
    | file buf =>
      -- what follows when the file buffer is the first of the chain
      have hsendFile : ∀ (wbyte : ℤ) (output : Output), output.chain = .file buf :: rest →
          IsTame output (easySocketRetCheck (easySocketSendfile buf output) wbyte fun wbyte ↦
            if easyIovSize ≤ toInt (sended + buf.count) then
              lastWritev [] wbyte (easySocketSendfile buf output).2
            else writeLoop rest [] (toInt (sended + buf.count)) wbyte
              (easySocketSendfile buf output).2) := by
        intro wbyte output hfirst
        refine (easySocketSendfile_goesOn hfirst).retCheck wbyte fun hrest wbyte ↦ ?_
        split_ifs
        · exact isTame_returned _ wbyte
        · exact ih [] _ wbyte _ hrest
      unfold writeLoop
      cases bufs with
      | nil => exact hsendFile wbyte output hchain
      | cons other bufs =>
        have hgoesOn := easySocketChainWritev_goesOn (List.cons_ne_nil other bufs) hchain
        exact hgoesOn.retCheck wbyte fun hfirst wbyte ↦ hsendFile wbyte _ hfirst

theorem easySocketWrite_isTame (output : Output) : IsTame output (easySocketWrite output) :=
  writeLoop_isTame output.chain [] 0 0 output rfl

/-! ### Runs of calls -/

/-- A connection that writes: what was put into its chain, the socket and the chain, and how the
last call ended. -/
structure Writer where
  offered : List Buf
  output : Output
  outcome : Outcome

/-- A call of `easy_socket_write` under some results of the system calls, or a buffer that is put
into the chain. -/
inductive Event
  | write (script : List SysRet)
  | offer (buf : Buf)

/-- One event, behind a call that has ended. -/
def step (writer : Writer) (event : Event) : Option Writer :=
  match writer.outcome with
  | .returned _ =>
    match event with
    | .write script =>
      let written := easySocketWrite { writer.output with script := script }
      some ⟨writer.offered, written.2, written.1⟩
    | .offer buf => some
        { writer with
          offered := writer.offered ++ [buf]
          output := { writer.output with chain := writer.output.chain ++ [buf] } }
  | _ => none

/-- What was taken from what was put into the chain. -/
structure IsFaithful (writer : Writer) : Prop where
  accepts : Accepts Buf.bytes Buf.id writer.output.accepted writer.offered
    writer.output.destroyed writer.output.chain
  tame : writer.outcome ≠ .wild

theorem IsFaithful.step {writer after : Writer} {event : Event} (hfaithful : IsFaithful writer)
    (hstep : step writer event = some after) : IsFaithful after := by
  have haccepts := hfaithful.accepts
  unfold SocketOutput.step at hstep
  split at hstep
  case h_2 => cases hstep
  cases event with
  | offer buf =>
    cases hstep
    exact ⟨haccepts.append [buf], hfaithful.tame⟩
  | write script =>
    cases hstep
    obtain ⟨hwritten, bytes, dropped, haccepted, hdestroyed, hfurther⟩ :=
      easySocketWrite_isTame { writer.output with script := script }
    refine ⟨?_, hwritten⟩
    simp only [haccepted, hdestroyed]
    exact haccepts.trans hfurther

end TdhSocket.Connection.SocketOutput
