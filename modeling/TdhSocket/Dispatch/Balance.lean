import TdhSocket.Decode.Request

/-!
# The thread of a request

`easy_hash.c`, `tdh_socket_define.hpp` and `tdh_socket_table_balance.cpp`. A request goes to the
thread `hv % thread_count` of a pool, where `hv` is what `table_need_balance` returns for it: the
hash code of its table, a hash given by the client, or the hash of a counter. The value zero stands
for no choice, and the connection is hashed instead.
-/

set_option autoImplicit false

namespace TdhSocket.Dispatch

open Decode

/-! ### Hashes -/

/-- Bytes as a number, the first byte lowest. -/
def littleEndian (bytes : List UInt8) : UInt64 :=
  bytes.foldr (fun byte rest ↦ (rest <<< 8) ||| byte.toUInt64) 0

/-- The multiplier `m` of `easy_hash_code`. -/
def hashMultiplier : UInt64 := 0xc6a4a7935bd1e995

/-- The loop of `easy_hash_code` over whole words of eight bytes. -/
def hashWords : ℕ → List UInt8 → UInt64 → UInt64
  | 0, _, h => h
  | words + 1, data, h =>
    let k := littleEndian (data.take 8) * hashMultiplier
    hashWords words (data.drop 8) ((h ^^^ ((k ^^^ (k >>> 47)) * hashMultiplier)) * hashMultiplier)

/-- The bytes behind the whole words. -/
def hashRest (rest : List UInt8) (h : UInt64) : UInt64 :=
  if rest = [] then h else (h ^^^ littleEndian rest) * hashMultiplier

/-- `easy_hash_code`. -/
def easyHashCode (key : List UInt8) (seed : UInt64) : UInt64 :=
  let words := key.length / 8
  let h := hashRest (key.drop (8 * words))
    (hashWords words key (seed ^^^ (UInt64.ofNat key.length * hashMultiplier)))
  let mixed := (h ^^^ (h >>> 47)) * hashMultiplier
  mixed ^^^ (mixed >>> 47)

/-- `easy_hash_key`: the eight bytes of the key are hashed. -/
def easyHashKey (key : UInt64) : UInt64 :=
  easyHashCode ((List.range 8).map fun i ↦ (key >>> (UInt64.ofNat (8 * i))).toUInt8) 5

/-- `fold`, with `UT_HASH_RANDOM_MASK2` and `UT_HASH_RANDOM_MASK`. -/
def fold (n1 n2 : UInt64) : UInt64 :=
  ((((n1 ^^^ n2 ^^^ 1653893711) <<< 8) + n1) ^^^ 1463735687) + n2

/-- `is_number`. -/
def isNumber (byte : UInt8) : Bool := 48 ≤ byte && byte ≤ 57

/-- `atoll` on a run of digits: the largest `long long` where the number is larger. -/
def atoll (digits : List UInt8) : ℕ :=
  min (digits.foldl (fun value digit ↦ 10 * value + (digit.toNat - 48)) 0) (2 ^ 63 - 1)

/-- The digits a string ends with. -/
def trailingDigits (string : List UInt8) : List UInt8 :=
  (string.reverse.takeWhile isNumber).reverse

/-- `make_hash_code_for_table` on names without their zero byte. For an empty table name the source
looks at the byte in front of the string, the last byte of its length, which is one. -/
def makeHashCodeForTable (db table : List UInt8) : UInt64 :=
  if isNumber (table.getLastD 1) then
    let ret := UInt64.ofNat (atoll (trailingDigits table))
    if ret = 0 then UInt64.ofNat (2 ^ 64 - 1) else ret
  else fold (easyHashCode db 5) (easyHashCode table 5)

/-- `hash_code_table`. -/
def hashCodeTable (tableInfo : TdhsRequestTable) : UInt64 :=
  makeHashCodeForTable tableInfo.db.dropLast tableInfo.table.dropLast

/-! ### The settings and counters -/

/-- `tdhs_optimize_t`: the pool of a request. -/
inductive OptimizeType
  | quick
  | slow
  | write
  deriving DecidableEq, Repr

/-- `thread_strategy`. -/
inductive ThreadStrategy
  | lv1
  | lv2
  | lv3
  deriving DecidableEq, Repr

/-- What the choice of a thread depends on: the number of threads, the strategy for reads and the
three switches. -/
structure BalanceSettings where
  threadNum : UInt64
  activeSlowReadThreadNum : UInt64
  threadStrategy : ThreadStrategy
  concurrencyInsert : Bool
  concurrencyUpdate : Bool
  concurrencyDelete : Bool

/-- The counters of `tdh_socket_table_balance.cpp` and the `poll_key` of `optimize`. -/
structure Counters where
  totalExecuteCount : UInt64
  tableExecuteCount : ℕ → UInt64
  quickHashKey : UInt64
  slowHashKey : UInt64
  roundHashKey : UInt64
  pollKey : UInt64

/-- `TDHS_GUESS_TABLE_NUM`. -/
def guessTableNum : ℕ := 64 * 1024

/-! ### `table_need_balance` -/

/-- A write when its switch is on: the hash of the client or the next one in turn. -/
def concurrentHash (counters : Counters) (customHash : UInt64) : UInt64 × Counters :=
  if 0 < customHash then (customHash, counters)
  else (easyHashKey counters.roundHashKey,
    { counters with roundHashKey := counters.roundHashKey + 1 })

/-- A write of a type with a switch. -/
def writeHash (isConcurrent : Bool) (counters : Counters) (tableInfo : TdhsRequestTable)
    (customHash : UInt64) : UInt64 × Counters :=
  if isConcurrent then concurrentHash counters customHash else (hashCodeTable tableInfo, counters)

/-- The execution of a read is counted, for its table and in total. -/
def countRead (counters : Counters) (hash : UInt64) : Counters :=
  { counters with
    tableExecuteCount := Function.update counters.tableExecuteCount (hash.toNat % guessTableNum)
      (counters.tableExecuteCount (hash.toNat % guessTableNum) + 1)
    totalExecuteCount := counters.totalExecuteCount + 1 }

variable (settings : BalanceSettings) (counters : Counters)

/-- The table of a read takes more than its share. -/
def isHot (hash : UInt64) : Bool :=
  counters.totalExecuteCount / counters.tableExecuteCount (hash.toNat % guessTableNum) <
    settings.threadNum

/-- A read of a table that takes more than its share goes to the threads in turn. -/
def spreadRead (type : OptimizeType) : UInt64 × Counters :=
  if type = .quick then
    (easyHashKey counters.quickHashKey, { counters with quickHashKey := counters.quickHashKey + 1 })
  else
    (easyHashKey counters.slowHashKey, { counters with slowHashKey := counters.slowHashKey + 1 })

/-- A slow read goes to one of the active threads, and its hash is not zero. -/
def limitSlow (type : OptimizeType) (hash : UInt64) : UInt64 :=
  if type = .slow then
    if hash % settings.activeSlowReadThreadNum = 0 then settings.activeSlowReadThreadNum
    else hash % settings.activeSlowReadThreadNum
  else hash

/-- GET and COUNT in `table_need_balance`. -/
def readHash (tableInfo : TdhsRequestTable) (type : OptimizeType) (customHash : UInt64) :
    UInt64 × Counters :=
  let hash := hashCodeTable tableInfo
  let counted := countRead counters hash
  if type = .quick ∧ 0 < customHash ∧ settings.threadStrategy = .lv1 then (customHash, counted)
  else if isHot settings counted hash then
    let spread := spreadRead counted type
    (limitSlow settings type spread.1, spread.2)
  else (limitSlow settings type hash, counted)

/-- `table_need_balance`. -/
def tableNeedBalance (request : TdhsRequest) (type : OptimizeType) (customHash : UInt64) :
    UInt64 × Counters :=
  match request.type with
  | .get => readHash settings counters request.tableInfo type customHash
  | .count => readHash settings counters request.tableInfo type customHash
  | .insert => writeHash settings.concurrencyInsert counters request.tableInfo customHash
  | .update => writeHash settings.concurrencyUpdate counters request.tableInfo customHash
  | .delete => writeHash settings.concurrencyDelete counters request.tableInfo customHash
  | .batch => (easyHashKey counters.roundHashKey,
      { counters with roundHashKey := counters.roundHashKey + 1 })

/-- `easy_thread_pool_push` chooses a thread by the hash, or by the connection when it is zero. -/
def threadOf (threadCount : ℕ) (connection hv : UInt64) : ℕ :=
  (if hv = 0 then easyHashKey connection else hv).toNat % threadCount

end TdhSocket.Dispatch
