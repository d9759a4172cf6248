import Mathlib.Data.List.Induction
import TdhSocket.Library.MarkedList

/-!
# The two lists of `easy_connection_send_response`

The IO thread takes the finished requests of its list in order. A request that failed
(`EASY_ERROR`) puts its connection into `flist`, one whose response is encoded into `wlist`; both
lists run through `c->next`, and a connection that is in one of them is not put into the other. Then
the connections of `flist` are destroyed and those of `wlist` written.

`collected_encodeLoop` says which connections the loop puts where: the first request of a connection
that is listed at all decides. `failed_connections_destroyed` follows from it and from the walk of
the library: every connection with a failed request is destroyed once exactly when for each of them
a failed request comes before the encoded ones, or the socket answers `EASY_ABORT`.
-/

set_option autoImplicit false

namespace TdhSocket.Connection.SendLists

open Library Library.MarkedList

/-! ### Model -/

/-- `r->retcode`: `EASY_OK`, `EASY_AGAIN`, `EASY_ERROR` and `EASY_ASYNC`. -/
inductive RetCode
  | ok
  | again
  | error
  | async
  deriving DecidableEq, Repr

/-- What `easy_connection_write_socket` answers. -/
inductive WriteAnswer
  | ok
  | again
  | abort
  deriving DecidableEq, Repr

/-- A finished request: its connection, `r->retcode`, whether `r->opacket` is set and whether
`handler->encode` answers `EASY_OK` for it. -/
structure FinishedRequest (Conn : Type) where
  conn : Conn
  retcode : RetCode
  opacket : Bool
  encode : Bool
  deriving DecidableEq, Repr

/-- What is done to a connection: `c->pool->ref --`, `easy_connection_destroy`,
`easy_connection_write_socket` and `easy_connection_redispatch_thread`. -/
inductive Action (Conn : Type)
  | release (conn : Conn)
  | destroy (conn : Conn)
  | writeSocket (conn : Conn)
  | redispatchThread (conn : Conn)
  deriving DecidableEq, Repr

/-- The local variables of the first loop, the links and what was done so far. -/
structure Lists (Conn : Type) where
  wlist : Ends Conn
  flist : Ends Conn
  next : Links Conn
  actions : List (Action Conn)

variable {Conn : Type}

/-- `easy_connection_request_done(r) == EASY_OK`. -/
def easyConnectionRequestDone (r : FinishedRequest Conn) : Bool := !r.opacket || r.encode

/-- One round of the loop over `wlist`. -/
def writeRound (socket : Conn → WriteAnswer) (server : Conn → Bool) (c : Conn) :
    List (Action Conn) :=
  .writeSocket c ::
    if socket c = .abort then [.destroy c] else if server c then [.redispatchThread c] else []

variable {c : Conn} {action : Action Conn} {members : List Conn}
  {Kind : FinishedRequest Conn → Prop}

theorem mem_writeRound {socket : Conn → WriteAnswer} {server : Conn → Bool}
    (hmem : action ∈ writeRound socket server c) :
    action = .writeSocket c ∨ action = .destroy c ∨ action = .redispatchThread c := by
  unfold writeRound at hmem
  rcases List.mem_cons.mp hmem with hwrite | hmem
  · exact .inl hwrite
  · split at hmem
    · exact .inr (.inl (List.mem_singleton.mp hmem))
    · split at hmem
      · exact .inr (.inr (List.mem_singleton.mp hmem))
      · cases hmem

variable [DecidableEq Conn]

/-- `easy_connection_add_list`. -/
def easyConnectionAddList (list : Ends Conn) (c : Conn) (next : Links Conn) :
    Ends Conn × Links Conn :=
  MarkedList.add list c next

/-- One round of the first loop, before the counters: the connection is listed. -/
def listConnection (lists : Lists Conn) (r : FinishedRequest Conn) : Lists Conn :=
  if r.retcode ≠ .error then
    if easyConnectionRequestDone r then
      let added := easyConnectionAddList lists.wlist r.conn lists.next
      { lists with wlist := added.1, next := added.2 }
    else lists
  else
    let added := easyConnectionAddList lists.flist r.conn lists.next
    { lists with flist := added.1, next := added.2 }

/-- One round of the first loop. -/
def encodeRound (lists : Lists Conn) (r : FinishedRequest Conn) : Lists Conn :=
  let listed := listConnection lists r
  { listed with actions := listed.actions ++ [.release r.conn] }

/-- The first loop. -/
def encodeLoop (next : Links Conn) (requests : List (FinishedRequest Conn)) : Lists Conn :=
  requests.foldl encodeRound ⟨⟨none, none⟩, ⟨none, none⟩, next, []⟩

/-- `easy_connection_send_response`: what is done to the connections, and their links afterwards.
`socket` answers the writes, and `server` says which connections have `EASY_TYPE_SERVER`. -/
def easyConnectionSendResponse (socket : Conn → WriteAnswer) (server : Conn → Bool) (fuel : ℕ)
    (next : Links Conn) (requests : List (FinishedRequest Conn)) :
    Option (List (Action Conn) × Links Conn) := do
  let lists := encodeLoop next requests
  let (failed, next) ← walk lists.flist lists.next fuel
  let (written, next) ← walk lists.wlist next fuel
  return (lists.actions ++ failed.map .destroy ++ written.flatMap (writeRound socket server), next)

/-! ### Which request decides -/

/-- The request puts its connection into one of the lists, unless it is in one. -/
def isListed (r : FinishedRequest Conn) : Bool :=
  decide (r.retcode = .error) || easyConnectionRequestDone r

/-- The first request of a connection that is listed. -/
def firstListed (requests : List (FinishedRequest Conn)) (c : Conn) :
    Option (FinishedRequest Conn) :=
  requests.find? fun r ↦ decide (r.conn = c) && isListed r

/-- A request that is not listed, or not the first of its connection, changes nothing. -/
theorem firstListed_append {seen : List (FinishedRequest Conn)} {r : FinishedRequest Conn}
    (hlater : r.conn = c → isListed r = true → firstListed seen c ≠ none) :
    firstListed (seen ++ [r]) c = firstListed seen c := by
  unfold firstListed at *
  rw [List.find?_append]
  cases hseen : seen.find? fun r ↦ decide (r.conn = c) && isListed r with
  | some first => rfl
  | none =>
    refine List.find?_eq_none.mpr fun other hother hlisted ↦ ?_
    obtain rfl := List.mem_singleton.mp hother
    rw [Bool.and_eq_true, decide_eq_true_eq] at hlisted
    exact hlater hlisted.1 hlisted.2 hseen

theorem firstListed_append_self {seen : List (FinishedRequest Conn)} {r : FinishedRequest Conn}
    (hnone : firstListed seen r.conn = none) (hlisted : isListed r = true) :
    firstListed (seen ++ [r]) r.conn = some r := by
  unfold firstListed at *
  rw [List.find?_append, hnone]
  simp [hlisted]

/-- The lists behind a number of requests: the connections of `wlist` and `flist` are those whose
first listed request is an encoded one and a failed one. -/
structure Collected (seen : List (FinishedRequest Conn)) (lists : Lists Conn)
    (written failed : List Conn) : Prop where
  wlist : Holds lists.next lists.wlist written
  flist : Holds lists.next lists.flist failed
  mem_written : ∀ c, c ∈ written ↔ ∃ r, firstListed seen c = some r ∧ r.retcode ≠ .error
  mem_failed : ∀ c, c ∈ failed ↔ ∃ r, firstListed seen c = some r ∧ r.retcode = .error
  free : ∀ c, lists.next c = none ↔ firstListed seen c = none
  length_written : written.length ≤ seen.length
  length_failed : failed.length ≤ seen.length
  released : ∀ action ∈ lists.actions, ∃ c, action = .release c

variable {seen requests : List (FinishedRequest Conn)} {lists : Lists Conn}
  {written failed : List Conn} {r : FinishedRequest Conn}

theorem Collected.disjoint (hcollected : Collected seen lists written failed)
    (hwritten : c ∈ written) : c ∉ failed := by
  intro hfailed
  obtain ⟨first, hfirst, hok⟩ := (hcollected.mem_written c).mp hwritten
  obtain ⟨other, hother, herror⟩ := (hcollected.mem_failed c).mp hfailed
  obtain rfl : first = other := Option.some.inj (hfirst.symm.trans hother)
  exact hok herror

/-- A request that lists nothing new. -/
theorem Collected.later (hcollected : Collected seen lists written failed)
    (hlater : isListed r = true → lists.next r.conn ≠ none) :
    Collected (seen ++ [r]) lists written failed := by
  have hsame : ∀ c, firstListed (seen ++ [r]) c = firstListed seen c := by
    intro c
    refine firstListed_append fun hconn hlisted hnone ↦ hlater hlisted ?_
    rw [hconn]
    exact (hcollected.free c).mpr hnone
  have hlength : seen.length ≤ (seen ++ [r]).length := by
    rw [List.length_append]
    exact Nat.le_add_right _ _
  refine ⟨hcollected.wlist, hcollected.flist, ?_, ?_, ?_,
    Nat.le_trans hcollected.length_written hlength, Nat.le_trans hcollected.length_failed hlength,
    hcollected.released⟩
  · intro c
    rw [hsame]
    exact hcollected.mem_written c
  · intro c
    rw [hsame]
    exact hcollected.mem_failed c
  · intro c
    rw [hsame]
    exact hcollected.free c

section

variable (hmembers : ∀ c, c ∈ members ↔ ∃ r, firstListed seen c = some r ∧ Kind r)
  (hnone : firstListed seen r.conn = none) (hlisted : isListed r = true)

include hmembers hnone hlisted

/-- Who is in a list behind a new connection. Assumes: the list has the connections whose first
listed request is of a kind, and the connection was in no list. -/
theorem mem_append_iff (hkind : Kind r)
    (c : Conn) :
    c ∈ members ++ [r.conn] ↔ ∃ first, firstListed (seen ++ [r]) c = some first ∧ Kind first := by
  rw [List.mem_append, List.mem_singleton]
  by_cases hconn : r.conn = c
  · subst hconn
    exact iff_of_true (.inr rfl) ⟨r, firstListed_append_self hnone hlisted, hkind⟩
  · rw [firstListed_append fun h ↦ absurd h hconn, ← hmembers c]
    exact or_iff_left (Ne.symm hconn)

/-- The other list. -/
theorem mem_other_iff (hkind : ¬Kind r)
    (c : Conn) : c ∈ members ↔ ∃ first, firstListed (seen ++ [r]) c = some first ∧ Kind first := by
  rw [hmembers c]
  by_cases hconn : r.conn = c
  · subst hconn
    rw [firstListed_append_self hnone hlisted, hnone]
    refine iff_of_false ?_ ?_
    · rintro ⟨first, hfirst, -⟩
      cases hfirst
    · rintro ⟨first, hfirst, hfirstKind⟩
      cases hfirst
      exact hkind hfirstKind
  · rw [firstListed_append fun h ↦ absurd h hconn]

end

/-- Which connections are in no list behind a new one. -/
theorem free_append_iff (hnone : firstListed seen r.conn = none) (hlisted : isListed r = true)
    (c : Conn) :
    firstListed (seen ++ [r]) c = none ↔ firstListed seen c = none ∧ c ≠ r.conn := by
  by_cases hconn : r.conn = c
  · subst hconn
    rw [firstListed_append_self hnone hlisted]
    exact iff_of_false (Option.some_ne_none _) fun h ↦ h.2 rfl
  · rw [firstListed_append fun h ↦ absurd h hconn]
    exact (and_iff_left (Ne.symm hconn)).symm

/-- One round keeps the lists collected. -/
theorem Collected.listConnection (hcollected : Collected seen lists written failed)
    (r : FinishedRequest Conn) :
    ∃ written failed, Collected (seen ++ [r]) (listConnection lists r) written failed := by
  have hlength : (seen ++ [r]).length = seen.length + 1 := List.length_append
  unfold SendLists.listConnection easyConnectionAddList
  by_cases herror : r.retcode = .error
  · rw [if_neg (not_not.mpr herror)]
    have hlisted : isListed r = true := by simp [isListed, herror]
    by_cases hfree : lists.next r.conn = none
    · have hnone := (hcollected.free r.conn).mp hfree
      refine ⟨written, failed ++ [r.conn], ?_, hcollected.flist.add hfree, ?_, ?_, ?_, ?_, ?_,
        hcollected.released⟩
      · exact hcollected.wlist.add_other hcollected.flist (fun c ↦ hcollected.disjoint) hfree
      · exact mem_other_iff hcollected.mem_written hnone hlisted (not_not.mpr herror)
      · exact mem_append_iff hcollected.mem_failed hnone hlisted herror
      · intro c
        rw [free_append_iff hnone hlisted, ← hcollected.free c]
        exact hcollected.flist.add_eq_none_iff hfree c
      · rw [hlength]
        exact Nat.le_succ_of_le hcollected.length_written
      · rw [List.length_append, hlength]
        exact Nat.add_le_add_right hcollected.length_failed 1
    · rw [add_of_marked _ hfree]
      exact ⟨written, failed, hcollected.later fun _ ↦ hfree⟩
  · rw [if_pos herror]
    by_cases hdone : easyConnectionRequestDone r = true
    · rw [if_pos hdone]
      have hlisted : isListed r = true := by simp [isListed, hdone]
      by_cases hfree : lists.next r.conn = none
      · have hnone := (hcollected.free r.conn).mp hfree
        refine ⟨written ++ [r.conn], failed, hcollected.wlist.add hfree, ?_, ?_, ?_, ?_, ?_, ?_,
          hcollected.released⟩
        · exact hcollected.flist.add_other hcollected.wlist
            (fun c hfailed hwritten ↦ hcollected.disjoint hwritten hfailed) hfree
        · exact mem_append_iff hcollected.mem_written hnone hlisted herror
        · exact mem_other_iff hcollected.mem_failed hnone hlisted herror
        · intro c
          rw [free_append_iff hnone hlisted, ← hcollected.free c]
          exact hcollected.wlist.add_eq_none_iff hfree c
        · rw [List.length_append, hlength]
          exact Nat.add_le_add_right hcollected.length_written 1
        · rw [hlength]
          exact Nat.le_succ_of_le hcollected.length_failed
      · rw [add_of_marked _ hfree]
        exact ⟨written, failed, hcollected.later fun _ ↦ hfree⟩
    · rw [if_neg hdone]
      refine ⟨written, failed, hcollected.later fun hlisted ↦ absurd hlisted ?_⟩
      simp [isListed, herror, hdone]

/-- The first loop leaves the lists collected. Assumes: no connection is in a list before. -/
theorem collected_encodeLoop {next : Links Conn} (hnext : ∀ c, next c = none)
    (requests : List (FinishedRequest Conn)) :
    ∃ written failed, Collected requests (encodeLoop next requests) written failed := by
  induction requests using List.reverseRecOn with
  | nil =>
    refine ⟨[], [], holds_nil _, holds_nil _, ?_, ?_, ?_, Nat.le_refl 0, Nat.le_refl 0, ?_⟩
    · exact fun c ↦ iff_of_false List.not_mem_nil (by rintro ⟨r, hr, -⟩; cases hr)
    · exact fun c ↦ iff_of_false List.not_mem_nil (by rintro ⟨r, hr, -⟩; cases hr)
    · exact fun c ↦ iff_of_true (hnext c) rfl
    · exact List.forall_mem_nil _
  | append_singleton seen r ih =>
    obtain ⟨_, _, hseen⟩ := ih
    obtain ⟨written, failed, hround⟩ := hseen.listConnection r
    refine ⟨written, failed, ?_⟩
    unfold encodeLoop at hround ⊢
    rw [List.foldl_append]
    refine ⟨hround.wlist, hround.flist, hround.mem_written, hround.mem_failed, hround.free,
      hround.length_written, hround.length_failed, fun action haction ↦ ?_⟩
    rcases List.mem_append.mp haction with hbefore | hlast
    · exact hround.released action hbefore
    · exact ⟨r.conn, List.mem_singleton.mp hlast⟩

/-! ### What is done to a connection -/

/-- An action of one connection only, over a list of connections. -/
theorem count_flatMap_of_nodup (hnodup : members.Nodup) {round : Conn → List (Action Conn)}
    (hown : ∀ other, other ≠ c → action ∉ round other) :
    (members.flatMap round).count action = if c ∈ members then (round c).count action else 0 := by
  induction members with
  | nil => rfl
  | cons first rest ih =>
    obtain ⟨hfirst, hrest⟩ := List.nodup_cons.mp hnodup
    rw [List.flatMap_cons, List.count_append, ih hrest]
    by_cases hc : first = c
    · subst hc
      rw [if_neg hfirst, if_pos List.mem_cons_self, Nat.add_zero]
    · rw [List.count_eq_zero.mpr (hown first hc), Nat.zero_add]
      simp only [List.mem_cons, Ne.symm hc, false_or]

/-- What `easy_connection_send_response` returns with some lists. -/
theorem Collected.sendResponse {next : Links Conn} (socket : Conn → WriteAnswer)
    (server : Conn → Bool)
    (hcollected : Collected requests (encodeLoop next requests) written failed)
    {fuel : ℕ} (hfuel : requests.length ≤ fuel) :
    easyConnectionSendResponse socket server fuel next requests =
      some ((encodeLoop next requests).actions ++ failed.flatMap (fun c ↦ [Action.destroy c]) ++
        written.flatMap (writeRound socket server),
        unlink (unlink (encodeLoop next requests).next failed) written) := by
  have hflist := hcollected.flist.walk_eq (Nat.le_trans hcollected.length_failed hfuel)
  have hother := hcollected.wlist.unlink_other fun c ↦ hcollected.disjoint
  have hwlist := hother.walk_eq (Nat.le_trans hcollected.length_written hfuel)
  unfold easyConnectionSendResponse
  simp only [hflist, hwlist, Option.bind_eq_bind, Option.bind_some, ← List.map_eq_flatMap]
  rfl

section

variable (hcollected : Collected requests lists written failed)

include hcollected

variable (socket : Conn → WriteAnswer) (server : Conn → Bool)

/-- How often an action is done that releases nothing and stands in the round of one connection
only. -/
theorem Collected.count_action (haction : action = .writeSocket c ∨ action = .destroy c) :
    (lists.actions ++ failed.flatMap (fun c ↦ [Action.destroy c]) ++
      written.flatMap (writeRound socket server)).count action =
      (if c ∈ failed then [Action.destroy c].count action else 0) +
        if c ∈ written then (writeRound socket server c).count action else 0 := by
  have hreleased : lists.actions.count action = 0 := by
    refine List.count_eq_zero.mpr fun hmem ↦ ?_
    obtain ⟨other, rfl⟩ := hcollected.released _ hmem
    rcases haction with h | h <;> cases h
  rw [List.count_append, List.count_append, hreleased, Nat.zero_add,
    count_flatMap_of_nodup hcollected.flist.nodup, count_flatMap_of_nodup hcollected.wlist.nodup]
  · intro other hother hmem
    rcases haction with rfl | rfl <;> rcases mem_writeRound hmem with h | h | h <;> cases h <;>
      exact hother rfl
  · intro other hother hmem
    rcases haction with rfl | rfl <;> cases List.mem_singleton.mp hmem
    exact hother rfl

/-- How often a connection is destroyed. -/
theorem Collected.count_destroy (c : Conn) :
    (lists.actions ++ failed.flatMap (fun c ↦ [Action.destroy c]) ++
      written.flatMap (writeRound socket server)).count (Action.destroy c) =
      (if c ∈ failed then 1 else 0) +
        (if c ∈ written then if socket c = .abort then 1 else 0 else 0) := by
  have hround : (writeRound socket server c).count (.destroy c) =
      if socket c = .abort then 1 else 0 := by
    unfold writeRound
    by_cases habort : socket c = .abort
    · simp [habort]
    · by_cases hserver : server c = true <;> simp [habort, hserver]
  rw [hcollected.count_action socket server (.inr rfl), hround, List.count_singleton_self]

/-- How often a connection is written. -/
theorem Collected.count_writeSocket (c : Conn) :
    (lists.actions ++ failed.flatMap (fun c ↦ [Action.destroy c]) ++
      written.flatMap (writeRound socket server)).count (Action.writeSocket c) =
      if c ∈ written then 1 else 0 := by
  have hround : (writeRound socket server c).count (.writeSocket c) = 1 := by
    unfold writeRound
    by_cases habort : socket c = .abort
    · simp [habort]
    · by_cases hserver : server c = true <;> simp [habort, hserver]
  rw [hcollected.count_action socket server (.inl rfl), hround]
  simp

/-- A connection with a listed request is in one of the lists. -/
theorem Collected.mem_of_listed (hmem : r ∈ requests) (hlisted : isListed r = true) :
    r.conn ∈ written ∨ r.conn ∈ failed := by
  obtain ⟨first, hfirst⟩ : ∃ first, firstListed requests r.conn = some first := by
    refine Option.ne_none_iff_exists'.mp fun hnone ↦ List.find?_eq_none.mp hnone r hmem ?_
    simp [hlisted]
  by_cases herror : first.retcode = .error
  · exact .inr ((hcollected.mem_failed _).mpr ⟨first, hfirst, herror⟩)
  · exact .inl ((hcollected.mem_written _).mpr ⟨first, hfirst, herror⟩)

/-- No link is left. -/
theorem Collected.unlink_eq_none (c : Conn) :
    unlink (unlink lists.next failed) written c = none := by
  unfold unlink
  by_cases hwritten : c ∈ written
  · exact if_pos hwritten
  rw [if_neg hwritten]
  by_cases hfailed : c ∈ failed
  · exact if_pos hfailed
  rw [if_neg hfailed, hcollected.free c]
  by_contra hlisted
  obtain ⟨first, hfirst⟩ := Option.ne_none_iff_exists'.mp hlisted
  by_cases herror : first.retcode = .error
  · exact hfailed ((hcollected.mem_failed c).mpr ⟨first, hfirst, herror⟩)
  · exact hwritten ((hcollected.mem_written c).mpr ⟨first, hfirst, herror⟩)

end

/-! ### Failed requests and their connections -/

section

variable (requests : List (FinishedRequest Conn))

/-- The connection has a request with `EASY_ERROR`. -/
def HasFailed (c : Conn) : Prop :=
  ∃ r ∈ requests, r.conn = c ∧ r.retcode = .error

/-- The connection has a response that was encoded. -/
def HasEncoded (c : Conn) : Prop :=
  ∃ r ∈ requests, r.conn = c ∧ r.retcode ≠ .error ∧ r.opacket = true ∧ r.encode = true

/-- The first listed request of the connection is a failed one. -/
def FailsFirst (c : Conn) : Prop :=
  ∃ r, firstListed requests c = some r ∧ r.retcode = .error

end

/-- Every connection with a failed request is destroyed once, every other one with an encoded
response is written once, and no connection has a link. -/
structure ClosesFailed (requests : List (FinishedRequest Conn)) (actions : List (Action Conn))
    (next : Links Conn) : Prop where
  destroyed : ∀ c, HasFailed requests c → actions.count (.destroy c) = 1
  written : ∀ c, ¬HasFailed requests c → HasEncoded requests c →
    actions.count (.writeSocket c) = 1
  unlinked : ∀ c, next c = none

/-- `easy_connection_send_response` returns, and it closes the connections of the failed requests
exactly if for each of them the first listed request is a failed one or the write is aborted.
Assumes: no connection is in a list before. -/
theorem failed_connections_destroyed (socket : Conn → WriteAnswer) (server : Conn → Bool)
    (requests : List (FinishedRequest Conn)) {next : Links Conn} (hnext : ∀ c, next c = none)
    {fuel : ℕ} (hfuel : requests.length ≤ fuel) :
    ∃ actions links,
      easyConnectionSendResponse socket server fuel next requests = some (actions, links) ∧
      (ClosesFailed requests actions links ↔
        ∀ c, HasFailed requests c → FailsFirst requests c ∨ socket c = .abort) := by
  obtain ⟨written, failed, hcollected⟩ := collected_encodeLoop hnext requests
  have hdestroy := hcollected.count_destroy socket server
  refine ⟨_, _, hcollected.sendResponse socket server hfuel, ?_, ?_⟩
  · intro hcloses c hhas
    have hcount := hcloses.destroyed c hhas
    rw [hdestroy] at hcount
    by_cases hfailed : c ∈ failed
    · exact .inl ((hcollected.mem_failed c).mp hfailed)
    · right
      by_contra habort
      simp [hfailed, habort] at hcount
  · intro hcondition
    refine ⟨?_, ?_, hcollected.unlink_eq_none⟩
    · intro c hhas
      rw [hdestroy]
      by_cases hfailed : c ∈ failed
      · rw [if_pos hfailed, if_neg fun hwritten ↦ hcollected.disjoint hwritten hfailed]
      · obtain ⟨r, hmem, rfl, herror⟩ := hhas
        have hwritten := (hcollected.mem_of_listed hmem (by simp [isListed, herror])).resolve_right
          hfailed
        have habort := (hcondition r.conn ⟨r, hmem, rfl, herror⟩).resolve_left fun hfirst ↦
          hfailed ((hcollected.mem_failed _).mpr hfirst)
        rw [if_neg hfailed, if_pos hwritten, if_pos habort]
    · rintro c hhas ⟨r, hmem, rfl, -, -, hencode⟩
      rw [hcollected.count_writeSocket, if_pos]
      refine (hcollected.mem_of_listed hmem ?_).resolve_right fun hfailed ↦ hhas ?_
      · simp [isListed, easyConnectionRequestDone, hencode]
      · obtain ⟨first, hfirst, herror⟩ := (hcollected.mem_failed _).mp hfailed
        have hlisted := List.find?_some hfirst
        rw [Bool.and_eq_true, decide_eq_true_eq] at hlisted
        exact ⟨first, List.mem_of_find?_eq_some hfirst, hlisted.1, herror⟩

/-- One connection has a failed request before a good one, another a good one only. -/
theorem failed_connections_destroyed_failsFirst :
    ∃ actions links,
      easyConnectionSendResponse (fun _ ↦ .ok) (fun _ ↦ true) 3 (fun _ : ℕ ↦ none)
        [⟨0, .error, false, false⟩, ⟨0, .ok, true, true⟩, ⟨1, .ok, true, true⟩] =
          some (actions, links) ∧
      ClosesFailed [⟨0, .error, false, false⟩, ⟨0, .ok, true, true⟩, ⟨1, .ok, true, true⟩]
        actions links := by
  obtain ⟨actions, links, hsend, hiff⟩ :=
    failed_connections_destroyed (fun _ ↦ .ok) (fun _ ↦ true)
      [⟨0, .error, false, false⟩, ⟨0, .ok, true, true⟩, ⟨1, .ok, true, true⟩]
      (show ∀ c, (fun _ : ℕ ↦ none) c = none from fun _ ↦ rfl) (Nat.le_refl 3)
  refine ⟨actions, links, hsend, hiff.mpr ?_⟩
  rintro c ⟨r, hmem, rfl, herror⟩
  simp only [List.mem_cons, List.not_mem_nil, or_false] at hmem
  rcases hmem with rfl | rfl | rfl
  · exact .inl ⟨_, rfl, rfl⟩
  · cases herror
  · cases herror

/-- A connection with an encoded response before a failed request is written and not destroyed. -/
theorem failed_behind_encoded_survives :
    ∃ actions links,
      easyConnectionSendResponse (fun _ ↦ .ok) (fun _ ↦ true) 2 (fun _ : ℕ ↦ none)
        [⟨0, .ok, true, true⟩, ⟨0, .error, false, false⟩] = some (actions, links) ∧
      HasFailed [⟨0, .ok, true, true⟩, ⟨0, .error, false, false⟩] 0 ∧
      actions = [.release 0, .release 0, .writeSocket 0, .redispatchThread 0] ∧
      ¬ClosesFailed [⟨0, .ok, true, true⟩, ⟨0, .error, false, false⟩] actions links := by
  have hfailed : HasFailed [⟨0, .ok, true, true⟩, ⟨0, .error, false, false⟩] 0 :=
    ⟨_, List.mem_cons_of_mem _ List.mem_cons_self, rfl, rfl⟩
  refine ⟨_, _, rfl, hfailed, rfl, fun hcloses ↦ ?_⟩
  exact absurd (hcloses.destroyed 0 hfailed) (by decide)

end TdhSocket.Connection.SendLists
