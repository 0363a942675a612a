import Rudp.Lib.Retry
import Rudp.Types

/-!
# Fresh ports and server ids

`tcp_new_port` and `tcp_new_server_id` (tcp.c:705-747) advance a static counter until no pcb on the
four lists uses its value. The first gives up behind 16384 ports, the second never does, and it
returns the counter advanced once more.

Results:
* `tcpNewPort_spec`: the port is in the range and free, or the range is used up.
* `newServerId_returns`: `tcp_new_server_id` returns while there are fewer pcbs than ids.
* `fresh_ids_iff`: port and id are fresh exactly when `NextIdFree`.
-/

namespace Rudp

/-! ## The lists -/

/-- What the two functions read of a listed pcb: `local_port`, and the four bytes that
    `conn_id.connid2` names. A `tcp_pcb_listen` has no `conn_id`, so for a listening pcb they are
    those of the memory behind it. -/
structure Listed where
  localPort : ℕ
  connid2 : U32
  deriving DecidableEq, Repr

/-- `tcp_pcb_lists` (tcp.c:118-119). -/
structure PcbLists where
  listenPcbs : List Listed := []
  boundPcbs : List Listed := []
  activePcbs : List Listed := []
  twPcbs : List Listed := []

/-- The pcbs in the order in which the loops meet them. -/
def PcbLists.pcbs (l : PcbLists) : List Listed :=
  l.listenPcbs ++ l.boundPcbs ++ l.activePcbs ++ l.twPcbs

/-! ## `tcp_new_port` -/

/-- `TCP_LOCAL_PORT_RANGE_START` and `TCP_LOCAL_PORT_RANGE_END` (tcp.c:64-65). -/
def TCP_LOCAL_PORT_RANGE_START : ℕ := 0xc000

@[inherit_doc TCP_LOCAL_PORT_RANGE_START] def TCP_LOCAL_PORT_RANGE_END : ℕ := 0xffff

/-- The static variable `tcp_port`. Only `tcp_init` and `tcp_new_port` assign it. -/
structure LocalPort where
  port : ℕ
  start_le : TCP_LOCAL_PORT_RANGE_START ≤ port
  le_end : port ≤ TCP_LOCAL_PORT_RANGE_END

namespace LocalPort

@[ext] theorem ext {p q : LocalPort} (h : p.port = q.port) : p = q := by
  cases p
  cases q
  cases h
  rfl

/-- The initial value (tcp.c:92). -/
def init : LocalPort where
  port := TCP_LOCAL_PORT_RANGE_START
  start_le := le_rfl
  le_end := by decide

/-- `if (tcp_port++ == TCP_LOCAL_PORT_RANGE_END) tcp_port = TCP_LOCAL_PORT_RANGE_START` -/
def next (p : LocalPort) : LocalPort :=
  if h : p.port = TCP_LOCAL_PORT_RANGE_END then init
  else
    { port := u16 (p.port + 1)
      start_le := by
        have h1 := p.start_le
        have h2 := p.le_end
        unfold TCP_LOCAL_PORT_RANGE_START TCP_LOCAL_PORT_RANGE_END u16 at *
        omega
      le_end := by
        unfold TCP_LOCAL_PORT_RANGE_END u16
        omega }

end LocalPort

/-- Some listed pcb has the port. -/
def PortUsed (l : PcbLists) (p : LocalPort) : Prop := ∃ pcb ∈ l.pcbs, pcb.localPort = p.port

instance (l : PcbLists) : DecidablePred (PortUsed l) := fun p =>
  inferInstanceAs (Decidable (∃ pcb ∈ l.pcbs, pcb.localPort = p.port))

/-- The loop of `tcp_new_port` behind the label `again`: the port and the new `tcp_port`. `left` is
    how often `++n` may still stay within the size of the range. -/
def tcpNewPortAgain (l : PcbLists) : ℕ → LocalPort → ℕ × LocalPort
  | left, tcpPort =>
    let tcpPort := tcpPort.next
    if PortUsed l tcpPort then
      match left with
      | 0 => (0, tcpPort)
      | left + 1 => tcpNewPortAgain l left tcpPort
    else (tcpPort.port, tcpPort)

/-- `tcp_new_port` (tcp.c:705-728). -/
def tcpNewPort (l : PcbLists) (tcpPort : LocalPort) : ℕ × LocalPort :=
  tcpNewPortAgain l (TCP_LOCAL_PORT_RANGE_END - TCP_LOCAL_PORT_RANGE_START) tcpPort

/-! ## `tcp_new_server_id` -/

/-- `if (++tcp_server_id == 0) ++tcp_server_id` -/
def nextServerId (id : U32) : U32 := if id + 1 = 0 then id + 1 + 1 else id + 1

/-- Some listed pcb has the id. -/
def IdUsed (l : PcbLists) (id : U32) : Prop := ∃ pcb ∈ l.pcbs, pcb.connid2 = id

instance (l : PcbLists) : DecidablePred (IdUsed l) := fun id =>
  inferInstanceAs (Decidable (∃ pcb ∈ l.pcbs, pcb.connid2 = id))

/-- At most `fuel` turns of the loop of `tcp_new_server_id` (tcp.c:730-747). What it returns is also
    the new `tcp_server_id`. -/
def tcpNewServerId (l : PcbLists) : ℕ → U32 → Option U32
  | 0, _ => none
  | fuel + 1, tcpServerId =>
    let tcpServerId := nextServerId tcpServerId
    if IdUsed l tcpServerId then tcpNewServerId l fuel tcpServerId
    else some (tcpServerId + 1)

/-- `tcp_new_server_id` returns `id`. -/
def NewServerId (l : PcbLists) (tcpServerId id : U32) : Prop :=
  ∃ fuel, tcpNewServerId l fuel tcpServerId = some id

/-! ## The ports that are tried -/

theorem LocalPort.port_next (p : LocalPort) :
    p.next.port = 49152 + (p.port - 49152 + 1) % 16384 := by
  have h1 := p.start_le
  have h2 := p.le_end
  unfold TCP_LOCAL_PORT_RANGE_START TCP_LOCAL_PORT_RANGE_END at *
  unfold LocalPort.next
  split
  · next h =>
    show (49152 : ℕ) = _
    unfold TCP_LOCAL_PORT_RANGE_END at h
    omega
  · next h =>
    show u16 (p.port + 1) = _
    unfold TCP_LOCAL_PORT_RANGE_END at h
    unfold u16
    omega

theorem LocalPort.port_iterate (p : LocalPort) (k : ℕ) :
    (LocalPort.next^[k] p).port = 49152 + (p.port - 49152 + k) % 16384 := by
  have h1 := p.start_le
  have h2 := p.le_end
  unfold TCP_LOCAL_PORT_RANGE_START TCP_LOCAL_PORT_RANGE_END at *
  induction k with
  | zero =>
    rw [Function.iterate_zero, id]
    omega
  | succ k ih =>
    rw [Function.iterate_succ_apply', LocalPort.port_next, ih]
    omega

/-- Every port of the range is tried. -/
theorem LocalPort.exists_iterate (p q : LocalPort) : ∃ i < 16384, LocalPort.next^[i + 1] p = q := by
  have h1 := p.start_le
  have h2 := p.le_end
  have h3 := q.start_le
  have h4 := q.le_end
  unfold TCP_LOCAL_PORT_RANGE_START TCP_LOCAL_PORT_RANGE_END at *
  refine ⟨(q.port + 16384 - p.port + 16383) % 16384, Nat.mod_lt _ (by decide), ?_⟩
  apply LocalPort.ext
  rw [LocalPort.port_iterate]
  omega

theorem tcpNewPortAgain_eq (l : PcbLists) (left : ℕ) (p : LocalPort) :
    (tcpNewPortAgain l left p).1 =
      ((Retry.search LocalPort.next (PortUsed l) (left + 1) p).map (·.port)).getD 0 := by
  induction left generalizing p with
  | zero =>
    rw [tcpNewPortAgain, Retry.search]
    split <;> rfl
  | succ left ih =>
    rw [tcpNewPortAgain, Retry.search]
    split
    · exact ih _
    · rfl

/-- The port is in the range and no listed pcb has it, or all ports of the range are in use. -/
theorem tcpNewPort_spec (l : PcbLists) (p : LocalPort) :
    ((tcpNewPort l p).1 ≠ 0 ∧ ∃ q : LocalPort, (tcpNewPort l p).1 = q.port ∧ ¬ PortUsed l q) ∨
      ((tcpNewPort l p).1 = 0 ∧ ∀ q, PortUsed l q) := by
  have he : (tcpNewPort l p).1 = _ := tcpNewPortAgain_eq l 16383 p
  rw [he]
  cases hs : Retry.search LocalPort.next (PortUsed l) 16384 p with
  | none =>
    right
    refine ⟨rfl, fun q => ?_⟩
    obtain ⟨i, hi, rfl⟩ := p.exists_iterate q
    exact Retry.search_eq_none.mp hs i hi
  | some q =>
    left
    obtain ⟨k, -, hf, rfl⟩ := Retry.search_eq_some.mp hs
    have h1 := (LocalPort.next^[k + 1] p).start_le
    refine ⟨?_, _, rfl, hf.2⟩
    show (LocalPort.next^[k + 1] p).port ≠ 0
    unfold TCP_LOCAL_PORT_RANGE_START at h1
    omega

/-! ## The ids that are tried -/

theorem toNat_nextServerId (id : U32) :
    (nextServerId id).toNat = (id.toNat + 4294967294 + 1) % 4294967295 + 1 := by
  have h := id.isLt
  unfold nextServerId
  split
  · next h0 =>
    rw [h0]
    have h0 : (id.toNat + 1) % 4294967296 = 0 := by
      have h0 := congrArg BitVec.toNat h0
      rw [BitVec.toNat_add] at h0
      exact h0
    show (0 + 1) % 4294967296 = _
    omega
  · next h0 =>
    have h0 : (id.toNat + 1) % 4294967296 ≠ 0 := by
      intro he
      exact h0 (BitVec.eq_of_toNat_eq (by rw [BitVec.toNat_add]; exact he))
    rw [BitVec.toNat_add]
    show (id.toNat + 1) % 4294967296 = _
    omega

theorem toNat_iterate_nextServerId (id : U32) (k : ℕ) :
    (nextServerId^[k + 1] id).toNat = (id.toNat + 4294967294 + (k + 1)) % 4294967295 + 1 := by
  induction k with
  | zero => exact toNat_nextServerId id
  | succ k ih =>
    rw [Function.iterate_succ_apply', toNat_nextServerId, ih]
    omega

theorem tcpNewServerId_eq (l : PcbLists) (fuel : ℕ) (id : U32) :
    tcpNewServerId l fuel id =
      (Retry.search nextServerId (IdUsed l) fuel id).map (· + 1) := by
  induction fuel generalizing id with
  | zero => rfl
  | succ fuel ih =>
    rw [tcpNewServerId, Retry.search]
    split
    · exact ih _
    · rfl

/-- What `tcp_new_server_id` returns is the number behind the first free one. -/
theorem newServerId_iff (l : PcbLists) (tcpServerId id : U32) :
    NewServerId l tcpServerId id ↔ ∃ k, Retry.FreeAt nextServerId (IdUsed l) tcpServerId k ∧
      nextServerId^[k + 1] tcpServerId + 1 = id := by
  unfold NewServerId
  constructor
  · rintro ⟨fuel, h⟩
    rw [tcpNewServerId_eq, Option.map_eq_some_iff] at h
    obtain ⟨x, hx, rfl⟩ := h
    obtain ⟨k, -, hf, rfl⟩ := Retry.search_eq_some.mp hx
    exact ⟨k, hf, rfl⟩
  · rintro ⟨k, hf, rfl⟩
    refine ⟨k + 1, ?_⟩
    rw [tcpNewServerId_eq, Option.map_eq_some_iff]
    exact ⟨_, Retry.search_eq_some.mpr ⟨k, by omega, hf, rfl⟩, rfl⟩

/-- `tcp_new_server_id` returns while there are fewer pcbs than ids. -/
theorem newServerId_returns {l : PcbLists} (hl : l.pcbs.length < 4294967295) (tcpServerId : U32) :
    ∃ id, NewServerId l tcpServerId id := by
  have hs : Retry.search nextServerId (IdUsed l) 4294967295 tcpServerId ≠ none := by
    refine Retry.search_ne_none (T := (l.pcbs.map (·.connid2)).toFinset) ?_ ?_ ?_
    · rintro id ⟨pcb, hm, rfl⟩
      exact List.mem_toFinset.mpr (List.mem_map_of_mem hm)
    · have h := List.toFinset_card_le (l.pcbs.map (·.connid2))
      rw [List.length_map] at h
      omega
    · intro i hi j hj he
      have he := congrArg BitVec.toNat he
      rw [toNat_iterate_nextServerId, toNat_iterate_nextServerId] at he
      omega
  obtain ⟨x, hx⟩ := Option.ne_none_iff_exists'.mp hs
  refine ⟨x + 1, 4294967295, ?_⟩
  rw [tcpNewServerId_eq, hx]
  rfl

/-! ## The result -/

/-- What the two functions return is fresh: the port is 0 only if all ports are in use, and otherwise
    one of the range that no listed pcb has; an id is returned, which is not 0 and which no listed
    pcb has. -/
structure FreshIds (l : PcbLists) (tcpPort : LocalPort) (tcpServerId : U32) : Prop where
  full : (tcpNewPort l tcpPort).1 = 0 → ∀ port, TCP_LOCAL_PORT_RANGE_START ≤ port →
    port ≤ TCP_LOCAL_PORT_RANGE_END → ∃ pcb ∈ l.pcbs, pcb.localPort = port
  port : (tcpNewPort l tcpPort).1 ≠ 0 →
    TCP_LOCAL_PORT_RANGE_START ≤ (tcpNewPort l tcpPort).1 ∧
      (tcpNewPort l tcpPort).1 ≤ TCP_LOCAL_PORT_RANGE_END ∧
      ∀ pcb ∈ l.pcbs, pcb.localPort ≠ (tcpNewPort l tcpPort).1
  serverId : ∃ id, NewServerId l tcpServerId id ∧ id ≠ 0 ∧ ∀ pcb ∈ l.pcbs, pcb.connid2 ≠ id

/-- There is an id that no listed pcb has, and the number behind the first such id is not 0 and no
    listed pcb has it either. -/
def NextIdFree (l : PcbLists) (tcpServerId : U32) : Prop :=
  ∃ k, Retry.FreeAt nextServerId (IdUsed l) tcpServerId k ∧
    nextServerId^[k + 1] tcpServerId + 1 ≠ 0 ∧ ¬ IdUsed l (nextServerId^[k + 1] tcpServerId + 1)

/-- The port is always fresh. The id is not the one that was checked. -/
theorem fresh_ids_iff (l : PcbLists) (tcpPort : LocalPort) (tcpServerId : U32) :
    FreshIds l tcpPort tcpServerId ↔ NextIdFree l tcpServerId := by
  constructor
  · rintro ⟨-, -, id, hr, h0, hf⟩
    obtain ⟨k, hk, rfl⟩ := (newServerId_iff l tcpServerId id).mp hr
    exact ⟨k, hk, h0, fun ⟨pcb, hm, he⟩ => hf pcb hm he⟩
  · rintro ⟨k, hk, h0, hf⟩
    refine ⟨fun h port h1 h2 => ?_, fun h => ?_, _, (newServerId_iff l tcpServerId _).mpr
      ⟨k, hk, rfl⟩, h0, fun pcb hm he => hf ⟨pcb, hm, he⟩⟩
    · rcases tcpNewPort_spec l tcpPort with ⟨hn, -⟩ | ⟨-, hall⟩
      · exact absurd h hn
      · exact hall ⟨port, h1, h2⟩
    · rcases tcpNewPort_spec l tcpPort with ⟨-, q, he, hq⟩ | ⟨hz, -⟩
      · rw [he]
        exact ⟨q.start_le, q.le_end, fun pcb hm hp => hq ⟨pcb, hm, hp⟩⟩
      · exact absurd hz h

/-- A connection to another server has the id 9530. The first connection that is accepted behind it
    gets the same one. -/
theorem fresh_ids_fails : ¬ FreshIds { activePcbs := [⟨49153, 9530⟩] } .init 9528 := by
  rintro ⟨-, -, id, hr, -, hf⟩
  obtain ⟨k, hk, rfl⟩ := (newServerId_iff _ _ _).mp hr
  have h0 : Retry.FreeAt nextServerId (IdUsed { activePcbs := [⟨49153, 9530⟩] }) 9528 0 :=
    ⟨by simp, by decide⟩
  obtain rfl := hk.unique h0
  exact hf ⟨49153, 9530⟩ (by decide) (by decide)

end Rudp
