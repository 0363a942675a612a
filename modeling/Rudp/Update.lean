import Rudp.Pool

/-!
# From the socket to `tcp_input`

`rudp_update` takes a datagram from the socket, allocates a chain from the pool for it, and copies the
datagram into the pbufs of the chain (src/test/udp/rudp.c:114-139). The copy loop uses the length of
the first pbuf for each of them.

Results:
* `updateCopy_spec`: what the copy loop leaves in the chain.
* `handed_over_iff`: whatever the memory held, the chain is the datagram exactly when the pool has the
  buffers and the datagram fits into two pbufs as long as the first.

The bounds of a pbuf are those of its buffer in the pool, as in the checks of `pbuf_alloc`
(pbuf.c:252-254).
-/

namespace Rudp

open Overwrite

namespace Chain

/-- The receive buffer (rudp.c:108). -/
def BUFSIZE : ℕ := 64 * 1024

/-- The receive buffer behind `recvfrom`: the datagram, and what was there before behind it. -/
def recvfrom (w stale : List Byte) : List Byte := overwrite stale 0 w

/-- The copy loop (rudp.c:127-134); `myLen` is `mybuf->len`. -/
def updateCopy (buf : List Byte) (myLen : ℕ) : ℕ → List PbufNode → Except Fault (List PbufNode)
  | _, [] => .ok []
  | copyLen, p :: next => do
    let s ← memRead buf copyLen myLen
    let p ← p.write 0 s
    let r ← updateCopy buf myLen (copyLen + p.len) next
    .ok (p :: r)

/-- What one pass has done: the argument of the call of `tcp_input`, if it made one, and the buffers
    that the pool then has. -/
structure Received where
  input : Option (List PbufNode)
  free : List ℕ

/-- One pass of the loop of `rudp_update` for a datagram of `recvlen` bytes (rudp.c:123-139). -/
def rudpUpdate (m : PoolMem) (buf : List Byte) (recvlen : ℕ) (free : List ℕ) :
    Except Fault Received := do
  let r ← pbufAlloc m .transport recvlen free
  match r.1 with
  | none => .error (.assert "mybuf != NULL")
  | some [] => .error .nullDeref
  | some (mybuf :: next) => do
    let p ← updateCopy buf mybuf.len 0 (mybuf :: next)
    .ok { input := some p, free := r.2 }

/-- The datagram is dropped and the pool is as before, or it arrives at `tcp_input` as it is:
    whatever the receive buffer and the pool held before. -/
def HandedOver (w : List Byte) (free : List ℕ) : Prop :=
  ∀ (m : PoolMem) (stale : List Byte), stale.length = BUFSIZE →
    (∃ r, rudpUpdate m (recvfrom w stale) w.length free = .ok r ∧ r.input = none ∧
      r.free.Perm free) ∨
    ∃ r, ∃ c : PbufChain, rudpUpdate m (recvfrom w stale) w.length free = .ok r ∧
      r.input = some c.pbufs ∧ c.abs = w

/-! ## The copy loop -/

/-- The pbuf behind a `memcpy` to its payload. -/
def PbufNode.filled (q : PbufNode) (s : List Byte) : PbufNode :=
  { q with
    payload := (s ++ q.memory.drop s.length).take q.len
    room := (s ++ q.memory.drop s.length).drop q.len }

theorem PbufNode.write_filled {q : PbufNode} {s : List Byte} (h : s.length ≤ q.memory.length) :
    q.write 0 s = .ok (q.filled s) := by
  unfold PbufNode.write
  rw [memWrite_ok (by omega), overwrite_zero]
  rfl

theorem PbufNode.filled_len {q : PbufNode} {s : List Byte} (h : s.length ≤ q.memory.length) :
    (q.filled s).len = q.len := PbufNode.write_len (PbufNode.write_filled h)

/-- The chain behind the copy loop. -/
def filledChain (buf : List Byte) (myLen : ℕ) : ℕ → List PbufNode → List PbufNode
  | _, [] => []
  | copyLen, p :: next =>
    p.filled ((buf.drop copyLen).take myLen) :: filledChain buf myLen (copyLen + p.len) next

theorem map_filledChain {β : Type*} {f : PbufNode → β} {buf : List Byte} {myLen : ℕ} :
    ∀ {p : List PbufNode} {copyLen : ℕ},
      (∀ q ∈ p, ∀ s : List Byte, s.length ≤ myLen → f (q.filled s) = f q) →
      (filledChain buf myLen copyLen p).map f = p.map f := by
  intro p
  induction p with
  | nil => exact fun _ => rfl
  | cons q p ih =>
    intro copyLen hf
    have hs : ((buf.drop copyLen).take myLen).length ≤ myLen := List.length_take_le _ _
    rw [filledChain, List.map_cons, List.map_cons, ih fun x hx => hf x (.tail _ hx),
      hf q (.head _) _ hs]

/-- Where the buffers have room, the loop fills every pbuf, unless it reads behind the receive
    buffer. -/
theorem updateCopy_spec {buf : List Byte} {myLen : ℕ} : ∀ {p : List PbufNode} {copyLen : ℕ},
    (∀ q ∈ p, myLen ≤ q.memory.length) →
    (copyLen + (abs p).length + myLen ≤ buf.length →
      updateCopy buf myLen copyLen p = .ok (filledChain buf myLen copyLen p)) ∧
    ∀ r, updateCopy buf myLen copyLen p = .ok r → r = filledChain buf myLen copyLen p := by
  intro p
  induction p with
  | nil =>
    intro copyLen _
    exact ⟨fun _ => rfl, fun r h => (Except.ok.inj h).symm⟩
  | cons q p ih =>
    intro copyLen hroom
    obtain ⟨hok, heq⟩ := @ih (copyLen + q.len) fun x hx => hroom x (.tail _ hx)
    rw [updateCopy, abs_cons, List.length_append]
    by_cases hread : copyLen + myLen ≤ buf.length
    · have hlen : ((buf.drop copyLen).take myLen).length ≤ q.memory.length :=
        (List.length_take_le _ _).trans (hroom q (.head _))
      have hstep : (memRead buf copyLen myLen >>= fun s => q.write 0 s >>= fun p' =>
          updateCopy buf myLen (copyLen + p'.len) p >>= fun r => .ok (p' :: r)) =
          updateCopy buf myLen (copyLen + q.len) p >>= fun r =>
            .ok (q.filled ((buf.drop copyLen).take myLen) :: r) := by
        rw [memRead_ok hread]
        show (q.write 0 _ >>= _) = _
        rw [PbufNode.write_filled hlen]
        show (updateCopy buf myLen (copyLen + (q.filled _).len) p >>= _) = _
        rw [PbufNode.filled_len hlen]
      rw [hstep]
      constructor
      · intro h
        have hqlen : q.len = q.payload.length := rfl
        rw [hok (by omega)]
        rfl
      · intro r h
        obtain ⟨r', hr', h⟩ := Run.bind_eq_ok.mp h
        cases h
        rw [filledChain, ← heq r' hr']
    · constructor
      · intro h
        omega
      · intro r h
        rw [memRead, if_neg hread] at h
        cases h

/-! ## The chain -/

theorem memory_poolNode (m : PoolMem) (a offset len totLen : ℕ) :
    (poolNode m a offset len totLen).memory = (m.data a).drop offset := List.take_append_drop _ _

theorem memory_tailNodes {m : PoolMem} : ∀ {free : List ℕ} {remLen : ℕ} {q : PbufNode},
    q ∈ tailNodes m remLen free → q.memory.length = PBUF_POOL_BUFSIZE := by
  intro free
  induction free with
  | nil =>
    intro remLen q h
    cases h
  | cons a free ih =>
    intro remLen q h
    unfold tailNodes at h
    split_ifs at h
    · cases h
    · rcases List.mem_cons.mp h with rfl | h
      · rw [memory_poolNode, List.drop_zero, m.size]
      · exact ih h

/-- The first pbuf is not longer than the room in any of them. -/
theorem firstLen_le_memory (m : PoolMem) (a length : ℕ) (free₁ : List ℕ) :
    ∀ q ∈ poolNode m a PbufLayer.transport.offset (firstLen .transport length) length ::
      tailNodes m (length - firstLen .transport length) free₁,
      firstLen .transport length ≤ q.memory.length := by
  have hfirst : firstLen .transport length ≤ 536 := Nat.min_le_right _ _
  intro q hq
  rcases List.mem_cons.mp hq with rfl | hq
  · have hoff : PbufLayer.transport.offset = 20 := rfl
    rw [memory_poolNode, List.length_drop, m.size, PBUF_POOL_BUFSIZE_eq, hoff]
    exact hfirst
  · rw [memory_tailNodes hq, PBUF_POOL_BUFSIZE_eq]
    exact hfirst.trans (by decide)

/-- With enough buffers, a pass ends in the call of `tcp_input` with the chain of the copy loop, unless
    it reads behind the receive buffer. -/
theorem rudpUpdate_spec (m : PoolMem) {w stale : List Byte} {free : List ℕ} (hw : w.length < 65536)
    (hbufs : chainBuffers .transport w.length ≤ free.length) :
    ∃ a free₁, free = a :: free₁ ∧
      tailBuffers (w.length - firstLen .transport w.length) ≤ free₁.length ∧
      (w.length + 536 ≤ (recvfrom w stale).length → ∃ free',
        rudpUpdate m (recvfrom w stale) w.length free = .ok
          { input := some (filledChain (recvfrom w stale) (firstLen .transport w.length) 0
              (poolNode m a PbufLayer.transport.offset (firstLen .transport w.length) w.length ::
                tailNodes m (w.length - firstLen .transport w.length) free₁))
            free := free' }) ∧
      ∀ r, rudpUpdate m (recvfrom w stale) w.length free = .ok r → r.input =
        some (filledChain (recvfrom w stale) (firstLen .transport w.length) 0
          (poolNode m a PbufLayer.transport.offset (firstLen .transport w.length) w.length ::
            tailNodes m (w.length - firstLen .transport w.length) free₁)) := by
  obtain ⟨a, free₁, hfree, halloc, htail⟩ := (pbufAlloc_spec m .transport hw free).1 hbufs
  set p := poolNode m a PbufLayer.transport.offset (firstLen .transport w.length) w.length with hp
  set next := tailNodes m (w.length - firstLen .transport w.length) free₁ with hnext
  have hfirst : firstLen .transport w.length ≤ 536 := Nat.min_le_right _ _
  have hplen : p.len = firstLen .transport w.length := by
    have hoff : PbufLayer.transport.offset = 20 := rfl
    exact poolNode_len (by rw [PBUF_POOL_BUFSIZE_eq, hoff]; omega)
  have habs : (abs (p :: next)).length = w.length := length_abs_pool m .transport a htail
  obtain ⟨hok, heq⟩ := @updateCopy_spec (recvfrom w stale) _ _ 0
    (firstLen_le_memory m a w.length free₁)
  have hdef : rudpUpdate m (recvfrom w stale) w.length free =
      updateCopy (recvfrom w stale) (firstLen .transport w.length) 0 (p :: next) >>= fun q =>
        .ok { input := some q, free := free.drop (chainBuffers .transport w.length) } := by
    unfold rudpUpdate
    rw [halloc, ← hplen]
    rfl
  refine ⟨a, free₁, hfree, htail, fun hlen => ?_, fun r h => ?_⟩
  · refine ⟨free.drop (chainBuffers .transport w.length), ?_⟩
    rw [hdef, hok (by rw [habs]; omega)]
    rfl
  · rw [hdef] at h
    obtain ⟨q, hq, h⟩ := Run.bind_eq_ok.mp h
    cases h
    rw [heq q hq]

/-! ## Up to two pbufs -/

theorem PbufNode.filled_payload {q : PbufNode} {s : List Byte} (h : q.len ≤ s.length) :
    (q.filled s).payload = s.take q.len := List.take_append_of_le_length h

theorem recvfrom_eq (w stale : List Byte) : recvfrom w stale = w ++ stale.drop w.length :=
  overwrite_zero stale w

theorem length_recvfrom {w stale : List Byte} (hw : w.length ≤ BUFSIZE)
    (hs : stale.length = BUFSIZE) : (recvfrom w stale).length = BUFSIZE := by
  rw [recvfrom, length_overwrite (by omega), hs]

theorem firstLen_short {n : ℕ} (h : n ≤ 536) : firstLen .transport n = n := Nat.min_eq_left h

theorem firstLen_long {n : ℕ} (h : 536 ≤ n) : firstLen .transport n = 536 := Nat.min_eq_right h

/-- A datagram that fits into two pbufs of the first length arrives in the chain. -/
theorem abs_filledChain {m : PoolMem} {w stale : List Byte} {a : ℕ} {free₁ : List ℕ}
    (hw : w.length ≤ 1072) (hs : stale.length = BUFSIZE)
    (h : tailBuffers (w.length - firstLen .transport w.length) ≤ free₁.length) :
    abs (filledChain (recvfrom w stale) (firstLen .transport w.length) 0
      (poolNode m a PbufLayer.transport.offset (firstLen .transport w.length) w.length ::
        tailNodes m (w.length - firstLen .transport w.length) free₁)) = w := by
  have hoff : PbufLayer.transport.offset = 20 := rfl
  have hbuf : (recvfrom w stale).length = 65536 :=
    length_recvfrom (hw.trans (by decide)) hs
  have htake {k : ℕ} (hk : k ≤ w.length) : (recvfrom w stale).take k = w.take k := by
    rw [recvfrom_eq, List.take_append_of_le_length hk]
  rcases Nat.le_total w.length 536 with hn | hn
  · -- one pbuf
    rw [firstLen_short hn, Nat.sub_self, tailNodes_zero, filledChain, filledChain, abs_cons, abs_nil,
      List.append_nil, List.drop_zero, htake le_rfl, List.take_length]
    have hlen : (poolNode m a PbufLayer.transport.offset w.length w.length).len = w.length :=
      poolNode_len (by rw [PBUF_POOL_BUFSIZE_eq, hoff]; omega)
    rw [PbufNode.filled_payload hlen.le, hlen, List.take_length]
  · rw [firstLen_long hn] at h ⊢
    have hlen : (poolNode m a PbufLayer.transport.offset 536 w.length).len = 536 :=
      poolNode_len (by rw [PBUF_POOL_BUFSIZE_eq, hoff])
    have hfirst : ((recvfrom w stale).take 536).length = 536 := by
      rw [List.length_take]
      omega
    rw [filledChain, abs_cons, List.drop_zero, PbufNode.filled_payload (by omega), hlen, List.take_take,
      Nat.min_self, htake hn]
    rcases Nat.eq_or_lt_of_le hn with he | hlt
    · rw [← he, Nat.sub_self, tailNodes_zero, filledChain, abs_nil, List.append_nil, he, List.take_length]
    · -- a second pbuf, which the loop fills behind its end
      cases free₁ with
      | nil =>
        rw [tailBuffers_pos (by omega)] at h
        cases h
      | cons b free₂ =>
        have hmin : min (w.length - 536) PBUF_POOL_BUFSIZE = w.length - 536 := by
          rw [PBUF_POOL_BUFSIZE_eq]
          omega
        have hnodes : tailNodes m (w.length - 536) (b :: free₂) =
            [poolNode m b 0 (w.length - 536) (w.length - 536)] := by
          rw [tailNodes, if_neg (by omega), hmin, Nat.sub_self, tailNodes_zero]
        have hlen₂ : (poolNode m b 0 (w.length - 536) (w.length - 536)).len = w.length - 536 :=
          poolNode_len (by rw [PBUF_POOL_BUFSIZE_eq]; omega)
        have hrest : (((recvfrom w stale).drop 536).take 536).take (w.length - 536) = w.drop 536 := by
          rw [List.take_take, Nat.min_eq_left (by omega), recvfrom_eq,
            List.drop_append_of_le_length hn, List.take_append_of_le_length (by rw [List.length_drop])]
          exact List.take_of_length_le (by rw [List.length_drop])
        rw [hnodes, filledChain, filledChain, abs_cons, abs_nil, List.append_nil, Nat.zero_add,
          PbufNode.filled_payload, hlen₂, hrest, List.take_append_drop]
        rw [hlen₂, List.length_take, List.length_drop]
        omega

theorem handedOver_of_short {w : List Byte} {free : List ℕ} (hw : w.length ≤ 1072)
    (hbufs : chainBuffers .transport w.length ≤ free.length) : HandedOver w free := by
  intro m stale hs
  right
  have hlt : w.length < 65536 := by omega
  obtain ⟨a, free₁, -, htail, hok, -⟩ := @rudpUpdate_spec m w stale free hlt hbufs
  have hlen : (recvfrom w stale).length = 65536 := length_recvfrom (hw.trans (by decide)) hs
  obtain ⟨free', hr⟩ := hok (by omega)
  have hroom := firstLen_le_memory m a w.length free₁
  refine ⟨_, (PbufChain.ofPool m .transport hlt a htail).ofFields _
    (map_filledChain fun q hq s hs' => PbufNode.filled_len (hs'.trans (hroom q hq)))
    (map_filledChain fun _ _ _ _ => rfl) (map_filledChain fun _ _ _ _ => rfl), hr, rfl, ?_⟩
  exact abs_filledChain hw hs htail

/-! ## More than that -/

/-- Pool memory that holds one byte everywhere. -/
def PoolMem.const (x : Byte) : PoolMem where
  data := fun _ => List.replicate PBUF_POOL_BUFSIZE x
  size := fun _ => List.length_replicate

/-- Byte 1072 is in the second pbuf, behind the part that the loop fills. -/
theorem getElem_filledChain {x : Byte} {w stale : List Byte} {a : ℕ} {free₁ : List ℕ}
    (hw : 1072 < w.length) (hlt : w.length ≤ BUFSIZE) (hs : stale.length = BUFSIZE)
    (h : tailBuffers (w.length - firstLen .transport w.length) ≤ free₁.length) :
    (abs (filledChain (recvfrom w stale) (firstLen .transport w.length) 0
      (poolNode (.const x) a PbufLayer.transport.offset (firstLen .transport w.length) w.length ::
        tailNodes (.const x) (w.length - firstLen .transport w.length) free₁)))[1072]? = some x := by
  have hoff : PbufLayer.transport.offset = 20 := rfl
  have hbuf : (recvfrom w stale).length = 65536 := length_recvfrom hlt hs
  have hb : BUFSIZE = 65536 := rfl
  rw [firstLen_long (by omega)] at h ⊢
  cases free₁ with
  | nil =>
    rw [tailBuffers_pos (by omega)] at h
    cases h
  | cons b free₂ =>
    set k := min (w.length - 536) PBUF_POOL_BUFSIZE with hk
    have hk' : 537 ≤ k ∧ k ≤ 556 := by
      rw [hk, PBUF_POOL_BUFSIZE_eq]
      omega
    have hnodes : tailNodes (.const x) (w.length - 536) (b :: free₂) =
        poolNode (.const x) b 0 k (w.length - 536) ::
          tailNodes (.const x) (w.length - 536 - k) free₂ := if_neg (by omega)
    set p := poolNode (.const x) a PbufLayer.transport.offset 536 w.length with hp
    set q := poolNode (.const x) b 0 k (w.length - 536) with hq
    have hplen : p.len = 536 := poolNode_len (by rw [PBUF_POOL_BUFSIZE_eq, hoff])
    have hqlen : q.len = k := poolNode_len (by rw [PBUF_POOL_BUFSIZE_eq]; omega)
    have hpmem : p.memory.length = 536 := by
      rw [hp, memory_poolNode, List.length_drop, PoolMem.size, PBUF_POOL_BUFSIZE_eq, hoff]
    have hqmem : q.memory = List.replicate PBUF_POOL_BUFSIZE x := memory_poolNode _ _ _ _ _
    clear_value p q
    set s := ((recvfrom w stale).drop (0 + p.len)).take 536 with hsdef
    have hslen : s.length = 536 := by
      rw [hsdef, List.length_take, List.length_drop]
      omega
    have hfst : (p.filled (((recvfrom w stale).drop 0).take 536)).payload.length = 536 := by
      refine (PbufNode.filled_len ?_).trans hplen
      rw [hpmem]
      exact List.length_take_le _ _
    have hsnd : (q.filled s).payload.length = k := by
      refine (PbufNode.filled_len (s := s) ?_).trans hqlen
      have hmem : q.memory.length = PBUF_POOL_BUFSIZE := by rw [hqmem, List.length_replicate]
      have hsize := PBUF_POOL_BUFSIZE_eq
      omega
    have hpay : (q.filled s).payload = (s ++ q.memory.drop s.length).take q.len := rfl
    rw [hnodes, filledChain, filledChain, ← hsdef, abs_cons, abs_cons,
      List.getElem?_append_right (by omega), hfst, List.getElem?_append_left (by omega), hpay,
      List.getElem?_take_of_lt (by omega), List.getElem?_append_right (by omega), hslen, hqmem,
      List.getElem?_drop, List.getElem?_replicate_of_lt (by have := PBUF_POOL_BUFSIZE_eq; omega)]

/-- Nothing is dropped. -/
theorem rudpUpdate_input {m : PoolMem} {buf : List Byte} {n : ℕ} {free : List ℕ} {r : Received}
    (h : rudpUpdate m buf n free = .ok r) : r.input ≠ none := by
  obtain ⟨⟨p, free'⟩, -, h⟩ := Run.bind_eq_ok.mp h
  cases p with
  | none => cases h
  | some p =>
    cases p with
    | nil => cases h
    | cons mybuf next =>
      obtain ⟨q, -, h⟩ := Run.bind_eq_ok.mp h
      cases h
      exact Option.some_ne_none q

theorem updateCopy_len {buf : List Byte} {myLen : ℕ} : ∀ {p r : List PbufNode} {copyLen : ℕ},
    updateCopy buf myLen copyLen p = .ok r → r.map PbufNode.len = p.map PbufNode.len := by
  intro p
  induction p with
  | nil =>
    intro r copyLen h
    cases h
    rfl
  | cons q p ih =>
    intro r copyLen h
    obtain ⟨s, -, h⟩ := Run.bind_eq_ok.mp h
    obtain ⟨q', hq, h⟩ := Run.bind_eq_ok.mp h
    obtain ⟨r', hr, h⟩ := Run.bind_eq_ok.mp h
    cases h
    rw [List.map_cons, List.map_cons, PbufNode.write_len hq, ih hr]

/-- The chain is as long as the `u16_t` length. -/
theorem rudpUpdate_length {m : PoolMem} {buf : List Byte} {n : ℕ} {free : List ℕ} {r : Received}
    {p : List PbufNode} (h : rudpUpdate m buf n free = .ok r) (hp : r.input = some p) :
    (abs p).length = u16 n := by
  rcases pbufAlloc_abs m .transport n free with ⟨c, free', halloc, hlen, -⟩ | ⟨free', halloc, -⟩
  · unfold rudpUpdate at h
    rw [halloc] at h
    cases hc : c.pbufs with
    | nil => exact absurd hc c.ne_nil
    | cons mybuf next =>
      rw [hc] at h
      have h : (updateCopy buf mybuf.len 0 (mybuf :: next) >>= fun p =>
        .ok { input := some p, free := free' }) = .ok r := h
      obtain ⟨q, hq, h⟩ := Run.bind_eq_ok.mp h
      cases h
      obtain rfl := Option.some.inj hp
      rw [length_abs, updateCopy_len hq, ← length_abs, ← hc]
      exact hlen
  · unfold rudpUpdate at h
    rw [halloc] at h
    cases h

/-- A datagram that needs a second pbuf longer than the first arrives with stale bytes in it. -/
theorem not_handedOver_of_long {w : List Byte} {free : List ℕ} (hw : 1072 < w.length)
    (hlt : w.length < 65536) (hbufs : chainBuffers .transport w.length ≤ free.length) :
    ¬ HandedOver w free := by
  intro h
  have hs : (List.replicate BUFSIZE (0 : Byte)).length = BUFSIZE := List.length_replicate
  rcases h (.const (w.getD 1072 0 + 1)) _ hs with ⟨r, hr, hin, -⟩ | ⟨r, c, hr, hin, habs⟩
  · exact absurd hin (rudpUpdate_input hr)
  · obtain ⟨a, free₁, -, htail, -, hall⟩ := rudpUpdate_spec _ hlt hbufs
    have hc := Option.some.inj (hin.symm.trans (hall r hr))
    have hbyte := getElem_filledChain (x := w.getD 1072 0 + 1) (a := a) hw
      (show w.length ≤ 65536 by omega) hs htail
    rw [← hc] at hbyte
    have hbyte : w[1072]? = some (w.getD 1072 0 + 1) := habs ▸ hbyte
    rw [List.getD_eq_getElem?_getD, List.getElem?_eq_getElem hw] at hbyte
    have hbyte := Option.some.inj hbyte
    simp at hbyte

/-- For every datagram and every pool: the pass hands the datagram over intact, whatever the memory
    held, exactly when the pool has the buffers and the datagram fits into two pbufs of the first
    length. -/
theorem handed_over_iff (w : List Byte) (free : List ℕ) :
    HandedOver w free ↔ w.length ≤ 1072 ∧ chainBuffers .transport w.length ≤ free.length := by
  constructor
  · intro h
    have hs : (List.replicate BUFSIZE (0 : Byte)).length = BUFSIZE := List.length_replicate
    rcases h (.const 0) _ hs with ⟨r, hr, hin, -⟩ | ⟨r, c, hr, hin, habs⟩
    · exact absurd hin (rudpUpdate_input hr)
    · have hlt : w.length < 65536 := by
        have hlen : c.abs.length = u16 w.length := rudpUpdate_length hr hin
        rw [habs] at hlen
        rw [hlen]
        exact Nat.mod_lt _ (by decide)
      by_cases hbufs : chainBuffers .transport w.length ≤ free.length
      · refine ⟨?_, hbufs⟩
        by_contra hw
        exact not_handedOver_of_long (Nat.lt_of_not_le hw) hlt hbufs h
      · -- the assertion behind `pbuf_alloc` fails
        obtain ⟨free', halloc, -⟩ :=
          (pbufAlloc_spec (.const 0) .transport hlt free).2 (Nat.lt_of_not_le hbufs)
        unfold rudpUpdate at hr
        rw [halloc] at hr
        cases hr
  · rintro ⟨hw, hbufs⟩
    exact handedOver_of_short hw hbufs

/-- A datagram of 1073 bytes with all buffers free: its last byte is not copied. -/
theorem handed_over_fails : ¬ HandedOver (List.replicate 1073 0) (List.range 16) := by
  have hlen : (List.replicate 1073 (0 : Byte)).length = 1073 := List.length_replicate
  refine not_handedOver_of_long ?_ ?_ ?_
  · rw [hlen]
    decide
  · rw [hlen]
    decide
  · rw [hlen]
    decide

end Chain

end Rudp
