import Rudp.ChainCopy

/-!
# Chains from the pool

`pbuf_alloc(layer, length, PBUF_POOL)` puts a chain together from the free buffers of the pool. The
payload of the first pbuf starts behind the header room of the layer, so it is shorter.

Results:
* `pbufAlloc_spec`: the chain it returns, and when it returns none.
* `refines_bytes_iff`: every operation on chains is the operation on byte strings, exactly as long as
  `pbuf_header(p, -n)` hides no more than the first pbuf has.
-/

namespace Rudp

open Overwrite

namespace Chain

/-! ## The pool -/

/-- `PBUF_POOL_BUFSIZE` (opt.h:519). -/
def PBUF_POOL_BUFSIZE : ℕ := TCP_MSS + 20

/-- `pbuf_layer`. -/
inductive PbufLayer
  | transport | ip | raw
  deriving DecidableEq, Repr

/-- The header room of a layer (pbuf.c:212-229). -/
def PbufLayer.offset : PbufLayer → ℕ
  | transport => 20
  | ip => 0
  | raw => 0

/-- The data areas of the buffers of `MEMP_PBUF_POOL`, with whatever they hold. -/
structure PoolMem where
  data : ℕ → List Byte
  size : ∀ a, (data a).length = PBUF_POOL_BUFSIZE

/-- A pbuf from the pool: its payload starts `offset` bytes into the data area. -/
def poolNode (m : PoolMem) (a offset len totLen : ℕ) : PbufNode where
  payload := ((m.data a).drop offset).take len
  totLen := totLen
  addr := a
  type := .pool
  ref := 1
  room := ((m.data a).drop offset).drop len

/-- `memp_free(MEMP_PBUF_POOL, p)` of the pool pbufs among `l`, one after the other. -/
def mempFree (l : List PbufNode) (free : List ℕ) : List ℕ :=
  l.foldl (fun free q => if q.type = .pool then q.addr :: free else free) free

/-- "now allocate the tail of the pbuf chain" (pbuf.c:264-303), behind what is allocated so far. -/
def pbufAllocTail (m : PoolMem) (sofar : List PbufNode) (remLen : ℕ) :
    List ℕ → Except Fault (Option (List PbufNode) × List ℕ)
  | [] =>
    if remLen = 0 then .ok (some sofar, [])
    else do
      -- free chain so far allocated
      let r ← pbufFree sofar
      .ok (none, mempFree r.1 [])
  | a :: free =>
    if remLen = 0 then .ok (some sofar, a :: free)
    else do
      lwipAssert "rem_len < max_u16_t" (remLen < 0xffff)
      let len := min remLen PBUF_POOL_BUFSIZE
      pbufAllocTail m (sofar ++ [poolNode m a 0 len remLen]) (remLen - len) free

/-- `pbuf_alloc(layer, length, PBUF_POOL)` (pbuf.c:205-303) on the free buffers of the pool: the
    chain, and the buffers that are free afterwards. -/
def pbufAlloc (m : PoolMem) (layer : PbufLayer) (length : ℕ) :
    List ℕ → Except Fault (Option (List PbufNode) × List ℕ)
  | [] => .ok (none, [])
  | a :: free =>
    let length := u16 length
    let len := min length (PBUF_POOL_BUFSIZE - layer.offset)
    pbufAllocTail m [poolNode m a layer.offset len length] (length - len) free

/-- The number of buffers behind the first that `remLen` bytes take. -/
def tailBuffers (remLen : ℕ) : ℕ := (remLen + (PBUF_POOL_BUFSIZE - 1)) / PBUF_POOL_BUFSIZE

theorem PBUF_POOL_BUFSIZE_eq : PBUF_POOL_BUFSIZE = 556 := rfl

theorem PbufLayer.offset_le (layer : PbufLayer) : layer.offset ≤ 20 := by
  cases layer <;> decide

theorem poolNode_len {m : PoolMem} {a offset len totLen : ℕ}
    (h : offset + len ≤ PBUF_POOL_BUFSIZE) : (poolNode m a offset len totLen).payload.length = len := by
  show (((m.data a).drop offset).take len).length = len
  rw [List.length_take, List.length_drop, m.size]
  omega

theorem mempFree_pool : ∀ {l : List PbufNode} (free : List ℕ), (∀ q ∈ l, q.type = .pool) →
    (mempFree l free).Perm (l.map (·.addr) ++ free) := by
  intro l
  induction l with
  | nil => exact fun free _ => .refl free
  | cons q l ih =>
    intro free h
    have hq : mempFree (q :: l) free = mempFree l (q.addr :: free) := by
      show mempFree l (if q.type = .pool then _ else _) = _
      rw [if_pos (h q (.head _))]
    rw [hq]
    exact (ih _ fun x hx => h x (.tail _ hx)).trans List.perm_middle

/-- The pbufs that `remLen` bytes behind the first one are in. -/
def tailNodes (m : PoolMem) : ℕ → List ℕ → List PbufNode
  | _, [] => []
  | remLen, a :: free =>
    if remLen = 0 then []
    else
      poolNode m a 0 (min remLen PBUF_POOL_BUFSIZE) remLen ::
        tailNodes m (remLen - min remLen PBUF_POOL_BUFSIZE) free

theorem tailBuffers_zero : tailBuffers 0 = 0 := by
  decide

theorem tailBuffers_pos {remLen : ℕ} (h : remLen ≠ 0) :
    tailBuffers remLen = tailBuffers (remLen - min remLen PBUF_POOL_BUFSIZE) + 1 := by
  unfold tailBuffers
  rw [PBUF_POOL_BUFSIZE_eq]
  omega

theorem tailNodes_zero (m : PoolMem) (free : List ℕ) : tailNodes m 0 free = [] := by
  cases free with
  | nil => rfl
  | cons a free => exact if_pos rfl

theorem mem_tailNodes {m : PoolMem} : ∀ {free : List ℕ} {remLen : ℕ} {q : PbufNode},
    q ∈ tailNodes m remLen free → q.type = .pool ∧ q.ref = 1 := by
  intro free
  induction free with
  | nil =>
    intro remLen q h
    cases h
  | cons a free ih =>
    intro remLen q h
    unfold tailNodes at h
    split_ifs at h
    · cases h
    · rcases List.mem_cons.mp h with rfl | h
      · exact ⟨rfl, rfl⟩
      · exact ih h

theorem tailNodes_spec {m : PoolMem} : ∀ {free : List ℕ} {remLen : ℕ},
    tailBuffers remLen ≤ free.length →
    (abs (tailNodes m remLen free)).length = remLen ∧ TotLens (tailNodes m remLen free) ∧
      (tailNodes m remLen free).map (·.addr) = free.take (tailBuffers remLen) := by
  intro free
  induction free with
  | nil =>
    intro remLen h
    by_cases h0 : remLen = 0
    · subst h0
      exact ⟨rfl, trivial, rfl⟩
    · rw [tailBuffers_pos h0] at h
      cases h
  | cons a free ih =>
    intro remLen h
    by_cases h0 : remLen = 0
    · subst h0
      rw [tailNodes_zero, tailBuffers_zero]
      exact ⟨rfl, trivial, rfl⟩
    · rw [tailBuffers_pos h0] at h ⊢
      obtain ⟨hlen, htot, haddr⟩ := ih (Nat.le_of_succ_le_succ h)
      have hcons : tailNodes m remLen (a :: free) =
          poolNode m a 0 (min remLen PBUF_POOL_BUFSIZE) remLen ::
            tailNodes m (remLen - min remLen PBUF_POOL_BUFSIZE) free := if_neg h0
      have hnode : (poolNode m a 0 (min remLen PBUF_POOL_BUFSIZE) remLen).payload.length =
          min remLen PBUF_POOL_BUFSIZE := poolNode_len (by omega)
      have habs : (abs (tailNodes m remLen (a :: free))).length = remLen := by
        rw [hcons, abs_cons, List.length_append, hnode, hlen]
        omega
      refine ⟨habs, ?_, ?_⟩
      · rw [hcons] at habs ⊢
        exact ⟨habs.symm, htot⟩
      · rw [hcons, List.map_cons, haddr, List.take_succ_cons]
        rfl

/-- A chain that nobody else refers to is freed whole. -/
theorem pbufFree_pool {p : List PbufNode} (hne : p ≠ [])
    (h : ∀ q ∈ p, q.type = .pool ∧ q.ref = 1) : ∃ held, pbufFree p = .ok (p, held) := by
  obtain ⟨held, hf⟩ := pbufFreeLoop_spec (p := p) fun q hq => by rw [(h q hq).2]; exact Nat.one_pos
  rw [unshared_eq fun q hq => (h q hq).2] at hf
  refine ⟨held, ?_⟩
  rw [pbufFree, lwipAssert_pos hne]
  exact hf

/-- The loop gets the buffers in their order, or gives back what it got. -/
theorem pbufAllocTail_spec {m : PoolMem} : ∀ {free : List ℕ} {sofar : List PbufNode} {remLen : ℕ},
    sofar ≠ [] → (∀ q ∈ sofar, q.type = .pool ∧ q.ref = 1) → remLen < 65535 →
    (tailBuffers remLen ≤ free.length → pbufAllocTail m sofar remLen free =
      .ok (some (sofar ++ tailNodes m remLen free), free.drop (tailBuffers remLen))) ∧
    (free.length < tailBuffers remLen → ∃ free', pbufAllocTail m sofar remLen free =
      .ok (none, free') ∧ free'.Perm (sofar.map (·.addr) ++ free)) := by
  intro free
  induction free with
  | nil =>
    intro sofar remLen hne hso hlt
    unfold pbufAllocTail
    by_cases h0 : remLen = 0
    · subst h0
      rw [if_pos rfl, tailBuffers_zero, tailNodes_zero, List.append_nil]
      exact ⟨fun _ => rfl, fun h => absurd h (Nat.not_lt_zero _)⟩
    · obtain ⟨held, hf⟩ := pbufFree_pool hne hso
      rw [if_neg h0, hf, tailBuffers_pos h0]
      exact ⟨fun h => absurd h (Nat.not_succ_le_zero _),
        fun _ => ⟨_, rfl, mempFree_pool [] fun q hq => (hso q hq).1⟩⟩
  | cons a free ih =>
    intro sofar remLen hne hso hlt
    unfold pbufAllocTail
    by_cases h0 : remLen = 0
    · subst h0
      rw [if_pos rfl, tailBuffers_zero, tailNodes_zero, List.append_nil]
      exact ⟨fun _ => rfl, fun h => absurd h (Nat.not_lt_zero _)⟩
    · set q := poolNode m a 0 (min remLen PBUF_POOL_BUFSIZE) remLen with hq
      have hso' : ∀ x ∈ sofar ++ [q], x.type = .pool ∧ x.ref = 1 := by
        intro x hx
        rcases List.mem_append.mp hx with hx | hx
        · exact hso x hx
        · rw [List.mem_singleton.mp hx]
          exact ⟨rfl, rfl⟩
      obtain ⟨hok, hno⟩ := @ih (sofar ++ [q]) (remLen - min remLen PBUF_POOL_BUFSIZE) (by simp) hso'
        (by omega)
      have hnodes : tailNodes m remLen (a :: free) =
          q :: tailNodes m (remLen - min remLen PBUF_POOL_BUFSIZE) free := if_neg h0
      rw [if_neg h0, lwipAssert_pos hlt, tailBuffers_pos h0, hnodes]
      constructor
      · intro h
        refine (hok (Nat.le_of_succ_le_succ h)).trans ?_
        rw [List.append_assoc]
        rfl
      · intro h
        obtain ⟨free', hfree, hperm⟩ := hno (Nat.lt_of_succ_lt_succ h)
        refine ⟨free', hfree, hperm.trans ?_⟩
        rw [List.map_append, List.append_assoc]
        rfl

/-- The length of the first pbuf. -/
def firstLen (layer : PbufLayer) (length : ℕ) : ℕ := min length (PBUF_POOL_BUFSIZE - layer.offset)

/-- The number of buffers of a chain. -/
def chainBuffers (layer : PbufLayer) (length : ℕ) : ℕ :=
  1 + tailBuffers (length - firstLen layer length)

theorem firstLen_pos (layer : PbufLayer) {length : ℕ} (h : 0 < length) : 0 < firstLen layer length := by
  have hoff := layer.offset_le
  unfold firstLen
  rw [PBUF_POOL_BUFSIZE_eq]
  omega

theorem length_abs_pool (m : PoolMem) (layer : PbufLayer) {length : ℕ} (a : ℕ) {free₁ : List ℕ}
    (h : tailBuffers (length - firstLen layer length) ≤ free₁.length) :
    (abs (poolNode m a layer.offset (firstLen layer length) length ::
      tailNodes m (length - firstLen layer length) free₁)).length = length := by
  have hoff := layer.offset_le
  have hfirst : firstLen layer length ≤ length ∧
      layer.offset + firstLen layer length ≤ PBUF_POOL_BUFSIZE := by
    unfold firstLen
    rw [PBUF_POOL_BUFSIZE_eq]
    omega
  rw [abs_cons, List.length_append, poolNode_len hfirst.2, (tailNodes_spec h).1]
  omega

/-- `pbuf_alloc` takes the buffers in front of the free list. With too few of them it gives all back. -/
theorem pbufAlloc_spec (m : PoolMem) (layer : PbufLayer) {length : ℕ} (hlt : length < 65536)
    (free : List ℕ) :
    (chainBuffers layer length ≤ free.length → ∃ a free₁, free = a :: free₁ ∧
      pbufAlloc m layer length free =
        .ok (some (poolNode m a layer.offset (firstLen layer length) length ::
            tailNodes m (length - firstLen layer length) free₁),
          free.drop (chainBuffers layer length)) ∧
      tailBuffers (length - firstLen layer length) ≤ free₁.length) ∧
    (free.length < chainBuffers layer length → ∃ free',
      pbufAlloc m layer length free = .ok (none, free') ∧ free'.Perm free) := by
  have hu : u16 length = length := Nat.mod_eq_of_lt hlt
  unfold chainBuffers
  cases free with
  | nil =>
    refine ⟨fun h => ?_, fun _ => ⟨[], rfl, .refl _⟩⟩
    rw [Nat.add_comm] at h
    cases h
  | cons a free₁ =>
    have hrem : length - firstLen layer length < 65535 := by
      by_cases h0 : length = 0
      · omega
      · have := firstLen_pos layer (Nat.pos_of_ne_zero h0)
        omega
    obtain ⟨hok, hno⟩ := @pbufAllocTail_spec m free₁
      [poolNode m a layer.offset (firstLen layer length) length] _ (by simp)
      (fun q hq => by rw [List.mem_singleton.mp hq]; exact ⟨rfl, rfl⟩) hrem
    have hdef : pbufAlloc m layer length (a :: free₁) =
        pbufAllocTail m [poolNode m a layer.offset (firstLen layer length) length]
          (length - firstLen layer length) free₁ := by
      unfold pbufAlloc
      rw [hu]
      rfl
    rw [hdef, List.length_cons, Nat.add_comm 1]
    constructor
    · intro h
      have h := Nat.le_of_succ_le_succ h
      exact ⟨a, free₁, rfl, hok h, h⟩
    · intro h
      exact hno (Nat.lt_of_succ_lt_succ h)

/-- The chain in the buffers `a :: free₁`. -/
def PbufChain.ofPool (m : PoolMem) (layer : PbufLayer) {length : ℕ} (hlt : length < 65536) (a : ℕ)
    {free₁ : List ℕ} (h : tailBuffers (length - firstLen layer length) ≤ free₁.length) :
    PbufChain where
  pbufs := poolNode m a layer.offset (firstLen layer length) length ::
    tailNodes m (length - firstLen layer length) free₁
  ne_nil := List.cons_ne_nil _ _
  totLens := ⟨(length_abs_pool m layer a h).symm, (tailNodes_spec h).2.1⟩
  lt := (length_abs_pool m layer a h).trans_lt hlt
  ref := by
    intro q hq
    rcases List.mem_cons.mp hq with rfl | hq
    · exact Nat.one_pos
    · rw [(mem_tailNodes hq).2]
      exact Nat.one_pos

/-- `pbuf_alloc` returns a chain of the length, or fails and leaves the pool. -/
theorem pbufAlloc_abs (m : PoolMem) (layer : PbufLayer) (length : ℕ) (free : List ℕ) :
    (∃ (c : PbufChain) (free' : List ℕ), pbufAlloc m layer length free = .ok (some c.pbufs, free') ∧
      c.abs.length = u16 length ∧ free = c.pbufs.map (·.addr) ++ free') ∨
    ∃ free', pbufAlloc m layer length free = .ok (none, free') ∧ free'.Perm free := by
  have hlt : u16 length < 65536 := Nat.mod_lt _ (by decide)
  have hu : pbufAlloc m layer length free = pbufAlloc m layer (u16 length) free := by
    have hmod : u16 (u16 length) = u16 length := Nat.mod_eq_of_lt hlt
    unfold pbufAlloc
    rw [hmod]
  rw [hu]
  obtain ⟨hok, hno⟩ := pbufAlloc_spec m layer hlt free
  rcases Nat.lt_or_ge free.length (chainBuffers layer (u16 length)) with h | h
  · exact .inr (hno h)
  · obtain ⟨a, free₁, hfree, halloc, htail⟩ := hok h
    refine .inl ⟨.ofPool m layer hlt a htail, _, halloc, length_abs_pool m layer a htail, ?_⟩
    rw [hfree, chainBuffers, Nat.add_comm, List.drop_succ_cons]
    show a :: free₁ = a :: ((tailNodes m _ free₁).map (·.addr) ++ _)
    rw [(tailNodes_spec htail).2.2, List.take_append_drop]

/-! ## Byte strings -/

/-- Every operation on chains is the operation on byte strings: on the chains `h` and `t`, with
    `pbuf_realloc` to `newLen` bytes, `pbuf_header` by `-hide`, `pbuf_copy_partial` of `len` bytes from
    `off` to the memory `dst`, `pbuf_take` of `data`, and `pbuf_alloc` of `length` bytes from the
    buffers `free`. -/
structure RefinesBytes (h t : PbufChain) (newLen hide len off : ℕ) (dst data : List Byte)
    (m : PoolMem) (layer : PbufLayer) (length : ℕ) (free : List ℕ) : Prop where
  cat : h.abs.length + t.abs.length < 65536 →
    ∃ c : PbufChain, pbufCat h.pbufs t.pbufs = .ok c.pbufs ∧ c.abs = h.abs ++ t.abs
  realloc : ∃ (c : PbufChain) (held : List PbufNode),
    pbufRealloc h.pbufs newLen = .ok (c.pbufs, unshared (h.pbufs.drop c.pbufs.length), held) ∧
    c.abs = h.abs.take newLen ∧ c.pbufs.length ≤ h.pbufs.length ∧
    c.pbufs.map (·.addr) = (h.pbufs.map (·.addr)).take c.pbufs.length ∧
    ((∀ q ∈ h.pbufs, q.ref = 1) →
      unshared (h.pbufs.drop c.pbufs.length) = h.pbufs.drop c.pbufs.length)
  header : HidesOrFails h hide
  copyPartial : ((h.abs.drop off).take len).length ≤ dst.length →
    pbufCopyPartial h.pbufs dst len off =
      .ok (min len (h.abs.length - off), overwrite dst 0 ((h.abs.drop off).take len))
  take : (data.length ≤ h.abs.length →
      ∃ c : PbufChain, pbufTake h.pbufs data data.length = .ok (.ok, c.pbufs) ∧
        c.abs = overwrite h.abs 0 data ∧ c.pbufs.map PbufNode.blank = h.pbufs.map PbufNode.blank) ∧
    (h.abs.length < data.length → pbufTake h.pbufs data data.length = .ok (.arg, h.pbufs))
  copy : NoneEmpty h.pbufs → NoneEmpty t.pbufs → t.abs.length ≤ h.abs.length →
    ∃ c : PbufChain, pbufCopy h.pbufs t.pbufs = .ok (.ok, c.pbufs) ∧
      c.abs = t.abs ++ h.abs.drop t.abs.length ∧
      c.pbufs.map PbufNode.blank = h.pbufs.map PbufNode.blank
  alloc : (∃ (c : PbufChain) (free' : List ℕ),
      pbufAlloc m layer length free = .ok (some c.pbufs, free') ∧ c.abs.length = u16 length ∧
        free = c.pbufs.map (·.addr) ++ free') ∨
    ∃ free', pbufAlloc m layer length free = .ok (none, free') ∧ free'.Perm free

/-- For all chains and arguments: the operations are those on byte strings exactly when no more is
    hidden than the first pbuf has. -/
theorem refines_bytes_iff (h t : PbufChain) (newLen hide len off : ℕ) (dst data : List Byte)
    (m : PoolMem) (layer : PbufLayer) (length : ℕ) (free : List ℕ) :
    RefinesBytes h t newLen hide len off dst data m layer length free ↔
      ∀ q ∈ h.pbufs.head?, hide ≤ q.len := by
  constructor
  · intro hr
    exact (hidesOrFails_iff h hide).mp hr.header
  · intro hq
    exact {
      cat := pbufCat_abs h t
      realloc := pbufRealloc_abs h newLen
      header := (hidesOrFails_iff h hide).mpr hq
      copyPartial := pbufCopyPartial_abs h len off
      take := pbufTake_abs h data
      copy := pbufCopy_abs h t
      alloc := pbufAlloc_abs m layer length free }

/-- Hiding three bytes of a chain of two and two: the process is aborted. -/
theorem refines_bytes_fails : ∃ h : PbufChain, h.pbufs.map (·.len) = [2, 2] ∧
    pbufHeader 3 h.pbufs = .error (.assert "increment_magnitude <= p->len") ∧
    ∀ t newLen len off dst data m layer length free,
      ¬ RefinesBytes h t newLen 3 len off dst data m layer length free := by
  refine ⟨⟨[⟨⟨[1, 2], 4⟩, 0, .pool, 1, []⟩, ⟨⟨[3, 4], 2⟩, 1, .pool, 1, []⟩], by simp, ⟨rfl, rfl, trivial⟩,
    by decide, by decide⟩, rfl, rfl, ?_⟩
  intro t newLen len off dst data m layer length free hr
  rcases hr.header with ⟨c, hc, -⟩ | ⟨err, -, hc⟩ <;> cases hc

end Chain

end Rudp
