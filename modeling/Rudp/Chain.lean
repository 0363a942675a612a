import Rudp.Header
import Rudp.Pbuf
import Rudp.Lib.Overwrite
import Rudp.Lib.Run

/-!
# The functions of `pbuf.c` on chains in memory

Here a pbuf has all the fields that `src/pbuf.c` works on: its own `tot_len`, its references, its
type, and the memory behind the payload. `abs` forgets all of it but the bytes.

Results:
* `PbufChain`: a chain whose `tot_len` fields are the suffix sums. Each operation gives one.
* `pbufCat_abs`, `pbufRealloc_abs`, `pbufCopyPartial_abs`, `pbufTake_abs`: the operations are
  operations on byte strings.
* `hidesOrFails_iff`: so is `pbuf_header(p, -n)`, up to the length of the first pbuf.
* `forget_pbufCat`, `forget_pbufRealloc`: the chains of `Rudp.Pbuf` are these without the fields.
-/

namespace Rudp

open Overwrite

/-! ## Memory -/

/-- `n` bytes from `m + off`. -/
def memRead (m : List Byte) (off n : ℕ) : Except Fault (List Byte) :=
  if off + n ≤ m.length then .ok ((m.drop off).take n) else .error .outOfBounds

/-- `MEMCPY(m + off, s, n)`, with the `n` bytes that `s` points to. -/
def memWrite (m : List Byte) (off : ℕ) (s : List Byte) : Except Fault (List Byte) :=
  if off + s.length ≤ m.length then .ok (overwrite m off s) else .error .outOfBounds

namespace Chain

/-- `pbuf_type`. -/
inductive PbufType
  | ram | rom | ref | pool
  deriving DecidableEq, Repr

/-- `struct pbuf`; its `next` is the rest of the list. -/
structure PbufNode extends Buf where
  addr : ℕ
  type : PbufType
  ref : ℕ
  /-- The memory behind `p->payload + p->len`, up to the end of the pbuf. -/
  room : List Byte

/-- `p->len`. -/
def PbufNode.len (q : PbufNode) : ℕ := q.payload.length

/-- The memory that `p->payload` points to. -/
def PbufNode.memory (q : PbufNode) : List Byte := q.payload ++ q.room

/-- `MEMCPY((u8_t *)q->payload + off, s, n)`. -/
def PbufNode.write (q : PbufNode) (off : ℕ) (s : List Byte) : Except Fault PbufNode := do
  let m ← memWrite q.memory off s
  .ok { q with payload := m.take q.len, room := m.drop q.len }

/-- The byte string of a chain. -/
def abs (p : List PbufNode) : List Byte := p.flatMap (·.payload)

@[simp] theorem abs_nil : abs [] = [] := rfl

@[simp] theorem abs_cons (q : PbufNode) (p : List PbufNode) : abs (q :: p) = q.payload ++ abs p :=
  rfl

/-- "p->tot_len == p->len + (p->next? p->next->tot_len: 0)" (pbuf.h:113), of every pbuf. -/
def TotLens : List PbufNode → Prop
  | [] => True
  | q :: p => q.totLen = (abs (q :: p)).length ∧ TotLens p

/-- A chain as `pbuf.c` keeps it: every `tot_len` is the length of what follows, and every pbuf is
    referenced. -/
structure PbufChain where
  pbufs : List PbufNode
  ne_nil : pbufs ≠ []
  totLens : TotLens pbufs
  lt : (abs pbufs).length < 65536
  ref : ∀ q ∈ pbufs, 0 < q.ref

/-- The byte string of a chain. -/
def PbufChain.abs (p : PbufChain) : List Byte := Chain.abs p.pbufs

/-! ## The operations -/

/-- The loop of `pbuf_free` (pbuf.c:672-724): the pbufs that are deallocated, and what stays
    because of a reference. -/
def pbufFreeLoop : List PbufNode → Except Fault (List PbufNode × List PbufNode)
  | [] => .ok ([], [])
  | p :: next => do
    lwipAssert "pbuf_free: p->ref > 0" (p.ref > 0)
    if p.ref - 1 = 0 then do
      let r ← pbufFreeLoop next
      .ok (p :: r.1, r.2)
    else .ok ([], { p with ref := p.ref - 1 } :: next)

/-- `pbuf_free`. -/
def pbufFree (p : List PbufNode) : Except Fault (List PbufNode × List PbufNode) := do
  lwipAssert "p != NULL" (p ≠ [])
  pbufFreeLoop p

/-- "any remaining pbufs in chain?" (pbuf.c:496-499) -/
def pbufFreeNext (next : List PbufNode) : Except Fault (List PbufNode × List PbufNode) :=
  if next ≠ [] then pbufFree next else .ok ([], [])

/-- The loop of `pbuf_cat` and what is behind it (pbuf.c:786-797), for a second chain `t` whose
    `tot_len` is `len`. -/
def pbufCatLoop (t : List PbufNode) (len : ℕ) : List PbufNode → Except Fault (List PbufNode)
  | [] => .error .nullDeref
  | [p] => do
    -- p is last pbuf of first chain
    lwipAssert "p->tot_len == p->len (of last pbuf in chain)" (p.totLen = p.len)
    .ok ({ p with totLen := u16 (p.totLen + len) } :: t)
  | p :: q :: next => do
    let r ← pbufCatLoop t len (q :: next)
    .ok ({ p with totLen := u16 (p.totLen + len) } :: r)

/-- `pbuf_cat` (pbuf.c:777-800). -/
def pbufCat (h t : List PbufNode) : Except Fault (List PbufNode) := do
  lwipAssert "(h != NULL) && (t != NULL) (programmer violates API)" (h ≠ [] ∧ t ≠ [])
  match t with
  | [] => .error .nullDeref
  | q :: next => pbufCatLoop (q :: next) q.totLen h

/-- The walk of `pbuf_realloc` over the pbufs that stay, and the new last pbuf (pbuf.c:461-502).
    `mem_trim` leaves the block alone in this configuration. -/
def pbufReallocLoop (grow : ℤ) :
    ℕ → List PbufNode → Except Fault (List PbufNode × List PbufNode × List PbufNode)
  | _, [] => .error (.assert "pbuf_realloc: q != NULL")
  | remLen, q :: next =>
    if remLen > q.len then do
      lwipAssert "grow < max_u16_t" (grow < 0xffff)
      let r ← pbufReallocLoop grow (remLen - q.len) next
      .ok ({ q with totLen := u16 (q.totLen + (grow % 65536).toNat) } :: r.1, r.2)
    else do
      let r ← pbufFreeNext next
      .ok ([{ q with payload := q.payload.take remLen, room := q.payload.drop remLen ++ q.room,
                     totLen := remLen }], r)

/-- `pbuf_realloc(p, new_len)` (pbuf.c:429-503): the chain, the pbufs that are deallocated, and what
    is left of the chain behind because of a reference. -/
def pbufRealloc (p : List PbufNode) (newLen : ℕ) :
    Except Fault (List PbufNode × List PbufNode × List PbufNode) :=
  match p with
  | [] => .error (.assert "pbuf_realloc: p != NULL")
  | q :: _ =>
    if newLen ≥ q.totLen then .ok (p, [], [])
    else pbufReallocLoop ((newLen : ℤ) - q.totLen) newLen p

/-- `pbuf_header(p, -n)` (pbuf.c:521-579) and its return value. Behind the first check no branch on
    the type fails. -/
def pbufHeader (n : ℕ) : List PbufNode → Except Fault (ℕ × List PbufNode)
  | [] => .error (.assert "p != NULL")
  | p :: next => do
    let b ← Rudp.pbufHeader n p.toBuf
    .ok (0, { p with toBuf := b } :: next)

/-- The loop of `pbuf_copy_partial` (pbuf.c:966-984). -/
def copyPartialLoop : List PbufNode → (dataptr : List Byte) → (left len offset copiedTotal : ℕ) →
    Except Fault (ℕ × List Byte)
  | [], dataptr, _, _, _, copiedTotal => .ok (copiedTotal, dataptr)
  | p :: next, dataptr, left, len, offset, copiedTotal =>
    if len = 0 then .ok (copiedTotal, dataptr)
    else if offset ≠ 0 ∧ offset ≥ p.len then
      copyPartialLoop next dataptr left len (offset - p.len) copiedTotal
    else do
      let bufCopyLen := if p.len - offset > len then len else p.len - offset
      let s ← memRead p.memory offset bufCopyLen
      let dataptr ← memWrite dataptr left s
      copyPartialLoop next dataptr (left + bufCopyLen) (len - bufCopyLen) 0
        (copiedTotal + bufCopyLen)

/-- `pbuf_copy_partial(buf, dataptr, len, offset)` (pbuf.c:948-986): the number it returns and what
    `dataptr` then points to. -/
def pbufCopyPartial (buf : List PbufNode) (dataptr : List Byte) (len offset : ℕ) :
    Except Fault (ℕ × List Byte) := do
  lwipAssert "pbuf_copy_partial: invalid buf" (buf ≠ [])
  copyPartialLoop buf dataptr 0 len offset 0

/-- The loop of `pbuf_take` (pbuf.c:1088-1101). -/
def takeLoop (dataptr : List Byte) :
    List PbufNode → (totalCopyLen copiedTotal : ℕ) → Except Fault (List PbufNode)
  | [], totalCopyLen, _ => do
    lwipAssert "pbuf_take: invalid pbuf" (totalCopyLen = 0)
    .ok []
  | p :: next, totalCopyLen, copiedTotal =>
    if totalCopyLen = 0 then .ok (p :: next)
    else do
      let bufCopyLen := if totalCopyLen > p.len then p.len else totalCopyLen
      let s ← memRead dataptr copiedTotal bufCopyLen
      let p ← p.write 0 s
      let r ← takeLoop dataptr next (totalCopyLen - bufCopyLen) (copiedTotal + bufCopyLen)
      .ok (p :: r)

/-- `pbuf_take(buf, dataptr, len)` (pbuf.c:1073-1103). -/
def pbufTake (buf : List PbufNode) (dataptr : List Byte) (len : ℕ) :
    Except Fault (Err × List PbufNode) :=
  match buf with
  | [] => .error (.assert "pbuf_take: invalid buf")
  | q :: _ =>
    if q.totLen < len then .ok (.arg, buf)
    else do
      let r ← takeLoop dataptr buf len 0
      .ok (.ok, r)

/-! ## Memory accesses -/

theorem memRead_ok {m : List Byte} {off n : ℕ} (h : off + n ≤ m.length) :
    memRead m off n = .ok ((m.drop off).take n) := if_pos h

theorem memWrite_ok {m s : List Byte} {off : ℕ} (h : off + s.length ≤ m.length) :
    memWrite m off s = .ok (overwrite m off s) := if_pos h

theorem PbufNode.length_memory (q : PbufNode) : q.memory.length = q.len + q.room.length :=
  List.length_append

/-- What is read inside the payload is payload. -/
theorem PbufNode.read_ok {q : PbufNode} {off n : ℕ} (h : off + n ≤ q.len) :
    memRead q.memory off n = .ok ((q.payload.drop off).take n) := by
  have hlen : n ≤ (q.payload.drop off).length := by
    rw [List.length_drop]
    have : q.len = q.payload.length := rfl
    omega
  rw [memRead_ok (by rw [q.length_memory]; omega), PbufNode.memory,
    List.drop_append_of_le_length (by unfold PbufNode.len at h; omega),
    List.take_append_of_le_length hlen]

/-- What is written inside the payload stays there. -/
theorem PbufNode.write_ok {q : PbufNode} {off : ℕ} {s : List Byte} (h : off + s.length ≤ q.len) :
    q.write off s = .ok { q with payload := overwrite q.payload off s } := by
  have hlen : (overwrite q.payload off s).length = q.len := length_overwrite h
  unfold PbufNode.write
  rw [memWrite_ok (by rw [q.length_memory]; omega), PbufNode.memory, overwrite_append_left _ h]
  show Except.ok _ = _
  congr 2
  · rw [← hlen, List.take_left]
  · rw [← hlen, List.drop_left]

/-- A pbuf without the bytes of its payload. -/
def PbufNode.blank (q : PbufNode) : PbufNode := { q with payload := List.replicate q.len 0 }

theorem blank_overwrite {q : PbufNode} {off : ℕ} {s : List Byte} (h : off + s.length ≤ q.len) :
    PbufNode.blank { q with payload := overwrite q.payload off s } = q.blank := by
  have hlen : (overwrite q.payload off s).length = q.payload.length := length_overwrite h
  simp only [PbufNode.blank, PbufNode.len, hlen]

theorem PbufNode.len_blank (q : PbufNode) : q.blank.len = q.len := List.length_replicate

theorem map_of_blank {β : Type*} {f : PbufNode → β} (hf : ∀ q, f q.blank = f q)
    {p p' : List PbufNode} (h : p'.map PbufNode.blank = p.map PbufNode.blank) :
    p'.map f = p.map f := by
  have h := congrArg (List.map f) h
  simpa [List.map_map, Function.comp_def, hf] using h

theorem length_abs (p : List PbufNode) : (abs p).length = (p.map PbufNode.len).sum := by
  induction p with
  | nil => rfl
  | cons q p ih =>
    rw [abs_cons, List.length_append, ih]
    rfl

theorem length_abs_of_blank {p p' : List PbufNode}
    (h : p'.map PbufNode.blank = p.map PbufNode.blank) : (abs p').length = (abs p).length := by
  rw [length_abs, length_abs, map_of_blank PbufNode.len_blank h]

theorem TotLens.congr : ∀ {p p' : List PbufNode}, p'.map PbufNode.len = p.map PbufNode.len →
    p'.map (·.totLen) = p.map (·.totLen) → TotLens p → TotLens p' := by
  intro p
  induction p with
  | nil =>
    intro p' h _ _
    rw [List.map_eq_nil_iff.mp h]
    trivial
  | cons q p ih =>
    intro p' hlen htot ht
    cases p' with
    | nil => cases hlen
    | cons q' p' =>
      have hq : q'.totLen = q.totLen := (List.cons.inj htot).1
      refine ⟨?_, ih (List.cons.inj hlen).2 (List.cons.inj htot).2 ht.2⟩
      rw [hq, ht.1, length_abs, length_abs, hlen]

theorem TotLens.of_blank {p p' : List PbufNode}
    (h : p'.map PbufNode.blank = p.map PbufNode.blank) (ht : TotLens p) : TotLens p' :=
  ht.congr (map_of_blank PbufNode.len_blank h) (map_of_blank (fun _ => rfl) h)

/-- Where the fields are the same, the chain is still one. -/
def PbufChain.ofFields (c : PbufChain) (p : List PbufNode)
    (hlen : p.map PbufNode.len = c.pbufs.map PbufNode.len)
    (htot : p.map (·.totLen) = c.pbufs.map (·.totLen))
    (href : p.map (·.ref) = c.pbufs.map (·.ref)) : PbufChain where
  pbufs := p
  ne_nil := by
    rintro rfl
    exact c.ne_nil (List.map_eq_nil_iff.mp hlen.symm)
  totLens := c.totLens.congr hlen htot
  lt := by
    rw [length_abs, hlen, ← length_abs]
    exact c.lt
  ref := by
    intro q hq
    have hmem : q.ref ∈ c.pbufs.map (·.ref) := href ▸ List.mem_map_of_mem hq
    obtain ⟨q', hq', he⟩ := List.mem_map.mp hmem
    exact he ▸ c.ref q' hq'

/-- Where only bytes of the payload have changed, the chain is still one. -/
def PbufChain.ofBlank (c : PbufChain) (p : List PbufNode)
    (h : p.map PbufNode.blank = c.pbufs.map PbufNode.blank) : PbufChain :=
  c.ofFields p (map_of_blank PbufNode.len_blank h) (map_of_blank (fun _ => rfl) h)
    (map_of_blank (fun _ => rfl) h)

theorem PbufNode.write_len {q q' : PbufNode} {off : ℕ} {s : List Byte}
    (h : q.write off s = .ok q') : q'.len = q.len := by
  obtain ⟨m, hm, hq⟩ := Run.bind_eq_ok.mp h
  have hlen : m.length = q.len + q.room.length := by
    unfold memWrite at hm
    split_ifs at hm with hb
    cases hm
    rw [length_overwrite hb, q.length_memory]
  cases hq
  show (m.take q.len).length = q.len
  rw [List.length_take]
  omega

/-! ## `pbuf_cat` -/

theorem pbufCatLoop_spec {t : List PbufNode} (ht : TotLens t) : ∀ {h : List PbufNode}, h ≠ [] →
    TotLens h → (abs h).length + (abs t).length < 65536 →
    ∃ c, pbufCatLoop t (abs t).length h = .ok c ∧ abs c = abs h ++ abs t ∧ TotLens c ∧
      c.map (·.ref) = (h ++ t).map (·.ref) := by
  intro h
  induction h with
  | nil =>
    intro hne
    exact absurd rfl hne
  | cons p h ih =>
    intro _ htot hlt
    have hp := htot.1
    rw [abs_cons, List.length_append] at hlt hp
    have hu : u16 (p.totLen + (abs t).length) = p.payload.length + (abs h).length + (abs t).length := by
      rw [hp]
      exact Nat.mod_eq_of_lt hlt
    cases h with
    | nil =>
      refine ⟨{ p with totLen := u16 (p.totLen + (abs t).length) } :: t, ?_, ?_, ⟨?_, ht⟩, rfl⟩
      · unfold pbufCatLoop
        rw [lwipAssert_pos (by rw [hp]; rfl)]
        rfl
      · simp
      · rw [abs_cons, List.length_append]
        exact hu.trans (by simp)
    | cons q next =>
      obtain ⟨c, hc, habs, hct, href⟩ := ih (by simp) htot.2 (by omega)
      refine ⟨{ p with totLen := u16 (p.totLen + (abs t).length) } :: c, ?_, ?_, ⟨?_, hct⟩, ?_⟩
      · rw [pbufCatLoop, hc]
        rfl
      · rw [abs_cons, habs, abs_cons p, List.append_assoc]
      · rw [abs_cons, habs, List.length_append, List.length_append]
        exact hu.trans (Nat.add_assoc _ _ _)
      · rw [List.map_cons, href]
        rfl

/-- `pbuf_cat` appends. -/
theorem pbufCat_abs (h t : PbufChain) (hlt : h.abs.length + t.abs.length < 65536) :
    ∃ c : PbufChain, pbufCat h.pbufs t.pbufs = .ok c.pbufs ∧ c.abs = h.abs ++ t.abs := by
  obtain ⟨c, hc, habs, htot, href⟩ := pbufCatLoop_spec t.totLens h.ne_nil h.totLens hlt
  have hne : c ≠ [] := by
    rintro rfl
    exact h.ne_nil (List.append_eq_nil_iff.mp (List.map_eq_nil_iff.mp href.symm)).1
  have hrefs : ∀ q ∈ c, 0 < q.ref := by
    intro q hq
    have hmem : q.ref ∈ (h.pbufs ++ t.pbufs).map (·.ref) := href ▸ List.mem_map_of_mem hq
    obtain ⟨q', hq', he⟩ := List.mem_map.mp hmem
    rcases List.mem_append.mp hq' with hq' | hq'
    · exact he ▸ h.ref q' hq'
    · exact he ▸ t.ref q' hq'
  have hclt : (abs c).length < 65536 := by
    rw [habs, List.length_append]
    exact hlt
  refine ⟨⟨c, hne, htot, hclt, hrefs⟩, ?_, habs⟩
  unfold pbufCat
  rw [lwipAssert_pos ⟨h.ne_nil, t.ne_nil⟩]
  show (match t.pbufs with | [] => _ | q :: next => _) = _
  have htt := t.totLens
  cases hp : t.pbufs with
  | nil => exact absurd hp t.ne_nil
  | cons q next =>
    rw [hp] at hc htt
    dsimp only
    rw [htt.1]
    exact hc

/-! ## `pbuf_free` and `pbuf_realloc` -/

/-- The pbufs in front of the first one that someone else refers to. -/
def unshared (p : List PbufNode) : List PbufNode := p.takeWhile (·.ref = 1)

theorem pbufFreeLoop_spec : ∀ {p : List PbufNode}, (∀ q ∈ p, 0 < q.ref) →
    ∃ held, pbufFreeLoop p = .ok (unshared p, held) := by
  intro p
  induction p with
  | nil => exact fun _ => ⟨[], rfl⟩
  | cons q p ih =>
    intro href
    have hq := href q (.head _)
    obtain ⟨held, hp⟩ := ih fun x hx => href x (.tail _ hx)
    unfold pbufFreeLoop
    rw [lwipAssert_pos hq]
    by_cases h1 : q.ref = 1
    · refine ⟨held, ?_⟩
      show (if q.ref - 1 = 0 then _ else _) = _
      have hun : unshared (q :: p) = q :: unshared p := List.takeWhile_cons_of_pos (by simpa using h1)
      rw [if_pos (by omega), hp, hun]
      rfl
    · refine ⟨{ q with ref := q.ref - 1 } :: p, ?_⟩
      show (if q.ref - 1 = 0 then _ else _) = _
      have hun : unshared (q :: p) = [] := List.takeWhile_cons_of_neg (by simpa using h1)
      rw [if_neg (by omega), hun]

/-- Without other references, all of it is deallocated. -/
theorem unshared_eq {p : List PbufNode} (h : ∀ q ∈ p, q.ref = 1) : unshared p = p :=
  List.takeWhile_eq_self_iff.mpr fun q hq => by simpa using h q hq

theorem pbufFreeNext_spec {p : List PbufNode} (h : ∀ q ∈ p, 0 < q.ref) :
    ∃ held, pbufFreeNext p = .ok (unshared p, held) := by
  by_cases hp : p = []
  · subst hp
    exact ⟨[], rfl⟩
  · obtain ⟨held, hf⟩ := pbufFreeLoop_spec h
    refine ⟨held, ?_⟩
    rw [pbufFreeNext, if_pos hp, pbufFree, lwipAssert_pos hp]
    exact hf

/-- The walk of `pbuf_realloc`: what stays is cut to `n` bytes, the pbufs behind are freed. -/
theorem pbufReallocLoop_spec {grow : ℤ} (hgrow : -65536 < grow ∧ grow < 0) :
    ∀ {p : List PbufNode} {n : ℕ}, (n : ℤ) = (abs p).length + grow → TotLens p →
      (abs p).length < 65536 → (∀ q ∈ p, 0 < q.ref) →
      ∃ c held, pbufReallocLoop grow n p = .ok (c, unshared (p.drop c.length), held) ∧ c ≠ [] ∧
        abs c = (abs p).take n ∧ TotLens c ∧ c.length ≤ p.length ∧
        c.map (·.addr) = (p.map (·.addr)).take c.length ∧ ∀ q ∈ c, 0 < q.ref := by
  intro p
  induction p with
  | nil =>
    intro n hn
    rw [abs_nil, List.length_nil] at hn
    omega
  | cons q p ih =>
    intro n hn htot hlt href
    have hq := htot.1
    have hqref := href q (.head _)
    have hpref : ∀ x ∈ p, 0 < x.ref := fun x hx => href x (.tail _ hx)
    rw [abs_cons, List.length_append] at hn hlt hq
    unfold pbufReallocLoop
    by_cases hlen : n > q.len
    · have hlen' : q.payload.length < n := hlen
      obtain ⟨c, held, hc, hne, habs, hct, hle, haddr, hcref⟩ :=
        ih (n := n - q.len) (by unfold PbufNode.len; omega) htot.2 (by omega) hpref
      have htake : abs (q :: c) = (abs (q :: p)).take n := by
        rw [abs_cons, abs_cons, habs, List.take_append, List.take_of_length_le hlen'.le]
        rfl
      refine ⟨{ q with totLen := u16 (q.totLen + (grow % 65536).toNat) } :: c, held, ?_, by simp,
        htake, ⟨?_, hct⟩, by simpa using hle, ?_, ?_⟩
      · rw [if_pos hlen, lwipAssert_pos (by omega), hc]
        rfl
      · show u16 _ = (abs (q :: c)).length
        rw [htake, List.length_take, abs_cons, List.length_append, hq]
        unfold u16
        omega
      · rw [List.map_cons, List.map_cons, List.length_cons, List.take_succ_cons, haddr]
      · intro x hx
        rcases List.mem_cons.mp hx with rfl | hx
        · exact hqref
        · exact hcref x hx
    · have hlen' : n ≤ q.payload.length := Nat.le_of_not_lt hlen
      obtain ⟨held, hf⟩ := pbufFreeNext_spec hpref
      refine ⟨[{ q with payload := q.payload.take n, room := q.payload.drop n ++ q.room,
                        totLen := n }], held, ?_, by simp, ?_, ⟨?_, trivial⟩, by simp, by simp, ?_⟩
      · rw [if_neg hlen, hf]
        rfl
      · rw [abs_cons, abs_cons, List.take_append_of_le_length hlen']
        exact List.append_nil _
      · show n = (abs _).length
        rw [abs_cons, abs_nil, List.append_nil, List.length_take]
        omega
      · intro x hx
        rw [List.mem_singleton.mp hx]
        exact hqref

/-- `pbuf_realloc(p, n)` keeps the first `n` bytes, in the first pbufs, and frees the others: all of
    them where nobody else refers to one. -/
theorem pbufRealloc_abs (p : PbufChain) (n : ℕ) :
    ∃ (c : PbufChain) (held : List PbufNode),
      pbufRealloc p.pbufs n = .ok (c.pbufs, unshared (p.pbufs.drop c.pbufs.length), held) ∧
      c.abs = p.abs.take n ∧ c.pbufs.length ≤ p.pbufs.length ∧
      c.pbufs.map (·.addr) = (p.pbufs.map (·.addr)).take c.pbufs.length ∧
      ((∀ q ∈ p.pbufs, q.ref = 1) →
        unshared (p.pbufs.drop c.pbufs.length) = p.pbufs.drop c.pbufs.length) := by
  have hun (k : ℕ) : (∀ q ∈ p.pbufs, q.ref = 1) → unshared (p.pbufs.drop k) = p.pbufs.drop k :=
    fun h1 => unshared_eq fun q hq => h1 q (List.mem_of_mem_drop hq)
  have htot := p.totLens
  have hlt := p.lt
  cases hp : p.pbufs with
  | nil => exact absurd hp p.ne_nil
  | cons q next =>
    rw [hp] at htot hlt hun
    have hq := htot.1
    by_cases hn : n ≥ q.totLen
    · refine ⟨p, [], ?_, ?_, by rw [hp], ?_, hun _⟩
      · rw [hp, pbufRealloc, if_pos hn, List.drop_length]
        rfl
      · rw [List.take_of_length_le]
        rw [hq, ← hp] at hn
        exact hn
      · rw [hp]
        exact (List.take_of_length_le (List.length_map _).le).symm
    · obtain ⟨c, held, hc, hne, habs, hct, hle, haddr, href⟩ :=
        @pbufReallocLoop_spec ((n : ℤ) - q.totLen) (by omega) (q :: next) n (by omega) htot hlt
          (hp ▸ p.ref)
      have hclt : (abs c).length < 65536 := by
        rw [habs, List.length_take]
        omega
      refine ⟨⟨c, hne, hct, hclt, href⟩, held, ?_, ?_, hle, haddr, hun _⟩
      · rw [pbufRealloc, if_neg hn]
        exact hc
      · rw [PbufChain.abs, PbufChain.abs, hp]
        exact habs

/-! ## `pbuf_header` -/

/-- The first `n` bytes are hidden, or the call fails and nothing has changed. -/
def HidesOrFails (p : PbufChain) (n : ℕ) : Prop :=
  (∃ c : PbufChain, pbufHeader n p.pbufs = .ok (0, c.pbufs) ∧
    c.pbufs.map (·.payload) = (p.pbufs.map (·.payload)).modifyHead (·.drop n) ∧
    c.abs = p.abs.drop n) ∨
  ∃ err, err ≠ 0 ∧ pbufHeader n p.pbufs = .ok (err, p.pbufs)

/-- The function returns only if the first pbuf is long enough. -/
theorem hidesOrFails_iff (p : PbufChain) (n : ℕ) :
    HidesOrFails p n ↔ ∀ q ∈ p.pbufs.head?, n ≤ q.len := by
  have htot := p.totLens
  have hlt := p.lt
  have href := p.ref
  unfold HidesOrFails PbufChain.abs
  cases hp : p.pbufs with
  | nil => exact absurd hp p.ne_nil
  | cons q next =>
    rw [hp] at htot hlt href
    have hq := htot.1
    rw [abs_cons, List.length_append] at hq hlt
    constructor
    · intro h q' hq'
      cases hq'
      by_contra hn
      have hf : pbufHeader n (q :: next) = .error (.assert "increment_magnitude <= p->len") := by
        have hn : q.payload.length < n := Nat.lt_of_not_le hn
        show (Rudp.pbufHeader n q.toBuf >>= _) = _
        rw [pbufHeader_fault hn]
        rfl
      rw [hf] at h
      rcases h with ⟨c, hc, -⟩ | ⟨err, -, hc⟩ <;> cases hc
    · intro h
      have hn : n ≤ q.payload.length := h q rfl
      obtain ⟨b, hb, hpay, hbt⟩ := pbufHeader_ok (p := q.toBuf) hn
      have hbt : b.totLen = q.totLen - n := hbt (by omega) (by omega)
      have habs : abs ({ q with toBuf := b } :: next) = (abs (q :: next)).drop n := by
        rw [abs_cons, abs_cons, List.drop_append_of_le_length hn]
        exact congrArg (· ++ abs next) hpay
      refine .inl ⟨⟨{ q with toBuf := b } :: next, by simp, ⟨?_, htot.2⟩, ?_, ?_⟩, ?_, ?_, habs⟩
      · rw [habs, List.length_drop, abs_cons, List.length_append, ← hq]
        exact hbt
      · rw [habs, List.length_drop, abs_cons, List.length_append]
        omega
      · intro x hx
        rcases List.mem_cons.mp hx with rfl | hx
        · exact href q (.head _)
        · exact href x (.tail _ hx)
      · show (Rudp.pbufHeader n q.toBuf >>= _) = _
        rw [hb]
        rfl
      · exact congrArg (· :: next.map (·.payload)) hpay

/-! ## `pbuf_copy_partial` -/

theorem copyPartialLoop_spec : ∀ {p : List PbufNode} {d : List Byte} {left len off copied : ℕ},
    left + (((abs p).drop off).take len).length ≤ d.length →
    copyPartialLoop p d left len off copied =
      .ok (copied + (((abs p).drop off).take len).length,
        overwrite d left (((abs p).drop off).take len)) := by
  intro p
  induction p with
  | nil =>
    intro d left len off copied _
    simp [copyPartialLoop]
  | cons q p ih =>
    intro d left len off copied hd
    rw [copyPartialLoop]
    by_cases hlen : len = 0
    · subst hlen
      simp
    · by_cases hoff : off ≠ 0 ∧ off ≥ q.len
      · have hdrop : (abs (q :: p)).drop off = (abs p).drop (off - q.len) := by
          rw [abs_cons, List.drop_append, List.drop_of_length_le hoff.2]
          rfl
        rw [hdrop] at hd ⊢
        rw [if_neg hlen, if_pos hoff, ih hd]
      · have hle : off ≤ q.len := by omega
        set n := if q.len - off > len then len else q.len - off with hn
        set s := (q.payload.drop off).take n with hs
        have hA : (q.payload.drop off).length = q.len - off := List.length_drop
        have hnle : n ≤ q.len - off ∧ n ≤ len := by
          rw [hn]
          split_ifs <;> omega
        have hslen : s.length = n := by
          rw [hs, List.length_take]
          omega
        -- the slice is what this pbuf has of it and what the others have
        have hslice : ((abs (q :: p)).drop off).take len =
            s ++ ((abs p).drop 0).take (len - n) := by
          have htake : (q.payload.drop off).take len = s := by
            rw [hs, hn]
            split_ifs with h
            · rfl
            · rw [List.take_of_length_le (by omega), List.take_of_length_le (by omega)]
          have hrest : len - (q.len - off) = len - n := by
            rw [hn]
            split_ifs <;> omega
          rw [abs_cons, List.drop_append_of_le_length hle, List.take_append, htake, hA, hrest,
            List.drop_zero]
        rw [hslice, List.length_append, hslen] at hd
        have hw : left + s.length ≤ d.length := by omega
        rw [if_neg hlen, if_neg hoff]
        show (memRead q.memory off n >>= _) = _
        rw [PbufNode.read_ok (by omega), ← hs]
        show (memWrite d left s >>= _) = _
        rw [memWrite_ok hw]
        show copyPartialLoop p (overwrite d left s) (left + n) (len - n) 0 (copied + n) = _
        rw [ih (by rw [length_overwrite hw]; omega), hslice, List.length_append, hslen,
          ← overwrite_overwrite hw, hslen, Nat.add_assoc]

/-- `pbuf_copy_partial` copies a slice. -/
theorem pbufCopyPartial_abs (p : PbufChain) {d : List Byte} (len off : ℕ)
    (hd : ((p.abs.drop off).take len).length ≤ d.length) :
    pbufCopyPartial p.pbufs d len off =
      .ok (min len (p.abs.length - off), overwrite d 0 ((p.abs.drop off).take len)) := by
  unfold pbufCopyPartial
  rw [lwipAssert_pos p.ne_nil]
  show copyPartialLoop p.pbufs d 0 len off 0 = _
  rw [copyPartialLoop_spec (by rw [Nat.zero_add]; exact hd), Nat.zero_add, List.length_take,
    List.length_drop]
  rfl

/-! ## `pbuf_take` -/

theorem takeLoop_spec {d : List Byte} : ∀ {p : List PbufNode} {total copied : ℕ},
    total ≤ (abs p).length → copied + total ≤ d.length →
    ∃ r, takeLoop d p total copied = .ok r ∧
      abs r = overwrite (abs p) 0 ((d.drop copied).take total) ∧
      r.map PbufNode.blank = p.map PbufNode.blank := by
  intro p
  induction p with
  | nil =>
    intro total copied ht _
    obtain rfl : total = 0 := Nat.le_zero.mp ht
    exact ⟨[], rfl, by simp, rfl⟩
  | cons q p ih =>
    intro total copied ht hd
    rw [abs_cons, List.length_append] at ht
    have hqlen : q.len = q.payload.length := rfl
    by_cases h0 : total = 0
    · subst h0
      refine ⟨q :: p, ?_, by simp, rfl⟩
      rw [takeLoop, if_pos rfl]
    · set n := if total > q.len then q.len else total with hn
      have hnle : n ≤ total ∧ n ≤ q.len ∧ (n = total ∨ n = q.len) := by
        rw [hn]
        split_ifs <;> omega
      set s := (d.drop copied).take n with hs
      have hslen : s.length = n := by
        rw [hs, List.length_take, List.length_drop]
        omega
      have hw : 0 + s.length ≤ q.len := by omega
      obtain ⟨r, hr, habs, hbl⟩ := @ih (total - n) (copied + n) (by omega) (by omega)
      have hsplit : (d.drop copied).take total = s ++ (d.drop (copied + n)).take (total - n) := by
        rw [hs, ← List.drop_drop, ← List.take_add]
        congr 1
        omega
      refine ⟨{ q with payload := overwrite q.payload 0 s } :: r, ?_, ?_, ?_⟩
      · rw [takeLoop, if_neg h0]
        show (memRead d copied n >>= _) = _
        rw [memRead_ok (by omega), ← hs]
        show (q.write 0 s >>= _) = _
        rw [PbufNode.write_ok hw]
        show (takeLoop d p (total - n) (copied + n) >>= _) = _
        rw [hr]
        rfl
      · have hend : (d.drop (copied + n)).take (total - n) = [] ∨ s.length = q.payload.length := by
          rcases hnle.2.2 with h | h
          · left
            rw [h, Nat.sub_self, List.take_zero]
          · exact .inr (hslen.trans h)
        rw [abs_cons, habs, hsplit, abs_cons]
        exact (overwrite_append_both _ (by omega) hend).symm
      · rw [List.map_cons, List.map_cons, hbl, blank_overwrite hw]

/-- `pbuf_take` overwrites the first bytes, or fails. -/
theorem pbufTake_abs (p : PbufChain) (d : List Byte) :
    (d.length ≤ p.abs.length → ∃ c : PbufChain, pbufTake p.pbufs d d.length = .ok (.ok, c.pbufs) ∧
      c.abs = overwrite p.abs 0 d ∧ c.pbufs.map PbufNode.blank = p.pbufs.map PbufNode.blank) ∧
    (p.abs.length < d.length → pbufTake p.pbufs d d.length = .ok (.arg, p.pbufs)) := by
  have htot := p.totLens
  unfold pbufTake
  constructor
  · intro hd
    obtain ⟨r, hr, habs, hbl⟩ := @takeLoop_spec d p.pbufs _ 0 hd (by omega)
    rw [List.drop_zero, List.take_length] at habs
    refine ⟨p.ofBlank r hbl, ?_, habs, hbl⟩
    have hd : d.length ≤ (abs p.pbufs).length := hd
    cases hp : p.pbufs with
    | nil => exact absurd hp p.ne_nil
    | cons q next =>
      rw [hp] at htot hr hd
      dsimp only
      rw [if_neg (by rw [htot.1]; omega), hr]
      rfl
  · intro hd
    have hd : (abs p.pbufs).length < d.length := hd
    cases hp : p.pbufs with
    | nil => exact absurd hp p.ne_nil
    | cons q next =>
      rw [hp] at htot hd
      dsimp only
      rw [if_pos (by rw [htot.1]; exact hd)]

/-! ## The chains of the TCP code -/

/-- A pbuf as the model of the TCP code sees it. -/
def PbufNode.forget (q : PbufNode) : Pbuf := { payload := q.payload, spare := 0 }

theorem bytes_forget (p : List PbufNode) : bytes (p.map PbufNode.forget) = abs p := by
  unfold bytes abs
  rw [List.flatMap_map]
  rfl

/-- What the header functions of `tcp_input` are given. -/
theorem PbufChain.toBuf_eq (c : PbufChain) :
    c.pbufs.map (·.toBuf) = chain (c.pbufs.map (·.payload)) := by
  have hlt := c.lt
  have htot := c.totLens
  generalize c.pbufs = p at hlt htot
  induction p with
  | nil => rfl
  | cons q p ih =>
    have hq := htot.1
    have habs : (p.map (·.payload)).flatten = Chain.abs p := List.flatMap_def.symm
    rw [abs_cons, List.length_append] at hlt
    rw [List.map_cons, List.map_cons, chain, ih (by omega) htot.2, habs]
    congr 1
    show q.toBuf = ⟨q.payload, u16 (Chain.abs (q :: p)).length⟩
    rw [← hq, u16, Nat.mod_eq_of_lt (by rw [hq, abs_cons, List.length_append]; exact hlt)]

theorem forget_pbufCatLoop {t : List PbufNode} {len : ℕ} : ∀ {h c : List PbufNode},
    pbufCatLoop t len h = .ok c →
    c.map PbufNode.forget = h.map PbufNode.forget ++ t.map PbufNode.forget := by
  intro h
  induction h with
  | nil =>
    intro c hc
    cases hc
  | cons p h ih =>
    intro c hc
    cases h with
    | nil =>
      obtain ⟨_, -, hc⟩ := Run.bind_eq_ok.mp hc
      cases hc
      rfl
    | cons q next =>
      obtain ⟨r, hr, hc⟩ := Run.bind_eq_ok.mp hc
      cases hc
      exact congrArg (p.forget :: ·) (ih hr)

/-- `pbuf_cat` is the append of the TCP model. -/
theorem forget_pbufCat {h t c : List PbufNode} (hc : pbufCat h t = .ok c) :
    c.map PbufNode.forget = h.map PbufNode.forget ++ t.map PbufNode.forget := by
  obtain ⟨_, -, hc⟩ := Run.bind_eq_ok.mp hc
  cases t with
  | nil => cases hc
  | cons q next => exact forget_pbufCatLoop hc

theorem forget_pbufReallocLoop {grow : ℤ} : ∀ {p : List PbufNode} {n : ℕ} {c : List PbufNode}
    {r : List PbufNode × List PbufNode}, pbufReallocLoop grow n p = .ok (c, r) →
    c.map PbufNode.forget = pbufCut n (p.map PbufNode.forget) := by
  intro p
  induction p with
  | nil =>
    intro n c r h
    cases h
  | cons q p ih =>
    intro n c r h
    unfold pbufReallocLoop at h
    rw [List.map_cons, pbufCut]
    split_ifs at h with hlen
    · obtain ⟨_, -, h⟩ := Run.bind_eq_ok.mp h
      obtain ⟨⟨c', r'⟩, hc, h⟩ := Run.bind_eq_ok.mp h
      cases h
      rw [if_pos (show n > q.forget.payload.length from hlen), List.map_cons, ih hc]
      rfl
    · obtain ⟨_, -, h⟩ := Run.bind_eq_ok.mp h
      cases h
      rw [if_neg (show ¬ n > q.forget.payload.length from hlen)]
      rfl

/-- `pbuf_realloc` of the TCP model is the function here without the fields. -/
theorem forget_pbufRealloc (p : PbufChain) {n : ℕ} {c : List PbufNode}
    {r : List PbufNode × List PbufNode} (h : pbufRealloc p.pbufs n = .ok (c, r)) :
    c.map PbufNode.forget = Rudp.pbufRealloc (p.pbufs.map PbufNode.forget) n := by
  have htot := p.totLens
  unfold Rudp.pbufRealloc
  rw [← length_bytes, bytes_forget]
  cases hp : p.pbufs with
  | nil => exact absurd hp p.ne_nil
  | cons q next =>
    rw [hp] at h htot
    unfold pbufRealloc at h
    dsimp only at h
    rw [htot.1] at h
    split_ifs at h with hn
    · cases h
      rw [if_pos hn]
    · rw [if_neg hn]
      exact forget_pbufReallocLoop h

end Chain

end Rudp
