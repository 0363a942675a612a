import Rudp.Types

/-!
# pbuf chains

A chain is the list of its pbufs, so `tot_len` of a chain is the sum of the `len` fields. The
operations are those of `src/pbuf.c` that the TCP code uses; each comes with its effect on the bytes
of the chain (`bytes`).
-/

namespace Rudp

/-! ## Chains -/

/-- The payload of a chain. -/
def bytes (p : List Pbuf) : List Byte := p.flatMap (·.payload)

/-- `p->tot_len`. -/
def totLen (p : List Pbuf) : ℕ := (p.map (·.payload.length)).sum

@[simp] theorem bytes_nil : bytes [] = [] := rfl

@[simp] theorem bytes_cons (q : Pbuf) (p : List Pbuf) : bytes (q :: p) = q.payload ++ bytes p := rfl

@[simp] theorem bytes_append (p q : List Pbuf) : bytes (p ++ q) = bytes p ++ bytes q := by
  simp [bytes]

@[simp] theorem totLen_nil : totLen [] = 0 := rfl

@[simp] theorem totLen_cons (q : Pbuf) (p : List Pbuf) :
    totLen (q :: p) = q.payload.length + totLen p := rfl

@[simp] theorem totLen_append (p q : List Pbuf) : totLen (p ++ q) = totLen p + totLen q := by
  simp [totLen]

theorem length_bytes (p : List Pbuf) : (bytes p).length = totLen p := by
  induction p with
  | nil => rfl
  | cons q p ih => simp [ih]

/-- `pbuf_clen` (pbuf.c:737-749), a `u8_t` count. -/
def pbufClen (p : List Pbuf) : ℕ := u8 p.length

/-- The walk of `pbuf_realloc` (pbuf.c:465-501): pbufs are kept while more than their length
    remains, the next one is cut, the rest is freed. -/
def pbufCut : ℕ → List Pbuf → List Pbuf
  | _, [] => []
  | remLen, q :: p =>
    if remLen > q.payload.length then q :: pbufCut (remLen - q.payload.length) p
    else [{ payload := q.payload.take remLen, spare := 0 }]

/-- `pbuf_realloc(p, new_len)` (pbuf.c:429-503). Chains are never enlarged. -/
def pbufRealloc (p : List Pbuf) (newLen : ℕ) : List Pbuf :=
  if newLen ≥ totLen p then p else pbufCut newLen p

theorem bytes_pbufCut : ∀ (p : List Pbuf) (n : ℕ), bytes (pbufCut n p) = (bytes p).take n := by
  intro p
  induction p with
  | nil => simp [pbufCut]
  | cons q p ih =>
    intro n
    rw [pbufCut]
    split_ifs with h
    · have hq : q.payload.take n = q.payload := List.take_of_length_le (by omega)
      rw [bytes_cons, ih, bytes_cons, List.take_append, hq]
    · rw [bytes_cons, bytes_cons, List.take_append_of_le_length (by omega)]
      simp

theorem bytes_pbufRealloc (p : List Pbuf) (n : ℕ) : bytes (pbufRealloc p n) = (bytes p).take n := by
  unfold pbufRealloc
  split_ifs with h
  · rw [List.take_of_length_le (by rw [length_bytes]; exact h)]
  · exact bytes_pbufCut p n

theorem totLen_pbufRealloc (p : List Pbuf) (n : ℕ) :
    totLen (pbufRealloc p n) = min n (totLen p) := by
  rw [← length_bytes, bytes_pbufRealloc, List.length_take, length_bytes]

/-- The first-edge trimming of `tcp_receive` (tcp_in.c:1225-1246): the payload of leading pbufs
    shorter than `off` is emptied, the pbuf that `off` falls into is advanced by
    `pbuf_header(p, -off)`. -/
def pbufSkip : ℕ → List Pbuf → List Pbuf
  | _, [] => []
  | off, q :: p =>
    if q.payload.length < off then { q with payload := [] } :: pbufSkip (off - q.payload.length) p
    else { q with payload := q.payload.drop off } :: p

theorem bytes_pbufSkip : ∀ (p : List Pbuf) (n : ℕ), bytes (pbufSkip n p) = (bytes p).drop n := by
  intro p
  induction p with
  | nil => simp [pbufSkip]
  | cons q p ih =>
    intro n
    rw [pbufSkip]
    split_ifs with h
    · have hq : q.payload.drop n = [] := List.drop_of_length_le (by omega)
      rw [bytes_cons, ih, bytes_cons, List.drop_append, hq]
    · rw [bytes_cons, bytes_cons, List.drop_append_of_le_length (by omega)]

theorem totLen_pbufSkip (p : List Pbuf) (n : ℕ) : totLen (pbufSkip n p) = totLen p - n := by
  rw [← length_bytes, bytes_pbufSkip, List.length_drop, length_bytes]

end Rudp
