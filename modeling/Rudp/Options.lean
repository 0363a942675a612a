import Rudp.Header
import Rudp.TcpIn

/-!
# The option walk

`tcp_parseopt` reads the options byte by byte through `tcp_getoptbyte`, out of the one or two places
in which `tcp_input` has left them (tcp_in.c:1584-1705).

Reference: the option area is a sequence of well-formed options, `TcpOption`, and a rest at which
the walk stops, `Stops`.

Results:
* `exists_options`: every area is such a sequence.
* `tcpParseMss_eq`, `tcpParseoptLoop_eq`: the walk over a list and the walk over the bytes compute
  the last MSS option of the sequence.
* `parseopt_iff`: the walk stays in the area exactly when the area does not end with a kind byte.
-/

namespace Rudp

open Octets (Order)

/-! ## Model -/

/-- What the walk leaves: `pcb->mss`, and the values of `tcp_optidx` at which it has read. -/
structure OptWalk where
  mss : ℕ
  reads : List ℕ

/-- The walk read at `reads` before. -/
def OptWalk.after (reads : List ℕ) (w : OptWalk) : OptWalk := { w with reads := reads ++ w.reads }

/-- Limit the mss to the configured TCP_MSS and prevent division by zero. -/
def limitMss (mss : ℕ) : ℕ := if mss > TCP_MSS ∨ mss = 0 then TCP_MSS else mss

/-- The loop of `tcp_parseopt` (tcp_in.c:1615-1703), `byte` for `tcp_getoptbyte`, and `none` when the
    fuel is used up. -/
def tcpParseoptLoop (byte : ℕ → Byte) (maxC : ℕ) : (fuel idx mss : ℕ) → Option OptWalk
  | 0, _, _ => none
  | fuel + 1, idx, mss =>
    if idx < maxC then
      match byte idx with
      -- LWIP_TCP_OPT_EOL, LWIP_TCP_OPT_NOP, LWIP_TCP_OPT_MSS
      | 0 => some ⟨mss, [idx]⟩
      | 1 => (tcpParseoptLoop byte maxC fuel (u16 (idx + 1)) mss).map (.after [idx])
      | 2 =>
        -- Bad length
        if byte (idx + 1) ≠ 4 ∨ idx + 2 - 2 + 4 > maxC then some ⟨mss, [idx, idx + 1]⟩
        else
          let new := (byte (idx + 2)).toNat <<< 8 ||| (byte (idx + 3)).toNat
          (tcpParseoptLoop byte maxC fuel (u16 (idx + 4)) (limitMss new)).map
            (.after [idx, idx + 1, idx + 2, idx + 3])
      | _ =>
        let data := (byte (idx + 1)).toNat
        if data < 2 then some ⟨mss, [idx, idx + 1]⟩
        else
          (tcpParseoptLoop byte maxC fuel (u16 (idx + 2 + (data - 2))) mss).map
            (.after [idx, idx + 1])
    else some ⟨mss, []⟩

/-- `tcp_parseopt` (tcp_in.c:1603-1705) with the value of `pcb->mss`, the only field it writes. Every
    turn advances `tcp_optidx`. -/
def Parsed.parseopt (d : Parsed) (behind : ℕ → Byte) (mss : ℕ) : Option OptWalk :=
  if d.hdrlen > 5 then
    let maxC := u16 ((d.hdrlen - 5) <<< 2)
    tcpParseoptLoop (tcpGetoptbyte behind d) maxC (maxC + 1) 0 mss
  else some ⟨mss, []⟩

/-! ## Reference -/

/-- A well-formed option. -/
inductive TcpOption
  | nop
  | mss (hi lo : Byte)
  | other (kind : {k : Byte // k ≠ 0 ∧ k ≠ 1 ∧ k ≠ 2}) (data : {l : List Byte // l.length + 2 < 256})

namespace TcpOption

/-- The bytes of an option. -/
def octets : TcpOption → List Byte
  | nop => [1]
  | mss hi lo => [2, 4, hi, lo]
  | other kind data => kind.1 :: UInt8.ofNat (data.1.length + 2) :: data.1

/-- The value of an MSS option. -/
def value? : TcpOption → Option ℕ
  | mss hi lo => some (hi.toNat * 256 + lo.toNat)
  | _ => none

end TcpOption

/-- The last MSS option decides, `mss` is kept if there is none. -/
def optionsMss (options : List TcpOption) (mss : ℕ) : ℕ :=
  ((options.filterMap TcpOption.value?).getLast?.map limitMss).getD mss

/-- Here no option begins: the area ends, a terminator, or a malformed option. -/
inductive Stops : List Byte → Prop
  | done : Stops []
  | eol (rest : List Byte) : Stops (0 :: rest)
  | cut {kind : Byte} : kind ≠ 0 → kind ≠ 1 → Stops [kind]
  | badMss {len : Byte} (rest : List Byte) : len ≠ 4 → Stops (2 :: len :: rest)
  | cutMss {rest : List Byte} : rest.length < 2 → Stops (2 :: 4 :: rest)
  | badLen {kind len : Byte} (rest : List Byte) : kind ≠ 0 → kind ≠ 1 → kind ≠ 2 → len.toNat < 2 →
      Stops (kind :: len :: rest)
  | cutOther {kind len : Byte} {rest : List Byte} : kind ≠ 0 → kind ≠ 1 → kind ≠ 2 →
      2 ≤ len.toNat → rest.length + 2 < len.toNat → Stops (kind :: len :: rest)

/-- The options of an area, and the rest at which the walk stops. -/
structure Splits (area : List Byte) (options : List TcpOption) (rest : List Byte) : Prop where
  area : area = options.flatMap TcpOption.octets ++ rest
  stops : Stops rest

/-- Behind its options the area has a kind byte and nothing else. -/
def CutOff (area : List Byte) : Prop :=
  ∃ options kind, kind ≠ 0 ∧ kind ≠ 1 ∧ Splits area options [kind]

theorem Splits.cons {area rest : List Byte} {options : List TcpOption} (h : Splits area options rest)
    (opt : TcpOption) : Splits (opt.octets ++ area) (opt :: options) rest := by
  refine ⟨?_, h.stops⟩
  rw [List.flatMap_cons, List.append_assoc, ← h.area]

/-- Every area is a sequence of options and a rest. -/
theorem exists_options (area : List Byte) : ∃ options rest, Splits area options rest := by
  induction hn : area.length using Nat.strong_induction_on generalizing area with
  | _ n ih =>
    have hstop {rest : List Byte} (h : Stops rest) : ∃ options rest', Splits rest options rest' :=
      ⟨[], rest, rfl, h⟩
    have hnext (opt : TcpOption) (tail : List Byte) (he : area = opt.octets ++ tail)
        (hlt : tail.length < n) : ∃ options rest, Splits area options rest := by
      obtain ⟨options, rest, h⟩ := ih _ hlt tail rfl
      exact ⟨opt :: options, rest, he ▸ h.cons opt⟩
    rcases area with _ | ⟨kind, tail⟩
    · exact hstop .done
    rw [List.length_cons] at hn
    by_cases h0 : kind = 0
    · exact h0 ▸ hstop (.eol tail)
    by_cases h1 : kind = 1
    · exact hnext .nop tail (by rw [h1]; rfl) (by omega)
    rcases tail with _ | ⟨len, tail⟩
    · exact hstop (.cut h0 h1)
    rw [List.length_cons] at hn
    by_cases h2 : kind = 2
    · subst h2
      by_cases h4 : len = 4
      · subst h4
        rcases tail with _ | ⟨hi, _ | ⟨lo, tail⟩⟩
        · exact hstop (.cutMss (by decide))
        · exact hstop (.cutMss (by simp))
        · simp only [List.length_cons] at hn
          exact hnext (.mss hi lo) tail rfl (by omega)
      · exact hstop (.badMss tail h4)
    by_cases hlen : len.toNat < 2
    · exact hstop (.badLen tail h0 h1 h2 hlen)
    by_cases hcut : tail.length + 2 < len.toNat
    · exact hstop (.cutOther h0 h1 h2 (by omega) hcut)
    have hlt := len.toNat_lt
    have htake : (tail.take (len.toNat - 2)).length = len.toNat - 2 := by
      rw [List.length_take]
      omega
    have hoct : UInt8.ofNat ((tail.take (len.toNat - 2)).length + 2) = len := by
      rw [htake, Nat.sub_add_cancel (by omega)]
      exact UInt8.ofNat_toNat
    refine hnext (.other ⟨kind, h0, h1, h2⟩ ⟨tail.take (len.toNat - 2), by omega⟩)
      (tail.drop (len.toNat - 2)) ?_ (by rw [List.length_drop]; omega)
    show _ = kind :: UInt8.ofNat _ :: tail.take _ ++ tail.drop _
    rw [hoct, List.cons_append, List.cons_append, List.take_append_drop]

@[simp] theorem optionsMss_nil (mss : ℕ) : optionsMss [] mss = mss := rfl

theorem optionsMss_cons (opt : TcpOption) (options : List TcpOption) (mss : ℕ) :
    optionsMss (opt :: options) mss = optionsMss options ((opt.value?.map limitMss).getD mss) := by
  unfold optionsMss
  rw [List.filterMap_cons]
  cases opt.value? with
  | none => rfl
  | some v =>
    rw [List.getLast?_cons]
    cases (options.filterMap TcpOption.value?).getLast? <;> rfl

theorem limitMss_pos_le (mss : ℕ) : 0 < limitMss mss ∧ limitMss mss ≤ TCP_MSS := by
  have hm : 0 < TCP_MSS := by decide
  unfold limitMss
  split <;> omega

theorem optionsMss_pos_le {mss : ℕ} (hpos : 0 < mss) (hle : mss ≤ TCP_MSS)
    (options : List TcpOption) :
    0 < optionsMss options mss ∧ optionsMss options mss ≤ TCP_MSS := by
  unfold optionsMss
  cases (options.filterMap TcpOption.value?).getLast? with
  | none => exact ⟨hpos, hle⟩
  | some v => exact limitMss_pos_le v

/-! ## The walk over a list -/

/-- An MSS option that is cut off, or has a bad length. -/
theorem tcpParseMss_badLength {rest : List Byte} (h : rest.length < 3 ∨ rest.headD 0 ≠ 4)
    (fuel mss : ℕ) : tcpParseMss (fuel + 1) (2 :: rest) mss = mss := by
  unfold tcpParseMss
  split
  · rfl
  · rfl
  · next heq => simp at heq
  · next heq =>
    simp only [List.cons.injEq, true_and] at heq
    subst heq
    simp only [List.length_cons, List.headD_cons, ne_eq, not_true, or_false] at h
    omega
  · rfl
  · next h2 heq =>
    simp only [List.cons.injEq] at heq
    exact (h2 heq.1.symm).elim
  · rfl

/-- An option that is skipped. -/
theorem tcpParseMss_other {opt : Byte} (h0 : opt ≠ 0) (h1 : opt ≠ 1) (h2 : opt ≠ 2)
    (fuel mss : ℕ) (data : Byte) (rest : List Byte) :
    tcpParseMss (fuel + 1) (opt :: data :: rest) mss =
      if data.toNat < 2 then mss else tcpParseMss fuel (rest.drop (data.toNat - 2)) mss := by
  conv_lhs => unfold tcpParseMss
  split <;> simp_all

theorem tcpParseMss_nil (fuel mss : ℕ) : tcpParseMss fuel [] mss = mss := by
  cases fuel <;> rfl

theorem tcpParseMss_stops {rest : List Byte} (h : Stops rest) (fuel mss : ℕ) :
    tcpParseMss fuel rest mss = mss := by
  cases fuel with
  | zero => rfl
  | succ fuel =>
    cases h with
    | done => rfl
    | eol rest => rfl
    | cut h0 h1 =>
      unfold tcpParseMss
      split <;> simp_all
    | badMss rest h4 => exact tcpParseMss_badLength (.inr (by rwa [List.headD_cons])) fuel mss
    | cutMss hlt =>
      refine tcpParseMss_badLength (.inl ?_) fuel mss
      rw [List.length_cons]
      omega
    | badLen rest h0 h1 h2 hlt => rw [tcpParseMss_other h0 h1 h2, if_pos hlt]
    | cutOther h0 h1 h2 hge hlt =>
      rw [tcpParseMss_other h0 h1 h2, if_neg (by omega), List.drop_of_length_le (by omega),
        tcpParseMss_nil]

theorem TcpOption.toNat_len (data : {l : List Byte // l.length + 2 < 256}) :
    (UInt8.ofNat (data.1.length + 2)).toNat = data.1.length + 2 := by
  rw [UInt8.toNat_ofNat']
  exact Nat.mod_eq_of_lt data.2

/-- The walk over a list computes the last MSS option. -/
theorem tcpParseMss_eq {area rest : List Byte} {options : List TcpOption}
    (h : Splits area options rest) (fuel mss : ℕ) (hf : area.length ≤ fuel) :
    tcpParseMss fuel area mss = optionsMss options mss := by
  obtain ⟨rfl, hs⟩ := h
  induction options generalizing fuel mss with
  | nil => exact tcpParseMss_stops hs fuel mss
  | cons opt options ih =>
    rw [optionsMss_cons, List.flatMap_cons, List.append_assoc]
    rw [List.flatMap_cons, List.append_assoc, List.length_append] at hf
    obtain ⟨fuel, rfl⟩ : ∃ n, fuel = n + 1 := by
      refine ⟨fuel - 1, ?_⟩
      cases opt <;> simp only [TcpOption.octets, List.length_cons] at hf <;> omega
    cases opt with
    | nop =>
      have hl : TcpOption.nop.octets.length = 1 := rfl
      exact ih fuel mss (by omega)
    | mss hi lo =>
      have hl : (TcpOption.mss hi lo).octets.length = 4 := rfl
      exact ih fuel (limitMss _) (by omega)
    | other kind data =>
      obtain ⟨kind, h0, h1, h2⟩ := kind
      have hl : (TcpOption.other ⟨kind, h0, h1, h2⟩ data).octets.length = data.1.length + 2 := rfl
      show tcpParseMss (fuel + 1) (kind :: _ :: (data.1 ++ _)) mss = _
      rw [tcpParseMss_other h0 h1 h2, TcpOption.toNat_len, if_neg (by omega), Nat.add_sub_cancel,
        List.drop_left]
      exact ih fuel mss (by omega)

/-! ## The walk over the bytes -/

section Loop

variable {byte : ℕ → Byte} {area : List Byte} {maxC idx : ℕ}

theorem tcpParseoptLoop_done (hi : maxC ≤ idx) (fuel mss : ℕ) :
    tcpParseoptLoop byte maxC (fuel + 1) idx mss = some ⟨mss, []⟩ := by
  unfold tcpParseoptLoop
  rw [if_neg (by omega)]

theorem tcpParseoptLoop_eol (hi : idx < maxC) (hb : byte idx = 0) (fuel mss : ℕ) :
    tcpParseoptLoop byte maxC (fuel + 1) idx mss = some ⟨mss, [idx]⟩ := by
  unfold tcpParseoptLoop
  rw [if_pos hi, hb]
  rfl

theorem tcpParseoptLoop_nop (hi : idx < maxC) (hb : byte idx = 1) (fuel mss : ℕ) :
    tcpParseoptLoop byte maxC (fuel + 1) idx mss =
      (tcpParseoptLoop byte maxC fuel (u16 (idx + 1)) mss).map (.after [idx]) := by
  conv_lhs => unfold tcpParseoptLoop
  rw [if_pos hi, hb]
  rfl

theorem tcpParseoptLoop_mss (hi : idx < maxC) (hb : byte idx = 2) (fuel mss : ℕ) :
    tcpParseoptLoop byte maxC (fuel + 1) idx mss =
      if byte (idx + 1) ≠ 4 ∨ idx + 4 > maxC then some ⟨mss, [idx, idx + 1]⟩
      else (tcpParseoptLoop byte maxC fuel (u16 (idx + 4))
        (limitMss ((byte (idx + 2)).toNat <<< 8 ||| (byte (idx + 3)).toNat))).map
          (.after [idx, idx + 1, idx + 2, idx + 3]) := by
  conv_lhs => unfold tcpParseoptLoop
  rw [if_pos hi, hb]
  rfl

theorem tcpParseoptLoop_other (hi : idx < maxC) (h0 : byte idx ≠ 0) (h1 : byte idx ≠ 1)
    (h2 : byte idx ≠ 2) (fuel mss : ℕ) :
    tcpParseoptLoop byte maxC (fuel + 1) idx mss =
      if (byte (idx + 1)).toNat < 2 then some ⟨mss, [idx, idx + 1]⟩
      else (tcpParseoptLoop byte maxC fuel (u16 (idx + 2 + ((byte (idx + 1)).toNat - 2))) mss).map
        (.after [idx, idx + 1]) := by
  conv_lhs => unfold tcpParseoptLoop
  rw [if_pos hi]
  split
  · next he => exact absurd he h0
  · next he => exact absurd he h1
  · next he => exact absurd he h2
  · rfl

/-- A kind byte and nothing else. -/
def CutKind (rest : List Byte) : Prop := ∃ kind, kind ≠ 0 ∧ kind ≠ 1 ∧ rest = [kind]

theorem not_cutKind {a : Byte} {l : List Byte} (h : l ≠ []) : ¬ CutKind (a :: l) := by
  rintro ⟨kind, -, -, he⟩
  exact h (List.cons.inj he).2

/-- `byte` reads the area, and nothing is known of what it reads behind. -/
def ReadsArea (byte : ℕ → Byte) (area : List Byte) : Prop :=
  ∀ (i : ℕ) (x : Byte), area[i]? = some x → byte i = x

theorem ReadsArea.drop (h : ReadsArea byte area) {rest : List Byte} (hd : area.drop idx = rest)
    (k : ℕ) (x : Byte) (hx : rest[k]? = some x) : byte (idx + k) = x := by
  rw [← hd, List.getElem?_drop] at hx
  exact h _ _ hx

/-- The walk comes to the rest. -/
theorem tcpParseoptLoop_stops (hb : ReadsArea byte area) (h40 : area.length ≤ 40)
    {rest : List Byte} (hi : idx ≤ area.length) (hd : area.drop idx = rest) (h : Stops rest)
    {fuel : ℕ} (hf : rest.length < fuel) (mss : ℕ) :
    ∃ reads, tcpParseoptLoop byte area.length fuel idx mss = some ⟨mss, reads⟩ ∧
      ((∀ i ∈ reads, i < area.length) ↔ ¬ CutKind rest) := by
  obtain ⟨fuel, rfl⟩ : ∃ n, fuel = n + 1 := ⟨fuel - 1, by omega⟩
  have hlen : rest.length = area.length - idx := by rw [← hd, List.length_drop]
  have hget := hb.drop hd
  have htwo (hlt : idx + 1 < area.length) (hc : ¬ CutKind rest) :
      (∀ i ∈ [idx, idx + 1], i < area.length) ↔ ¬ CutKind rest := by
    refine ⟨fun _ => hc, fun _ i hm => ?_⟩
    simp only [List.mem_cons, List.not_mem_nil, or_false] at hm
    omega
  cases h with
  | done =>
    rw [List.length_nil] at hlen
    refine ⟨[], tcpParseoptLoop_done (by omega) fuel mss, fun _ => ?_, fun _ => by simp⟩
    rintro ⟨kind, -, -, he⟩
    cases he
  | eol rest =>
    rw [List.length_cons] at hlen
    refine ⟨[idx], tcpParseoptLoop_eol (by omega) (hget 0 0 rfl) fuel mss, fun _ => ?_,
      fun _ i hm => ?_⟩
    · rintro ⟨kind, h0, -, he⟩
      exact h0 (List.cons.inj he).1.symm
    · rw [List.mem_singleton.mp hm]
      omega
  | @cut kind h0 h1 =>
    simp only [List.length_cons, List.length_nil] at hlen
    have hk : byte idx = kind := hget 0 kind rfl
    have hreads : (∀ i ∈ [idx, idx + 1], i < area.length) ↔ ¬ CutKind [kind] := by
      refine ⟨fun h => ?_, fun h => absurd ⟨kind, h0, h1, rfl⟩ h⟩
      have hlt := h (idx + 1) (by simp)
      omega
    refine ⟨[idx, idx + 1], ?_, hreads⟩
    by_cases h2 : kind = 2
    · rw [tcpParseoptLoop_mss (by omega) (hk.trans h2), if_pos (.inr (by omega))]
    · rw [tcpParseoptLoop_other (by omega) (by rwa [hk]) (by rwa [hk]) (by rwa [hk])]
      split
      · rfl
      · -- the byte behind the area is taken for the length
        have hlt := (byte (idx + 1)).toNat_lt
        obtain ⟨fuel, rfl⟩ : ∃ n, fuel = n + 1 := ⟨fuel - 1, by simp only [List.length_cons] at hf; omega⟩
        have hu : area.length ≤ u16 (idx + 2 + ((byte (idx + 1)).toNat - 2)) := by
          unfold u16
          omega
        rw [tcpParseoptLoop_done hu]
        rfl
  | @badMss len rest h4 =>
    simp only [List.length_cons] at hlen
    have hk : byte idx = 2 := hget 0 2 rfl
    have hl : byte (idx + 1) = len := hget 1 len rfl
    refine ⟨[idx, idx + 1], ?_, htwo (by omega) (not_cutKind (by simp))⟩
    rw [tcpParseoptLoop_mss (by omega) hk, if_pos (.inl (by rwa [hl]))]
  | @cutMss rest hlt =>
    simp only [List.length_cons] at hlen
    have hk : byte idx = 2 := hget 0 2 rfl
    refine ⟨[idx, idx + 1], ?_, htwo (by omega) (not_cutKind (by simp))⟩
    rw [tcpParseoptLoop_mss (by omega) hk, if_pos (.inr (by omega))]
  | @badLen kind len rest h0 h1 h2 hlt =>
    simp only [List.length_cons] at hlen
    have hk : byte idx = kind := hget 0 kind rfl
    have hl : byte (idx + 1) = len := hget 1 len rfl
    refine ⟨[idx, idx + 1], ?_, htwo (by omega) (not_cutKind (by simp))⟩
    rw [tcpParseoptLoop_other (by omega) (by rwa [hk]) (by rwa [hk]) (by rwa [hk]), hl, if_pos hlt]
  | @cutOther kind len rest h0 h1 h2 hge hlt =>
    simp only [List.length_cons] at hlen hf
    have hk : byte idx = kind := hget 0 kind rfl
    have hl : byte (idx + 1) = len := hget 1 len rfl
    have hlt' := len.toNat_lt
    obtain ⟨fuel, rfl⟩ : ∃ n, fuel = n + 1 := ⟨fuel - 1, by omega⟩
    have hu : u16 (idx + 2 + (len.toNat - 2)) = idx + len.toNat := by
      unfold u16
      omega
    refine ⟨[idx, idx + 1], ?_, htwo (by omega) (not_cutKind (by simp))⟩
    rw [tcpParseoptLoop_other (by omega) (by rwa [hk]) (by rwa [hk]) (by rwa [hk]), hl,
      if_neg (by omega), hu, tcpParseoptLoop_done (by omega)]
    rfl

/-- Reads inside the area do not matter. -/
theorem OptWalk.after_iff {w : Option OptWalk} {pre : List ℕ} {n mss : ℕ} {P : Prop}
    (hpre : ∀ i ∈ pre, i < n)
    (h : ∃ reads, w = some (OptWalk.mk mss reads) ∧ ((∀ i ∈ reads, i < n) ↔ P)) :
    ∃ reads, w.map (OptWalk.after pre) = some (OptWalk.mk mss reads) ∧
      ((∀ i ∈ reads, i < n) ↔ P) := by
  obtain ⟨reads, rfl, hr⟩ := h
  refine ⟨pre ++ reads, rfl, ?_⟩
  rw [← hr]
  simp only [List.mem_append]
  exact ⟨fun h i hm => h i (.inr hm), fun h i hm => hm.elim (hpre i) (h i)⟩

/-- The walk over the bytes computes the last MSS option, and reads behind the area only when a kind
    byte ends it. -/
theorem tcpParseoptLoop_eq (hb : ReadsArea byte area) (h40 : area.length ≤ 40)
    {options : List TcpOption} {rest : List Byte} (hi : idx ≤ area.length)
    (hd : area.drop idx = options.flatMap TcpOption.octets ++ rest) (hs : Stops rest) {fuel : ℕ}
    (hf : area.length - idx < fuel) (mss : ℕ) :
    ∃ reads, tcpParseoptLoop byte area.length fuel idx mss =
        some ⟨optionsMss options mss, reads⟩ ∧
      ((∀ i ∈ reads, i < area.length) ↔ ¬ CutKind rest) := by
  induction options generalizing idx fuel mss with
  | nil =>
    rw [List.flatMap_nil, List.nil_append] at hd
    refine tcpParseoptLoop_stops hb h40 hi hd hs ?_ mss
    rw [← hd, List.length_drop]
    exact hf
  | cons opt options ih =>
    rw [List.flatMap_cons, List.append_assoc] at hd
    have hget := hb.drop hd
    have hlen := congrArg List.length hd
    rw [List.length_drop, List.length_append] at hlen
    have hnext : area.drop (idx + opt.octets.length) =
        options.flatMap TcpOption.octets ++ rest := by
      rw [← List.drop_drop, hd, List.drop_left]
    obtain ⟨fuel, rfl⟩ : ∃ n, fuel = n + 1 := ⟨fuel - 1, by omega⟩
    rw [optionsMss_cons]
    cases opt with
    | nop =>
      have hl : TcpOption.nop.octets.length = 1 := rfl
      have hk : byte idx = 1 := hget 0 1 rfl
      have hu : u16 (idx + 1) = idx + 1 := Nat.mod_eq_of_lt (by omega)
      rw [tcpParseoptLoop_nop (by omega) hk, hu]
      exact OptWalk.after_iff (by simp; omega) (ih (by omega) hnext (by omega) mss)
    | mss hi lo =>
      have hl : (TcpOption.mss hi lo).octets.length = 4 := rfl
      have hk : byte idx = 2 := hget 0 2 rfl
      have h4 : byte (idx + 1) = 4 := hget 1 4 rfl
      have hh : byte (idx + 2) = hi := hget 2 hi rfl
      have ho : byte (idx + 3) = lo := hget 3 lo rfl
      have hu : u16 (idx + 4) = idx + 4 := Nat.mod_eq_of_lt (by omega)
      have hlo : lo.toNat < 2 ^ 8 := lo.toNat_lt
      have hmss : hi.toNat <<< 8 ||| lo.toNat = hi.toNat * 256 + lo.toNat := by
        rw [← Nat.shiftLeft_add_eq_or_of_lt hlo, Nat.shiftLeft_eq]
      rw [tcpParseoptLoop_mss (by omega) hk, if_neg (by rw [h4]; simp; omega), hu, hh, ho, hmss]
      exact OptWalk.after_iff (by simp; omega) (ih (by omega) hnext (by omega) _)
    | other kind data =>
      obtain ⟨kind, h0, h1, h2⟩ := kind
      have hl : (TcpOption.other ⟨kind, h0, h1, h2⟩ data).octets.length = data.1.length + 2 := rfl
      have hk : byte idx = kind := hget 0 kind rfl
      have hn : byte (idx + 1) = UInt8.ofNat (data.1.length + 2) := hget 1 _ rfl
      have hu : u16 (idx + 2 + (data.1.length + 2 - 2)) = idx + (data.1.length + 2) := by
        unfold u16
        omega
      rw [tcpParseoptLoop_other (by omega) (by rwa [hk]) (by rwa [hk]) (by rwa [hk]), hn,
        TcpOption.toNat_len, if_neg (by omega), hu]
      exact OptWalk.after_iff (by simp; omega)
        (ih (by omega) hnext (by omega) mss)

end Loop

/-! ## The options of a datagram -/

/-- The option bytes of a datagram. -/
def optionArea (o : Order) (w : List Byte) : List Byte := (w.take (headerLen o w)).drop TCP_HLEN

/-- What `tcp_parseopt` is to do with the options of a datagram that lies in the chain `q`: it comes
    to its end, reads no byte behind the options, takes the last MSS option and keeps the mss within
    its limits, and it would do the same if the datagram lay in one pbuf. -/
def OptionsParsed (o : Order) (q : List (List Byte)) (d : Parsed) (behind : ℕ → Byte) (mss : ℕ) :
    Prop :=
  ∃ walk, d.parseopt behind mss = some walk ∧
    (∀ i ∈ walk.reads, i < (optionArea o q.flatten).length) ∧
    (∃ options rest, Splits (optionArea o q.flatten) options rest) ∧
    (∀ options rest, Splits (optionArea o q.flatten) options rest →
      walk.mss = optionsMss options mss) ∧
    (0 < mss → mss ≤ TCP_MSS → 0 < walk.mss ∧ walk.mss ≤ TCP_MSS) ∧
    (∀ behind' d', tcpInputHeader o (chain [q.flatten]) = .ok (some d') →
      (d'.parseopt behind' mss).map OptWalk.mss = some walk.mss)

section

variable {o : Order} {q : List (List Byte)} {d : Parsed}

/-- A packet that `tcp_input` goes on with. -/
theorem holds_of_ok (hd : tcpInputHeader o (chain q) = .ok (some d)) :
    Holds o q.flatten d ∧ headerLen o q.flatten ≤ q.flatten.length := by
  cases q with
  | nil => cases hd
  | cons b l =>
    by_cases hb : b.length < TCP_HLEN
    · rw [tcpInputHeader_short hb] at hd
      cases hd
    · have hb' : TCP_HLEN ≤ b.length := by omega
      have hle := (tcpInputHeader_eq hb').mp ⟨d, hd⟩
      obtain ⟨d', hd', hh⟩ := tcpInputHeader_ok hb' hle
      rw [hd] at hd'
      cases hd'
      have hlen : headerLen o (b :: l).flatten = headerLen o b := headerLen_append hb' _
      have hc : (l.headD []).length ≤ l.flatten.length := by
        cases l <;> simp
      refine ⟨hh, ?_⟩
      rw [hlen, List.flatten_cons, List.length_append]
      omega

/-- The walk over the options of an accepted packet. -/
theorem parseopt_eq (hd : tcpInputHeader o (chain q) = .ok (some d)) {options : List TcpOption}
    {rest : List Byte} (h : Splits (optionArea o q.flatten) options rest) (behind : ℕ → Byte)
    (mss : ℕ) :
    ∃ reads, d.parseopt behind mss = some ⟨optionsMss options mss, reads⟩ ∧
      ((∀ i ∈ reads, i < (optionArea o q.flatten).length) ↔ ¬ CutKind rest) := by
  obtain ⟨hh, hle⟩ := holds_of_ok hd
  have h60 := headerLen_le o q.flatten
  have h20 : TCP_HLEN = 20 := rfl
  have hhl : headerLen o q.flatten = d.hdrlen * 4 := by rw [hh.hdrlen]; rfl
  have hal : (optionArea o q.flatten).length = headerLen o q.flatten - TCP_HLEN := by
    unfold optionArea
    rw [List.length_drop, List.length_take]
    omega
  unfold Parsed.parseopt
  by_cases h5 : d.hdrlen > 5
  · have hmax : u16 ((d.hdrlen - 5) <<< 2) = (optionArea o q.flatten).length := by
      unfold u16
      rw [Nat.shiftLeft_eq]
      omega
    rw [if_pos h5, hmax]
    have hb : ReadsArea (tcpGetoptbyte behind d) (optionArea o q.flatten) := hh.opts behind
    exact tcpParseoptLoop_eq hb (by omega) (Nat.zero_le _) h.area h.stops (by omega) mss
  · have hnil : optionArea o q.flatten = [] := List.length_eq_zero_iff.mp (by omega)
    obtain ⟨ha, -⟩ := h
    rw [hnil] at ha
    obtain ⟨ho, rfl⟩ := List.append_eq_nil_iff.mp ha.symm
    rw [if_neg h5]
    cases options with
    | nil =>
      refine ⟨[], rfl, fun _ => ?_, fun _ => by simp⟩
      rintro ⟨kind, -, -, he⟩
      cases he
    | cons opt options =>
      rw [List.flatMap_cons] at ho
      have hopt := (List.append_eq_nil_iff.mp ho).1
      cases opt <;> cases hopt

/-- The walk over the bytes and the walk over the list of the options agree. -/
theorem parseopt_mss (hd : tcpInputHeader o (chain q) = .ok (some d)) (behind : ℕ → Byte)
    (mss : ℕ) : (d.parseopt behind mss).map OptWalk.mss =
      some (tcpParseMss (optionArea o q.flatten).length (optionArea o q.flatten) mss) := by
  obtain ⟨options, rest, hs⟩ := exists_options (optionArea o q.flatten)
  obtain ⟨reads, hw, -⟩ := parseopt_eq hd hs behind mss
  rw [hw, tcpParseMss_eq hs _ _ le_rfl]
  rfl

/-- The walk is right whatever the memory behind the options holds, and stays in them exactly when
    they do not end with a kind byte whose length is cut off. -/
theorem parseopt_iff (o : Order) (q : List (List Byte)) (d : Parsed) (behind : ℕ → Byte) (mss : ℕ)
    (hd : tcpInputHeader o (chain q) = .ok (some d)) :
    OptionsParsed o q d behind mss ↔ ¬ CutOff (optionArea o q.flatten) := by
  obtain ⟨options, rest, hs⟩ := exists_options (optionArea o q.flatten)
  obtain ⟨reads, hw, hr⟩ := parseopt_eq hd hs behind mss
  constructor
  · rintro ⟨walk, hwalk, hreads, -⟩ ⟨options', kind, h0, h1, hs'⟩
    obtain ⟨reads', hw', hr'⟩ := parseopt_eq hd hs' behind mss
    rw [hwalk] at hw'
    cases hw'
    exact hr'.mp hreads ⟨kind, h0, h1, rfl⟩
  · intro hcut
    have hin : ∀ i ∈ reads, i < (optionArea o q.flatten).length := by
      refine hr.mpr ?_
      rintro ⟨kind, h0, h1, rfl⟩
      exact hcut ⟨options, kind, h0, h1, hs⟩
    refine ⟨_, hw, hin, ⟨options, rest, hs⟩, fun options' rest' hs' => ?_,
      fun hpos hle => optionsMss_pos_le hpos hle options, fun behind' d' hd' => ?_⟩
    · obtain ⟨reads', hw', -⟩ := parseopt_eq hd hs' behind mss
      rw [hw] at hw'
      exact congrArg OptWalk.mss (Option.some.inj hw')
    · have hflat : [q.flatten].flatten = q.flatten := by simp
      obtain ⟨reads', hw', -⟩ := parseopt_eq hd' (hflat.symm ▸ hs) behind' mss
      rw [hw']
      rfl

end

/-- An MSS option that begins in the first pbuf and ends in the second. -/
theorem parseopt_split : OptionsParsed .little [rawHeader 6 ++ [2], [4, 2, 24, 65]]
    { tcphdr := ⟨4000, 0, 1, 0, 0x1260, 0x14f0⟩, hdrlen := 6, flags := 0x12,
      p := [⟨[], 1⟩, ⟨[65], 1⟩], opts := [2], opt1len := 1, opt2 := some [4, 2, 24, 65] }
    (fun _ => 0) TCP_MSS ↔
    ¬ CutOff (optionArea .little [rawHeader 6 ++ [2], [4, 2, 24, 65]].flatten) :=
  parseopt_iff _ _ _ _ _ rfl

/-- Three NOPs and a kind byte: the byte behind the options is read. -/
theorem parseopt_reads_behind :
    (∃ d walk, tcpInputHeader .little (chain [rawHeader 6 ++ [1, 1, 1, 5]]) = .ok (some d) ∧
      d.parseopt (fun _ => 0) TCP_MSS = some walk ∧ walk.reads = [0, 1, 2, 3, 4]) ∧
    ¬ ∀ (o : Order) (q : List (List Byte)) (d : Parsed) (behind : ℕ → Byte) (mss : ℕ),
      tcpInputHeader o (chain q) = .ok (some d) → OptionsParsed o q d behind mss := by
  refine ⟨⟨_, _, rfl, rfl, rfl⟩, fun h => ?_⟩
  obtain ⟨walk, hw, hreads, -⟩ :=
    h .little [rawHeader 6 ++ [1, 1, 1, 5]] _ (fun _ => 0) TCP_MSS rfl
  cases hw
  exact absurd (hreads 4 (by decide)) (by decide)

end Rudp
