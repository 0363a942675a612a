import Rudp.Lists

/-!
# The timers and the changing list

A callback that is called in the walk of a timer may close or abort the pcb that it is called for.
The walk notices by `tcp_active_pcbs_changed`, and starts again at the head of the list. `tcp_slowtmr`
forgets then which pcb it came from, and when it unlinks the next one it expects it at the head.

Results:
* `noticed_tcpEvent`: the flag is set whenever a callback takes the pcb off the active list.
* `Host.fasttmr_exact`, `Host.slowtmr_exact`: in every run of a host, what a call of a timer does. It
  gives each pcb one turn, but `tcp_slowtmr` aborts at the first assertion above.
-/

namespace Rudp

variable {W : Type} {s s' : St W} {app : App W}

/-! ## The flag is left alone -/

theorem changed_of_rcvView (h : s'.rcvView = s.rcvView) : s'.changed = s.changed :=
  congrArg (fun v => v.changed) h

theorem changed_tcpPcbRemove (h : tcpPcbRemove s = .ok s') : s'.changed = s.changed := by
  have hc := changed_of_rcvView (rcvView_tcpPcbRemove h)
  exact hc

theorem changed_tcpRecved {len : ℕ} (h : tcpRecved s len = .ok s') : s'.changed = s.changed := by
  obtain ⟨w, -, h⟩ := Run.bind_eq_ok.mp h
  obtain ⟨⟨n, pcb⟩, -, h⟩ := Run.bind_eq_ok.mp h
  dsimp only at h
  split at h
  · obtain ⟨⟨err, s₁⟩, h₁, rfl⟩ := Run.map_eq_ok.mp h
    have hc := changed_of_rcvView (rcvView_tcpOutput h₁)
    exact hc
  · cases h
    rfl

/-! ## A pcb that leaves is noticed -/

/-- The pcb is on the active list, or `tcp_active_pcbs_changed` is set. -/
def St.Noticed (s : St W) : Prop := s.list = .active ∨ s.changed = true

namespace St.Noticed

theorem congr (hn : s.Noticed) (hl : s'.list = s.list) (hc : s'.changed = s.changed) :
    s'.Noticed := by
  unfold St.Noticed
  rw [hl, hc]
  exact hn

/-- A pcb in a state that is not active has left the list before. -/
theorem changed (hn : s.Noticed) (hs : s.Listed) (hst : ¬ s.pcb.state.Active) : s.changed = true := by
  apply hn.resolve_left
  intro hl
  have hst' := hs.state
  rw [hl] at hst'
  exact hst hst'

end St.Noticed

theorem noticed_tcpCloseShutdown {rst : Bool} {err : Err} (hs : s.Listed) (hn : s.Noticed)
    (h : tcpCloseShutdown s rst = .ok (err, s')) : s'.Noticed := by
  have hfin {state : TcpState} (h : tcpCloseFin s state = .ok (err, s')) : s'.Noticed := by
    obtain ⟨⟨e, s₁⟩, h₁, h⟩ := Run.bind_eq_ok.mp h
    have hn₁ := hn.congr (list_of_rcvView (rcvView_tcpSendFin h₁)) (changed_of_rcvView (rcvView_tcpSendFin h₁))
    dsimp only at h
    split at h
    · obtain ⟨⟨e', s₂⟩, h₂, h⟩ := Run.bind_eq_ok.mp h
      cases h
      have hl := list_of_rcvView (rcvView_tcpOutput h₂)
      have hc := changed_of_rcvView (rcvView_tcpOutput h₂)
      exact hn₁.congr hl hc
    · cases h
      exact hn₁
  unfold tcpCloseShutdown at h
  split at h
  · obtain ⟨s₁, h₁, h⟩ := Run.bind_eq_ok.mp h
    cases h
    obtain ⟨_, -, h₁⟩ := Run.bind_eq_ok.mp h₁
    dsimp only at h₁
    split at h₁
    · cases h₁
      exact .inr rfl
    · split at h₁ <;> cases h₁ <;> exact .inr rfl
  · split at h
    · next hst =>
      cases h
      have hc := hn.changed hs (by rw [hst]; decide)
      exact .inr hc
    · obtain ⟨s₁, h₁, h⟩ := Run.bind_eq_ok.mp h
      cases h
      obtain ⟨s₂, -, h₁⟩ := Run.bind_eq_ok.mp h₁
      cases h₁
      exact .inr rfl
    · exact hfin h
    · exact hfin h
    · exact hfin h
    · cases h
      exact hn

theorem noticed_tcpShutdown {rx tx : Bool} {err : Err} (hs : s.Listed) (hn : s.Noticed)
    (h : tcpShutdown s rx tx = .ok (err, s')) : s'.Noticed := by
  unfold tcpShutdown at h
  split at h
  · exact noticed_tcpCloseShutdown (s := { s with pcb.tfRxClosed := true })
      (hs.congr rfl rfl rfl rfl) (hn.congr rfl rfl) h
  · generalize hs₁ : (if rx = true then
      ({ s with pcb.tfRxClosed := true, pcb.refusedData := none } : St W) else s) = s₁ at h
    have hn₁ : s₁.Listed ∧ s₁.Noticed := by
      rw [← hs₁]
      split
      · exact ⟨hs.congr rfl rfl rfl rfl, hn.congr rfl rfl⟩
      · exact ⟨hs, hn⟩
    dsimp only at h
    split at h
    · split at h
      · exact noticed_tcpCloseShutdown hn₁.1 hn₁.2 h
      · cases h
        exact hn₁.2
    · cases h
      exact hn₁.2

theorem noticed_tcpAbandon {reset : Bool} (hs : s.Listed) (hn : s.Noticed)
    (h : tcpAbandon s reset = .ok s') : s'.Noticed := by
  unfold tcpAbandon at h
  split at h
  · next hst =>
    obtain ⟨s₁, h₁, h⟩ := Run.bind_eq_ok.mp h
    cases h
    have hc := hn.changed hs (by rw [hst]; decide)
    exact .inr ((changed_tcpPcbRemove h₁).trans hc)
  · obtain ⟨s₁, h₁, h⟩ := Run.bind_eq_ok.mp h
    cases h
    have hc : s₁.changed = true := by
      split at h₁
      · next hb =>
        cases h₁
        exact hn.changed hs (by rw [hb.1]; decide)
      · obtain ⟨s₂, -, h₁⟩ := Run.bind_eq_ok.mp h₁
        cases h₁
        rfl
    refine .inr ?_
    show (if _ then _ else _ : St W).changed = true
    split
    · exact (changed_of_rcvView (rcvView_tcpRst _ _ _ _)).trans hc
    · exact hc

theorem noticed_tcpConnect {newPort : ℕ} {iss : U32} {err : Err} (hn : s.Noticed)
    (h : tcpConnect s newPort iss = .ok (err, s')) : s'.Noticed := by
  rcases rcvView_tcpConnect h with hv | ⟨port, hv | hv⟩
  · exact hn.congr (list_of_rcvView hv) (changed_of_rcvView hv)
  · exact hn.congr ((list_of_rcvView hv).trans rfl) ((changed_of_rcvView hv).trans rfl)
  · exact .inl ((list_of_rcvView hv).trans rfl)

theorem noticed_apiCall {a : Api} {err : Err} (hs : s.Listed) (hn : s.Noticed)
    (h : apiCall s a = .ok (err, s')) : s'.Noticed := by
  obtain ⟨_, -, h⟩ := Run.bind_eq_ok.mp h
  cases a with
  | connect newPort iss => exact noticed_tcpConnect hn h
  | write arg copy more =>
    obtain ⟨⟨e, s₁⟩, h₁, h⟩ := Run.bind_eq_ok.mp h
    cases h
    have hn₁ := hn.congr (list_of_rcvView (rcvView_tcpWrite h₁)) (changed_of_rcvView (rcvView_tcpWrite h₁))
    split
    · exact hn₁.congr rfl rfl
    · exact hn₁
  | output => exact hn.congr (list_of_rcvView (rcvView_tcpOutput h)) (changed_of_rcvView (rcvView_tcpOutput h))
  | recved len =>
    obtain ⟨s₁, h₁, h⟩ := Run.bind_eq_ok.mp h
    cases h
    obtain ⟨w, -, hv⟩ := rcvView_tcpRecved h₁
    exact hn.congr (congrArg (fun v => v.list) hv) (changed_tcpRecved h₁)
  | close =>
    exact noticed_tcpCloseShutdown (s := { s with pcb.tfRxClosed := true })
      (hs.congr rfl rfl rfl rfl) (hn.congr rfl rfl) h
  | shutdown rx tx => exact noticed_tcpShutdown hs hn h
  | abort =>
    obtain ⟨s₁, h₁, h⟩ := Run.bind_eq_ok.mp h
    cases h
    exact noticed_tcpAbandon hs hn h₁
  | nagle disable =>
    cases h
    exact hn.congr rfl rfl

/-- Whatever a callback does, the flag is set behind it when the pcb is off the active list. -/
theorem noticed_tcpEvent {P : Core → Api → Prop} (happ : AppOk P app) {e : Event} {ret : Err}
    (hs : s.Listed) (hn : s.Noticed) (h : tcpEvent app e s = .ok (ret, s')) :
    s'.Listed ∧ s'.Noticed := by
  refine ⟨listed_tcpEvent happ hs h, ?_⟩
  obtain ⟨⟨ret', s₁⟩, h₁, h⟩ := Run.bind_eq_ok.mp h
  cases h
  have hn₁ : s₁.Listed ∧ s₁.Noticed := (happ e s _ s₁ h₁).invariant
    (I := fun t : St W => t.Listed ∧ t.Noticed)
    (fun _ _ ht => ⟨ht.1.congr rfl rfl rfl rfl, ht.2.congr rfl rfl⟩)
    (fun _ _ _ _ ht _ hc => ⟨listed_apiCall ht.1 hc, noticed_apiCall ht.1 ht.2 hc⟩) ⟨hs, hn⟩
  exact hn₁.2.congr rfl rfl

variable {P : Core → Api → Prop}

theorem noticed_tcpProcessRefusedData (happ : AppOk P app) {err : Err} (hs : s.Listed)
    (hn : s.Noticed) (h : tcpProcessRefusedData app s = .ok (err, s')) : s'.Noticed := by
  unfold tcpProcessRefusedData at h
  split at h
  · cases h
  · obtain ⟨⟨ret, s₁⟩, h₁, h⟩ := Run.bind_eq_ok.mp h
    obtain ⟨hs₁, hn₁⟩ := noticed_tcpEvent happ (s := { s with pcb.refusedData := none })
      (hs.congr rfl rfl rfl rfl) (hn.congr rfl rfl) h₁
    dsimp only at h
    split at h
    · split at h
      · obtain ⟨_, -, h⟩ := Run.bind_eq_ok.mp h
        obtain ⟨⟨ret', s₂⟩, h₂, h⟩ := Run.bind_eq_ok.mp h
        cases h
        have hst : (rcvWndFin s₁.pcb).state = s₁.pcb.state := by
          unfold rcvWndFin
          split <;> rfl
        exact (noticed_tcpEvent happ (s := { s₁ with pcb := rcvWndFin s₁.pcb })
          (hs₁.congr rfl rfl rfl hst) (hn₁.congr rfl rfl) h₂).2
      · cases h
        exact hn₁
    · split at h
      · cases h
        exact hn₁
      · obtain ⟨_, -, h⟩ := Run.bind_eq_ok.mp h
        cases h
        exact hn₁.congr rfl rfl

/-- `tcp_fasttmr` takes no pcb off the list itself. -/
theorem noticed_tcpFasttmr (happ : AppOk P app) (hs : s.Listed) (hl : s.list = .active)
    (h : tcpFasttmr app s = .ok s') : s'.Noticed := by
  obtain ⟨s₁, h₁, h⟩ := Run.bind_eq_ok.mp h
  have hv := rcvView_tcpFasttmrAck h₁
  have hl₁ : s₁.list = .active := (list_of_rcvView hv).trans hl
  split at h
  · obtain ⟨⟨err, s₂⟩, h₂, rfl⟩ := Run.map_eq_ok.mp h
    exact noticed_tcpProcessRefusedData happ (s := { s₁ with changed := false })
      ((hs.view hv).congr rfl rfl rfl rfl) (.inl hl₁) h₂
  · cases h
    exact .inl hl₁

/-- Unless `tcp_slowtmr` takes the pcb off the list itself, the flag is set when it is off. -/
theorem noticed_tcpSlowtmr (happ : AppOk P app) (hs : s.Listed) (hl : s.list = .active)
    (h : tcpSlowtmr app s = .ok s') :
    (∃ t reset, s' = tcpSlowtmrRemove t reset) ∨ s'.Noticed := by
  obtain ⟨t, ht, h⟩ := tcpSlowtmr_parts h
  have hs₁ : t.Listed ∧ t.list = .active := by
    rcases ht with ht | ht
    · exact ⟨hs.view ht, (list_of_rcvView ht).trans hl⟩
    · exact ⟨(hs.congr rfl rfl rfl rfl : ({ s with pcb.ooseq := [] } : St W).Listed).view ht,
        (list_of_rcvView ht).trans hl⟩
  rcases h with ⟨reset, rfl⟩ | hs' | ⟨err, u, hu, hs'⟩
  · exact .inl ⟨t, reset, rfl⟩
  · exact .inr (.inl ((list_of_rcvView hs').trans hs₁.2))
  · obtain ⟨-, hn⟩ := noticed_tcpEvent happ
      (s := { t with pcb.polltmr := 0, changed := false }) (hs₁.1.congr rfl rfl rfl rfl)
      (.inl hs₁.2) hu
    exact .inr (hn.congr (list_of_rcvView hs') (changed_of_rcvView hs'))

namespace Host

/-! ## One call of a timer -/

variable {pool : List ℕ} {h h' : Host W} {fails : ℕ → List Bool} {out : ℕ → St W}

/-- A pcb of the active list as `tcp_fasttmr` finds it. -/
def fastIn (h : Host W) (fails : List Bool) (pcb : ℕ) : St W :=
  { (h.mem pcb).st with fails := fails, ticks := h.ticks, changed := false }

/-- A pcb of the active list as `tcp_slowtmr` finds it. -/
def slowIn (h : Host W) (fails : List Bool) (pcb : ℕ) : St W :=
  { (h.mem pcb).st with fails := fails, ticks := h.ticks + 1, changed := false }

/-- What the walk of `tcp_slowtmr` over the `TIME_WAIT` list makes of a pcb. -/
def twTurn (ticks : U32) (s : St W) : St W :=
  if s.list = .tw then tcpSlowtmrTw { s with fails := [], ticks := ticks } else s

theorem turnOf_ne (hn : s.Noticed) : turnOf s ≠ .unlink := by
  unfold turnOf
  split
  · decide
  · next hl =>
    rw [if_pos (hn.resolve_left hl)]
    decide

/-- The walk gives each pcb of the list one turn. It fails where it cuts, and otherwise it keeps those
    that are still active. -/
theorem walk_exact {visit : ℕ → Elem W → Except Fault (Walk.Turn × Elem W)} (hI : Inv pool h)
    (hv : Turns h visit)
    (hout : ∀ a ∈ h.activePcbs, visit a (h.mem a) = .ok (turnOf (out a), ⟨out a, h.nextCtr⟩)) :
    (Walk.CutsOff (fun a => turnOf (out a)) h.activePcbs → h.walk visit = .error notFirst) ∧
      (¬ Walk.CutsOff (fun a => turnOf (out a)) h.activePcbs → ∃ h', h.walk visit = .ok h' ∧
        h'.activePcbs = h.activePcbs.filter (fun a => (out a).list = .active) ∧
        h'.ticks = h.ticks ∧ ∀ a, (h'.mem a).st = if a ∈ h.activePcbs then out a else (h.mem a).st) := by
  have hnodup : h.activePcbs.Nodup := hI.lists.nodup .active
  obtain ⟨hcut, hok⟩ := Walk.once_exact notFirst hnodup hout
  rw [walk_eq hI.toSane hI.marked hv]
  constructor
  · intro hc
    rw [hcut hc]
    rfl
  · intro hc
    obtain ⟨mem, ho⟩ := hok hc
    obtain ⟨hin, hother, -⟩ := Walk.once_spec hnodup ho
    rw [ho]
    have hmem : (h.activePcbs.foldl (fun h' pcb => follow (h.mem pcb).st pcb h')
        { h with mem := mem }).mem = mem := mem_foldl_follow (fun a => (h.mem a).st) h.activePcbs
    refine ⟨_, rfl, ?_, ticks_foldl_follow (fun a => (h.mem a).st) h.activePcbs, fun a => ?_⟩
    · refine List.filter_congr fun a _ => ?_
      unfold turnOf
      split_ifs <;> simp_all
    · change (Host.mem (List.foldl _ _ _) a).st = _
      rw [hmem]
      by_cases ha : a ∈ h.activePcbs
      · obtain ⟨turn, hva, -⟩ := hin a ha
        rw [hout a ha] at hva
        rw [if_pos ha, ← (Prod.mk.inj (Except.ok.inj hva)).2]
      · rw [if_neg ha, hother a ha]

/-- A pcb of the active list is in a state in which `tcp_slowtmr` and `tcp_input` expect it. -/
theorem Inv.active_state (hI : Inv pool h) {a : ℕ} (ha : a ∈ h.activePcbs) :
    (h.mem a).st.pcb.state.Active := by
  have hs := (hI.listed a).state
  rw [hI.mem_active.mp ha] at hs
  exact hs

theorem Inv.active_ok (hI : Inv pool h) {a : ℕ} (ha : a ∈ h.activePcbs) :
    (h.mem a).st.live = .ok () :=
  hI.live_ok (by
    rw [hI.mem_active.mp ha]
    decide)

theorem Inv.tw_state (hI : Inv pool h) {a : ℕ} (ha : a ∈ h.twPcbs) :
    (h.mem a).st.pcb.state = .TIME_WAIT := by
  have hs := (hI.listed a).state
  rw [hI.mem_tw.mp ha] at hs
  exact hs

/-- In every run, `tcp_fasttmr` gives each pcb of the active list one turn, in the state that it had
    when the timer was called, and fails only where a turn fails: whatever the callbacks close or
    abort, the walk ends, and keeps those that are still active, in order. -/
theorem fasttmr_exact (happ : AppOk P app) (hpool : pool.Nodup) {callbackArg : W}
    (hr : Run.Reach (hostStep app) HostOk (Host.boot pool callbackArg) h)
    (hout : ∀ a ∈ h.activePcbs, Rudp.tcpFasttmr app (h.fastIn (fails a) a) = .ok (out a)) :
    ∃ h', h.tcpFasttmr app fails = .ok h' ∧
      h'.activePcbs = h.activePcbs.filter (fun a => (out a).list = .active) ∧
      ∀ a, (h'.mem a).st = if a ∈ h.activePcbs then out a else (h.mem a).st := by
  have hI := inv_of_reach happ hpool hr
  have hv : ∀ a ∈ h.activePcbs, h.fastVisit app fails a (h.mem a) =
      .ok (turnOf (out a), ⟨out a, h.nextCtr⟩) := by
    intro a ha
    exact Run.bind_eq_ok.mpr ⟨(), hI.active_ok ha, Run.bind_eq_ok.mpr ⟨out a, hout a ha, rfl⟩⟩
  have hcut : ¬ Walk.CutsOff (fun a => turnOf (out a)) h.activePcbs := by
    rintro ⟨l₁, a, b, l₂, hl, -, -, hb⟩
    have hmem : b ∈ h.activePcbs := by
      rw [hl]
      simp
    have hn : (out b).Noticed := noticed_tcpFasttmr happ (s := h.fastIn (fails b) b)
      ((hI.listed b).congr rfl rfl rfl rfl) (hI.mem_active.mp hmem) (hout b hmem)
    exact turnOf_ne hn hb
  obtain ⟨h', hw, hl, -, hst⟩ := (walk_exact hI (turns_fastVisit happ fails) hv).2 hcut
  exact ⟨_, Run.bind_eq_ok.mpr ⟨h', hw, rfl⟩, hl, hst⟩

/-- A function that is called with another pcb finds it as it was. -/
theorem load_put {s : St W} {a b : ℕ} {fails : List Bool} (hne : a ≠ b) :
    (h.put b s).load fails a = h.load fails a := by
  have hm : (h.put b s).mem a = h.mem a := by
    rw [mem_put, Function.update_of_ne hne]
  show ({ ((h.put b s).mem a).st with fails := fails, ticks := (h.put b s).ticks } : St W) = _
  rw [hm, ticks_put]
  rfl

/-- The walk over the `TIME_WAIT` list. -/
theorem slowtmrTw_exact {l : List ℕ} (hI : Inv pool h) (hl : ∀ a ∈ l, a ∈ h.twPcbs)
    (hnodup : l.Nodup) :
    ∃ h', slowtmrTw l h = .ok h' ∧ h'.activePcbs = h.activePcbs ∧
      ∀ a, (h'.mem a).st = if a ∈ l then tcpSlowtmrTw (h.load [] a) else (h.mem a).st := by
  induction l generalizing h with
  | nil => exact ⟨h, rfl, rfl, fun a => by simp⟩
  | cons b l ih =>
    obtain ⟨hb, hnodup⟩ := List.nodup_cons.mp hnodup
    have htw : b ∈ h.twPcbs := hl b List.mem_cons_self
    have hld : (h.mem b).st.list = .tw := hI.mem_tw.mp htw
    have hs : (tcpSlowtmrTw (h.load [] b)).Listed :=
      listed_tcpSlowtmrTw ((hI.listed b).congr rfl rfl rfl rfl)
    have hlist : (tcpSlowtmrTw (h.load [] b)).list ≠ .active := by
      unfold tcpSlowtmrTw
      split
      · nofun
      · rw [show (h.load [] b).list = .tw from hld]
        nofun
    have hI' : Inv pool (h.put b (tcpSlowtmrTw (h.load [] b))) :=
      hI.putLive (hI.live (by rw [hld]; nofun)) hs fun hact => absurd hact hlist
    have hne (a : ℕ) (ha : a ∈ l) : (h.put b (tcpSlowtmrTw (h.load [] b))).mem a = h.mem a := by
      rw [mem_put, Function.update_of_ne (ne_of_mem_of_not_mem ha hb)]
    obtain ⟨h', hw, hact, hst⟩ := ih hI' (fun a ha => by
      rw [hI'.mem_tw, hne a ha, ← hI.mem_tw]
      exact hl a (List.mem_cons_of_mem b ha)) hnodup
    have hlive : (h.mem b).st.live = .ok () := hI.live_ok (by rw [hld]; nofun)
    refine ⟨h', Run.bind_eq_ok.mpr ⟨(), hlive, Run.bind_eq_ok.mpr ⟨(), ?_, hw⟩⟩, hact.trans ?_,
      fun a => ?_⟩
    · exact if_pos (hI.tw_state htw)
    · exact activePcbs_put (by rw [hld]; nofun) hlist
    · rw [hst]
      by_cases ha : a ∈ l
      · rw [if_pos ha, if_pos (List.mem_cons_of_mem b ha)]
        rw [load_put (ne_of_mem_of_not_mem ha hb)]
      · rw [if_neg ha, mem_put]
        by_cases he : a = b
        · subst he
          simp
        · simp [ha, he]

/-- In every run, if each pcb of the active list passes its own turn, `tcp_slowtmr` aborts exactly
    when it takes a pcb off the list that follows one whose callback took it off, with one that has
    stayed in front of them. It takes off those that have timed out, and no other. If it does not
    abort, each pcb has had one turn, in the state that it had when the timer was called, and another
    one if it is in `TIME_WAIT`. -/
theorem slowtmr_exact (happ : AppOk P app) (hpool : pool.Nodup) {callbackArg : W}
    (hr : Run.Reach (hostStep app) HostOk (Host.boot pool callbackArg) h)
    (hout : ∀ a ∈ h.activePcbs, Rudp.tcpSlowtmr app (h.slowIn (fails a) a) = .ok (out a)) :
    (h.tcpSlowtmr app fails = .error notFirst ↔
        Walk.CutsOff (fun a => turnOf (out a)) h.activePcbs) ∧
      (∀ a ∈ h.activePcbs, turnOf (out a) = .unlink → ∃ t reset, out a = tcpSlowtmrRemove t reset) ∧
      (¬ Walk.CutsOff (fun a => turnOf (out a)) h.activePcbs →
        ∃ h', h.tcpSlowtmr app fails = .ok h' ∧
          h'.activePcbs = h.activePcbs.filter (fun a => (out a).list = .active) ∧
          ∀ a, (h'.mem a).st =
            twTurn (h.ticks + 1) (if a ∈ h.activePcbs then out a else (h.mem a).st)) := by
  have hI := inv_of_reach happ hpool hr
  have hv : ∀ a ∈ h.activePcbs, h.slowVisit app fails a (h.mem a) =
      .ok (turnOf (out a), ⟨out a, h.nextCtr⟩) := by
    intro a ha
    obtain ⟨h1, h2, h3⟩ := hI.active_state ha
    exact Run.bind_eq_ok.mpr ⟨(), hI.active_ok ha, Run.bind_eq_ok.mpr ⟨(), if_pos h1,
      Run.bind_eq_ok.mpr ⟨(), if_pos h2, Run.bind_eq_ok.mpr ⟨(), if_pos h3,
        Run.bind_eq_ok.mpr ⟨out a, hout a ha, rfl⟩⟩⟩⟩⟩
  have hturns := turns_slowVisit (h := h) happ fails
  obtain ⟨hcut, hok⟩ := walk_exact hI hturns hv
  have hgo : ¬ Walk.CutsOff (fun a => turnOf (out a)) h.activePcbs →
      ∃ h', h.tcpSlowtmr app fails = .ok h' ∧
        h'.activePcbs = h.activePcbs.filter (fun a => (out a).list = .active) ∧
        ∀ a, (h'.mem a).st =
          twTurn (h.ticks + 1) (if a ∈ h.activePcbs then out a else (h.mem a).st) := by
    intro hc
    obtain ⟨h₁, hw, hl, -, hst⟩ := hok hc
    have hI₁ : Inv pool { h₁ with timerCtr := h.nextCtr, ticks := h.ticks + 1 } :=
      hI.walked hturns hw
    obtain ⟨h', hw', hl', hst'⟩ :=
      slowtmrTw_exact hI₁ (l := h₁.twPcbs) (fun a ha => ha) (hI₁.lists.nodup .tw)
    refine ⟨h', Run.bind_eq_ok.mpr ⟨h₁, hw, hw'⟩, hl'.trans hl, fun a => ?_⟩
    rw [hst', ← hst]
    unfold twTurn
    exact if_congr hI₁.mem_tw rfl rfl
  refine ⟨⟨fun h => ?_, fun hc => Run.bind_eq_error.mpr (.inl (hcut hc))⟩, fun a ha ht => ?_, hgo⟩
  · by_contra hc
    obtain ⟨h', he, -⟩ := hgo hc
    rw [he] at h
    cases h
  · have hs : (h.slowIn (fails a) a).Listed := (hI.listed a).congr rfl rfl rfl rfl
    rcases noticed_tcpSlowtmr happ hs (hI.mem_active.mp ha) (hout a ha) with hr | hn
    · exact hr
    · exact absurd ht (turnOf_ne hn)

/-! ### A cut -/

/-- An application that aborts the connections that it has marked when they are polled. -/
def pollApp : App Bool := fun e s =>
  match e with
  | .poll => if s.world = true then apiCall s .abort else .ok (.ok, s)
  | _ => .ok (.ok, s)

theorem appOk_pollApp {P : Core → Api → Prop} (hP : ∀ c, P c .abort) : AppOk P pollApp := by
  intro e s ret s' h
  have hidle (h : (.ok (.ok, s) : Except Fault (Err × St Bool)) = .ok (ret, s')) : Calls P s s' := by
    cases h
    exact .refl
  unfold pollApp at h
  split at h
  · split at h
    · exact .single (.inr ⟨.abort, ret, hP _, h⟩)
    · exact hidle h
  · exact hidle h

/-- A SYN is answered, and for 40 ticks nothing arrives. Then the application opens two connections,
    and marks the first one. -/
def crowdedOps : List ((ℕ → List Bool) × HostOp Bool) :=
  [(fun _ => [], .new 1 false), (fun _ => [], .bind 0 80), (fun _ => [], .listen 0),
    (fun _ => [], .input clientSyn 1 7 [])] ++
  List.replicate 40 (fun _ => [], .slowtmr) ++
  [(fun _ => [], .new 1 true), (fun _ => [], .api 1 (.connect 4000 1000)),
    (fun _ => [], .new 1 false), (fun _ => [], .api 2 (.connect 4001 1000))]

@[inherit_doc crowdedOps] def crowded : Host Bool :=
  (Run.check (hostStep pollApp) (okCheck fun _ _ => true) (Host.boot [0, 1, 2] false)
    crowdedOps).getD (Host.boot [] false)

theorem reach_crowded {C : Host Bool → (ℕ → List Bool) × HostOp Bool → Prop}
    (hC : ∀ h op, okCheck (fun _ _ => true) h op = true → C h op) :
    Run.Reach (hostStep pollApp) C (Host.boot [0, 1, 2] false) crowded :=
  Run.Reach.check_getD hC (by decide +kernel)

/-- What a turn that succeeds leaves. -/
def outcome (x : Except Fault (St W)) (s : St W) : St W :=
  match x with
  | .ok s' => s'
  | .error _ => s

theorem outcome_ok {x : Except Fault (St W)} {s : St W} (h : x.isOk = true) :
    x = .ok (outcome x s) := by
  cases x with
  | ok s' => rfl
  | error e => cases h

/-- At the next tick the callback of the marked connection aborts it, and the one that was never
    acknowledged has timed out: it is not the first one, and the timer expects it there. -/
theorem slowtmr_exact_cuts : crowded.activePcbs = [2, 1, 0] ∧
    (crowded.tcpSlowtmr pollApp fun _ => []) = .error notFirst := by
  have hact : crowded.activePcbs = [2, 1, 0] := by decide +kernel
  have hall : ∀ a ∈ crowded.activePcbs,
      (Rudp.tcpSlowtmr pollApp (crowded.slowIn [] a)).isOk = true := by decide +kernel
  have hout := (slowtmr_exact (appOk_pollApp (P := fun _ _ => True) fun _ => trivial)
    (by decide) (reach_crowded fun _ _ hok => (hostOk_of_check hok).1) fun a ha =>
    outcome_ok (s := crowded.slowIn [] a) (hall a ha)).1
  refine ⟨hact, hout.mpr ⟨[2], 1, 0, [], hact, ⟨2, by decide, ?_⟩, ?_, ?_⟩⟩
  · decide +kernel
  · decide +kernel
  · decide +kernel

/-- The data that `busy` has refused is offered again: each callback aborts its connection, and the
    walk starts again twice. -/
theorem fasttmr_exact_busy : ∃ h', (busy.tcpFasttmr refusingApp fun _ => []) = .ok h' ∧
    busy.activePcbs = [2, 1, 0] ∧ h'.activePcbs = [2] ∧
    (h'.mem 1).st.freed = true ∧ (h'.mem 0).st.freed = true := by
  have hall : ∀ a ∈ busy.activePcbs,
      (Rudp.tcpFasttmr refusingApp (busy.fastIn [] a)).isOk = true := by decide +kernel
  obtain ⟨h', hr, hact, hst⟩ := fasttmr_exact (appOk_refusingApp (P := fun _ _ => True) fun _ => trivial)
    (by decide) reach_busy fun a ha => outcome_ok (s := busy.fastIn [] a) (hall a ha)
  refine ⟨h', hr, ?_, hact.trans ?_, ?_, ?_⟩
  · decide +kernel
  · decide +kernel
  · rw [hst]
    decide +kernel
  · rw [hst]
    decide +kernel

end Host

end Rudp
