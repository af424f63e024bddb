import SikMimuw.Lib.Simulation
import SikMimuw.Model.Atomic
import SikMimuw.Proof.Lifetime
import SikMimuw.Proof.Playback
import SikMimuw.Proof.Provenance

/-!
# Critical sections are atomic

The threads, stepping line by line in any order, do to the buffer what a sequence of whole
sections does, as long as no copy of an empty `set` breaks `mutex_buffor`. A section takes effect
in its last step on the buffer: a call of `add_to_buffor` where it returns, a turn of
`printing_loop` where it pops, or finds that it has to end.

* `Traced`: the receiver with what the running `data_loop` received and its printing threads took.
* `Refines`: the buffer of the sections is that of the threads, except in a section that has begun.
* `refines_simulation`: the step lemma; `sections_atomic`: whole runs.
-/

namespace SikMimuw.Receiver

open Lts Mutex

variable {W : Wild} {ok : Datagram → List Eviction → Prop} {s s' : State} {i : ℕ} {b : Buffer}
  {t : Traced} {p : Sections}

@[simp] theorem Traced.next_state (s' : State) (e : Event) : (t.next W s' e).state = s' := by
  unfold Traced.next
  cases e <;> try rfl
  dsimp only
  split <;> rfl

/-- One section; a call is as `ok` wants it. -/
def AllowedStep (W : Wild) (ok : Datagram → List Eviction → Prop) :
    Sections → SectionEvent → Sections → Prop :=
  Guarded (SectionStep W) fun _ e => e.Allowed ok

/-! ### The abstraction -/

/-- `data_loop` is in the loop of `add_to_buffor`. -/
def DataPc.calling : DataPc → Bool
  | .adding .. => true
  | _ => false

/-- The thread has not come to its end. -/
def PrintPc.playing : PrintPc → Bool
  | .lock | .test | .pop | .unlockPackage _ | .write _ | .lockAgain => true
  | _ => false

/-- A printing thread plays. -/
def State.Playing (s : State) : Prop := ∃ (i : ℕ) (pc : PrintPc), s.printers[i]? = some pc ∧ pc.playing

/-- **The buffer of the sections**: the one before the call that runs, or after the reset that a
printing thread still has to make, or else the one there is. -/
structure Abstracts (W : Wild) (t : Traced) (b : Buffer) : Prop where
  calling : ∀ num data, t.state.data = .adding num data →
    ∃ n, addToBuffor W b num data n = ⟨t.state.buf, t.evicted, false⟩
  resetting : ∀ i : ℕ, t.state.printers[i]? = some .reset → b = t.state.buf.reset
  outside : t.state.data.calling = false → (∀ i : ℕ, t.state.printers[i]? ≠ some .reset) →
    b = t.state.buf

/-- The threads at `t` have done what the sections have done at `p`. -/
structure Refines (W : Wild) (t : Traced) (p : Sections) : Prop where
  excluded : Excluded t.state
  printing : Printing t.state
  emptied : t.state.data.AfterReset → t.state.buf.Empty
  session : p.session = 0 ∨ p.session = t.state.session
  buf : Abstracts W t p.playback.buf
  playing : p.playback.printing = true ↔ t.state.Playing
  received : p.playback.received = t.received
  log : p.playback.log = t.log

theorem init_refines (W : Wild) (maxData : UInt64) :
    Refines W (Traced.init maxData) (Sections.init maxData) where
  excluded := init_excluded maxData
  printing := init_printing maxData
  emptied := fun _ => ⟨rfl, rfl⟩
  session := Or.inl rfl
  buf := ⟨(fun _ _ hc => by cases hc), by simp [Traced.init, State.init], fun _ _ => rfl⟩
  playing := by simp [Sections.init, Playback.init, State.Playing, Traced.init, State.init]
  received := rfl
  log := rfl

/-! ### One thread inside -/

theorem Excluded.alone (h : Excluded s) {pc : PrintPc} (hpc : s.printers[i]? = some pc)
    (hin : pc.inside = true) : s.data.inside = false := by
  by_contra hd
  have hdata : s.inside .data := by simpa [State.inside] using hd
  have hprinter : s.inside (.printer i) := ⟨pc, hpc, hin⟩
  cases h.excl.unique hdata hprinter

theorem Excluded.no_reset (h : Excluded s) (hd : s.data.inside = true) :
    s.printers[i]? ≠ some .reset := by
  intro hpc
  rw [h.alone hpc rfl] at hd
  cases hd

theorem DataPc.calling_of_not_inside {pc : DataPc} (h : pc.inside = false) : pc.calling = false := by
  cases pc <;> first | rfl | cases h

/-- A thread that has not ended is the only one. -/
theorem Printing.alone {j : ℕ} {pc pc' : PrintPc} (h : Printing s) (hpc : s.printers[i]? = some pc)
    (hne : pc ≠ .done) (hpc' : s.printers[j]? = some pc') (hj : j ≠ i) : pc' = .done := by
  by_contra hd
  have hi := h.current_of_alive hpc hne
  rw [h.current_of_alive hpc' hd, Option.some.injEq] at hi
  exact hj hi

theorem set_at {α : Type} {l : List α} {a : α} (h : l[i]? = some a) : l.set i a = l := by
  obtain ⟨hlt, rfl⟩ := List.getElem?_eq_some_iff.1 h
  exact List.set_getElem_self hlt

/-- With one thread that has not ended before it moves, that thread tells whether one plays. -/
theorem playing_set {pc' : PrintPc} (hi : i < s.printers.length)
    (hother : ∀ (j : ℕ) (pc : PrintPc), j ≠ i → s.printers[j]? = some pc → pc.playing = false)
    (hset : s'.printers = s.printers.set i pc') : s'.Playing ↔ pc'.playing = true := by
  unfold State.Playing
  rw [hset]
  constructor
  · rintro ⟨j, pc, hpc, hp⟩
    by_cases hj : j = i
    · subst hj
      rw [List.getElem?_set_self hi, Option.some.injEq] at hpc
      rwa [hpc]
    · rw [List.getElem?_set_ne (Ne.symm hj)] at hpc
      rw [hother j pc hj hpc] at hp
      cases hp
  · exact fun hp => ⟨i, pc', List.getElem?_set_self hi, hp⟩

/-! ### Calls -/

/-- The evictions of a pass come behind those there are. -/
theorem pass_evicted (W : Wild) (num : UInt64) (data : List UInt8) (b : Buffer) (es : List Eviction) :
    (Call.pass W num data ⟨b, es, false⟩).buf = (Call.pass W num data ⟨b, [], false⟩).buf ∧
      (Call.pass W num data ⟨b, es, false⟩).done = (Call.pass W num data ⟨b, [], false⟩).done := by
  unfold Call.pass
  dsimp only
  split
  · exact ⟨rfl, rfl⟩
  · split
    · split_ifs <;> exact ⟨rfl, rfl⟩
    · exact ⟨rfl, rfl⟩

/-- `data_loop` takes a step in a call: the call goes on, or returns and takes effect. -/
theorem Refines.called (h : Refines W t p) {d : Datagram} {c c' : Call} {n : ℕ}
    (hd : d.session = t.state.session) (hin : t.state.data.inside = true)
    (hex : Excluded (t.state.inCall d.num d.data c)) (hpr : Printing (t.state.inCall d.num d.data c))
    (hc : addToBuffor W p.playback.buf d.num d.data n = c') (hb : c'.buf = c.buf)
    (hdone : c'.done = c.done) (hok : c'.done = true → ok d c'.evictions) :
    ∃ ds p', Run (AllowedStep W ok) p ds p' ∧ Refines W
      ⟨t.state.inCall d.num d.data c, c'.evictions, if c'.done then d.num :: t.received else t.received,
        t.log⟩ p' := by
  have har : ¬ (t.state.inCall d.num d.data c).data.AfterReset := by
    unfold State.inCall DataPc.AfterReset
    dsimp only
    split <;> simp [DataPc.afterLoop]
  have hno : ∀ j : ℕ, (t.state.inCall d.num d.data c).printers[j]? ≠ some .reset :=
    fun j => h.excluded.no_reset hin
  by_cases hret : c.done = true
  · -- the call returns
    have hret' : (addToBuffor W p.playback.buf d.num d.data n).done = true := by rw [hc, hdone, hret]
    refine Simulation.single ⟨.call d n (by rw [hd]; exact h.session) hret', ?_⟩ ?_
    · rw [hc]
      exact hok (by rw [hdone, hret])
    rw [if_pos (by rw [hdone]; exact hret), hc]
    refine ⟨hex, hpr, fun ha => absurd ha har, Or.inr hd, ⟨?_, ?_, ?_⟩, h.playing, ?_, h.log⟩
    · intro num data hpc
      simp [State.inCall, hret] at hpc
    · exact fun j hj => absurd hj (hno j)
    · exact fun _ _ => hb
    · rw [← h.received]
  · refine Simulation.stutter (t := p) ?_
    rw [if_neg (by rw [hdone]; exact hret)]
    refine ⟨hex, hpr, fun ha => absurd ha har, h.session, ⟨?_, ?_, ?_⟩, h.playing, h.received, h.log⟩
    · intro num data hpc
      simp only [State.inCall, hret, Bool.false_eq_true, if_false] at hpc
      obtain ⟨rfl, rfl⟩ := DataPc.adding.inj hpc
      refine ⟨n, ?_⟩
      rw [hc]
      have hd' : c'.done = false := by rw [hdone]; simpa using hret
      obtain ⟨b', es, d'⟩ := c'
      dsimp only at hb hd'
      rw [hd', hb]
      rfl
    · exact fun j hj => absurd hj (hno j)
    · intro hcall
      simp [State.inCall, hret, DataPc.calling] at hcall

/-! ### The other steps of `data_loop` -/

/-- A step that leaves the buffer and the printing threads alone. -/
theorem Refines.quiet (h : Refines W t p) (hex : Excluded s') (hpr : Printing s')
    (hses : s'.session = t.state.session ∨ t.state.session = 0) (hbuf : s'.buf = t.state.buf)
    (hprinters : s'.printers = t.state.printers)
    (hcall : s'.data.calling = t.state.data.calling ∧ (t.state.data.calling = true → s'.data = t.state.data))
    (har : s'.data.AfterReset → t.state.data.AfterReset) : Refines W { t with state := s' } p where
  excluded := hex
  printing := hpr
  emptied := fun ha => by
    show s'.buf.Empty
    rw [hbuf]
    exact h.emptied (har ha)
  session := by
    rcases h.session with h0 | h0
    · exact Or.inl h0
    · rcases hses with hs | hs
      · exact Or.inr (by rw [h0, ← hs])
      · exact Or.inl (by rw [h0, hs])
  buf := by
    refine ⟨fun num data hpc => ?_, fun j hj => ?_, fun hc hr => ?_⟩
    · change s'.data = _ at hpc
      have hpc' : t.state.data = .adding num data := by
        rw [← hcall.2 (by rw [← hcall.1, hpc]; rfl), hpc]
      show ∃ n, _ = (⟨s'.buf, t.evicted, false⟩ : Call)
      rw [hbuf]
      exact h.buf.calling num data hpc'
    · show _ = s'.buf.reset
      rw [hbuf]
      exact h.buf.resetting j (by rw [← hprinters]; exact hj)
    · show _ = s'.buf
      rw [hbuf]
      exact h.buf.outside (by rw [← hcall.1]; exact hc) fun j => by rw [← hprinters]; exact hr j
  playing := by
    unfold State.Playing
    show _ ↔ ∃ i pc, s'.printers[i]? = some pc ∧ _
    rw [hprinters]
    exact h.playing
  received := h.received
  log := h.log

/-- No thread is in a section that has touched the buffer. -/
theorem Refines.buf_eq (h : Refines W t p) (hc : t.state.data.calling = false)
    (hin : t.state.data.inside = true ∨ ∃ (i : ℕ) (pc : PrintPc), t.state.printers[i]? = some pc ∧
      pc.inside = true ∧ pc ≠ .reset) : p.playback.buf = t.state.buf := by
  refine h.buf.outside hc fun j hj => ?_
  rcases hin with hin | ⟨i, pc, hpc, hin, hne⟩
  · exact h.excluded.no_reset hin hj
  · have hp : t.state.inside (.printer i) := ⟨pc, hpc, hin⟩
    have hr : t.state.inside (.printer j) := ⟨.reset, hj, rfl⟩
    have hij := h.excluded.excl.unique hp hr
    simp only [Tid.printer.injEq] at hij
    subst hij
    rw [hpc, Option.some.injEq] at hj
    exact hne hj

/-- Line 330: `data_loop` creates a printing thread, or does not. -/
theorem Refines.check (h : Refines W t p) (hpc : t.state.data = .check)
    (hex : Excluded { t.state.createPrinting.createRequesting with data := .unlockCheck })
    (hpr : Printing { t.state.createPrinting.createRequesting with data := .unlockCheck }) :
    ∃ ds p', Run (AllowedStep W ok) p ds p' ∧ Refines W
      { t with state := { t.state.createPrinting.createRequesting with data := .unlockCheck } } p' := by
  have hb := h.buf_eq (by rw [hpc]; rfl) (Or.inl (by rw [hpc]; rfl))
  have hprinters : t.state.createPrinting.createRequesting.printers =
      t.state.createPrinting.printers := by
    unfold State.createRequesting; split <;> rfl
  have hno : ∀ j : ℕ, t.state.createPrinting.createRequesting.printers[j]? ≠ some .reset := by
    intro j hj
    have hin : (DataPc.unlockCheck).inside = true := rfl
    exact hex.no_reset hin hj
  have hkeep : Abstracts W
      { t with state := { t.state.createPrinting.createRequesting with data := .unlockCheck } }
      p.playback.buf :=
    ⟨(fun _ _ hc => by cases hc), fun j hj => absurd hj (hno j), fun _ _ => by rw [hb]; simp⟩
  have har : ¬ DataPc.unlockCheck.AfterReset := by simp [DataPc.AfterReset, DataPc.afterLoop]
  by_cases hcond : UInt64.ofNat t.state.buf.packages.size * 4 ≥ t.state.buf.size * 3 ∧
      t.state.printing = false
  · have hcreate : t.state.createPrinting.printers = t.state.printers ++ [.lock] := by
      unfold State.createPrinting
      rw [if_pos hcond]
    -- no printing thread was left
    have hnone : ¬ t.state.Playing := by
      rintro ⟨j, pc, hj, hplay⟩
      have hcur := h.printing.current_of_alive hj (by rintro rfl; cases hplay)
      unfold State.current at hcur
      rw [if_neg (by simp [hcond.2])] at hcur
      cases hcur
    have hfalse : p.playback.printing = false := by
      rw [← Bool.not_eq_true, h.playing]
      exact hnone
    refine Simulation.single ⟨.create hfalse, trivial⟩ ⟨hex, hpr, fun ha => absurd ha har, ?_, hkeep, ?_,
      h.received, h.log⟩
    · simpa using h.session
    · refine ⟨fun _ => ⟨t.state.printers.length, .lock, ?_, rfl⟩, fun _ => rfl⟩
      show t.state.createPrinting.createRequesting.printers[_]? = _
      rw [hprinters, hcreate]
      simp
  · have hsame : t.state.createPrinting.printers = t.state.printers := by
      unfold State.createPrinting
      rw [if_neg hcond]
    refine Simulation.stutter ⟨hex, hpr, fun ha => absurd ha har, ?_, hkeep, ?_, h.received, h.log⟩
    · simpa using h.session
    · rw [h.playing]
      unfold State.Playing
      show _ ↔ ∃ i pc, t.state.createPrinting.createRequesting.printers[i]? = some pc ∧ _
      rw [hprinters, hsame]

/-- **A step of `data_loop`** is a section, or is not seen. -/
theorem Refines.dataLoop {leave : Bool} {recv : Option Datagram} (h : Refines W t p)
    (hst : DataStep W t.state leave recv s') (hret : t.Returns W ok (.data leave recv)) :
    ∃ ds p', Run (AllowedStep W ok) p ds p' ∧ Refines W (t.next W s' (.data leave recv)) p' := by
  have hok : ∀ x ∈ t.call W, x.2.done = true → ok x.1 x.2.evictions := hret
  have hex := h.excluded.dataLoop hst
  have hpr := h.printing.dataLoop hst
  unfold Traced.call at hok
  unfold Traced.next Traced.call
  cases hst with
  | @add num data hpc =>
    rw [hpc] at hok ⊢
    have hb := h.buf_eq (by rw [hpc]; rfl) (Or.inl (by rw [hpc]; rfl))
    exact h.called (d := ⟨t.state.session, num, data⟩) (n := 0) rfl (by rw [hpc]; rfl) hex hpr
      (by rw [hb]; rfl) rfl rfl (hok _ rfl)
  | @adding num data hpc =>
    rw [hpc] at hok ⊢
    obtain ⟨n, hn⟩ := h.buf.calling num data hpc
    obtain ⟨hbuf, hdone⟩ := pass_evicted W num data t.state.buf t.evicted
    refine h.called (d := ⟨t.state.session, num, data⟩) (n := n + 1) rfl (by rw [hpc]; rfl) hex hpr ?_
      hbuf hdone (hok _ rfl)
    rw [addToBuffor, Function.iterate_succ_apply', ← addToBuffor, hn]
  | check hpc =>
    rw [hpc]
    simp only [DataPc.printed, List.append_nil]
    exact h.check hpc hex hpr
  | reset hpc =>
    rw [hpc]
    have hb := h.buf_eq (by rw [hpc]; rfl) (Or.inl (by rw [hpc]; rfl))
    refine Simulation.single ⟨.reset, trivial⟩ ⟨hex, hpr, fun _ => ⟨rfl, rfl⟩, h.session,
      ⟨(fun _ _ hc => by cases hc), ?_, ?_⟩, h.playing, h.received, ?_⟩
    · intro j hj
      exact absurd hj (h.excluded.no_reset (by rw [hpc]; rfl))
    · intro _ _
      show p.playback.buf.reset = _
      rw [hb]
    · show p.playback.log ++ _ = _
      rw [h.log]
      rfl
  | opens hpc hr h0 =>
    rw [hpc]
    simp only [DataPc.printed, List.append_nil]
    refine Simulation.stutter (h.quiet hex hpr (Or.inr h0) rfl rfl ⟨by rw [hpc]; rfl, ?_⟩ ?_)
    · rw [hpc]
      exact fun hc => absurd hc Bool.false_ne_true
    · simp [DataPc.AfterReset, DataPc.afterLoop]
  | leaves hpc | stays hpc | nothing hpc | older hpc | newer hpc | stores hpc | lockAdd hpc
  | unlockAdd hpc | lockCheck hpc | unlockCheck hpc | keepPrinting hpc | closePrinting hpc
  | keepRequesting hpc | closeRequesting hpc | again hpc | ends hpc | lockReset hpc =>
    rw [hpc]
    simp only [DataPc.printed, List.append_nil]
    refine Simulation.stutter (h.quiet hex hpr (Or.inl rfl) rfl rfl ⟨by rw [hpc]; rfl, ?_⟩ ?_)
    · rw [hpc]
      exact fun hc => absurd hc Bool.false_ne_true
    · simp [DataPc.AfterReset, DataPc.afterLoop]
  -- the steps after the reset
  | unlockReset hpc | setStop hpc | noPrinting hpc | joinPrinting hpc | noRequesting hpc
  | joinRequesting hpc =>
    rw [hpc]
    simp only [DataPc.printed, List.append_nil]
    refine Simulation.stutter (h.quiet hex hpr (Or.inl rfl) rfl rfl ⟨by rw [hpc]; rfl, ?_⟩ ?_)
    · rw [hpc]
      exact fun hc => absurd hc Bool.false_ne_true
    · simp [hpc, DataPc.AfterReset, DataPc.afterLoop]

/-! ### Printing threads -/

/-- A printing thread moves and leaves the buffer alone, with no `reset` before or behind it. -/
theorem Refines.move (h : Refines W t p) {pc pc' : PrintPc} (hpc : t.state.printers[i]? = some pc)
    (hne : pc ≠ .done) (hst : PrintStep t.state i s') (hset : s'.printers = t.state.printers.set i pc')
    (hbuf : s'.buf = t.state.buf) (hpl : pc'.playing = pc.playing) (hr : pc ≠ .reset)
    (hr' : pc' ≠ .reset) : Refines W { t with state := s' } p := by
  have hf := hst.frame
  have hlt : i < t.state.printers.length := (List.getElem?_eq_some_iff.1 hpc).1
  have hreset : ∀ j : ℕ, s'.printers[j]? = some .reset ↔ t.state.printers[j]? = some .reset := by
    intro j
    rw [hset]
    by_cases hj : j = i
    · subst hj
      rw [List.getElem?_set_self hlt, hpc]
      simp [hr, hr']
    · rw [List.getElem?_set_ne (Ne.symm hj)]
  have hother : ∀ (j : ℕ) (q : PrintPc), j ≠ i → t.state.printers[j]? = some q → q.playing = false := by
    intro j q hj hq
    rw [h.printing.alone hpc hne hq hj]
    rfl
  refine ⟨h.excluded.print hst, h.printing.print hst, ?_, ?_, ⟨?_, ?_, ?_⟩, ?_, h.received, h.log⟩
  · intro ha
    show s'.buf.Empty
    rw [hbuf]
    exact h.emptied (by rw [← hf.data]; exact ha)
  · show p.session = 0 ∨ p.session = s'.session
    rw [hf.session]
    exact h.session
  · intro num data hd
    show ∃ n, _ = (⟨s'.buf, t.evicted, false⟩ : Call)
    rw [hbuf]
    exact h.buf.calling num data (by rw [← hf.data]; exact hd)
  · intro j hj
    show _ = s'.buf.reset
    rw [hbuf]
    exact h.buf.resetting j ((hreset j).1 hj)
  · intro hc hno
    show _ = s'.buf
    rw [hbuf]
    exact h.buf.outside (by rw [← hf.data]; exact hc) fun j hj => hno j ((hreset j).2 hj)
  · rw [h.playing, playing_set hlt hother hset, hpl]
    exact playing_set hlt hother (set_at hpc).symm

/-- A printing thread comes to the end of a section, which takes effect. -/
theorem Refines.section (h : Refines W t p) (quit : Bool) (b' : Buffer) {pc pc' : PrintPc}
    {out : List Output} (hpc : t.state.printers[i]? = some pc) (hpl : pc.playing = true)
    (hin : pc.inside = true) (hst : PrintStep t.state i s')
    (hset : s'.printers = t.state.printers.set i pc')
    (hsec : p.playback.buf = t.state.buf → p.playback.afterSection quit =
      ⟨b', pc'.playing, p.playback.received, p.playback.log ++ out⟩)
    (hb : b' = if pc' = .reset then s'.buf.reset else s'.buf) :
    ∃ ds p', Run (AllowedStep W ok) p ds p' ∧ Refines W { t with state := s', log := t.log ++ out } p' := by
  have hf := hst.frame
  have hlt : i < t.state.printers.length := (List.getElem?_eq_some_iff.1 hpc).1
  have hout : t.state.data.inside = false := h.excluded.alone hpc hin
  have hne : pc ≠ .done := by
    rintro rfl
    cases hpl
  have hbuf := h.buf_eq (DataPc.calling_of_not_inside hout) (Or.inr ⟨i, pc, hpc, hin, by
    rintro rfl
    cases hpl⟩)
  have hother : ∀ (j : ℕ) (q : PrintPc), j ≠ i → t.state.printers[j]? = some q → q = .done :=
    fun j q hj hq => h.printing.alone hpc hne hq hj
  have hplays : t.state.Playing := ⟨i, pc, hpc, hpl⟩
  refine Simulation.single ⟨.printingSection quit (h.playing.2 hplays), trivial⟩ ?_
  rw [hsec hbuf]
  have hreset : ∀ j : ℕ, s'.printers[j]? = some .reset → pc' = .reset := by
    intro j hj
    rw [hset] at hj
    by_cases hji : j = i
    · subst hji
      rwa [List.getElem?_set_self hlt, Option.some.injEq] at hj
    · rw [List.getElem?_set_ne (Ne.symm hji)] at hj
      cases hother j _ hji hj
  refine ⟨h.excluded.print hst, h.printing.print hst, ?_, ?_, ⟨?_, ?_, ?_⟩, ?_, h.received, ?_⟩
  · exact fun ha => (h.emptied (by rw [← hf.data]; exact ha)).print hf.buf
  · show p.session = 0 ∨ p.session = s'.session
    rw [hf.session]
    exact h.session
  · intro num data hd
    change s'.data = _ at hd
    rw [hf.data] at hd
    rw [hd] at hout
    cases hout
  · intro j hj
    rw [if_pos (hreset j hj)] at hb
    exact hb
  · intro _ hno
    have hne' : pc' ≠ .reset := by
      rintro rfl
      exact hno i (by show s'.printers[i]? = _; rw [hset, List.getElem?_set_self hlt])
    rw [if_neg hne'] at hb
    exact hb
  · refine (playing_set hlt (fun j q hj hq => ?_) hset).symm
    rw [hother j q hj hq]
    rfl
  · show p.playback.log ++ out = _
    rw [h.log]

/-- **A step of a printing thread** is a section, or is not seen. -/
theorem Refines.print (h : Refines W t p) (hst : PrintStep t.state i s') :
    ∃ ds p', Run (AllowedStep W ok) p ds p' ∧ Refines W (t.next W s' (.printer i)) p' := by
  have hst' := hst
  show ∃ ds p', Run (AllowedStep W ok) p ds p' ∧
    Refines W { t with state := s', log := t.log ++ t.state.printed i } p'
  cases hst with
  | @pop q b' hpc hb =>
    by_cases hd : q.data = []
    · rw [show t.state.printed i = .ended :: b'.reset.emptied by simp [State.printed, hpc, hb, hd]]
      refine h.section false b'.reset hpc rfl rfl hst' rfl ?_ (by simp [hd])
      intro hbuf
      simp [Playback.afterSection, Buffer.printingSection, hbuf, hb, hd, PrintPc.playing]
    · rw [show t.state.printed i = .wrote q :: b'.emptied by simp [State.printed, hpc, hb, hd]]
      refine h.section false b' hpc rfl rfl hst' rfl ?_ (by simp [hd])
      intro hbuf
      have hpl := h.playing.2 ⟨i, .pop, hpc, rfl⟩
      simp [Playback.afterSection, Buffer.printingSection, hbuf, hb, hd, PrintPc.playing, hpl]
  | quits hpc hq =>
    rw [show t.state.printed i = .ended :: t.state.buf.emptied by
      unfold State.printed
      rw [hpc]
      exact if_neg hq]
    refine h.section (t.state.finish || t.state.stop) t.state.buf hpc rfl rfl hst' rfl ?_
      (by simp [State.setPrinter])
    intro hbuf
    rcases printingSection_cases t.state.buf (t.state.finish || t.state.stop) with
      ⟨hs, -⟩ | ⟨q, b', hpop, -, -⟩ | ⟨q, b', hpop, -, -⟩
    · simp [Playback.afterSection, hbuf, hs, PrintPc.playing]
    -- a package could be popped, so it is told to stop
    all_goals
      have hne : t.state.buf.packages.values ≠ [] := by
        intro h0
        rw [Buffer.pop, h0] at hpop
        cases hpop
      have hquit : (t.state.finish || t.state.stop) = true := by
        by_contra hc
        simp only [Bool.or_eq_true, not_or, Bool.not_eq_true] at hc
        exact hq ⟨hne, hc⟩
      simp [Playback.afterSection, Buffer.printingSection, hbuf, hquit, PrintPc.playing]
  | reset hpc =>
    rw [show t.state.printed i = [] by simp [State.printed, hpc], List.append_nil]
    -- the section has reset the buffer already
    have hf := hst'.frame
    have hlt : i < t.state.printers.length := (List.getElem?_eq_some_iff.1 hpc).1
    have hother : ∀ (j : ℕ) (q : PrintPc), j ≠ i → t.state.printers[j]? = some q → q = .done :=
      fun j q hj hq => h.printing.alone hpc (by simp) hq hj
    have hplay : ∀ (j : ℕ) (q : PrintPc), j ≠ i → t.state.printers[j]? = some q → q.playing = false := by
      intro j q hj hq
      rw [hother j q hj hq]
      rfl
    refine Simulation.stutter ⟨h.excluded.print hst', h.printing.print hst', fun _ => ⟨rfl, rfl⟩,
      h.session, ⟨?_, ?_, ?_⟩, ?_, h.received, h.log⟩
    · intro num data hd
      have hout := h.excluded.alone hpc rfl
      change t.state.data = _ at hd
      rw [hd] at hout
      cases hout
    · intro j hj
      change (t.state.printers.set i _)[j]? = _ at hj
      by_cases hji : j = i
      · subst hji
        rw [List.getElem?_set_self hlt] at hj
        cases hj
      · rw [List.getElem?_set_ne (Ne.symm hji)] at hj
        cases hother j _ hji hj
    · exact fun _ _ => h.buf.resetting i hpc
    · rw [h.playing, playing_set hlt hplay (set_at hpc).symm]
      show (PrintPc.finishEarly).playing = true ↔ _
      exact (playing_set hlt hplay rfl).symm
  | goesOn hpc hne hfin hstop =>
    rw [show t.state.printed i = [] by simp [State.printed, hpc, hne, hfin, hstop], List.append_nil]
    exact Simulation.stutter (h.move hpc (by simp) hst' rfl rfl rfl (by simp) (by simp))
  | lock hpc | finishEarly hpc | unlockEarly hpc | unlockPackage hpc | write hpc | lockAgain hpc
  | unlockEnd hpc | finishEnd hpc =>
    rw [show t.state.printed i = [] by simp [State.printed, hpc], List.append_nil]
    exact Simulation.stutter (h.move hpc (by simp) hst' rfl rfl rfl (by simp) (by simp))

/-! ### Runs -/

/-- **A forward simulation**, as long as copies of `set` find a key. -/
theorem refines_simulation (W : Wild) :
    Simulation (Guarded (Fires (Traced.step W)) fun t e => CopiesKeys t.state e ∧ t.Returns W ok e)
      (AllowedStep W ok) (Refines W) := by
  rintro t e t' p h ⟨hst, hkeys, hret⟩
  obtain ⟨s', hs, rfl⟩ := Option.map_eq_some_iff.1 hst
  have hex := step_excl h.excluded hs hkeys
  have hpr := step_printing h.printing hs
  cases step_cases hs with
  | signal =>
    exact Simulation.stutter (h.quiet hex hpr (Or.inl rfl) rfl rfl ⟨rfl, fun _ => rfl⟩ id)
  | data hd => exact h.dataLoop hd hret
  | printer hp => exact h.print hp
  | requester hr =>
    have hf := hr.frame
    exact Simulation.stutter (h.quiet hex hpr (Or.inl hf.session) hf.buf hf.printers
      ⟨by rw [hf.data], fun _ => hf.data⟩ (by rw [hf.data]; exact id))
  | run hpc =>
    -- the threads of the last `data_loop` have ended, with an empty buffer
    have hcur : t.state.current = none := current_joined (by rw [hpc]; rfl)
    have hdone : ∀ (j : ℕ) (pc : PrintPc), t.state.printers[j]? = some pc → pc = .done := by
      intro j pc hj
      by_contra hne
      rw [h.printing.current_of_alive hj hne] at hcur
      cases hcur
    have hno : ∀ j : ℕ, t.state.printers[j]? ≠ some .reset := fun j hj => by cases hdone j _ hj
    have hplay : ¬ t.state.Playing := by
      rintro ⟨j, pc, hj, hpl⟩
      rw [hdone j pc hj] at hpl
      cases hpl
    have hbuf := h.buf.outside (by rw [hpc]; rfl) hno
    have hempty := h.emptied ⟨6, by rw [hpc]; rfl, by omega⟩
    have hprinting : p.playback.printing = false := by
      rw [← Bool.not_eq_true, h.playing]
      exact hplay
    refine Simulation.single ⟨.restart hprinting (by rw [hbuf]; exact hempty), trivial⟩ ⟨hex, hpr, ?_, Or.inl rfl,
      ⟨(fun _ _ hc => by cases hc), fun j hj => absurd hj (hno j), fun _ _ => hbuf⟩, ?_, rfl, rfl⟩
    · exact fun _ => hempty
    · exact ⟨fun hf => (by cases hf), fun hpl => absurd hpl hplay⟩

/-! ### What is written -/

/-- The packages of a log. -/
def writes (log : List Output) : List Package :=
  log.filterMap fun | .wrote p => some p | _ => none

/-- The package that a printing thread has popped and not written yet. -/
def PrintPc.package : PrintPc → Option Package
  | .unlockPackage p | .write p => some p
  | _ => none

def State.inHand (s : State) : List Package := s.printers.filterMap PrintPc.package

/-- The last packages written, with the one to come, are those of the log. -/
def Delivers (t : Traced) : Prop := writes t.log <:+ t.state.written ++ t.state.inHand

theorem filterMap_set {α β : Type} {f : α → Option β} {l : List α} {a' : α} (hi : i < l.length)
    (hother : ∀ j a, j ≠ i → l[j]? = some a → f a = none) :
    (l.set i a').filterMap f = (f a').toList := by
  have hl : (l.take i).filterMap f = [] := by
    refine List.filterMap_eq_nil_iff.2 fun a ha => ?_
    obtain ⟨j, hj, rfl⟩ := List.mem_take_iff_getElem.1 ha
    exact hother j _ (by omega) (List.getElem?_eq_getElem _)
  have hr : (l.drop (i + 1)).filterMap f = [] := by
    refine List.filterMap_eq_nil_iff.2 fun a ha => ?_
    obtain ⟨j, hj, rfl⟩ := List.mem_drop_iff_getElem.1 ha
    exact hother (i + 1 + j) _ (by omega) (List.getElem?_eq_getElem _)
  rw [List.set_eq_take_append_cons_drop, if_pos hi, List.filterMap_append, List.filterMap_cons, hl, hr]
  cases f a' <;> rfl

/-- What is pending is with the thread that has not ended. -/
theorem Printing.inHand (h : Printing s) {pc q : PrintPc} (hpc : s.printers[i]? = some pc)
    (hne : pc ≠ .done) (hset : s'.printers = s.printers.set i q) : s'.inHand = q.package.toList := by
  rw [State.inHand, hset]
  refine filterMap_set (List.getElem?_eq_some_iff.1 hpc).1 fun j a hj ha => ?_
  rw [h.alone hpc hne ha hj]
  rfl

theorem writes_append (log out : List Output) : writes (log ++ out) = writes log ++ writes out :=
  List.filterMap_append

theorem writes_cons_emptied (o : Output) (b : Buffer) : writes (o :: b.emptied) = writes [o] := by
  unfold Buffer.emptied
  split <;> cases o <;> rfl

/-- **A printing thread** writes what it has taken, and nothing else. -/
theorem Printing.delivered (h : Printing s) (hst : PrintStep s i s') :
    s'.written ++ s'.inHand = s.written ++ s.inHand ++ writes (s.printed i) := by
  cases hst with
  | @pop q b' hpc hb =>
    rw [h.inHand hpc (by simp) (set_at hpc).symm, h.inHand hpc (by simp) rfl]
    unfold State.printed
    rw [hpc]
    dsimp only
    rw [hb]
    by_cases hd : q.data = []
    · simp only [hd, if_true]
      rw [writes_cons_emptied]
      simp [writes, PrintPc.package, State.setPrinter]
    · simp only [hd, if_false]
      rw [writes_cons_emptied]
      simp [writes, PrintPc.package, State.setPrinter]
  | quits hpc hq =>
    rw [h.inHand hpc (by simp) (set_at hpc).symm, h.inHand hpc (by simp) rfl]
    unfold State.printed
    rw [hpc]
    dsimp only
    rw [if_neg hq, writes_cons_emptied]
    simp [writes, PrintPc.package, State.setPrinter]
  | goesOn hpc hne hfin hstop =>
    rw [h.inHand hpc (by simp) (set_at hpc).symm, h.inHand hpc (by simp) rfl]
    have hout : s.printed i = [] := by simp [State.printed, hpc, hne, hfin, hstop]
    rw [hout]
    simp [writes, PrintPc.package, State.setPrinter]
  | lock hpc | reset hpc | finishEarly hpc | unlockEarly hpc | unlockPackage hpc | write hpc
  | lockAgain hpc | unlockEnd hpc | finishEnd hpc =>
    rw [h.inHand hpc (by simp) (set_at hpc).symm, h.inHand hpc (by simp) rfl]
    have hout : s.printed i = [] := by simp [State.printed, hpc]
    rw [hout]
    simp [writes, PrintPc.package, State.setPrinter]

theorem DataStep.inHand {leave : Bool} {recv : Option Datagram} (h : DataStep W s leave recv s') :
    s'.written = s.written ∧ s'.inHand = s.inHand := by
  refine ⟨?_, ?_⟩
  · cases h
    case check =>
      show s.createPrinting.createRequesting.written = _
      unfold State.createRequesting State.createPrinting
      split_ifs <;> rfl
    all_goals rfl
  · obtain ⟨l, hl, hlock⟩ := h.moves.2.printers
    have hnone : l.filterMap PrintPc.package = [] :=
      List.filterMap_eq_nil_iff.2 fun pc hpc => by rw [hlock pc hpc]; rfl
    rw [State.inHand, hl, List.filterMap_append, hnone, List.append_nil]
    rfl

theorem RequestStep.inHand (h : RequestStep W s i s') :
    s'.written = s.written ∧ s'.inHand = s.inHand := by
  have hp := h.frame.printers
  refine ⟨?_, by rw [State.inHand, hp]; rfl⟩
  cases h <;> rfl

theorem Traced.writes_next_data {leave : Bool} {recv : Option Datagram} :
    writes (t.next W s' (.data leave recv)).log = writes t.log := by
  unfold Traced.next
  dsimp only
  split
  · rfl
  · dsimp only
    rw [writes_append]
    cases t.state.data <;> simp [DataPc.printed, writes]

/-- **One step** keeps the log and what is written together. -/
theorem step_delivers {e : Event} {t' : Traced} (h : Delivers t) (hp : Printing t.state)
    (hst : Traced.step W t e = some t') : Delivers t' := by
  obtain ⟨s', hs, rfl⟩ := Option.map_eq_some_iff.1 hst
  unfold Delivers at h
  cases step_cases hs with
  | signal => exact h
  | run => exact List.nil_suffix
  | requester hr =>
    show writes t.log <:+ s'.written ++ s'.inHand
    rw [hr.inHand.1, hr.inHand.2]
    exact h
  | printer hst =>
    show writes (t.log ++ t.state.printed _) <:+ s'.written ++ s'.inHand
    rw [writes_append, hp.delivered hst]
    obtain ⟨pre, hpre⟩ := h
    exact ⟨pre, by rw [← hpre, List.append_assoc]⟩
  | data hd =>
    unfold Delivers
    rw [Traced.writes_next_data, Traced.next_state, hd.inHand.1, hd.inHand.2]
    exact h

theorem run_delivers {G : Traced → Event → Prop} {maxData : UInt64} {es : List Event}
    (h : Run (Guarded (Fires (Traced.step W)) G) (Traced.init maxData) es t) : Delivers t := by
  refine (h.inv (I := fun t => Printing t.state ∧ Delivers t) ⟨init_printing maxData, List.nil_suffix⟩
    fun u e u' hI hst => ⟨?_, step_delivers hI.2 hI.1 hst.1⟩).2
  obtain ⟨s', hs, rfl⟩ := Option.map_eq_some_iff.1 hst.1
  rw [Traced.next_state]
  exact step_printing hI.1 hs

/-- **Critical sections are atomic.** For every run in which no copy of `set` is empty there is a
run of whole sections that stores the same packets in the same order, with the same evictions, and
takes the same packages:

* where no thread is inside, its buffer is that of the threads;
* the last packages written, with the one that a printing thread has in hand, are those it took. -/
theorem sections_atomic (W : Wild) (ok : Datagram → List Eviction → Prop) (maxData : UInt64)
    {es : List Event} {t : Traced}
    (h : Run (Guarded (Fires (Traced.step W)) fun t e => CopiesKeys t.state e ∧ t.Returns W ok e)
      (Traced.init maxData) es t) :
    ∃ ds p, Run (AllowedStep W ok) (Sections.init maxData) ds p ∧
      p.playback.received = t.received ∧ p.playback.log = t.log ∧
      (p.playback.printing = true ↔ t.state.Playing) ∧
      (t.state.mutexBuffor = none → p.playback.buf = t.state.buf) ∧
      writes t.log <:+ t.state.written ++ t.state.inHand := by
  obtain ⟨ds, p, hrun, hr⟩ := (refines_simulation W).run h (init_refines W maxData)
  refine ⟨ds, p, hrun, hr.received, hr.log, hr.playing, fun hfree => ?_, run_delivers h⟩
  -- nobody is inside
  have hout : ∀ u, ¬ t.state.inside u := by
    intro u hu
    have hholds := (hr.excluded.excl u).1 hu
    rw [hfree] at hholds
    cases hholds
  refine hr.buf.outside (DataPc.calling_of_not_inside ?_) fun j hj => hout (.printer j) ⟨_, hj, rfl⟩
  simpa [State.inside] using hout .data

/-- Packet 0 is received, popped and written. -/
theorem sections_atomic_one : ∃ es t ds p,
    Run (Guarded (Fires (Traced.step ⟨fun _ _ => 0, fun _ _ => 0⟩)) fun t e => CopiesKeys t.state e ∧
      t.Returns ⟨fun _ _ => 0, fun _ _ => 0⟩ (fun _ evictions => evictions.isEmpty = true) e)
        (Traced.init 1) es t ∧
    Run (AllowedStep ⟨fun _ _ => 0, fun _ _ => 0⟩ fun _ evictions => evictions.isEmpty = true)
        (Sections.init 1) ds p ∧
      p.playback.log = [.wrote ⟨[7], 0⟩, .emptied] ∧ t.state.written = [⟨[7], 0⟩] := by
  have he : ((exec (guarded (Traced.step ⟨fun _ _ => 0, fun _ _ => 0⟩) fun t e =>
      CopiesKeys t.state e ∧ t.Returns ⟨fun _ _ => 0, fun _ _ => 0⟩
        (fun _ evictions => evictions.isEmpty = true) e) (Traced.init 1)
      (.run :: receives 0 5 ++ List.replicate 5 (.printer 0))).map fun t => (t.log, t.state.written))
        = some ([.wrote ⟨[7], 0⟩, .emptied], [⟨[7], 0⟩]) := by decide
  obtain ⟨t, hr, ht⟩ := Option.map_eq_some_iff.1 he
  rw [Prod.mk.injEq] at ht
  obtain ⟨ds, p, hsec, -, hlog, -⟩ := sections_atomic _ _ 1 (exec_guarded hr)
  exact ⟨_, t, ds, p, exec_guarded hr, hsec, by rw [hlog, ht.1], ht.2⟩

end SikMimuw.Receiver
