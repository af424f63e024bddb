import SikMimuw.Proof.Buffor
import SikMimuw.Proof.Lifetime

/-!
# The prefill of the buffer

`data_loop` creates a printing thread when the buffer is three quarters full, and the thread
pops when it is run. Between the two the list can only grow, unless it was empty: an empty
list passes the test at program start, while `size` is 0, and a thread that is alive when the
list runs empty plays on from the first packet that comes.

* `Ripe`: the list is empty or three quarters full. A pass of `add_to_buffor` keeps it, except
  for the first package of an empty list.
* `Prefills`: no thread that may still pop sees that package alone, and the test at line 330
  does not wrap.
* `prefill_ok`: in runs of such steps, a thread pops first from a list that is ripe.
-/

namespace SikMimuw.Receiver

open Lts

variable {W : Wild} {s s' : State} {i : ℕ} {b : Buffer} {c : Call} {num : UInt64} {data : List UInt8}

/-- The list is empty, or holds three quarters of its capacity. -/
def Ripe (b : Buffer) : Prop := b.packages.values = [] ∨ b.size.toNat * 3 ≤ b.packages.size * 4

theorem Ripe.pass (h : Ripe c.buf) (hd : c.done = false) : Ripe (c.pass W num data).buf := by
  have hc := pass_case W num data hd
  generalize Call.pass W num data c = c' at hc
  have hle : ∀ {back : Package}, c.buf.packages.values.getLast? = some back →
      c.buf.size.toNat * 3 ≤ c.buf.packages.size * 4 := by
    intro back hb
    rcases h with h | h
    · simp [h] at hb
    · exact h
  cases hc with
  | stop => exact h
  | append hf hb =>
    have := hle hb
    refine Or.inr ?_
    show c.buf.size.toNat * 3 ≤ (c.buf.packages.pushBack _).size * 4
    rw [NodeList.size_pushBack]
    omega
  | dummy hf hb =>
    have := hle hb
    refine Or.inr ?_
    rw [size_appendDummy]
    show c.buf.size.toNat * 3 ≤ _
    omega
  | evict hf hb hfull hge hgap he =>
    subst he
    have := hle hb
    -- one package more, then one less
    refine Or.inr ?_
    show c.buf.size.toNat * 3 ≤ (c.buf.packages.pushBack _).popFront.size * 4
    simp only [NodeList.size, NodeList.popFront, NodeList.pushBack, List.length_tail,
      List.length_append, List.length_cons, List.length_nil] at this ⊢
    omega

theorem Ripe.reset (b : Buffer) : Ripe b.reset := Or.inl rfl

/-- A call that does not put the first package into an empty list. -/
theorem Ripe.enter (h : Ripe b) (hne : b.packages.values = [] → b.set.find? num ≠ none) :
    Ripe (b.enter num data).buf := by
  have hc := enter_case b num data
  generalize b.enter num data = c at hc
  cases hc with
  | @fill it hit =>
    have hn : (b.fill it num data).nums.length = b.nums.length := by rw [nums_fill]
    rw [length_nums, length_nums] at hn
    rcases h with h | h
    · refine Or.inl (List.eq_nil_of_length_eq_zero ?_)
      rw [NodeList.length_values, hn, ← NodeList.length_values, h]
      rfl
    · refine Or.inr ?_
      rw [hn]
      exact h
  | first hkey hnil => exact absurd hkey (hne hnil)
  | loop => exact h

/-- The first package of an empty list with room for one. -/
theorem ripe_first (hnil : b.packages.values = [])
    (hone : (b.maxData / UInt64.ofNat data.length).toNat ≤ 1) :
    Ripe ({ b with size := b.maxData / UInt64.ofNat data.length }.append num data) := by
  refine Or.inr ?_
  have hn : b.packages.size = 0 := by rw [← NodeList.length_values, hnil]; rfl
  show (b.maxData / UInt64.ofNat data.length).toNat * 3 ≤ (b.packages.pushBack _).size * 4
  rw [NodeList.size_pushBack, hn]
  omega

/-! ### First pops -/

/-- The receiver, with what it takes to tell a first pop. -/
structure Watched where
  state : State
  /-- no package was popped since `packages` was last empty -/
  fresh : Bool
  /-- the printing threads that have popped -/
  popped : List ℕ

/-- The printing thread that pops. -/
def State.popper (s : State) : Event → List ℕ
  | .printer i =>
    match s.printers[i]? with
    | some .pop => [i]
    | _ => []
  | _ => []

def Watched.next (t : Watched) (e : Event) (s' : State) : Watched :=
  ⟨s', s'.buf.packages.values.isEmpty || t.fresh && (t.state.popper e).isEmpty,
    t.popped ++ t.state.popper e⟩

def watchedStep (W : Wild) (t : Watched) (e : Event) : Option Watched :=
  (step W t.state e).map (t.next e)

def Watched.init (maxData : UInt64) : Watched := ⟨State.init maxData, true, []⟩

/-- **Prefill**: a thread that is about to pop its first package, or the first one since the list
was empty, sees a list three quarters full. -/
def PrefillOk (t : Watched) : Prop :=
  ∀ i, t.state.printers[i]? = some .pop → t.state.buf.packages.values ≠ [] →
    (t.fresh = true ∨ i ∉ t.popped) → t.state.buf.size.toNat * 3 ≤ t.state.buf.packages.size * 4

/-- The thread can come to line 366 once more. -/
def PrintPc.mayPop (finish : Bool) : PrintPc → Bool
  | .pop => true
  | .lock | .test | .unlockPackage _ | .write _ | .lockAgain => !finish
  | _ => false

/-- Printing thread `i` can come to line 366 once more. -/
def State.MayPop (s : State) (i : ℕ) : Prop := ∃ pc ∈ s.printers[i]?, pc.mayPop s.finish

/-- At `pc` a first package comes into an empty list only while no printing thread may pop, or where
the list has room for one; and three times `size` does not wrap at line 330. -/
def Watched.PrefillsAt (t : Watched) : DataPc → Prop
  | .add num data => t.state.buf.packages.values = [] → t.state.buf.set.find? num = none →
      (t.state.buf.maxData / UInt64.ofNat data.length).toNat ≤ 1 ∨
        ∀ pc ∈ t.state.printers, pc.mayPop t.state.finish = false
  | .check => t.state.buf.size.toNat * 3 < 2 ^ 64
  | _ => True

/-- The condition of a run. -/
def Prefills (t : Watched) : Event → Prop
  | .data .. => t.PrefillsAt t.state.data
  | _ => True

instance instDecidablePrefillsAt (t : Watched) (pc : DataPc) : Decidable (t.PrefillsAt pc) :=
  match pc with
  | .add .. => inferInstanceAs (Decidable (_ → _ → _ ∨ _))
  | .check => inferInstanceAs (Decidable (_ < _))
  | .idle | .head | .recv | .lockAdd .. | .adding .. | .unlockAdd | .lockCheck | .unlockCheck
  | .closePrinting | .closeRequesting | .test | .lockReset | .reset | .unlockReset | .setStop
  | .joinPrinting | .joinRequesting => .isTrue trivial

instance instDecidablePrefills (t : Watched) (e : Event) : Decidable (Prefills t e) :=
  match e with
  | .data .. => inferInstanceAs (Decidable (t.PrefillsAt t.state.data))
  | .signal | .run | .printer _ | .requester _ => .isTrue trivial

/-- **The invariant**: a thread that may pop first finds a ripe list. -/
structure Prefilled (t : Watched) : Prop where
  printing : Printing t.state
  ripe : ∀ i, t.state.MayPop i → (t.fresh = true ∨ i ∉ t.popped) → Ripe t.state.buf

variable {t t' : Watched}

theorem init_prefilled (maxData : UInt64) : Prefilled (Watched.init maxData) :=
  ⟨init_printing maxData, fun _ h => by simp [State.MayPop, Watched.init, State.init] at h⟩

/-- A step that pops nothing, with the same threads that may pop and a list as ripe as before. -/
theorem Prefilled.keep {e : Event} (h : Prefilled t) (hp : Printing s') (hpop : t.state.popper e = [])
    (hm : ∀ i, s'.MayPop i → t.state.MayPop i) (hr : Ripe t.state.buf → Ripe s'.buf) :
    Prefilled (t.next e s') := by
  refine ⟨hp, fun i hi hf => ?_⟩
  unfold Watched.next at hi hf ⊢
  rw [hpop] at hf
  by_cases hv : s'.buf.packages.values = []
  · exact Or.inl hv
  · exact hr (h.ripe i (hm i hi) (by simpa [hv] using hf))

/-- Only the current thread may pop. -/
theorem Printing.current_of_mayPop (h : Printing s) (hm : s.MayPop i) : s.current = some i := by
  obtain ⟨pc, hpc, hm⟩ := hm
  refine h.current_of_alive hpc ?_
  rintro rfl
  simp [PrintPc.mayPop] at hm

theorem State.MayPop.of_set {j : ℕ} (h : s'.MayPop j) {pc pc' : PrintPc}
    (hpc : s.printers[i]? = some pc) (hset : s'.printers = s.printers.set i pc')
    (hf : s'.finish = s.finish) (hm : pc'.mayPop s.finish → pc.mayPop s.finish) : s.MayPop j := by
  unfold State.MayPop at h ⊢
  rw [hset, hf] at h
  by_cases hij : j = i
  · subst hij
    rw [counter_set hpc] at h
    exact ⟨pc, hpc, hm h⟩
  · rwa [counter_set_ne hij] at h

/-- **A printing thread** that pops has then popped. -/
theorem Prefilled.print (h : Prefilled t) (hst : PrintStep t.state i s') :
    Prefilled (t.next (.printer i) s') := by
  have hp := h.printing.print hst
  cases hst with
  | pop hpc hb =>
    refine ⟨hp, fun j hj hf => ?_⟩
    have hpop : t.state.popper (.printer i) = [i] := by simp [State.popper, hpc]
    have hcur := h.printing.current_of_mayPop ⟨.pop, hpc, rfl⟩
    -- the thread that pops is the only one that may
    have hji : j = i := by
      by_contra hji
      obtain ⟨pc, hpcj, hm⟩ := hj
      change (t.state.printers.set i _)[j]? = some pc at hpcj
      rw [List.getElem?_set_ne (Ne.symm hji)] at hpcj
      have hcur' := h.printing.current_of_mayPop ⟨pc, hpcj, hm⟩
      rw [hcur, Option.some.injEq] at hcur'
      exact hji hcur'.symm
    subst hji
    unfold Watched.next at hf ⊢
    rw [hpop] at hf
    exact Or.inl (by simpa using hf)
  | reset hpc => exact ⟨hp, fun _ _ _ => Or.inl rfl⟩
  | lock hpc | goesOn hpc _ hfin | quits hpc | finishEarly hpc | unlockEarly hpc
  | unlockPackage hpc | write hpc | lockAgain hpc | unlockEnd hpc | finishEnd hpc =>
    refine h.keep hp (by simp [State.popper, hpc]) (fun j hj => hj.of_set hpc rfl rfl ?_) id
    simp_all [PrintPc.mayPop]

/-- The test at line 330 finds a ripe list, if three times `size` does not wrap. -/
theorem ripe_of_test (hfit : b.size.toNat * 3 < 2 ^ 64)
    (h : UInt64.ofNat b.packages.size * 4 ≥ b.size * 3) : Ripe b := by
  refine Or.inr ?_
  have h := UInt64.le_iff_toNat_le.1 h
  rw [UInt64.toNat_mul, UInt64.toNat_mul, UInt64.toNat_ofNat'] at h
  change b.size.toNat * 3 % 2 ^ 64 ≤ b.packages.size % 2 ^ 64 * 4 % 2 ^ 64 at h
  rw [Nat.mod_eq_of_lt hfit] at h
  calc b.size.toNat * 3 ≤ b.packages.size % 2 ^ 64 * 4 % 2 ^ 64 := h
    _ ≤ b.packages.size % 2 ^ 64 * 4 := Nat.mod_le _ _
    _ ≤ b.packages.size * 4 := Nat.mul_le_mul_right 4 (Nat.mod_le _ _)

/-- A new printing thread finds a ripe list. -/
theorem Prefilled.create (h : Prefilled t) (hfit : t.state.buf.size.toNat * 3 < 2 ^ 64)
    (hm : t.state.createPrinting.MayPop i) (hf : t.fresh = true ∨ i ∉ t.popped) :
    Ripe t.state.buf := by
  unfold State.createPrinting at hm
  split at hm
  · rename_i hcond
    exact ripe_of_test hfit hcond.1
  · exact h.ripe i hm hf

theorem createRequesting_mayPop (s : State) (i : ℕ) : s.createRequesting.MayPop i ↔ s.MayPop i := by
  unfold State.createRequesting
  split <;> rfl

/-- **`data_loop`** never makes a ripe list less so. -/
theorem Prefilled.dataLoop {leave : Bool} {recv : Option Datagram} (h : Prefilled t)
    (hg : Prefills t (.data leave recv)) (hst : DataStep W t.state leave recv s') :
    Prefilled (t.next (.data leave recv) s') := by
  have hp := h.printing.dataLoop hst
  cases hst with
  | leaves | stays | nothing | opens | older | newer | stores | lockAdd | unlockAdd | lockCheck
  | unlockCheck | keepPrinting | closePrinting | keepRequesting | closeRequesting | again | ends
  | lockReset | unlockReset | setStop | noPrinting | joinPrinting | noRequesting | joinRequesting =>
    exact h.keep hp rfl (fun _ hm => hm) id
  | reset => exact h.keep hp rfl (fun _ hm => hm) fun _ => .reset _
  | adding => exact h.keep hp rfl (fun _ hm => hm) fun hr => hr.pass (c := ⟨_, [], false⟩) rfl
  | @add num data hpc =>
    by_cases hfirst : t.state.buf.packages.values = [] ∧ t.state.buf.set.find? num = none
    · obtain ⟨hnil, hkey⟩ := hfirst
      simp only [Prefills, hpc, Watched.PrefillsAt] at hg
      rcases hg hnil hkey with hone | hnone
      · refine h.keep hp rfl (fun _ hm => hm) fun _ => ?_
        show Ripe (t.state.buf.enter num data).buf
        rw [Buffer.enter, hkey]
        dsimp only
        rw [if_pos hnil]
        exact ripe_first hnil hone
      · refine ⟨hp, fun i hm => ?_⟩
        obtain ⟨pc, hpci, hm⟩ := hm
        change t.state.printers[i]? = some pc at hpci
        have hno := hnone pc (List.mem_of_getElem? hpci)
        rw [show pc.mayPop t.state.finish = true from hm] at hno
        cases hno
    · exact h.keep hp rfl (fun _ hm => hm) fun hr => hr.enter fun hnil hkey => hfirst ⟨hnil, hkey⟩
  | check hpc =>
    simp only [Prefills, hpc, Watched.PrefillsAt] at hg
    refine ⟨hp, fun i hm hf => ?_⟩
    have hm : t.state.createPrinting.createRequesting.MayPop i := hm
    rw [createRequesting_mayPop] at hm
    unfold Watched.next at hf ⊢
    show Ripe t.state.createPrinting.createRequesting.buf
    rw [createRequesting_buf, createPrinting_buf]
    by_cases hv : t.state.buf.packages.values = []
    · exact Or.inl hv
    · exact h.create hg hm (by simpa [State.popper, hv] using hf)

/-- **One step** of a run that meets the condition. -/
theorem step_prefilled {e : Event} (h : Prefilled t)
    (hst : Guarded (Fires (watchedStep W)) Prefills t e t') : Prefilled t' := by
  obtain ⟨hst, hg⟩ := hst
  obtain ⟨s', hs, rfl⟩ := Option.map_eq_some_iff.1 hst
  have hp := step_printing h.printing hs
  cases step_cases hs with
  | signal =>
    refine h.keep hp rfl (fun i hm => ?_) id
    -- with `finish` set fewer threads may pop
    obtain ⟨pc, hpc, hm⟩ := hm
    refine ⟨pc, hpc, ?_⟩
    cases pc <;> simp_all [PrintPc.mayPop]
  | run => exact h.keep hp rfl (fun _ hm => hm) id
  | data hd => exact h.dataLoop hg hd
  | printer hpr => exact h.print hpr
  | requester hr =>
    have hf := hr.frame
    refine h.keep hp rfl (fun i hm => ?_) (by rw [hf.buf]; exact id)
    unfold State.MayPop at hm ⊢
    rwa [hf.printers, hf.finish] at hm

/-! ### The breach -/

/-- `data_loop` has set `stop`. -/
def DataPc.stopped : DataPc → Bool
  | .joinPrinting | .joinRequesting | .idle => true
  | _ => false

/-- Whatever the steps: an empty list is fresh, and `stop` is set at the end of `data_loop` only. -/
structure Steady (t : Watched) : Prop where
  empty : t.state.buf.packages.values = [] → t.fresh = true
  going : t.state.data.stopped = false → t.state.stop = false

theorem DataStep.going {leave : Bool} {recv : Option Datagram} (hst : DataStep W s leave recv s')
    (h : s.data.stopped = false → s.stop = false) : s'.data.stopped = false → s'.stop = false := by
  cases hst with
  | leaves hpc | stays hpc | nothing hpc | opens hpc | older hpc | newer hpc | stores hpc
  | lockAdd hpc | add hpc | adding hpc | unlockAdd hpc | lockCheck hpc | unlockCheck hpc
  | keepPrinting hpc | closePrinting hpc | keepRequesting hpc | closeRequesting hpc | again hpc
  | ends hpc | lockReset hpc | reset hpc | unlockReset hpc =>
    exact fun _ => h (by rw [hpc]; rfl)
  | check hpc =>
    intro _
    show s.createPrinting.createRequesting.stop = false
    rw [createRequesting_stop, createPrinting_stop]
    exact h (by rw [hpc]; rfl)
  | setStop | noPrinting | joinPrinting | noRequesting | joinRequesting => simp [DataPc.stopped]

theorem step_steady {e : Event} (h : Steady t) (hst : watchedStep W t e = some t') : Steady t' := by
  obtain ⟨s', hs, rfl⟩ := Option.map_eq_some_iff.1 hst
  constructor
  · intro hv
    change s'.buf.packages.values = [] at hv
    simp [Watched.next, hv]
  · show s'.data.stopped = false → s'.stop = false
    have hg := h.going
    cases step_cases hs with
    | signal => exact hg
    | run => exact fun _ => rfl
    | data hd => exact hd.going hg
    | printer hp => rw [hp.frame.data, hp.frame.stop]; exact hg
    | requester hr => rw [hr.frame.data, hr.frame.stop]; exact hg

theorem init_steady (maxData : UInt64) : Steady (Watched.init maxData) :=
  ⟨fun _ => rfl, fun _ => rfl⟩

/-- A run from here breaks prefill. -/
def Breaks (W : Wild) (t : Watched) : Prop :=
  ∃ es t', exec (watchedStep W) t es = some t' ∧ ¬ PrefillOk t'

theorem Breaks.cons {e : Event} (hst : watchedStep W t e = some t') (h : Breaks W t') : Breaks W t := by
  obtain ⟨es, u, hu, hn⟩ := h
  exact ⟨e :: es, u, by simp [exec, hst, hu], hn⟩

/-- The list is not three quarters full, no package of it was popped, and the printing threads
go on. -/
structure Short (t : Watched) : Prop where
  fresh : t.fresh = true
  listed : t.state.buf.packages.values ≠ []
  short : t.state.buf.packages.size * 4 < t.state.buf.size.toNat * 3
  stop : t.state.stop = false

theorem Short.breaks (h : Short t) (hpc : t.state.printers[i]? = some .pop) : Breaks W t := by
  refine ⟨[], t, rfl, fun hp => ?_⟩
  have := hp i hpc h.listed (Or.inl h.fresh)
  have := h.short
  omega

/-- Printing thread `i` takes a step towards line 366. -/
theorem Short.step (h : Short t) (s' : State) {pc pc' : PrintPc} (hpc : t.state.printers[i]? = some pc)
    (hne : pc ≠ .pop) (hst : step W t.state (.printer i) = some s')
    (hset : s'.printers = t.state.printers.set i pc') (hb : s'.buf = t.state.buf)
    (hs : s'.stop = t.state.stop)
    (hgo : ∀ u : Watched, u.state = s' → Short u → u.state.printers[i]? = some pc' → Breaks W u) :
    Breaks W t := by
  have hw : watchedStep W t (.printer i) = some (t.next (.printer i) s') := by rw [watchedStep, hst]; rfl
  apply Breaks.cons hw
  have hpop : t.state.popper (.printer i) = [] := by
    unfold State.popper
    dsimp only
    rw [hpc]
    cases pc <;> first | rfl | exact absurd rfl hne
  refine hgo _ rfl ⟨?_, ?_, ?_, ?_⟩ ?_
  · simp [Watched.next, hpop, h.fresh]
  · show s'.buf.packages.values ≠ []
    rw [hb]
    exact h.listed
  · show s'.buf.packages.size * 4 < s'.buf.size.toNat * 3
    rw [hb]
    exact h.short
  · show s'.stop = false
    rw [hs]
    exact h.stop
  · show s'.printers[i]? = some pc'
    rw [hset, List.getElem?_set_self (List.getElem?_eq_some_iff.1 hpc).1]

theorem Short.test (h : Short t) (hf : t.state.finish = false)
    (hpc : t.state.printers[i]? = some .test) : Breaks W t := by
  refine h.step (t.state.setPrinter i .pop) hpc (by simp) ?_ rfl rfl rfl
    fun u _ hu hpcu => hu.breaks hpcu
  simp [Receiver.step, hpc, stepPrinter, h.listed, hf, h.stop]

theorem Short.lock (h : Short t) (hf : t.state.finish = false) (hm : t.state.mutexBuffor = none)
    (hpc : t.state.printers[i]? = some .lock ∨ t.state.printers[i]? = some .lockAgain) :
    Breaks W t := by
  have key : ∀ pc, t.state.printers[i]? = some pc → pc = .lock ∨ pc = .lockAgain → Breaks W t := by
    intro pc hpc hor
    refine h.step { t.state.setPrinter i .test with mutexBuffor := some (.printer i) } hpc
      (by rintro rfl; simp at hor) ?_ rfl rfl rfl
      fun u hus hu hpcu => hu.test (by rw [hus]; exact hf) hpcu
    rcases hor with rfl | rfl <;> simp [Receiver.step, hpc, stepPrinter, State.lock, hm]
  rcases hpc with hpc | hpc
  · exact key _ hpc (Or.inl rfl)
  · exact key _ hpc (Or.inr rfl)

theorem Short.write (h : Short t) (hf : t.state.finish = false) (hm : t.state.mutexBuffor = none)
    {p : Package} (hpc : t.state.printers[i]? = some (.write p)) : Breaks W t := by
  refine h.step { t.state.setPrinter i .lockAgain with written := t.state.written ++ [p] } hpc
    (by simp) ?_ rfl rfl rfl
    fun u hus hu hpcu => hu.lock (by rw [hus]; exact hf) (by rw [hus]; exact hm) (Or.inr hpcu)
  simp [Receiver.step, hpc, stepPrinter]

theorem Short.unlockPackage (h : Short t) (hf : t.state.finish = false) {p : Package}
    (hpc : t.state.printers[i]? = some (.unlockPackage p)) : Breaks W t := by
  refine h.step { t.state.setPrinter i (.write p) with mutexBuffor := none } hpc (by simp)
    ?_ rfl rfl rfl fun u hus hu hpcu => hu.write (by rw [hus]; exact hf) (by rw [hus]) hpcu
  simp [Receiver.step, hpc, stepPrinter, State.unlock]

/-- `data_loop` takes a step that leaves the list short. -/
theorem breaks_of_data (hf : t.fresh = true) (s' : State)
    (hst : step W t.state (.data false none) = some s') (hne : s'.buf.packages.values ≠ [])
    (hlt : s'.buf.packages.size * 4 < s'.buf.size.toNat * 3) (hs : s'.stop = false)
    (hgo : ∀ u : Watched, u.state = s' → Short u → Breaks W u) : Breaks W t := by
  have hw : watchedStep W t (.data false none) = some (t.next (.data false none) s') := by
    rw [watchedStep, hst]; rfl
  exact Breaks.cons hw (hgo _ rfl ⟨by simp [Watched.next, State.popper, hf], hne, hlt, hs⟩)

/-- The first package is stored, and a thread may pop. -/
theorem Short.unlockAdd (h : Short t) (hd : t.state.data = .unlockAdd) (hm : t.state.MayPop i) :
    Breaks W t := by
  obtain ⟨pc, hpc, hm⟩ := hm
  have hpc : t.state.printers[i]? = some pc := hpc
  -- a thread before a lock waits for line 326
  have hlock : ∀ {pc : PrintPc}, t.state.printers[i]? = some pc →
      (∀ u : Watched, Short u → u.state.finish = t.state.finish → u.state.mutexBuffor = none →
        u.state.printers[i]? = some pc → Breaks W u) → Breaks W t := by
    intro pc hpc hgo
    refine breaks_of_data h.fresh { t.state with data := .lockCheck, mutexBuffor := none } ?_ h.listed
      h.short h.stop fun u hus hu => hgo u hu (by rw [hus]) (by rw [hus]) (by rw [hus]; exact hpc)
    simp [Receiver.step, stepData, hd, State.unlock]
  cases pc with
  | pop => exact h.breaks hpc
  | test => exact h.test (by simpa [PrintPc.mayPop] using hm) hpc
  | unlockPackage p => exact h.unlockPackage (by simpa [PrintPc.mayPop] using hm) hpc
  | lock =>
    have hf : t.state.finish = false := by simpa [PrintPc.mayPop] using hm
    exact hlock hpc fun u hu hfu hmu hpcu => hu.lock (by rw [hfu, hf]) hmu (Or.inl hpcu)
  | lockAgain =>
    have hf : t.state.finish = false := by simpa [PrintPc.mayPop] using hm
    exact hlock hpc fun u hu hfu hmu hpcu => hu.lock (by rw [hfu, hf]) hmu (Or.inr hpcu)
  | write p =>
    have hf : t.state.finish = false := by simpa [PrintPc.mayPop] using hm
    exact hlock hpc fun u hu hfu hmu hpcu => hu.write (by rw [hfu, hf]) hmu hpcu
  | reset | finishEarly | unlockEarly | unlockEnd | finishEnd | done => cases hm

/-- **A first package** comes into an empty list while thread `i` may pop: the thread can come to
it before another package does. -/
theorem Steady.breaks (h : Steady t) (hpc : t.state.data = .add num data)
    (hnil : t.state.buf.packages.values = []) (hkey : t.state.buf.set.find? num = none)
    (hroom : 1 < (t.state.buf.maxData / UInt64.ofNat data.length).toNat) (hm : t.state.MayPop i) :
    Breaks W t := by
  have hstop := h.going (by rw [hpc]; rfl)
  have hsize : (t.state.buf.packages.pushBack ⟨data, num⟩).size = 1 := by
    rw [NodeList.size_pushBack, ← NodeList.length_values, hnil]
    rfl
  refine breaks_of_data (h.empty hnil) { t.state with
    buf := { t.state.buf with
      size := t.state.buf.maxData / UInt64.ofNat data.length }.append num data
    data := .unlockAdd } ?_ ?_ ?_ hstop fun u hus hu => hu.unlockAdd (by rw [hus]) (by rw [hus]; exact hm)
  · simp [step, stepData, hpc, Buffer.enter, hkey, hnil, State.inCall]
  · show (t.state.buf.packages.pushBack ⟨data, num⟩).values ≠ []
    simp
  · show (t.state.buf.packages.pushBack ⟨data, num⟩).size * 4 <
      (t.state.buf.maxData / UInt64.ofNat data.length).toNat * 3
    omega

/-- **Prefill over a run.** In every run whose steps meet the condition, a thread that pops its
first package, or the first one since the list was empty, pops from a list three quarters full.
Where a first package comes while a thread may pop, prefill breaks in a run from there. That
`size * 3` does not wrap around is shown to be enough only. -/
theorem prefill_ok {W : Wild} {maxData : UInt64} {es : List Event} {t : Watched}
    (h : Run (Guarded (Fires (watchedStep W)) Prefills) (Watched.init maxData) es t) :
    PrefillOk t ∧ ∀ num data i, t.state.data = .add num data → t.state.buf.packages.values = [] →
      t.state.buf.set.find? num = none →
      1 < (t.state.buf.maxData / UInt64.ofNat data.length).toNat → t.state.MayPop i → Breaks W t := by
  have hp : Prefilled t := h.inv (init_prefilled maxData) fun _ _ _ hI hst => step_prefilled hI hst
  have hst : Steady t := h.inv (init_steady maxData) fun _ _ _ hI hst => step_steady hI hst.1
  refine ⟨fun i hpc hne hf => ?_, fun num data i => hst.breaks⟩
  rcases hp.ripe i ⟨.pop, hpc, rfl⟩ hf with hr | hr
  · exact absurd hr hne
  · exact hr

/-- Packets 0 and 1 of one byte fill a list for two: the thread finds both. -/
theorem prefill_ok_full : ∃ t, t.state.printers[0]? = some .pop ∧ t.state.buf.nums = [0, 1] ∧
    PrefillOk t := by
  have he : exec (guarded (watchedStep ⟨fun _ _ => 0, fun _ _ => 0⟩) Prefills) (Watched.init 2)
      (.run :: receives 0 8 ++ receives 1 6 ++ List.replicate 2 (.printer 0)) = some _ := rfl
  exact ⟨_, rfl, rfl, (prefill_ok (exec_guarded he)).1⟩

/-- No packet comes in the first iteration: the empty list passes the test at line 330, and the
thread it creates pops the first of the eight packages that the list has room for. -/
theorem plays_from_first : ¬ ∀ (W : Wild) (maxData : UInt64) (es : List Event) (t : Watched),
    Run (Fires (watchedStep W)) (Watched.init maxData) es t → PrefillOk t := by
  intro h
  have he : exec (watchedStep ⟨fun _ _ => 0, fun _ _ => 0⟩) (Watched.init 8)
      (.run :: List.replicate 8 (.data false none) ++ receives 0 2 ++ List.replicate 2 (.printer 0)) =
        some _ := rfl
  have hp := h _ _ _ _ (exec_run he) 0 rfl (by decide) (Or.inl rfl)
  exact absurd hp (by decide)

end SikMimuw.Receiver
