import SikMimuw.Proof.Buffor
import SikMimuw.Proof.Threads

/-!
# The copies of `set`

A requesting thread copies `set` with `mutex_buffor` held and reads `elem.second->num` through
the copy without it. Between the two, a package of the copy can go: a printing thread pops it,
`add_to_buffor` evicts it, or one of them, or `data_loop`, empties the list.

* `Stands`: an iterator designates the package of its key. Everything that adds to the list keeps
  it (`Stands.pushBack`, `Stands.fill`), and so does a `popFront` of another package.
* `KeepsSnapshots`: the step takes away no package that a thread is still to read, and copies
  no iterator that is stale already.
* `snapshot_ok`: in runs of such steps every iterator that is read stands, and any other step
  lets a thread come to one that does not.
-/

namespace SikMimuw.Receiver

open Lts

variable {W : Wild} {s s' : State} {i it : ℕ} {k num : UInt64} {data : List UInt8} {b : Buffer}
  {l : NodeList Package} {p : Package}

/-- **The iterator of key `k`** designates the package numbered `k`. -/
def Stands (l : NodeList Package) (k : UInt64) (it : ℕ) : Prop := ∃ p, l.Designates it p ∧ p.num = k

theorem Stands.pushBack (h : Stands l k it) : Stands (l.pushBack p) k it := by
  obtain ⟨q, hq, hk⟩ := h
  exact ⟨q, NodeList.designates_pushBack.2 (Or.inl hq), hk⟩

theorem Stands.modify {it' : ℕ} (h : Stands l k it) (data : List UInt8) :
    Stands (l.modify it' fun p => { p with data := data }) k it := by
  obtain ⟨q, hq, hk⟩ := h
  by_cases hit : it = it'
  · subst hit
    refine ⟨{ q with data := data }, NodeList.designates_modify.2 ?_, hk⟩
    rw [if_pos rfl]
    exact ⟨q, hq, rfl⟩
  · exact ⟨q, NodeList.designates_modify.2 (by rw [if_neg hit]; exact hq), hk⟩

theorem Stands.popFront (h : Stands l k it) (hne : l.front ≠ some it) :
    Stands l.popFront k it := by
  obtain ⟨q, hq, hk⟩ := h
  cases hl : l.nodes with
  | nil =>
    unfold NodeList.Designates at hq
    rw [hl] at hq
    cases hq
  | cons n ns =>
    refine ⟨q, (NodeList.designates_popFront hl).2 ⟨hq, ?_⟩, hk⟩
    rintro rfl
    exact hne (by simp [NodeList.front, hl])

theorem not_stands_popFront (hf : l.front = some it) : ¬ Stands l.popFront k it := by
  rintro ⟨q, hq, -⟩
  obtain ⟨n, hn, rfl⟩ := Option.map_eq_some_iff.1 hf
  obtain ⟨ns, hl⟩ := List.head?_eq_some_iff.1 hn
  exact ((NodeList.designates_popFront hl).1 hq).2 rfl

theorem not_stands_clear : ¬ Stands l.clear k it := fun ⟨_, hq, _⟩ => NodeList.not_designates_clear hq

theorem Stands.numAt (h : Stands b.packages k it) : b.numAt W it = k := by
  obtain ⟨q, hq, hk⟩ := h
  rw [Buffer.numAt, NodeList.deref_eq_some.2 hq]
  exact hk

/-! ### What `add_to_buffor` takes away -/

/-- The next pass of the loop evicts the front. -/
def Buffer.evicts (b : Buffer) (num : UInt64) (data : List UInt8) : Bool :=
  match b.packages.values.head?, b.packages.values.getLast? with
  | some front, some back => decide (b.packages.size + 1 = b.size.toNat) && decide (front.num ≤ num) &&
      decide (back.num + UInt64.ofNat data.length ≠ num)
  | _, _ => false

theorem stands_enter (h : Stands b.packages k it) : Stands (b.enter num data).buf.packages k it := by
  have hc := enter_case b num data
  generalize b.enter num data = c at hc
  cases hc with
  | fill => exact h.modify data
  | first => exact h.pushBack
  | loop => exact h

/-- **A pass of the loop** takes away the front, if it evicts. -/
theorem stands_pass (h : Stands b.packages k it)
    (hev : b.evicts num data = true → b.packages.front ≠ some it) :
    Stands (Call.pass W num data ⟨b, [], false⟩).buf.packages k it := by
  have hc := pass_case W num data (c := ⟨b, [], false⟩) rfl
  generalize Call.pass W num data ⟨b, [], false⟩ = c at hc
  cases hc with
  | stop => exact h
  | append => exact h.pushBack
  | dummy => exact h.pushBack
  | evict hf hb hfull hge hgap he =>
    subst he
    refine h.pushBack.popFront ?_
    rw [NodeList.front_pushBack fun h0 => by simp [NodeList.values, h0] at hf]
    exact hev (by simp [Buffer.evicts, hf, hb, hfull, hge, hgap])

/-- The front that a pass evicts. -/
theorem not_stands_pass (hev : b.evicts num data = true) (hf : b.packages.front = some it) :
    ¬ Stands (Call.pass W num data ⟨b, [], false⟩).buf.packages k it := by
  have hc := pass_case W num data (c := ⟨b, [], false⟩) rfl
  generalize Call.pass W num data ⟨b, [], false⟩ = c at hc
  unfold Buffer.evicts at hev
  cases hfr : b.packages.values.head? with
  | none => simp [hfr] at hev
  | some front =>
    cases hbk : b.packages.values.getLast? with
    | none => simp [hfr, hbk] at hev
    | some back =>
      simp only [hfr, hbk, Bool.and_eq_true, decide_eq_true_eq] at hev
      obtain ⟨⟨hfull, hge⟩, hgap⟩ := hev
      cases hc with
      | stop h =>
        rcases h with h | h | ⟨f, hfm, hlt⟩
        · dsimp only at h
          omega
        · simp [h] at hfr
        · rw [hfr, Option.mem_some_iff] at hfm
          subst hfm
          exact absurd hge (not_le.2 hlt)
      | append _ hb _ _ hnext =>
        rw [hbk, Option.some.injEq] at hb
        subst hb
        exact absurd hnext hgap
      | dummy _ _ hroom =>
        dsimp only at hroom
        omega
      | evict _ _ _ _ _ he =>
        subst he
        refine not_stands_popFront ?_
        show (b.packages.pushBack _).front = some it
        rw [NodeList.front_pushBack fun h0 => by simp [NodeList.values, h0] at hfr]
        exact hf

/-! ### The copies -/

/-- The iterators that a thread at `pc` is still to read, with their keys. -/
def RequestPc.pending : RequestPc → List (UInt64 × ℕ)
  | .unlock copySet => copySet.entries
  | .reading todo _ => todo
  | _ => []

def State.pending (s : State) : List (UInt64 × ℕ) := s.requesters.flatMap RequestPc.pending

/-- **Snapshots**: an iterator about to be read designates the package of its key, so the number
read is the key. -/
def SnapshotOk (W : Wild) (s : State) : Prop :=
  ∀ (i : ℕ) k it todo nums, s.requesters[i]? = some (.reading ((k, it) :: todo) nums) →
    Stands s.buf.packages k it ∧ s.buf.numAt W it = k

/-- A printing thread at `pc` takes away no package that is still to be read. -/
def State.KeepsPrint (s : State) : PrintPc → Prop
  | .pop => ∀ e ∈ s.pending, s.buf.packages.front ≠ some e.2
  | .reset => s.pending = []
  | _ => True

/-- `data_loop` at `pc` takes away no package that is still to be read. -/
def State.KeepsData (s : State) : DataPc → Prop
  | .adding num data => s.buf.evicts num data = true → ∀ e ∈ s.pending, s.buf.packages.front ≠ some e.2
  | .reset => s.pending = []
  | _ => True

/-- A requesting thread at `pc` copies no stale iterator. -/
def State.KeepsRequest (s : State) : RequestPc → Prop
  | .copy => ∀ e ∈ s.buf.set.entries, s.buf.packages.deref e.2 ≠ none
  | _ => True

/-- The step takes away no package that is still to be read, and copies no stale iterator. -/
def KeepsSnapshots (s : State) : Event → Prop
  | .data .. => s.KeepsData s.data
  | .printer i => ∀ pc ∈ s.printers[i]?, s.KeepsPrint pc
  | .requester i => ∀ pc ∈ s.requesters[i]?, s.KeepsRequest pc
  | _ => True

instance instDecidableKeepsPrint (s : State) (pc : PrintPc) : Decidable (s.KeepsPrint pc) :=
  match pc with
  | .pop => inferInstanceAs (Decidable (∀ e ∈ s.pending, s.buf.packages.front ≠ some e.2))
  | .reset => inferInstanceAs (Decidable (s.pending = []))
  | .lock | .test | .finishEarly | .unlockEarly | .unlockPackage _ | .write _ | .lockAgain
  | .unlockEnd | .finishEnd | .done => .isTrue trivial

instance instDecidableKeepsData (s : State) (pc : DataPc) : Decidable (s.KeepsData pc) :=
  match pc with
  | .adding num data => inferInstanceAs (Decidable (s.buf.evicts num data = true →
      ∀ e ∈ s.pending, s.buf.packages.front ≠ some e.2))
  | .reset => inferInstanceAs (Decidable (s.pending = []))
  | .idle | .head | .recv | .lockAdd .. | .add .. | .unlockAdd | .lockCheck | .check | .unlockCheck
  | .closePrinting | .closeRequesting | .test | .lockReset | .unlockReset | .setStop
  | .joinPrinting | .joinRequesting => .isTrue trivial

instance instDecidableKeepsRequest (s : State) (pc : RequestPc) : Decidable (s.KeepsRequest pc) :=
  match pc with
  | .copy => inferInstanceAs
      (Decidable (∀ e ∈ s.buf.set.entries, s.buf.packages.deref e.2 ≠ none))
  | .test | .lock | .unlock _ | .reading .. | .unlockAgain | .done => .isTrue trivial

instance instDecidableKeepsSnapshots (s : State) (e : Event) : Decidable (KeepsSnapshots s e) :=
  match e with
  | .data .. => inferInstanceAs (Decidable (s.KeepsData s.data))
  | .printer i => inferInstanceAs (Decidable (∀ pc ∈ s.printers[i]?, s.KeepsPrint pc))
  | .requester i => inferInstanceAs (Decidable (∀ pc ∈ s.requesters[i]?, s.KeepsRequest pc))
  | .signal | .run => .isTrue trivial

/-- **The invariant**: every iterator still to be read stands. -/
structure Snapshots (s : State) : Prop where
  keyed : Keyed s.buf
  stands : ∀ e ∈ s.pending, Stands s.buf.packages e.1 e.2

theorem mem_pending {e : UInt64 × ℕ} :
    e ∈ s.pending ↔ ∃ (i : ℕ) (pc : RequestPc), s.requesters[i]? = some pc ∧ e ∈ pc.pending := by
  unfold State.pending
  rw [List.mem_flatMap]
  constructor
  · rintro ⟨pc, hpc, he⟩
    obtain ⟨i, hi⟩ := List.mem_iff_getElem?.1 hpc
    exact ⟨i, pc, hi, he⟩
  · rintro ⟨i, pc, hi, he⟩
    exact ⟨pc, List.mem_of_getElem? hi, he⟩

theorem pending_eq (h : s'.requesters = s.requesters) : s'.pending = s.pending := by
  rw [State.pending, State.pending, h]

theorem init_snapshots (maxData : UInt64) : Snapshots (State.init maxData) :=
  ⟨init_keyed maxData, by simp [State.init, State.pending]⟩

/-- A step that leaves the requesting threads alone. -/
theorem Snapshots.keep (h : Snapshots s) (hr : s'.requesters = s.requesters) (hk : Keyed s'.buf)
    (hs : ∀ e ∈ s.pending, Stands s.buf.packages e.1 e.2 → Stands s'.buf.packages e.1 e.2) :
    Snapshots s' := by
  refine ⟨hk, ?_⟩
  rw [pending_eq hr]
  exact fun e he => hs e he (h.stands e he)

/-- A requesting thread moves. -/
theorem Snapshots.request (h : Snapshots s) (hk : KeepsSnapshots s (.requester i))
    (hst : RequestStep W s i s') : Snapshots s' := by
  have hf := hst.frame
  refine ⟨by rw [hf.buf]; exact h.keyed, fun e he => ?_⟩
  rw [hf.buf]
  -- what a thread is to read it was to read before, unless it has just copied `set`
  have hold : ∀ pc pc', s.requesters[i]? = some pc → s'.requesters = s.requesters.set i pc' →
      (e ∈ pc'.pending → Stands s.buf.packages e.1 e.2) → Stands s.buf.packages e.1 e.2 := by
    intro pc pc' hpc hset hnew
    obtain ⟨j, q, hj, hq⟩ := mem_pending.1 he
    rw [hset] at hj
    by_cases hij : i = j
    · subst hij
      rw [List.getElem?_set_self (List.getElem?_eq_some_iff.1 hpc).1, Option.some.injEq] at hj
      subst hj
      exact hnew hq
    · rw [List.getElem?_set_ne hij] at hj
      exact h.stands e (mem_pending.2 ⟨j, q, hj, hq⟩)
  cases hst with
  | copy hpc =>
    refine hold _ _ hpc rfl fun hn => ?_
    have hd := hk _ hpc e hn
    obtain ⟨p, hp⟩ := Option.ne_none_iff_exists'.1 hd
    have hp := NodeList.deref_eq_some.1 hp
    exact ⟨p, hp, h.keyed.num _ _ _ hn hp⟩
  | unlock hpc =>
    refine hold _ _ hpc rfl fun hn => h.stands e (mem_pending.2 ⟨i, _, hpc, ?_⟩)
    split at hn
    · cases hn
    · exact hn
  | read hpc =>
    exact hold _ _ hpc rfl fun hn =>
      h.stands e (mem_pending.2 ⟨i, _, hpc, List.mem_cons_of_mem _ hn⟩)
  | goesOn hpc | quits hpc | lock hpc | sent hpc | unlockAgain hpc =>
    exact hold _ _ hpc rfl fun hn => (by cases hn)

/-- A printing thread moves. -/
theorem Snapshots.print (h : Snapshots s) (hk : KeepsSnapshots s (.printer i))
    (hst : PrintStep s i s') : Snapshots s' := by
  cases hst with
  | pop hpc hb =>
    obtain ⟨-, rfl⟩ := pop_eq_some.1 hb
    exact h.keep rfl (h.keyed.popFront fun _ he => he) fun e he hs =>
      hs.popFront (hk _ hpc e he)
  | reset hpc =>
    refine h.keep rfl (reset_keyed _) fun e he => ?_
    rw [hk _ hpc] at he
    cases he
  | lock | goesOn | quits | finishEarly | unlockEarly | unlockPackage | write | lockAgain | unlockEnd
  | finishEnd => exact h.keep rfl h.keyed fun _ _ hs => hs

/-- `data_loop` moves. -/
theorem Snapshots.dataLoop {leave : Bool} {recv : Option Datagram} (h : Snapshots s)
    (hk : KeepsSnapshots s (.data leave recv)) (hst : DataStep W s leave recv s') : Snapshots s' := by
  change s.KeepsData s.data at hk
  cases hst with
  | leaves | stays | nothing | opens | older | newer | stores | lockAdd | unlockAdd | lockCheck
  | unlockCheck | keepPrinting | closePrinting | keepRequesting | closeRequesting | again | ends
  | lockReset | unlockReset | setStop | noPrinting | joinPrinting | noRequesting | joinRequesting =>
    exact h.keep rfl h.keyed fun _ _ hs => hs
  | add => exact h.keep rfl (h.keyed.enter) fun _ _ hs => stands_enter hs
  | adding hpc =>
    rw [hpc] at hk
    refine h.keep rfl (h.keyed.pass (c := ⟨_, [], false⟩) rfl) fun e he hs => ?_
    exact stands_pass hs fun hev => hk hev e he
  | reset hpc =>
    rw [hpc] at hk
    refine h.keep rfl (reset_keyed _) fun e he => ?_
    rw [show s.pending = [] from hk] at he
    cases he
  | check =>
    refine ⟨by simpa using h.keyed, fun e he => ?_⟩
    have he : e ∈ s.createPrinting.createRequesting.pending := he
    have hp : s.createPrinting.createRequesting.pending = s.pending := by
      unfold State.createRequesting State.createPrinting State.pending
      split <;> split <;> simp [RequestPc.pending]
    rw [hp] at he
    simpa using h.stands e he

/-- **One step** that keeps the snapshots. -/
theorem step_snapshots {e : Event} (h : Snapshots s)
    (hst : Guarded (Fires (step W)) KeepsSnapshots s e s') : Snapshots s' := by
  obtain ⟨hst, hk⟩ := hst
  cases step_cases hst with
  | signal => exact h.keep rfl h.keyed fun _ _ hs => hs
  | run => exact h.keep rfl h.keyed fun _ _ hs => hs
  | data hd => exact h.dataLoop hk hd
  | printer hp => exact h.print hk hp
  | requester hr => exact h.request hk hr

/-! ### A stale read -/

/-- A run from here comes to the read of a stale iterator. -/
def ReadsStale (W : Wild) (s : State) : Prop :=
  ∃ es u, exec (step W) s es = some u ∧ ¬ SnapshotOk W u

theorem ReadsStale.cons {e : Event} (hst : step W s e = some s') (h : ReadsStale W s') :
    ReadsStale W s := by
  obtain ⟨es, u, hu, hn⟩ := h
  exact ⟨e :: es, u, by simp [exec, hst, hu], hn⟩

/-- A thread that reads its copy comes to each of its iterators. -/
theorem reading_stale {todo : List (UInt64 × ℕ)} : ∀ {s : State} {nums : List UInt64},
    s.requesters[i]? = some (.reading todo nums) → (k, it) ∈ todo →
      ¬ Stands s.buf.packages k it → ReadsStale W s := by
  induction todo with
  | nil => intro s nums _ hm; cases hm
  | cons e todo ih =>
    intro s nums hpc hm hn
    obtain ⟨k', it'⟩ := e
    rcases List.mem_cons.1 hm with he | hm
    · obtain ⟨rfl, rfl⟩ := Prod.mk.injEq _ _ _ _ ▸ he
      exact ⟨[], s, rfl, fun hok => hn (hok i _ _ _ _ hpc).1⟩
    · have hst : step W s (.requester i) =
          some (s.setRequester i (.reading todo (nums ++ [s.buf.numAt W it']))) := by
        simp [step, hpc, stepRequester]
      have hnext : (s.setRequester i (.reading todo (nums ++ [s.buf.numAt W it']))).requesters[i]? =
          some (.reading todo (nums ++ [s.buf.numAt W it'])) :=
        List.getElem?_set_self (List.getElem?_eq_some_iff.1 hpc).1
      exact ReadsStale.cons hst (ih hnext hm hn)

/-- An iterator still to be read is read in the end. -/
theorem pending_stale {e : UInt64 × ℕ} (he : e ∈ s.pending) (hn : ¬ Stands s.buf.packages e.1 e.2) :
    ReadsStale W s := by
  obtain ⟨i, pc, hpc, he⟩ := mem_pending.1 he
  have hlt : i < s.requesters.length := (List.getElem?_eq_some_iff.1 hpc).1
  cases pc with
  | unlock copySet =>
    have hne : copySet.entries ≠ [] := List.ne_nil_of_mem he
    have hst : step W s (.requester i) =
        some { s.setRequester i (.reading copySet.entries []) with mutexBuffor := none } := by
      simp [step, hpc, stepRequester, hne, State.unlock]
    exact ReadsStale.cons hst (reading_stale (List.getElem?_set_self hlt) he hn)
  | reading todo nums => exact reading_stale hpc he hn
  | test | lock | copy | unlockAgain | done => cases he

theorem DataStep.stale {leave : Bool} {recv : Option Datagram} (hst : DataStep W s leave recv s')
    (hn : ¬ KeepsSnapshots s (.data leave recv)) : ReadsStale W s' := by
  change ¬ s.KeepsData s.data at hn
  cases hst with
  | adding hpc =>
    rw [hpc] at hn
    unfold State.KeepsData at hn
    push Not at hn
    obtain ⟨hev, e, he, hf⟩ := hn
    exact pending_stale (e := e) he (not_stands_pass hev hf)
  | reset hpc =>
    rw [hpc] at hn
    obtain ⟨e, he⟩ := List.exists_mem_of_ne_nil _ hn
    exact pending_stale (e := e) he not_stands_clear
  | leaves hpc | stays hpc | nothing hpc | opens hpc | older hpc | newer hpc | stores hpc
  | lockAdd hpc | add hpc | unlockAdd hpc | lockCheck hpc | check hpc | unlockCheck hpc
  | keepPrinting hpc | closePrinting hpc | keepRequesting hpc | closeRequesting hpc | again hpc
  | ends hpc | lockReset hpc | unlockReset hpc | setStop hpc | noPrinting hpc | joinPrinting hpc
  | noRequesting hpc | joinRequesting hpc =>
    rw [hpc] at hn
    exact absurd trivial hn

theorem PrintStep.stale (hst : PrintStep s i s') (hn : ¬ KeepsSnapshots s (.printer i)) :
    ReadsStale W s' := by
  unfold KeepsSnapshots at hn
  push Not at hn
  obtain ⟨pc, hpc, hn⟩ := hn
  cases hst with
  | pop hpc' hb =>
    rw [hpc', Option.mem_some_iff] at hpc
    subst hpc
    unfold State.KeepsPrint at hn
    push Not at hn
    obtain ⟨e, he, hf⟩ := hn
    obtain ⟨-, rfl⟩ := pop_eq_some.1 hb
    exact pending_stale (e := e) he (not_stands_popFront hf)
  | reset hpc' =>
    rw [hpc', Option.mem_some_iff] at hpc
    subst hpc
    obtain ⟨e, he⟩ := List.exists_mem_of_ne_nil _ hn
    exact pending_stale (e := e) he not_stands_clear
  | lock hpc' | goesOn hpc' | quits hpc' | finishEarly hpc' | unlockEarly hpc' | unlockPackage hpc'
  | write hpc' | lockAgain hpc' | unlockEnd hpc' | finishEnd hpc' =>
    rw [hpc', Option.mem_some_iff] at hpc
    subst hpc
    exact absurd trivial hn

theorem RequestStep.stale (hst : RequestStep W s i s') (hn : ¬ KeepsSnapshots s (.requester i)) :
    ReadsStale W s' := by
  unfold KeepsSnapshots at hn
  push Not at hn
  obtain ⟨pc, hpc, hn⟩ := hn
  cases hst with
  | copy hpc' =>
    rw [hpc', Option.mem_some_iff] at hpc
    subst hpc
    unfold State.KeepsRequest at hn
    push Not at hn
    obtain ⟨e, he, hd⟩ := hn
    refine pending_stale (e := e) (mem_pending.2 ⟨_, .unlock s.buf.set,
      List.getElem?_set_self (List.getElem?_eq_some_iff.1 hpc').1, he⟩) ?_
    rintro ⟨p, hp, -⟩
    have hp : s.buf.packages.Designates e.2 p := hp
    rw [NodeList.deref_eq_some.2 hp] at hd
    cases hd
  | goesOn hpc' | quits hpc' | lock hpc' | unlock hpc' | sent hpc' | read hpc' | unlockAgain hpc' =>
    rw [hpc', Option.mem_some_iff] at hpc
    subst hpc
    exact absurd trivial hn

/-- **Any other step** leaves a stale iterator to be read. -/
theorem stale_of_not_keeps {e : Event} (hst : step W s e = some s') (hn : ¬ KeepsSnapshots s e) :
    ReadsStale W s' := by
  cases step_cases hst with
  | signal => exact absurd trivial hn
  | run => exact absurd trivial hn
  | data hd => exact hd.stale hn
  | printer hp => exact hp.stale hn
  | requester hr => exact hr.stale hn

/-- **Snapshots over a run.** In every run whose steps keep the snapshots, every iterator about to be
read designates the package of its key. Any other step can be followed by a stale read. -/
theorem snapshot_ok {W : Wild} {maxData : UInt64} {es : List Event} {s : State}
    (h : Run (Guarded (Fires (step W)) KeepsSnapshots) (State.init maxData) es s) :
    SnapshotOk W s ∧ ∀ e s', step W s e = some s' → ¬ KeepsSnapshots s e → ReadsStale W s' := by
  have hs : Snapshots s := h.inv (init_snapshots maxData) fun _ _ _ hI hst => step_snapshots hI hst
  refine ⟨fun i k it todo nums hpc => ?_, fun e s' => stale_of_not_keeps⟩
  have hpend : (k, it) ∈ s.pending := mem_pending.2 ⟨i, _, hpc, by simp [RequestPc.pending]⟩
  have hst : Stands s.buf.packages k it := hs.stands (k, it) hpend
  exact ⟨hst, hst.numAt⟩

/-- Packet 1 is missing when the requesting thread copies `set`, and when it reads the copy. -/
theorem snapshot_ok_one_missing : ∃ s, s.requesters[0]? = some (.reading [(1, 1)] []) ∧
    SnapshotOk ⟨fun _ _ => 0, fun _ _ => 0⟩ s := by
  have he : exec (guarded (step ⟨fun _ _ => 0, fun _ _ => 0⟩) KeepsSnapshots) (State.init 8)
      (missesOne ++ List.replicate 4 (.requester 0)) = some _ := rfl
  exact ⟨_, rfl, (snapshot_ok (exec_guarded he)).1⟩

/-- Between the copy and the read `data_loop` leaves its station, and `reset` takes package 1 away. -/
theorem copy_outlives_package : ¬ ∀ (W : Wild) (maxData : UInt64) (es : List Event) (s : State),
    Run (Fires (step W)) (State.init maxData) es s → SnapshotOk W s := by
  intro h
  have he : exec (step ⟨fun _ _ => 0, fun _ _ => 0⟩) (State.init 8)
      (missesOne ++ List.replicate 4 (.requester 0) ++
        [.data true none, .data false none, .data false none]) = some _ := rfl
  exact not_stands_clear (h _ _ _ _ (exec_run he) 0 1 1 [] [] rfl).1

end SikMimuw.Receiver
