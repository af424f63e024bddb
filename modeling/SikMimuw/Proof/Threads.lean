import SikMimuw.Lib.Mutex
import SikMimuw.Lib.Run
import SikMimuw.Proof.Receiver

/-!
# Mutual exclusion of `mutex_buffor`

Line 262 of `requesting_loop` unlocks the mutex a second time when the copied `set` is empty.
The thread does not hold it there, so another thread can lose it in the middle of its section.

* `step_excl`: the mutex is held by the one thread inside a section, from one state to the
  next, unless the event copies an empty `set`.
* `nonempty_copies_exclude`: in a run without such a copy `mutex_buffor` does its work, and
  such a copy takes its thread to an unlock of a mutex it does not hold.
* `empty_copy_breaks`: a run in which two threads are inside.
-/

namespace SikMimuw.Receiver

open Lts Mutex

variable {W : Wild} {s s' : State} {i : ℕ}

/-- `data_loop` is between a lock and its unlock. -/
def DataPc.inside : DataPc → Bool
  | .add .. | .adding .. | .unlockAdd | .check | .unlockCheck | .reset | .unlockReset => true
  | _ => false

def PrintPc.inside : PrintPc → Bool
  | .test | .pop | .reset | .finishEarly | .unlockEarly | .unlockPackage _ | .unlockEnd => true
  | _ => false

def RequestPc.inside : RequestPc → Bool
  | .copy | .unlock _ => true
  | _ => false

/-- The next step of `data_loop` is an unlock. -/
def DataPc.unlocks : DataPc → Bool
  | .unlockAdd | .unlockCheck | .unlockReset => true
  | _ => false

def PrintPc.unlocks : PrintPc → Bool
  | .unlockEarly | .unlockPackage _ | .unlockEnd => true
  | _ => false

def RequestPc.unlocks : RequestPc → Bool
  | .unlock _ | .unlockAgain => true
  | _ => false

/-- Thread `t` is between a lock of `mutex_buffor` and its matching unlock. -/
def State.inside (s : State) : Tid → Prop
  | .data => s.data.inside
  | .printer i => ∃ pc ∈ s.printers[i]?, pc.inside
  | .requester i => ∃ pc ∈ s.requesters[i]?, pc.inside

/-- The next step of thread `t` unlocks `mutex_buffor`. -/
def State.unlocks (s : State) : Tid → Prop
  | .data => s.data.unlocks
  | .printer i => ∃ pc ∈ s.printers[i]?, pc.unlocks
  | .requester i => ∃ pc ∈ s.requesters[i]?, pc.unlocks

/-- **Mutual exclusion**: at most one thread is inside a section, and a thread that unlocks holds
the mutex. -/
def MutexOk (s : State) : Prop :=
  (∀ t u, s.inside t → s.inside u → t = u) ∧ ∀ t, s.unlocks t → s.mutexBuffor = some t

/-- The next step of a requesting thread copies `set`. -/
def RequestPc.copies : RequestPc → Bool
  | .copy => true
  | _ => false

/-- A requesting thread that copies `set` (line 236) finds a key in it. -/
def CopiesKeys (s : State) : Event → Prop
  | .requester i => ∀ pc ∈ s.requesters[i]?, pc.copies → s.buf.set.entries ≠ []
  | _ => True

instance (s : State) (e : Event) : Decidable (CopiesKeys s e) :=
  match e with
  | .requester i =>
    inferInstanceAs (Decidable (∀ pc ∈ s.requesters[i]?, pc.copies → s.buf.set.entries ≠ []))
  | .signal | .run | .data .. | .printer _ => .isTrue trivial

/-! ### One thread -/

/-- `data_loop` leaves the requesting threads alone, and adds printing and requesting threads that
are not in a section. -/
structure DataFrame (s s' : State) : Prop where
  printers : ∃ l, s'.printers = s.printers ++ l ∧ ∀ pc ∈ l, pc = .lock
  requesters : ∃ l, s'.requesters = s.requesters ++ l ∧ ∀ pc ∈ l, pc = .test

theorem DataFrame.of_eq (hp : s'.printers = s.printers) (hr : s'.requesters = s.requesters) :
    DataFrame s s' := ⟨⟨[], by simp [hp]⟩, ⟨[], by simp [hr]⟩⟩

theorem createPrinting_frame (s : State) : DataFrame s s.createPrinting := by
  unfold State.createPrinting
  split
  · exact ⟨⟨[.lock], rfl, by simp⟩, ⟨[], by simp⟩⟩
  · exact .of_eq rfl rfl

theorem createRequesting_frame (s : State) : DataFrame s s.createRequesting := by
  unfold State.createRequesting
  split
  · exact ⟨⟨[], by simp⟩, ⟨[.test], rfl, by simp⟩⟩
  · exact .of_eq rfl rfl

theorem DataFrame.trans {u : State} (h : DataFrame s s') (h' : DataFrame s' u) : DataFrame s u := by
  obtain ⟨⟨l, hl, hp⟩, ⟨m, hm, hr⟩⟩ := h
  obtain ⟨⟨l', hl', hp'⟩, ⟨m', hm', hr'⟩⟩ := h'
  exact ⟨⟨l ++ l', by rw [hl', hl, List.append_assoc], List.forall_mem_append.2 ⟨hp, hp'⟩⟩,
    ⟨m ++ m', by rw [hm', hm, List.append_assoc], List.forall_mem_append.2 ⟨hr, hr'⟩⟩⟩

/-- **`data_loop`** moves as its mutex wants. -/
theorem DataStep.moves {leave : Bool} {recv : Option Datagram} (h : DataStep W s leave recv s') :
    Moves s.mutexBuffor .data (s.inside .data) (s'.inside .data) s'.mutexBuffor ∧
      DataFrame s s' := by
  unfold State.inside
  cases h with
  | lockAdd hpc hfree | lockCheck hpc hfree | lockReset hpc hfree =>
    exact ⟨.lock hfree rfl, .of_eq rfl rfl⟩
  | unlockAdd hpc | unlockCheck hpc | unlockReset hpc =>
    rw [hpc]
    exact ⟨.unlock rfl (by simp [DataPc.inside]), .of_eq rfl rfl⟩
  | add hpc | adding hpc =>
    rw [hpc]
    refine ⟨.keep ?_, .of_eq rfl rfl⟩
    unfold State.inCall
    dsimp only
    split <;> simp [DataPc.inside]
  | check hpc =>
    rw [hpc]
    -- new threads stand before their first lock
    have hf := (createPrinting_frame s).trans (createRequesting_frame _)
    refine ⟨?_, hf.printers, hf.requesters⟩
    rw [createRequesting_mutex, createPrinting_mutex]
    exact .keep (by simp [DataPc.inside])
  | leaves hpc | stays hpc | nothing hpc | opens hpc | older hpc | newer hpc | stores hpc
  | keepPrinting hpc | closePrinting hpc | keepRequesting hpc | closeRequesting hpc | again hpc
  | ends hpc | reset hpc | setStop hpc | noPrinting hpc | joinPrinting hpc | noRequesting hpc
  | joinRequesting hpc =>
    rw [hpc]
    exact ⟨.keep (by simp [DataPc.inside]), .of_eq rfl rfl⟩

/-- **A printing thread** moves as its mutex wants. -/
theorem PrintStep.moves (h : PrintStep s i s') : ∃ pc pc', s.printers[i]? = some pc ∧
    s'.printers = s.printers.set i pc' ∧
      Moves s.mutexBuffor (.printer i) pc.inside pc'.inside s'.mutexBuffor := by
  cases h with
  | lock hpc hfree | lockAgain hpc hfree => exact ⟨_, .test, hpc, rfl, .lock hfree rfl⟩
  | unlockEarly hpc | unlockPackage hpc | unlockEnd hpc =>
    exact ⟨_, _, hpc, rfl, .unlock rfl (by simp [PrintPc.inside])⟩
  | pop hpc =>
    refine ⟨_, _, hpc, rfl, .keep ?_⟩
    split <;> simp [PrintPc.inside]
  | goesOn hpc | quits hpc | reset hpc | finishEarly hpc | write hpc | finishEnd hpc =>
    exact ⟨_, _, hpc, rfl, .keep (by simp [PrintPc.inside])⟩

/-- The copied `set` has a key: line 237 is the only unlock that follows the copy. -/
def RequestPc.Paired : RequestPc → Prop
  | .unlock copySet => copySet.entries ≠ []
  | .unlockAgain => False
  | _ => True

/-- **A requesting thread** moves as its mutex wants, if its copies have keys. -/
theorem RequestStep.moves (h : RequestStep W s i s')
    (hp : ∀ pc ∈ s.requesters[i]?, pc.Paired ∧ (pc.copies → s.buf.set.entries ≠ [])) :
    ∃ pc pc', s.requesters[i]? = some pc ∧ s'.requesters = s.requesters.set i pc' ∧ pc'.Paired ∧
      Moves s.mutexBuffor (.requester i) pc.inside pc'.inside s'.mutexBuffor := by
  cases h with
  | goesOn hpc | quits hpc | sent hpc | read hpc =>
    exact ⟨_, _, hpc, rfl, trivial, .keep (by simp [RequestPc.inside])⟩
  | lock hpc hfree => exact ⟨_, .copy, hpc, rfl, trivial, .lock hfree rfl⟩
  | copy hpc =>
    exact ⟨_, .unlock s.buf.set, hpc, rfl, (hp _ hpc).2 rfl, .keep (by simp [RequestPc.inside])⟩
  | unlock hpc =>
    rw [if_neg (hp _ hpc).1]
    exact ⟨_, _, hpc, rfl, trivial, .unlock rfl (by simp [RequestPc.inside])⟩
  | unlockAgain hpc => exact (hp _ hpc).1.elim

/-! ### All threads -/

section Counters

variable {α : Type} {l l' : List α} {a a' : α} {j : ℕ} {f : α → Bool}

theorem counter_at (h : l[i]? = some a) : (∃ pc ∈ l[i]?, f pc) ↔ f a := by simp [h]

theorem counter_set (h : l[i]? = some a) : (∃ pc ∈ (l.set i a')[i]?, f pc) ↔ f a' := by
  simp [List.getElem?_set_self', h]

theorem counter_set_ne (h : j ≠ i) : (∃ pc ∈ (l.set i a')[j]?, f pc) ↔ ∃ pc ∈ l[j]?, f pc := by
  rw [List.getElem?_set_ne (Ne.symm h)]

theorem counter_append (h : ∀ pc ∈ l', f pc = false) :
    (∃ pc ∈ (l ++ l')[i]?, f pc) ↔ ∃ pc ∈ l[i]?, f pc := by
  rcases lt_or_ge i l.length with hi | hi
  · rw [List.getElem?_append_left hi]
  · rw [List.getElem?_append_right hi, List.getElem?_eq_none hi]
    refine ⟨fun ⟨pc, hpc, hf⟩ => ?_, by simp⟩
    rw [h pc (List.mem_of_getElem? hpc)] at hf
    cases hf

end Counters

/-- The mutex is held by the one thread inside, and line 262 is not reached. -/
structure Excluded (s : State) : Prop where
  excl : Excl s.mutexBuffor s.inside
  paired : ∀ pc ∈ s.requesters, pc.Paired

theorem init_excluded (maxData : UInt64) : Excluded (State.init maxData) := by
  refine ⟨?_, by simp [State.init]⟩
  intro t
  cases t <;> simp [State.init, State.inside, DataPc.inside]

theorem Excluded.dataLoop {leave : Bool} {recv : Option Datagram} (hs : Excluded s)
    (hst : DataStep W s leave recv s') : Excluded s' := by
  obtain ⟨hx, hp⟩ := hs
  obtain ⟨hm, ⟨l, hl, hlock⟩, ⟨r, hr, htest⟩⟩ := hst.moves
  refine ⟨hx.step hm ?_, ?_⟩
  · intro u hu
    cases u with
    | data => exact absurd rfl hu
    | printer j =>
      show (∃ pc ∈ s'.printers[j]?, _) ↔ _
      rw [hl]
      exact counter_append fun pc hpc => by rw [hlock pc hpc]; rfl
    | requester j =>
      show (∃ pc ∈ s'.requesters[j]?, _) ↔ _
      rw [hr]
      exact counter_append fun pc hpc => by rw [htest pc hpc]; rfl
  · intro pc hpc
    rw [hr, List.mem_append] at hpc
    rcases hpc with hpc | hpc
    · exact hp pc hpc
    · rw [htest pc hpc]; trivial

theorem Excluded.print (hs : Excluded s) (hst : PrintStep s i s') : Excluded s' := by
  obtain ⟨hx, hp⟩ := hs
  obtain ⟨pc, pc', hpc, hl, hm⟩ := hst.moves
  have hf := hst.frame
  have hwas : s.inside (.printer i) ↔ pc.inside := counter_at hpc
  have hnow : s'.inside (.printer i) ↔ pc'.inside := by
    show (∃ pc ∈ s'.printers[i]?, _) ↔ _
    rw [hl]
    exact counter_set hpc
  refine ⟨hx.step (t := .printer i) (by rw [hwas, hnow]; exact hm) ?_, by rwa [hf.requesters]⟩
  intro u hu
  cases u with
  | data => show s'.data.inside ↔ _; rw [hf.data]; rfl
  | printer j =>
    show (∃ pc ∈ s'.printers[j]?, _) ↔ _
    rw [hl]
    exact counter_set_ne fun hj => hu (by rw [hj])
  | requester j => show (∃ pc ∈ s'.requesters[j]?, _) ↔ _; rw [hf.requesters]; rfl

theorem Excluded.request (hs : Excluded s) (hst : RequestStep W s i s')
    (hc : CopiesKeys s (.requester i)) : Excluded s' := by
  obtain ⟨hx, hp⟩ := hs
  obtain ⟨pc, pc', hpc, hr, hp', hm⟩ :=
    hst.moves fun pc hpc => ⟨hp pc (List.mem_of_getElem? hpc), hc pc hpc⟩
  have hf := hst.frame
  have hwas : s.inside (.requester i) ↔ pc.inside := counter_at hpc
  have hnow : s'.inside (.requester i) ↔ pc'.inside := by
    show (∃ pc ∈ s'.requesters[i]?, _) ↔ _
    rw [hr]
    exact counter_set hpc
  refine ⟨hx.step (t := .requester i) (by rw [hwas, hnow]; exact hm) ?_, ?_⟩
  · intro u hu
    cases u with
    | data => show s'.data.inside ↔ _; rw [hf.data]; rfl
    | printer j => show (∃ pc ∈ s'.printers[j]?, _) ↔ _; rw [hf.printers]; rfl
    | requester j =>
      show (∃ pc ∈ s'.requesters[j]?, _) ↔ _
      rw [hr]
      exact counter_set_ne fun hj => hu (by rw [hj])
  · intro q hq
    rw [hr] at hq
    rcases List.mem_or_eq_of_mem_set hq with hq | rfl
    · exact hp q hq
    · exact hp'

/-- **One step** keeps exclusion, unless it copies an empty `set`. -/
theorem step_excl {e : Event} (hs : Excluded s) (h : step W s e = some s')
    (hc : CopiesKeys s e) : Excluded s' := by
  cases step_cases h with
  | signal => exact ⟨hs.excl, hs.paired⟩
  | run hpc =>
    obtain ⟨hx, hp⟩ := hs
    -- a new `data_loop` starts outside, where the last one ended
    have hk : Moves s.mutexBuffor .data (s.inside .data) False s.mutexBuffor :=
      .keep (by simp [State.inside, hpc, DataPc.inside])
    refine ⟨hx.step (t := .data) (by simpa [State.inside, DataPc.inside] using hk) ?_, hp⟩
    intro u hu
    cases u with
    | data => exact absurd rfl hu
    | printer => exact Iff.rfl
    | requester => exact Iff.rfl
  | data hst => exact hs.dataLoop hst
  | printer hst => exact hs.print hst
  | requester hst => exact hs.request hst hc

theorem RequestPc.inside_of_unlocks {pc : RequestPc} (hp : pc.Paired) (h : pc.unlocks) :
    pc.inside := by
  cases pc <;> simp_all [RequestPc.Paired, RequestPc.unlocks, RequestPc.inside]

/-- A thread that unlocks is inside. -/
theorem Excluded.inside_of_unlocks (hs : Excluded s) {t : Tid} (h : s.unlocks t) : s.inside t := by
  cases t with
  | data =>
    change s.data.unlocks at h
    change s.data.inside
    cases hd : s.data <;> rw [hd] at h <;> first | rfl | simp [DataPc.unlocks] at h
  | printer j =>
    obtain ⟨pc, hpc, hu⟩ := h
    refine ⟨pc, hpc, ?_⟩
    cases pc <;> first | rfl | simp [PrintPc.unlocks] at hu
  | requester j =>
    obtain ⟨pc, hpc, hu⟩ := h
    exact ⟨pc, hpc, RequestPc.inside_of_unlocks (hs.paired pc (List.mem_of_getElem? hpc)) hu⟩

theorem Excluded.mutexOk (hs : Excluded s) : MutexOk s :=
  ⟨fun _ _ => hs.excl.unique, fun t ht => (hs.excl t).1 (hs.inside_of_unlocks ht)⟩

/-- An empty copy of `set` takes the thread to line 262 without the mutex. -/
theorem empty_copy_unlocks (hi : s.requesters[i]? = some .copy) (he : s.buf.set.entries = []) :
    ∃ s', exec (step W) s [.requester i, .requester i] = some s' ∧ ¬ MutexOk s' := by
  have h1 : step W s (.requester i) = some (s.setRequester i (.unlock s.buf.set)) := by
    simp [step, hi, stepRequester]
  have hlt : i < s.requesters.length := (List.getElem?_eq_some_iff.1 hi).1
  -- line 237 frees the mutex, and line 262 is next
  refine ⟨{ (s.setRequester i (.unlock s.buf.set)).setRequester i .unlockAgain with
    mutexBuffor := none }, ?_, ?_⟩
  · simp only [exec, h1, Option.bind_some]
    simp [step, State.setRequester, List.getElem?_set_self hlt, stepRequester, he, State.unlock]
  · rintro ⟨-, h⟩
    have hu := h (.requester i) ⟨.unlockAgain, by simp [State.setRequester, hlt], rfl⟩
    simp at hu

/-- **Mutual exclusion** in every run whose copies of `set` all find a key, and its breach by the
first copy that does not. -/
theorem nonempty_copies_exclude {W : Wild} {maxData : UInt64} {es : List Event} {s : State}
    (h : Run (Guarded (Fires (step W)) CopiesKeys) (State.init maxData) es s) :
    MutexOk s ∧ ∀ i, s.requesters[i]? = some .copy → s.buf.set.entries = [] →
      ∃ s', exec (step W) s [.requester i, .requester i] = some s' ∧ ¬ MutexOk s' := by
  have hs : Excluded s :=
    h.inv (init_excluded maxData) fun _ _ _ hI hst => step_excl hI hst.1 hst.2
  exact ⟨hs.mutexOk, fun i hi he => empty_copy_unlocks hi he⟩

/-- `data_loop` receives packet `num` of one byte, takes the mutex, and goes `n` steps on. -/
def receives (num : UInt64) (n : ℕ) : List Event :=
  .data false none :: .data false (some ⟨1, num, [7]⟩) :: List.replicate (n + 1) (.data false none)

/-- Packets 0 and 2 come; requesting thread 0 is created for packet 1. -/
def missesOne : List Event := .run :: receives 0 8 ++ receives 2 10

/-- A requesting thread inside its section, with packet 1 missing. -/
theorem nonempty_copies_exclude_one_missing : ∃ es s,
    Run (Guarded (Fires (step ⟨fun _ _ => 0, fun _ _ => 0⟩)) CopiesKeys) (State.init 8) es s ∧
      s.inside (.requester 0) ∧ MutexOk s := by
  have he : ((exec (guarded (step ⟨fun _ _ => 0, fun _ _ => 0⟩) CopiesKeys) (State.init 8)
      (missesOne ++ List.replicate 3 (.requester 0))).map fun s =>
        s.requesters[0]?.map RequestPc.inside) = some (some true) := by decide
  obtain ⟨s, hr, hs⟩ := Option.map_eq_some_iff.1 he
  obtain ⟨pc, hpc, hi⟩ := Option.map_eq_some_iff.1 hs
  exact ⟨_, s, exec_guarded hr, ⟨pc, hpc, hi⟩, (nonempty_copies_exclude (exec_guarded hr)).1⟩

/-- Packet 1 comes before the copy: the second unlock frees the mutex that `data_loop` holds,
and the requesting thread enters beside it. -/
theorem empty_copy_breaks : ¬ ∀ (W : Wild) (maxData : UInt64) (es : List Event) (s : State),
    Run (Fires (step W)) (State.init maxData) es s → MutexOk s := by
  intro h
  have he : ((exec (step ⟨fun _ _ => 0, fun _ _ => 0⟩) (State.init 8) (missesOne ++ receives 1 2 ++
      List.replicate 4 (.requester 0) ++ [.data false none] ++
      List.replicate 3 (.requester 0))).map fun s =>
        (s.data.inside, s.requesters[0]?.map RequestPc.inside)) = some (true, some true) := by decide
  obtain ⟨s, hr, hs⟩ := Option.map_eq_some_iff.1 he
  simp only [Prod.mk.injEq, Option.map_eq_some_iff] at hs
  obtain ⟨hd, pc, hpc, hi⟩ := hs
  have hu := (h _ _ _ _ (exec_run hr)).1 .data (.requester 0) hd ⟨pc, hpc, hi⟩
  cases hu

end SikMimuw.Receiver
