import SikMimuw.Lib.Mutex
import SikMimuw.Lib.Run
import SikMimuw.Model.Sender

/-!
# The steps of the sender and its two mutexes

* `MainStep`, `CtrlStep`, `ReplayStep`: what a step of each thread can do, with the guard under
  which it does it. Every invariant below goes by cases on them.
* `Locked`: `mutex_requests` and `mutex_mcast_socket` exclude. Every section of the two has one
  unlock, so the steps keep it whatever the interleaving (`step_locked`).
-/

namespace SikMimuw.Transmitter

open Lts Mutex

variable {params : Parameters} {s s' : State}

/-- What a step of `main` can do. -/
inductive MainStep (params : Parameters) (s : State) : State → Prop
  | poll (hpc : s.main = .head) : MainStep params s { s with main := .test }
  | ready (hpc : s.main = .head) (hfin : s.finish = false) : MainStep params s { s with main := .read }
  | again (hpc : s.main = .test) (hfin : s.finish = false) :
      MainStep params s { s with main := .head }
  | done (hpc : s.main = .test) (hfin : s.finish) : MainStep params s { s with main := .done }
  | read {n : ℕ} (hpc : s.main = .read) (hle : n ≤ params.psize)
      (havail : n ≤ s.stdin.length) (hend : n = 0 → s.stdin = []) : MainStep params s { s with
        stdin := s.stdin.drop n
        reads := s.reads ++ [s.stdin.take n]
        finish := s.finish || n = 0
        main := if n = params.psize then .lock (s.stdin.take n) else .test }
  | lock {audioData : List UInt8} (hpc : s.main = .lock audioData)
      (hfree : s.mutexMcastSocket = none) :
      MainStep params s { s with main := .send audioData, mutexMcastSocket := some .main }
  | send {audioData : List UInt8} (hpc : s.main = .send audioData) :
      MainStep params s { s.record (.sent s.byteNum audioData) with main := .enqueue audioData }
  | enqueue {audioData : List UInt8} (hpc : s.main = .enqueue audioData) :
      MainStep params s { s with fifo := s.fifo.addToQueue audioData s.byteNum, main := .advance }
  | advance (hpc : s.main = .advance) : MainStep params s
      { s with byteNum := s.byteNum + UInt64.ofNat params.psize, main := .unlock }
  | unlock (hpc : s.main = .unlock) :
      MainStep params s { s with mutexMcastSocket := none, main := .test }

/-- What a step of `ctrl_loop` can do. -/
inductive CtrlStep (s : State) : State → Prop
  | poll (hpc : s.ctrl = .head) : CtrlStep s { s with ctrl := .test }
  | again (hpc : s.ctrl = .test) (hfin : s.finish = false) : CtrlStep s { s with ctrl := .head }
  | done (hpc : s.ctrl = .test) (hfin : s.finish) : CtrlStep s { s with ctrl := .done }
  | ready (hpc : s.ctrl = .head) (hfin : s.finish = false) : CtrlStep s { s with ctrl := .receive }
  | other (hpc : s.ctrl = .receive) : CtrlStep s { s with ctrl := .test }
  | receive {nums : List UInt64} (hpc : s.ctrl = .receive) : CtrlStep s { s with ctrl := .lock nums }
  | lock {nums : List UInt64} (hpc : s.ctrl = .lock nums) (hfree : s.mutexRequests = none) :
      CtrlStep s { s with ctrl := .insert nums, mutexRequests := some .ctrl }
  | insert {num : UInt64} {nums : List UInt64} (hpc : s.ctrl = .insert (num :: nums)) :
      CtrlStep s { s.record (.inserted num) with
        retransmisionRequests := s.retransmisionRequests.insert num, ctrl := .insert nums }
  | inserted (hpc : s.ctrl = .insert []) : CtrlStep s { s with ctrl := .unlock }
  | unlock (hpc : s.ctrl = .unlock) : CtrlStep s { s with mutexRequests := none, ctrl := .test }

/-- What a step of `replay_loop` can do. -/
inductive ReplayStep (params : Parameters) (s : State) : State → Prop
  | lock (hpc : s.replay = .lockRequests) (hfree : s.mutexRequests = none) :
      ReplayStep params s { s with replay := .copy, mutexRequests := some .replay }
  | copy (hpc : s.replay = .copy) : ReplayStep params s
      { s.record (.copied s.retransmisionRequests.keys) with
        replay := .clear s.retransmisionRequests.keys }
  | clear {b : List UInt64} (hpc : s.replay = .clear b) : ReplayStep params s
      { s with retransmisionRequests := OrdMap.empty, replay := .unlockRequests b }
  | unlockRequests {b : List UInt64} (hpc : s.replay = .unlockRequests b) :
      ReplayStep params s { s with mutexRequests := none, replay := .lockMcast b }
  | lockMcast {b : List UInt64} (hpc : s.replay = .lockMcast b) (hfree : s.mutexMcastSocket = none) :
      ReplayStep params s
        { s.record .locked with replay := .retrieve b, mutexMcastSocket := some .replay }
  | retrieve {num : UInt64} {todo : List UInt64} (hpc : s.replay = .retrieve (num :: todo)) :
      ReplayStep params s { s with
        replay := if (s.fifo.retrieve num).length = params.psize
          then .send (s.fifo.retrieve num) num todo else .retrieve todo }
  | retrieved (hpc : s.replay = .retrieve []) : ReplayStep params s { s with replay := .unlockMcast }
  | send {data : List UInt8} {num : UInt64} {todo : List UInt64} (hpc : s.replay = .send data num todo) :
      ReplayStep params s { s.record (.resent num data) with replay := .retrieve todo }
  | unlockMcast (hpc : s.replay = .unlockMcast) :
      ReplayStep params s { s.record .unlocked with mutexMcastSocket := none, replay := .test }
  | again (hpc : s.replay = .test) (hfin : s.finish = false) :
      ReplayStep params s { s with replay := .lockRequests }
  | done (hpc : s.replay = .test) (hfin : s.finish) : ReplayStep params s { s with replay := .done }

theorem stepMain_cases {r : Option ℕ} (h : stepMain params s r = some s') : MainStep params s s' := by
  unfold stepMain at h
  cases hm : s.main <;> rw [hm] at h <;> dsimp only at h
  case done => cases h
  case head =>
    cases h
    split
    · exact .ready hm (And.left ‹_›)
    · exact .poll hm
  case read =>
    obtain ⟨n, -, hn⟩ := Option.bind_eq_some_iff.1 h
    unfold State.read at hn
    split at hn
    · rename_i hcond
      cases hn
      exact .read hm hcond.1 hcond.2.1 hcond.2.2
    · cases hn
  case lock =>
    unfold State.lockMcast at h
    split at h
    · cases h; exact .lock hm ‹_›
    · cases h
  case send => cases h; exact .send hm
  case enqueue => cases h; exact .enqueue hm
  case advance => cases h; exact .advance hm
  case unlock => cases h; exact .unlock hm
  case test =>
    cases h
    split
    · exact .done hm ‹_›
    · exact .again hm (Bool.not_eq_true _ ▸ ‹_›)

theorem stepCtrl_cases {r : Option (List UInt64)} (h : stepCtrl s r = some s') : CtrlStep s s' := by
  unfold stepCtrl at h
  cases hc : s.ctrl <;> rw [hc] at h <;> dsimp only at h
  case done => cases h
  case head =>
    cases h
    split
    · exact .ready hc (And.left ‹_›)
    · exact .poll hc
  case receive =>
    cases r with
    | none => cases h; exact .other hc
    | some nums => cases h; exact .receive hc
  case lock =>
    unfold State.lockRequests at h
    split at h
    · cases h; exact .lock hc ‹_›
    · cases h
  case insert nums =>
    cases nums with
    | nil => cases h; exact .inserted hc
    | cons num nums => cases h; exact .insert hc
  case unlock => cases h; exact .unlock hc
  case test =>
    cases h
    split
    · exact .done hc ‹_›
    · exact .again hc (Bool.not_eq_true _ ▸ ‹_›)

theorem stepReplay_cases (h : stepReplay params s = some s') : ReplayStep params s s' := by
  unfold stepReplay at h
  cases hr : s.replay <;> rw [hr] at h <;> dsimp only at h
  case done => cases h
  case lockRequests =>
    unfold State.lockRequests at h
    split at h
    · cases h; exact .lock hr ‹_›
    · cases h
  case copy => cases h; exact .copy hr
  case clear => cases h; exact .clear hr
  case unlockRequests => cases h; exact .unlockRequests hr
  case lockMcast =>
    unfold State.lockMcast at h
    split at h
    · cases h; exact .lockMcast hr ‹_›
    · cases h
  case retrieve todo =>
    cases todo with
    | nil => cases h; exact .retrieved hr
    | cons num todo => cases h; exact .retrieve hr
  case send => cases h; exact .send hr
  case unlockMcast => cases h; exact .unlockMcast hr
  case test =>
    cases h
    split
    · exact .done hr ‹_›
    · exact .again hr (Bool.not_eq_true _ ▸ ‹_›)

/-! ### The mutexes -/

/-- `main` holds `mutex_mcast_socket`. -/
def MainPc.inMcast : MainPc → Bool
  | .send _ | .enqueue _ | .advance | .unlock => true
  | _ => false

/-- `ctrl_loop` holds `mutex_requests`. -/
def CtrlPc.inRequests : CtrlPc → Bool
  | .insert _ | .unlock => true
  | _ => false

def ReplayPc.inRequests : ReplayPc → Bool
  | .copy | .clear _ | .unlockRequests _ => true
  | _ => false

def ReplayPc.inMcast : ReplayPc → Bool
  | .retrieve _ | .send .. | .unlockMcast => true
  | _ => false

/-- Thread `t` is in a section of `mutex_requests`. -/
def State.inRequests (s : State) : Tid → Prop
  | .main => False
  | .ctrl => s.ctrl.inRequests
  | .replay => s.replay.inRequests

/-- Thread `t` is in a section of `mutex_mcast_socket`. -/
def State.inMcast (s : State) : Tid → Prop
  | .main => s.main.inMcast
  | .ctrl => False
  | .replay => s.replay.inMcast

/-- Both mutexes exclude. -/
structure Locked (s : State) : Prop where
  requests : Excl s.mutexRequests s.inRequests
  mcast : Excl s.mutexMcastSocket s.inMcast

theorem Locked.ctrl_or_replay (h : Locked s) (hc : s.ctrl.inRequests) : s.replay.inRequests = false := by
  by_contra hr
  rw [Bool.not_eq_false] at hr
  have ht : Tid.ctrl = Tid.replay := h.requests.unique hc hr
  cases ht

theorem Locked.main_or_replay (h : Locked s) (hr : s.replay.inMcast) : s.main.inMcast = false := by
  by_contra hm
  rw [Bool.not_eq_false] at hm
  have ht : Tid.main = Tid.replay := h.mcast.unique hm hr
  cases ht

/-- **`main`** keeps to `mutex_mcast_socket`. -/
theorem MainStep.moves (h : MainStep params s s') :
    Moves s.mutexMcastSocket .main s.main.inMcast s'.main.inMcast s'.mutexMcastSocket ∧
      s'.mutexRequests = s.mutexRequests ∧ s'.ctrl = s.ctrl ∧ s'.replay = s.replay := by
  cases h with
  | read hpc =>
    refine ⟨.keep ?_, rfl, rfl, rfl⟩
    dsimp only
    split <;> simp [hpc, MainPc.inMcast]
  | lock hpc hfree => exact ⟨.lock hfree rfl, rfl, rfl, rfl⟩
  | poll hpc | ready hpc | again hpc | done hpc | send hpc | enqueue hpc | advance hpc =>
    exact ⟨.keep (by simp [hpc, MainPc.inMcast]), rfl, rfl, rfl⟩
  | unlock hpc => exact ⟨.unlock (by rw [hpc]; rfl) (by simp [MainPc.inMcast]), rfl, rfl, rfl⟩

/-- **`ctrl_loop`** keeps to `mutex_requests`. -/
theorem CtrlStep.moves (h : CtrlStep s s') :
    Moves s.mutexRequests .ctrl s.ctrl.inRequests s'.ctrl.inRequests s'.mutexRequests ∧
      s'.mutexMcastSocket = s.mutexMcastSocket ∧ s'.main = s.main ∧ s'.replay = s.replay := by
  cases h with
  | lock hpc hfree => exact ⟨.lock hfree rfl, rfl, rfl, rfl⟩
  | poll hpc | ready hpc | other hpc | again hpc | done hpc | receive hpc | insert hpc | inserted hpc =>
    exact ⟨.keep (by simp [hpc, CtrlPc.inRequests]), rfl, rfl, rfl⟩
  | unlock hpc => exact ⟨.unlock (by rw [hpc]; rfl) (by simp [CtrlPc.inRequests]), rfl, rfl, rfl⟩

/-- **`replay_loop`** keeps to both, and takes the second after it has left the first. -/
theorem ReplayStep.moves (h : ReplayStep params s s') :
    Moves s.mutexRequests .replay s.replay.inRequests s'.replay.inRequests s'.mutexRequests ∧
      Moves s.mutexMcastSocket .replay s.replay.inMcast s'.replay.inMcast s'.mutexMcastSocket ∧
      s'.main = s.main ∧ s'.ctrl = s.ctrl := by
  cases h with
  | lock hpc hfree =>
    exact ⟨.lock hfree rfl, .keep (by simp [hpc, ReplayPc.inMcast]), rfl, rfl⟩
  | unlockRequests hpc =>
    exact ⟨.unlock (by rw [hpc]; rfl) (by simp [ReplayPc.inRequests]),
      .keep (by simp [hpc, ReplayPc.inMcast]), rfl, rfl⟩
  | lockMcast hpc hfree =>
    exact ⟨.keep (by simp [hpc, ReplayPc.inRequests]), .lock hfree rfl, rfl, rfl⟩
  | unlockMcast hpc =>
    exact ⟨.keep (by simp [hpc, ReplayPc.inRequests]),
      .unlock (by rw [hpc]; rfl) (by simp [ReplayPc.inMcast]), rfl, rfl⟩
  | copy hpc | clear hpc | retrieved hpc | send hpc | again hpc | done hpc =>
    exact ⟨.keep (by simp [hpc, ReplayPc.inRequests]), .keep (by simp [hpc, ReplayPc.inMcast]),
      rfl, rfl⟩
  | retrieve hpc =>
    refine ⟨.keep ?_, .keep ?_, rfl, rfl⟩ <;> dsimp only <;> split <;>
      simp [hpc, ReplayPc.inRequests, ReplayPc.inMcast]

theorem init_locked (params : Parameters) (stdin : List UInt8) : Locked (State.init params stdin) := by
  constructor <;> intro t <;> cases t <;>
    simp [State.init, State.inRequests, State.inMcast, CtrlPc.inRequests, ReplayPc.inRequests,
      MainPc.inMcast, ReplayPc.inMcast]

/-- **One step** keeps both mutexes. -/
theorem step_locked {ev : Event} (hs : Locked s) (h : step params s ev = some s') : Locked s' := by
  obtain ⟨hreq, hmc⟩ := hs
  unfold step at h
  cases ev <;> dsimp only at h
  case signal =>
    simp only [Option.some.injEq] at h
    subst h
    exact ⟨hreq, hmc⟩
  case main r =>
    obtain ⟨hm, hmr, hc, hr⟩ := (stepMain_cases h).moves
    constructor
    · intro t
      rw [hmr, ← hreq t]
      cases t <;> simp [State.inRequests, hc, hr]
    · refine hmc.step (t := .main) hm fun t ht => ?_
      cases t <;> simp [State.inMcast, hr] at ht ⊢
  case ctrl r =>
    obtain ⟨hm, hmm, hmain, hr⟩ := (stepCtrl_cases h).moves
    constructor
    · refine hreq.step (t := .ctrl) hm fun t ht => ?_
      cases t <;> simp [State.inRequests, hr] at ht ⊢
    · intro t
      rw [hmm, ← hmc t]
      cases t <;> simp [State.inMcast, hmain, hr]
  case replay =>
    obtain ⟨hm₁, hm₂, hmain, hc⟩ := (stepReplay_cases h).moves
    constructor
    · refine hreq.step (t := .replay) hm₁ fun t ht => ?_
      cases t <;> simp [State.inRequests, hc] at ht ⊢
    · refine hmc.step (t := .replay) hm₂ fun t ht => ?_
      cases t <;> simp [State.inMcast, hmain] at ht ⊢

end SikMimuw.Transmitter
