import Mathlib.Algebra.Order.BigOperators.Group.List
import Mathlib.Algebra.Order.Ring.Nat
import SikMimuw.Lib.Run
import SikMimuw.Model.Terminal
import SikMimuw.Proof.Expiry

/-!
# The handshake over `menu_changed`

A change of the menu sets the flag, and `loop_terminal` clears it after it has drawn the menu for
its clients. Two things are lost on the way. `check_time` reports nothing when it erases a station
other than the active one, and still moves `active` to the front. And `loop_terminal` clears the flag
without asking whether `data_loop` has looked.

* `Menu.Same`: the menus draw alike and play alike. An operation that reports nothing leaves the same
  menu (`addMenu_same`, `transform_same`, `checkTime_same`, the last one on a condition).
* `Told`: the invariant. Without the flag, everybody is up to date.
* `synced_ok`: runs of steps that keep it, `Keeps`, are synced.
-/

namespace SikMimuw.Receiver

open Lts CStr

variable {m m' : Menu} {W : Resume} {time : ℤ}

/-- `m'` draws and plays like `m`. -/
structure Menu.Same (m m' : Menu) : Prop where
  draw : m'.drawMenu = m.drawMenu
  isActive : m'.isActive = m.isActive
  activeAddress : m'.activeAddress = m.activeAddress

theorem Menu.Same.refl (m : Menu) : Menu.Same m m := ⟨rfl, rfl, rfl⟩

/-- A new time for some stations. -/
theorem same_map {f : Station → Station} (hn : ∀ s, (f s).name = s.name)
    (ha : ∀ s, (f s).address = s.address) :
    Menu.Same m { m with stations := m.stations.map f } := by
  refine ⟨?_, rfl, ?_⟩
  · unfold Menu.drawMenu NodeList.map
    simp only [List.flatMap_map, hn]
  · unfold Menu.activeAddress
    cases m.active with
    | none => rfl
    | some it =>
      simp only [Option.bind_some, NodeList.deref_map, Option.map_map]
      congr 1
      funext s
      exact ha s

theorem addMenu_same {addr : Address} {name : List UInt8} (h : (m.addMenu addr name time).2 = false) :
    Menu.Same m (m.addMenu addr name time).1 := by
  have hc := addMenu_case m addr name time
  generalize m.addMenu addr name time = r at h hc
  cases hc with
  | first => cases h
  | known => exact same_map (fun s => s.reply_name addr time) fun s => s.reply_address addr time
  | new => cases h

theorem transform_same {buffer : List UInt8} (h : (m.transform buffer).2 = false) :
    (m.transform buffer).1 = m := by
  unfold Menu.transform at h ⊢
  by_cases hn : m.stations.size < 2
  · rw [if_pos hn]
  · rw [if_neg hn] at h ⊢
    by_cases hup : buffer.take 3 = up
    · rw [if_pos hup] at h
      cases h
    · rw [if_neg hup] at h ⊢
      by_cases hdown : buffer.take 3 = down
      · rw [if_pos hdown] at h
        cases h
      · rw [if_neg hdown]

theorem checkTime_same (h : (m.checkTime W time).2 = false)
    (hk : ∀ s, m.firstExpired time = some s → m.active = some s.1) :
    (m.checkTime W time).1 = m := by
  cases hf : m.firstExpired time with
  | none => rw [checkTime_none hf]
  | some s =>
    obtain ⟨n, place, he⟩ := checkTime_some (W := W) hf
    rw [he] at h
    simp [hk s hf] at h

/-- A list that some entries were taken from has a smaller sum. -/
theorem sum_filter_lt {α : Type*} {p : α → Bool} {f : α → ℕ} {x : α} : ∀ {l : List α}, x ∈ l →
    p x = false → 0 < f x → ((l.filter p).map f).sum < (l.map f).sum := by
  intro l hx hp hf
  induction l with
  | nil => cases hx
  | cons y l ih =>
    have hle : ((l.filter p).map f).sum ≤ (l.map f).sum :=
      (List.filter_sublist.map f).sum_le_sum (fun _ _ => Nat.zero_le _)
    rw [List.map_cons, List.sum_cons]
    rcases List.mem_cons.1 hx with rfl | hx
    · rw [List.filter_cons_of_neg (by rw [hp]; exact Bool.false_ne_true)]
      omega
    · by_cases hy : p y = true
      · rw [List.filter_cons_of_pos hy, List.map_cons, List.sum_cons]
        have := ih hx
        omega
      · rw [List.filter_cons_of_neg hy]
        have := ih hx
        omega

theorem length_drawMenu : m.drawMenu.length = header.length +
    ((m.stations.nodes.map fun n => 4 + n.2.name.length + 2).sum + footer.length) := by
  have hline : ∀ n : ℕ × Station, ((if some n.1 = m.active then pointer else indent) ++ n.2.name ++
      bytes "\n\r").length = 4 + n.2.name.length + 2 := by
    intro n
    have hp : (if some n.1 = m.active then pointer else indent).length = 4 := by
      split <;> rfl
    rw [List.length_append, List.length_append, hp]
    rfl
  unfold Menu.drawMenu
  rw [List.length_append, List.length_append, List.length_flatMap, Nat.add_assoc]
  simp only [hline]

/-- A menu without one of its stations draws another text. -/
theorem erase_draw {n : ℕ × Station} (h : n ∈ m.stations.nodes) :
    (m.erase n.1).drawMenu ≠ m.drawMenu := by
  intro he
  have hl := congrArg List.length he
  rw [length_drawMenu, length_drawMenu] at hl
  have hlt := sum_filter_lt (p := fun x => x.1 ≠ n.1)
    (f := fun x : ℕ × Station => 4 + x.2.name.length + 2) h (by simp) (by omega)
  change header.length + (((m.stations.nodes.filter fun x => x.1 ≠ n.1).map _).sum + _) = _ at hl
  omega

/-- At some time none of the stations has expired. -/
theorem exists_not_expired : ∀ l : List Station, ∃ time, ∀ s ∈ l, s.expired time = false := by
  intro l
  induction l with
  | nil => exact ⟨0, fun _ h => by cases h⟩
  | cons s l ih =>
    obtain ⟨time, ht⟩ := ih
    refine ⟨min time s.time, fun s' hs => ?_⟩
    have hle := min_le_left time s.time
    have hle' := min_le_right time s.time
    unfold Station.expired at ht ⊢
    rw [decide_eq_false_iff_not]
    rcases List.mem_cons.1 hs with rfl | hs
    · omega
    · have := of_decide_eq_false (ht s' hs)
      omega

namespace Terminal

variable {s t u : State} {e : Event}

/-- `data_loop` plays the active station. -/
def State.Tuned (s : State) : Prop :=
  s.menu.isActive = true ∧ s.menu.activeAddress = some s.station

/-- The clients see the menu. -/
def State.Shown (s : State) : Prop := ∀ text ∈ s.clients, text = s.menu.drawMenu

/-- **Nothing is lost**: with the flag clear and both loops at their heads, all is up to date. -/
def Synced (s : State) : Prop :=
  s.menuChanged = false → s.terminal = .head → s.data = .head → s.Tuned ∧ s.Shown

/-- `data_loop` plays its station and comes to the test of the flag. -/
def DataPc.listens : DataPc → Bool
  | .start | .head | .body => true
  | _ => false

/-- `loop_terminal` has seen the flag set, or has set it, and has not yet cleared it. -/
def TerminalPc.redraws : TerminalPc → Bool
  | .redraw | .send _ | .drawAll | .sendAll _ | .clear => true
  | _ => false

/-- The step clears the flag only if `data_loop` does not depend on it, and of the stations that
have expired `check_time` comes to the active one first. -/
def Keeps (s : State) : Event → Prop
  | .terminal _ _ time => s.lookup = none →
      (s.terminal = .clear → s.data.listens = true → s.Tuned) ∧
      (s.terminal = .tail → s.menuChanged = false →
        ∀ n ∈ s.menu.firstExpired time, s.menu.active = some n.1)
  | _ => True

instance instDecidableTuned (s : State) : Decidable s.Tuned := inferInstanceAs (Decidable (_ ∧ _))

instance instDecidableKeeps (s : State) : ∀ e, Decidable (Keeps s e)
  | .terminal .. => inferInstanceAs (Decidable (_ → _ ∧ _))
  | .reply .. | .addMenu | .data _ | .main => .isTrue trivial

/-- **The invariant.** -/
structure Told (s : State) : Prop where
  seen : ∀ l, s.lookup = some l → l.menuChanged = false → s.menuChanged = false
  busy : s.terminal.redraws = true → s.menuChanged = true
  text : ∀ outBuffer, s.terminal = .sendAll outBuffer → outBuffer = s.menu.drawMenu
  shown : s.terminal = .clear → s.Shown
  settled : s.menuChanged = false → (∀ l, s.lookup = some l → l.menuChanged = false) →
    (s.data.listens = true → s.Tuned) ∧ s.Shown
  late : s.menuChanged = false → ∀ l, s.lookup = some l → l.menuChanged = true → s.terminal = .tail

/-- Nobody is in a section, and `loop_terminal` is not about to clear the flag. -/
theorem told_of_free (hl : s.lookup = none) (hr : s.terminal.redraws = false)
    (hs : s.menuChanged = false → (s.data.listens = true → s.Tuned) ∧ s.Shown) : Told s where
  seen l h := by rw [hl] at h; cases h
  busy h := by rw [hr] at h; cases h
  text _ h := by rw [h] at hr; cases hr
  shown h := by rw [h] at hr; cases hr
  settled hf _ := hs hf
  late _ l h := by rw [hl] at h; cases h

/-- The flag is set, and so it was when a section began. -/
theorem told_of_flag (hl : ∀ l, s.lookup = some l → l.menuChanged = true) (hf : s.menuChanged = true)
    (htext : ∀ outBuffer, s.terminal = .sendAll outBuffer → outBuffer = s.menu.drawMenu)
    (hshown : s.terminal = .clear → s.Shown) : Told s where
  seen l h hc := by rw [hl l h] at hc; cases hc
  busy _ := hf
  text := htext
  shown := hshown
  settled h := by rw [hf] at h; cases h
  late h := by rw [hf] at h; cases h

theorem init_told (nazwa : List UInt8) : Told (State.init nazwa) := by
  apply told_of_free rfl rfl
  intro _
  exact ⟨fun h => (nomatch h), fun _ h => (nomatch h)⟩

theorem Told.synced (h : Told s) : Synced s := by
  intro hf hterm hdata
  have hl : ∀ l, s.lookup = some l → l.menuChanged = false := by
    intro l hl
    by_contra hc
    have htail := h.late hf l hl (Bool.eq_true_of_not_eq_false hc)
    rw [hterm] at htail
    cases htail
  obtain ⟨htuned, hshown⟩ := h.settled hf hl
  exact ⟨htuned (by rw [hdata]; rfl), hshown⟩

theorem Told.lookup_seen (h : Told s) (hf : s.menuChanged = true) :
    ∀ l, s.lookup = some l → l.menuChanged = true := by
  intro l hl
  by_contra hc
  rw [Bool.not_eq_true] at hc
  have := h.seen l hl hc
  rw [hf] at this
  cases this

/-- `loop_terminal` goes on, and is not about to clear the flag. -/
theorem Told.move {pc : TerminalPc} {clients : List (List UInt8)} (h : Told s)
    (htail : s.terminal ≠ .tail) (hr : pc.redraws = false)
    (hcl : s.Shown → ∀ text ∈ clients, text = s.menu.drawMenu) :
    Told { s with clients := clients, terminal := pc } where
  seen := h.seen
  busy hb := by rw [hr] at hb; cases hb
  text _ hp := by dsimp only at hp; rw [hp] at hr; cases hr
  shown hp := by dsimp only at hp; rw [hp] at hr; cases hr
  settled hf hl := ⟨(h.settled hf hl).1, hcl (h.settled hf hl).2⟩
  late hf l hl hc := absurd (h.late hf l hl hc) htail

/-- `data_loop` goes on. -/
theorem Told.data {pc : DataPc} {station : Address} (h : Told s)
    (hs : s.menuChanged = false → (s.data.listens = true → s.Tuned) → pc.listens = true →
      s.menu.isActive = true ∧ s.menu.activeAddress = some station) :
    Told { s with data := pc, station := station } where
  seen := h.seen
  busy := h.busy
  text := h.text
  shown := h.shown
  settled hf hl := ⟨hs hf (h.settled hf hl).1, (h.settled hf hl).2⟩
  late := h.late

theorem locked_some (h : s.locked t = some u) : s.lookup = none ∧ u = t := by
  unfold State.locked at h
  split at h
  · exact ⟨Option.isNone_iff_eq_none.1 ‹_›, (Option.some.inj h).symm⟩
  · cases h

/-- A client's keys. -/
theorem Told.keys {ready : Bool} {red : Option (List UInt8)} {time : ℤ} {j : ℕ} (h : Told s)
    (hpc : s.terminal = .keys j) (hst : stepTerminal W s ready red time = some t) : Told t := by
  unfold stepTerminal at hst
  have htail : s.terminal ≠ .tail := by rw [hpc]; exact fun hc => (nomatch hc)
  rw [hpc] at hst
  dsimp only at hst
  by_cases hj : j < s.clients.length
  · rw [if_pos hj] at hst
    match red, hst with
    | none, hst =>
      obtain rfl := Option.some.inj hst
      exact h.move htail rfl id
    | some [], hst =>
      obtain rfl := Option.some.inj hst
      exact h.move htail rfl fun hs text ht => hs text (List.mem_of_mem_eraseIdx ht)
    | some (x :: xs), hst =>
      dsimp only at hst
      by_cases h3 : (x :: xs).length = 3
      · rw [if_pos h3] at hst
        obtain ⟨hl, rfl⟩ := locked_some hst
        by_cases hr : (s.menu.transform (x :: xs)).2 = true
        · rw [if_pos hr]
          refine told_of_flag (fun l hc => ?_) ?_ (fun _ hc => (nomatch hc)) fun hc => (nomatch hc)
          · rw [hl] at hc
            cases hc
          · show (s.menuChanged || (s.menu.transform (x :: xs)).2) = true
            rw [hr, Bool.or_true]
        · rw [if_neg hr]
          rw [Bool.not_eq_true] at hr
          rw [hr, Bool.or_false, transform_same hr]
          exact h.move htail rfl id
      · rw [if_neg h3] at hst
        obtain rfl := Option.some.inj hst
        exact h.move htail rfl id
  · rw [if_neg hj] at hst
    obtain rfl := Option.some.inj hst
    exact h.move htail rfl id

/-- The flag is cleared, and no section is under way that will not set it again. -/
theorem Told.clear {ready : Bool} {red : Option (List UInt8)} {time : ℤ} (h : Told s)
    (hk : Keeps s (.terminal ready red time)) (hpc : s.terminal = .clear)
    (hst : stepTerminal W s ready red time = some t) : Told t := by
  unfold stepTerminal at hst
  rw [hpc] at hst
  obtain rfl := Option.some.inj hst
  have hseen := h.lookup_seen (h.busy (by rw [hpc]; rfl))
  refine {
    seen := fun _ _ _ => rfl
    busy := fun hc => (nomatch hc)
    text := fun _ hc => (nomatch hc)
    shown := fun hc => (nomatch hc)
    settled := fun _ hl => ⟨fun hd => (hk ?_).1 hpc hd, h.shown hpc⟩
    late := fun _ _ _ _ => rfl }
  -- a section that began before the clear sets the flag again
  rw [Option.eq_none_iff_forall_ne_some]
  intro l hc
  have hcl := hl l hc
  rw [hseen l hc] at hcl
  cases hcl

/-- The call of `check_time`. -/
theorem Told.tail {ready : Bool} {red : Option (List UInt8)} {time : ℤ} (h : Told s)
    (hk : Keeps s (.terminal ready red time)) (hpc : s.terminal = .tail)
    (hst : stepTerminal W s ready red time = some t) : Told t := by
  unfold stepTerminal at hst
  rw [hpc] at hst
  dsimp only at hst
  by_cases hf : s.menuChanged = true
  · rw [if_pos hf] at hst
    obtain ⟨hl, rfl⟩ := locked_some hst
    refine told_of_free (by exact hl) rfl fun hc => ?_
    dsimp only at hc
    rw [hf] at hc
    cases hc
  · rw [if_neg hf] at hst
    obtain ⟨hl, rfl⟩ := locked_some hst
    rw [Bool.not_eq_true] at hf
    refine told_of_free (by exact hl) rfl fun hr => ?_
    have hs := h.settled hf fun l hc => by rw [hl] at hc; cases hc
    have hsame := checkTime_same hr ((hk hl).2 hpc hf)
    unfold State.Tuned State.Shown
    rw [hsame]
    exact hs

/-- **A step of `loop_terminal`**. -/
theorem Told.terminal {ready : Bool} {red : Option (List UInt8)} {time : ℤ} (h : Told s)
    (hk : Keeps s (.terminal ready red time)) (hst : stepTerminal W s ready red time = some t) :
    Told t := by
  cases hpc : s.terminal with
  | head =>
    have htail : s.terminal ≠ .tail := by rw [hpc]; exact fun hc => (nomatch hc)
    unfold stepTerminal at hst
    rw [hpc] at hst
    obtain rfl := Option.some.inj hst
    by_cases hready : ready = true
    · rw [if_pos hready]
      exact h.move htail rfl id
    · rw [if_neg hready]
      by_cases hf : s.menuChanged = true
      · rw [if_pos hf]
        exact told_of_flag (h.lookup_seen hf) hf (fun _ hc => (nomatch hc)) fun hc => (nomatch hc)
      · rw [if_neg hf]
        exact h.move htail rfl id
  | accept =>
    have htail : s.terminal ≠ .tail := by rw [hpc]; exact fun hc => (nomatch hc)
    unfold stepTerminal at hst
    rw [hpc] at hst
    dsimp only at hst
    by_cases hready : ready = true
    · rw [if_pos hready] at hst
      obtain rfl := Option.some.inj hst
      refine h.move htail rfl fun hs text ht => ?_
      rcases List.mem_append.1 ht with ht | ht
      · exact hs text ht
      · exact List.mem_singleton.1 ht
    · rw [if_neg hready] at hst
      obtain rfl := Option.some.inj hst
      exact h.move htail rfl id
  | keys j => exact h.keys hpc hst
  | redraw =>
    unfold stepTerminal at hst
    rw [hpc] at hst
    obtain ⟨hl, rfl⟩ := locked_some hst
    have hf := h.busy (by rw [hpc]; rfl)
    exact told_of_flag (h.lookup_seen hf) hf (fun _ hc => (nomatch hc)) fun hc => (nomatch hc)
  | send outBuffer =>
    unfold stepTerminal at hst
    rw [hpc] at hst
    obtain rfl := Option.some.inj hst
    have hf := h.busy (by rw [hpc]; rfl)
    exact told_of_flag (h.lookup_seen hf) hf (fun _ hc => (nomatch hc)) fun hc => (nomatch hc)
  | drawAll =>
    unfold stepTerminal at hst
    rw [hpc] at hst
    obtain ⟨hl, rfl⟩ := locked_some hst
    have hf := h.busy (by rw [hpc]; rfl)
    refine told_of_flag (h.lookup_seen hf) hf (fun outBuffer hc => ?_) fun hc => (nomatch hc)
    exact (TerminalPc.sendAll.inj hc).symm
  | sendAll outBuffer =>
    unfold stepTerminal at hst
    rw [hpc] at hst
    obtain rfl := Option.some.inj hst
    have hf := h.busy (by rw [hpc]; rfl)
    refine told_of_flag (h.lookup_seen hf) hf (fun _ hc => (nomatch hc)) fun _ text ht => ?_
    obtain ⟨_, -, rfl⟩ := List.mem_map.1 ht
    exact h.text outBuffer hpc
  | clear => exact h.clear hk hpc hst
  | tail => exact h.tail hk hpc hst

/-- **A step of `data_loop`**. -/
theorem Told.dataLoop {leave : Bool} (h : Told s) (hst : stepData s leave = some t) : Told t := by
  unfold stepData at hst
  cases hpc : s.data with
  | idle => rw [hpc] at hst; cases hst
  | leave => rw [hpc] at hst; cases hst
  | start =>
    rw [hpc] at hst
    obtain rfl := Option.some.inj hst
    exact h.data fun _ hs _ => hs (by rw [hpc]; rfl)
  | head =>
    rw [hpc] at hst
    obtain rfl := Option.some.inj hst
    exact h.data fun _ hs _ => hs (by rw [hpc]; rfl)
  | compare =>
    rw [hpc] at hst
    obtain ⟨-, rfl⟩ := locked_some hst
    by_cases hc : s.menu.isActive = true ∧ s.menu.activeAddress = some s.station
    · exact h.data fun _ _ _ => hc
    · rw [if_neg hc]
      exact h.data fun _ _ hd => (nomatch hd)
  | body =>
    rw [hpc] at hst
    obtain rfl := Option.some.inj hst
    exact h.data fun _ hs _ => hs (by rw [hpc]; rfl)

/-- **A step of `main`** starts `data_loop` with the active station. -/
theorem Told.main (h : Told s) (hst : stepMain s = some t) : Told t := by
  unfold stepMain at hst
  cases hpc : s.data with
  | idle =>
    rw [hpc] at hst
    dsimp only at hst
    by_cases ha : s.menu.isActive = true
    · rw [if_pos ha] at hst
      obtain ⟨station, hs, hst⟩ := Option.bind_eq_some_iff.1 hst
      obtain ⟨-, rfl⟩ := locked_some hst
      exact h.data fun _ _ _ => ⟨ha, hs⟩
    · rw [if_neg ha] at hst
      cases hst
  | leave =>
    rw [hpc] at hst
    obtain rfl := Option.some.inj hst
    exact h.data fun _ _ hd => (nomatch hd)
  | start => rw [hpc] at hst; cases hst
  | head => rw [hpc] at hst; cases hst
  | compare => rw [hpc] at hst; cases hst
  | body => rw [hpc] at hst; cases hst

/-- `recieve_lookup` loads the flag. -/
theorem Told.reply {addr : Address} {name : List UInt8} {time : ℤ} (h : Told s)
    (hl : s.lookup = none) : Told { s with lookup := some ⟨s.menuChanged, addr, name, time⟩ } where
  seen l hl' hc := by
    obtain rfl := Option.some.inj hl'
    exact hc
  busy := h.busy
  text := h.text
  shown := h.shown
  settled hf _ := h.settled hf fun l hc => by rw [hl] at hc; cases hc
  late hf l hl' hc := by
    obtain rfl := Option.some.inj hl'
    dsimp only at hf hc
    rw [hf] at hc
    cases hc

/-- `recieve_lookup` stores the flag. It changes the menu only if the flag was clear, so
`loop_terminal` is not redrawing. -/
theorem Told.addMenu {l : Lookup} (h : Told s) (hl : s.lookup = some l)
    (hst : step W s .addMenu = some t) : Told t := by
  rw [step, hl, Option.map_some, Option.some.injEq] at hst
  subst hst
  cases hc : l.menuChanged with
  | true => exact told_of_flag (fun _ hc => (nomatch hc)) rfl h.text h.shown
  | false =>
    have hf := h.seen l hl hc
    have hr : s.terminal.redraws = false := by
      by_contra hr
      rw [Bool.not_eq_false] at hr
      rw [h.busy hr] at hf
      cases hf
    refine told_of_free rfl hr fun hr => ?_
    have hs := h.settled hf fun l' hl' => by
      rw [hl, Option.some.injEq] at hl'
      subst hl'
      exact hc
    have hsame := addMenu_same hr
    unfold State.Tuned State.Shown
    show (_ → (s.menu.addMenu l.addr l.name l.time).1.isActive = true ∧
      (s.menu.addMenu l.addr l.name l.time).1.activeAddress = _) ∧
      ∀ text ∈ _, text = (s.menu.addMenu l.addr l.name l.time).1.drawMenu
    rw [hsame.draw, hsame.isActive, hsame.activeAddress]
    exact hs

/-- **A step** keeps the invariant. -/
theorem Told.step (h : Told s) (hk : Keeps s e) (hst : Step s e t) : Told t := by
  obtain ⟨W, hst⟩ := hst
  cases e with
  | terminal ready red time => exact h.terminal hk hst
  | reply addr name time =>
    obtain ⟨hl, rfl⟩ := locked_some hst
    exact h.reply hl
  | addMenu =>
    obtain ⟨l, hl, -⟩ := Option.map_eq_some_iff.1 hst
    exact h.addMenu hl hst
  | data leave => exact h.dataLoop hst
  | main => exact h.main hst

/-- `data_loop` comes to its head without another look at the menu. -/
theorem comes_to_head (hd : s.data.listens = true) :
    ∃ es, Run Step s es { s with data := .head } := by
  cases hpc : s.data with
  | start => exact ⟨[.data false], Run.single ⟨fun _ _ => 0, by simp [step, stepData, hpc]⟩⟩
  | head =>
    refine ⟨[], ?_⟩
    rw [← hpc]
    exact Run.nil
  | body => exact ⟨[.data false], Run.single ⟨fun _ _ => 0, by simp [step, stepData, hpc]⟩⟩
  | idle => rw [hpc] at hd; cases hd
  | compare => rw [hpc] at hd; cases hd
  | leave => rw [hpc] at hd; cases hd

/-- **The clear** that `data_loop` depends on. -/
theorem lost_at_clear {ready : Bool} {red : Option (List UInt8)} {time : ℤ} (hl : s.lookup = none)
    (hpc : s.terminal = .clear) (hd : s.data.listens = true) (hn : ¬ s.Tuned) :
    ∃ es t, Run Step s (.terminal ready red time :: es) t ∧ ¬ Synced t := by
  obtain ⟨now, hnow⟩ := exists_not_expired s.menu.stations.values
  have h1 : Step s (.terminal ready red time) { s with menuChanged := false, terminal := .tail } :=
    ⟨fun _ _ => 0, by simp [step, stepTerminal, hpc]⟩
  have h2 : Step { s with menuChanged := false, terminal := .tail } (.terminal ready red now)
      { s with menuChanged := false, terminal := .head } :=
    ⟨fun _ _ => 0, by simp [step, stepTerminal, State.locked, hl, Menu.checkTime, expire_none hnow]⟩
  obtain ⟨es, h3⟩ := comes_to_head (s := { s with menuChanged := false, terminal := .head }) hd
  refine ⟨_, _, ((Run.single h1).snoc h2).append h3, fun hs => ?_⟩
  exact hn (hs rfl rfl rfl).1

/-- **A station that goes** without a word. -/
theorem lost_at_tail {ready : Bool} {red : Option (List UInt8)} {time : ℤ} {n : ℕ × Station}
    (h : Told s) (hl : s.lookup = none) (hpc : s.terminal = .tail) (hf : s.menuChanged = false)
    (hx : s.menu.firstExpired time = some n) (hn : s.menu.active ≠ some n.1)
    (hd : s.data.listens = true) (hc : s.clients ≠ []) :
    ∃ es t, Run Step s (.terminal ready red time :: es) t ∧ ¬ Synced t := by
  have h1 : Step s (.terminal ready red time)
      { s with menu := s.menu.erase n.1, menuChanged := false, terminal := .head } :=
    ⟨fun l _ => l.size, by
      simp [step, stepTerminal, State.locked, hl, hpc, hf, checkTime_stops hx, hn]⟩
  obtain ⟨es, h2⟩ := comes_to_head
    (s := { s with menu := s.menu.erase n.1, menuChanged := false, terminal := .head }) hd
  refine ⟨_, _, (Run.single h1).append h2, fun hs => ?_⟩
  obtain ⟨text, ht⟩ := List.exists_mem_of_ne_nil _ hc
  have hshown := (h.settled hf fun l hc => by rw [hl] at hc; cases hc).2 text ht
  refine erase_draw (List.mem_of_find?_eq_some hx) ?_
  rw [← (hs rfl rfl rfl).2 text ht, hshown]

/-- **The handshake over a run.** In every run of such steps nothing is lost, and while a client
looks on and `data_loop` plays, every other step can go on to a loss. -/
theorem synced_ok {nazwa : List UInt8} {es : List Event} {s : State}
    (h : Run (Guarded Step Keeps) (State.init nazwa) es s) :
    Synced s ∧ ∀ e, ¬ Keeps s e → s.data.listens = true → s.clients ≠ [] →
      ∃ es' t, Run Step s (e :: es') t ∧ ¬ Synced t := by
  have ht : Told s := by
    refine h.inv (init_told nazwa) fun s e t hI hst => ?_
    exact hI.step hst.2 hst.1
  refine ⟨ht.synced, fun e he hd hc => ?_⟩
  cases e with
  | terminal ready red time =>
    simp only [Keeps, not_forall, not_and_or] at he
    rcases he with ⟨hl, ⟨hpc, -, hn⟩ | ⟨hpc, hf, n, hx, hn⟩⟩
    · exact lost_at_clear hl hpc hd hn
    · exact lost_at_tail ht hl hpc hf hx hn hd hc
  | reply => exact absurd trivial he
  | addMenu => exact absurd trivial he
  | data => exact absurd trivial he
  | main => exact absurd trivial he

theorem step_of_exec {es : List Event} (h : exec (guarded (step W) Keeps) s es = some t) :
    Run (Guarded Step Keeps) s es t :=
  (exec_guarded h).mono fun _ _ _ hst => ⟨⟨W, hst.1⟩, hst.2⟩

/-- `recieve_lookup` hears a station. -/
def hears (addr : Address) (name : List UInt8) (time : ℤ) : List Event :=
  [.reply addr name time, .addMenu]

/-- `main` starts `data_loop`, which comes to the head of its loop. -/
def starts : List Event := [.main, .data false]

/-- A turn of `loop_terminal` in which a client connects. -/
def connects : List Event :=
  [.terminal true none 0, .terminal true none 0] ++ List.replicate 3 (.terminal false none 0)

/-- A turn without input that finds the flag set. -/
def redraws (time : ℤ) : List Event := List.replicate 5 (.terminal false none time)

/-- Stations B and A reply while a client looks on, and `data_loop` plays B. -/
theorem synced_ok_two : ∃ s : State, s.menu.stations.size = 2 ∧ s.station = ⟨2, 1⟩ ∧
    s.Tuned ∧ s.Shown ∧ s.clients ≠ [] := by
  have h : ((exec (guarded (step fun _ _ => 0) Keeps) (State.init []) (connects ++
      hears ⟨2, 1⟩ [66] 0 ++ redraws 1 ++ starts ++ hears ⟨1, 1⟩ [65] 1 ++ redraws 2)).map fun s =>
        (s.menuChanged, s.terminal, s.data, s.menu.stations.size, s.station, s.clients.length)) =
          some (false, .head, .head, 2, ⟨2, 1⟩, 1) := by decide
  obtain ⟨s, hs, h⟩ := Option.map_eq_some_iff.1 h
  simp only [Prod.mk.injEq] at h
  obtain ⟨hf, hterm, hdata, hsize, hst, hc⟩ := h
  obtain ⟨htuned, hshown⟩ := (synced_ok (step_of_exec hs)).1 hf hterm hdata
  exact ⟨s, hsize, hst, htuned, hshown, fun h0 => by rw [h0] at hc; cases hc⟩

/-- A turn in which the first client presses arrow down. -/
def presses : List Event :=
  [.terminal true none 0, .terminal false none 0, .terminal false (some [27, 91, 66]) 0] ++
    List.replicate 3 (.terminal false none 0)

/-- Stations B and A reply, and `data_loop` plays B. A client presses arrow down while `data_loop` is in
the body of its loop: the menu marks A, the flag is set and cleared again before `data_loop` tests it,
and it plays B on. No station expires. -/
theorem change_lost : ¬ ∀ (nazwa : List UInt8) (es : List Event) (s : State),
    Run Step (State.init nazwa) es s → Synced s := by
  intro hall
  have h : ((exec (step fun _ _ => 0) (State.init []) (connects ++ hears ⟨2, 1⟩ [66] 0 ++ redraws 0 ++
      hears ⟨1, 1⟩ [65] 0 ++ redraws 0 ++ starts ++ [.data false] ++ presses ++ redraws 0 ++
      [.data false])).map fun s =>
        (s.menuChanged, s.terminal, s.data, s.menu.activeAddress, s.station)) =
          some (false, .head, .head, some ⟨1, 1⟩, ⟨2, 1⟩) := by decide
  obtain ⟨s, hs, h⟩ := Option.map_eq_some_iff.1 h
  simp only [Prod.mk.injEq] at h
  obtain ⟨hf, hterm, hdata, ha, hst⟩ := h
  have hrun : Run Step (State.init []) _ s := (exec_run hs).mono fun _ _ _ h => ⟨_, h⟩
  have htuned := (hall _ _ _ hrun hf hterm hdata).1.2
  rw [ha, hst, Option.some.injEq, Address.mk.injEq] at htuned
  exact absurd htuned.1 (by decide)

end Terminal

end SikMimuw.Receiver
