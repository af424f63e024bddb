import SikMimuw.Model.Lookup
import SikMimuw.Proof.Expiry
import SikMimuw.Proof.Reply

/-!
# The replies and the turns that `menu_changed` stops

Both `add_menu` and `check_time` are called on the right side of `menu_changed || ...`. While the flag
is set, a reply goes by unheard, and no station expires.

* `Heard`: the station of a reply is in the menu, with the time of the reply.
  `heard_iff`: the exact condition.
* `Tidy`: what the turn needs. `endTurn_iff`: no expired station stays exactly if it holds.
  `endTurn_successor`: the same where an erased station still leads to the next.
* `lookup_ok_iff`: both.
-/

namespace SikMimuw.Receiver

open CStr Endian

variable {e : Endian} {inetAton : List UInt8 → Option UInt32} {buffer name : List UInt8}
  {out parsed : Parsed} {temp : List ℤ} {time : ℤ} {m : Menu} {menuChanged : Bool} {addr : Address}
  {W : Resume}

/-- A reply that `parse_recv` accepts, and what it leaves in the arrays. -/
structure Accepts (buffer : List UInt8) (out : Parsed) (temp : List ℤ) (parsed : Parsed) : Prop where
  reply : ∃ text, read buffer = some text ∧ reply <:+: text
  parse : parseRecv buffer out temp = some (0, parsed)

/-- A station with this address was last seen at `time`. -/
def Menu.Seen (m : Menu) (addr : Address) (time : ℤ) : Prop :=
  ∃ s ∈ m.stations.values, s.address = addr ∧ s.time = time

/-- **The reply is heard.** -/
def Heard (e : Endian) (inetAton : List UInt8 → Option UInt32) (buffer : List UInt8)
    (out : Parsed) (temp : List ℤ) (parsed : Parsed) (time : ℤ) (m : Menu) (menuChanged : Bool) :
    Prop :=
  ∃ addr r, parsed.sockaddr e inetAton = some addr ∧
    recieveLookup e inetAton buffer out temp time m menuChanged = some r ∧ r.1.Seen addr time

/-- **What it needs**: an address that `inet_aton` takes, and a free flag. A new station's name has to
end in its array. -/
def Hears (e : Endian) (inetAton : List UInt8 → Option UInt32) (parsed : Parsed) (time : ℤ)
    (m : Menu) (menuChanged : Bool) : Prop :=
  ∃ addr, parsed.sockaddr e inetAton = some addr ∧
    if menuChanged then m.Seen addr time
    else (∃ s ∈ m.stations.values, s.address = addr) ∨ 0 ∈ parsed.name

/-- **What the turn needs**: no station has expired, or one has and the flag is free. -/
def Tidy (time : ℤ) (m : Menu) (menuChanged : Bool) : Prop :=
  (∀ s ∈ m.stations.values, s.expired time = false) ∨
    menuChanged = false ∧ ∀ x ∈ m.stations.nodes, ∀ y ∈ m.stations.nodes,
      x.2.expired time = true → y.2.expired time = true → x = y

/-! ### A reply -/

theorem addMenu_seen (m : Menu) (addr : Address) (name : List UInt8) (time : ℤ) :
    (m.addMenu addr name time).1.Seen addr time := by
  unfold Menu.Seen
  have hc := addMenu_list m addr name time
  generalize (m.addMenu addr name time).1.stations = l at hc
  generalize (m.addMenu addr name time).2 = told at hc
  cases hc with
  | @known s hs ha =>
    refine ⟨s.reply addr time, ?_, ?_, ?_⟩
    · rw [NodeList.values_map]
      exact List.mem_map_of_mem hs
    · rw [Station.reply_address, ha]
    · unfold Station.reply
      rw [if_pos ha]
  | new =>
    exact ⟨_, (NodeList.designates_insertAt.2 (Or.inr ⟨rfl, rfl⟩)).mem, rfl, rfl⟩

/-- **`add_menu`** of an array stops at a new station's name that does not end. -/
theorem addName_iff : (∃ r, m.addName addr name time = some r ∧ r.1.Seen addr time) ↔
    (∃ s ∈ m.stations.values, s.address = addr) ∨ 0 ∈ name := by
  have hany : (m.stations.values.any fun s => s.address = addr) = true ↔
      ∃ s ∈ m.stations.values, s.address = addr := by simp
  unfold Menu.addName
  by_cases hknown : ∃ s ∈ m.stations.values, s.address = addr
  · rw [if_pos (hany.2 hknown)]
    exact iff_of_true ⟨_, rfl, addMenu_seen m addr [] time⟩ (Or.inl hknown)
  · rw [if_neg (mt hany.1 hknown)]
    unfold CStr.read
    by_cases hend : 0 ∈ name
    · rw [if_pos hend]
      exact iff_of_true ⟨_, rfl, addMenu_seen m addr _ time⟩ (Or.inr hend)
    · rw [if_neg hend]
      refine iff_of_false ?_ (not_or.2 ⟨hknown, hend⟩)
      rintro ⟨r, hr, -⟩
      cases hr

/-- What is left of `recieve_lookup` once `parse_recv` has accepted the reply. -/
theorem recieveLookup_accepts (h : Accepts buffer out temp parsed) :
    recieveLookup e inetAton buffer out temp time m menuChanged =
      (parsed.sockaddr e inetAton).bind fun addr =>
        if menuChanged then some (m, true) else m.addName addr parsed.name time := by
  obtain ⟨text, hread, hin⟩ := h.reply
  unfold recieveLookup
  rw [hread, h.parse]
  simp only [Option.bind_eq_bind, Option.bind_some, if_pos hin, if_true]
  rfl

/-- **A reply is heard** exactly under this condition. -/
theorem heard_iff (h : Accepts buffer out temp parsed) :
    Heard e inetAton buffer out temp parsed time m menuChanged ↔
      Hears e inetAton parsed time m menuChanged := by
  unfold Heard Hears
  refine exists_congr fun addr => ?_
  rw [exists_and_left]
  refine and_congr_right fun haddr => ?_
  rw [recieveLookup_accepts h, haddr, Option.bind_some]
  cases menuChanged with
  | true => simp
  | false =>
    rw [if_neg Bool.false_ne_true, if_neg Bool.false_ne_true]
    exact addName_iff

/-! ### The end of a turn -/

/-- **One call of `check_time`** may leave all expired stations but the first. -/
theorem checkTime_tidy :
    (∀ W, ∀ s ∈ (m.checkTime W time).1.stations.values, s.expired time = false) ↔
      ∀ x ∈ m.stations.nodes, ∀ y ∈ m.stations.nodes,
        x.2.expired time = true → y.2.expired time = true → x = y := by
  cases hf : m.firstExpired time with
  | none =>
    have hnone := firstExpired_none.1 hf
    refine iff_of_true (fun W => ?_) fun x hx _ _ hxe => ?_
    · rw [checkTime_none hf]
      exact hnone
    · rw [hnone x.2 (List.mem_map_of_mem hx)] at hxe
      cases hxe
  | some n =>
    obtain ⟨hn, hne⟩ := firstExpired_some hf
    constructor
    · intro h x hx y hy hxe hye
      -- if the walk ends there, only the first one goes
      have hgone : ∀ z ∈ m.stations.nodes, z.2.expired time = true → z = n := by
        intro z hz hze
        by_contra hzn
        have hstay : (m.stations.erase n.1).Designates z.1 z.2 := by
          refine NodeList.designates_erase.2 ⟨hz, fun hsame => hzn (Prod.ext hsame ?_)⟩
          exact NodeList.Designates.unique (l := m.stations) hz (hsame ▸ hn)
        have hz := h (fun l _ => l.size) z.2
        rw [checkTime_stops hf] at hz
        rw [hz hstay.mem] at hze
        cases hze
      rw [hgone x hx hxe, hgone y hy hye]
    · intro h W
      have hrest : ∀ s ∈ (m.erase n.1).stations.values, s.expired time = false := by
        intro s hs
        obtain ⟨it, hit⟩ := NodeList.exists_designates hs
        obtain ⟨hm, hit⟩ := NodeList.designates_erase.1 hit
        by_contra hse
        exact hit (congrArg Prod.fst (h _ hm _ hn (Bool.eq_true_of_not_eq_false hse) hne))
      obtain ⟨k, place, heq⟩ := checkTime_some (W := W) hf
      rw [heq, expire_none hrest]
      exact hrest

/-- **No expired station stays**, wherever `check_time` goes on, exactly under this condition. -/
theorem endTurn_iff :
    (∀ W, ∀ s ∈ (endTurn W time m menuChanged).1.stations.values, s.expired time = false) ↔
      Tidy time m menuChanged := by
  unfold endTurn Tidy
  cases menuChanged with
  | true =>
    simp only [if_true, Bool.true_eq_false, false_and, or_false]
    exact forall_const Resume
  | false =>
    simp only [Bool.false_eq_true, if_false, true_and]
    rw [checkTime_tidy]
    refine (or_iff_right_of_imp fun hnone x hx _ _ hxe => ?_).symm
    rw [hnone x.2 (List.mem_map_of_mem hx)] at hxe
    cases hxe

/-- **Where the erased station still leads to the next one**, a free flag is enough. -/
theorem endTurn_successor (hW : ∀ l it, W l it = l.iterators.idxOf it) :
    (∀ s ∈ (endTurn W time m menuChanged).1.stations.values, s.expired time = false) ↔
      menuChanged = false ∨ ∀ s ∈ m.stations.values, s.expired time = false := by
  unfold endTurn
  cases menuChanged with
  | true => simp
  | false =>
    refine iff_of_true (fun s hs => ?_) (Or.inl rfl)
    obtain ⟨x, hx, rfl⟩ := List.mem_map.1 hs
    rw [if_neg Bool.false_ne_true, checkTime_successor hW] at hx
    simpa using (List.mem_filter.1 hx).2

/-- **The replies and the turns.** A reply that `parse_recv` accepts is heard, and no expired station
stays at the end of a turn, exactly under these conditions. -/
theorem lookup_ok_iff (e : Endian) (inetAton : List UInt8 → Option UInt32)
    (h : Accepts buffer out temp parsed) (time : ℤ) (m : Menu) (menuChanged : Bool) :
    (Heard e inetAton buffer out temp parsed time m menuChanged ↔
      Hears e inetAton parsed time m menuChanged) ∧
      ∀ now, (∀ W, ∀ s ∈ (endTurn W now m menuChanged).1.stations.values, s.expired now = false) ↔
        Tidy now m menuChanged :=
  ⟨heard_iff h, fun _ => endTurn_iff⟩

/-- A reply of "Radio Seven", and its arrays. -/
def radioSeven : List UInt8 := (station (bytes "Radio Seven")).replay ++ 0 :: List.replicate 45 0

def arrays : Parsed := ⟨List.replicate 65 0, 0, List.replicate 65 0⟩

def parsedSeven : Parsed :=
  ⟨bytes "Radio Seven" ++ List.replicate 54 0, 26851, bytes "239.10.11.12" ++ List.replicate 53 0⟩

/-- `inet_aton` of its address. -/
def atonSeven (s : List UInt8) : Option UInt32 :=
  if s = bytes "239.10.11.12" then some 0x0c0b0aef else none

theorem accepts_radioSeven : Accepts radioSeven arrays [0, 0, 0, 0] parsedSeven := by
  have hok := replyOk_station (bytes "Radio Seven") (by decide) (by decide)
  refine ⟨⟨_, read_replay hok, [], _, replay_append hok.port []⟩, ?_⟩
  exact parseRecv_replay hok (by decide) (by decide) (by decide) rfl 0

/-- The first reply is heard, and nothing has expired. -/
theorem lookup_ok_iff_first :
    Heard little atonSeven radioSeven arrays [0, 0, 0, 0] parsedSeven 0 (Menu.init []) false ∧
      ∀ W, ∀ s ∈ (endTurn W 0 (Menu.init []) false).1.stations.values, s.expired 0 = false := by
  have h := lookup_ok_iff little atonSeven accepts_radioSeven 0 (Menu.init []) false
  refine ⟨h.1.2 ⟨⟨0x0c0b0aef, 0xe368⟩, by decide, Or.inr (by decide)⟩, (h.2 0).2 (Or.inl ?_)⟩
  intro s hs
  cases hs

/-- While the flag is set, the reply is not heard, and an expired station stays. -/
theorem reply_dropped :
    (¬ ∀ (e : Endian) (inetAton : List UInt8 → Option UInt32) (buffer : List UInt8) (out : Parsed)
      (temp : List ℤ) (parsed : Parsed) (time : ℤ) (m : Menu) (menuChanged : Bool),
      Accepts buffer out temp parsed → (parsed.sockaddr e inetAton).isSome →
        Heard e inetAton buffer out temp parsed time m menuChanged) ∧
      ¬ ∀ (W : Resume) (time : ℤ) (m : Menu) (menuChanged : Bool),
        ∀ s ∈ (endTurn W time m menuChanged).1.stations.values, s.expired time = false := by
  constructor
  · intro h
    have hh := h little atonSeven _ _ _ _ 0 (Menu.init []) true accepts_radioSeven (by decide)
    obtain ⟨addr, -, s, hs, -⟩ := (heard_iff accepts_radioSeven).1 hh
    cases hs
  · intro h
    have hx := h (fun _ _ => 0) 21 ((Menu.init []).addMenu ⟨1, 1⟩ [65] 0).1 true ⟨[65], ⟨1, 1⟩, 0⟩
      List.mem_cons_self
    exact absurd hx (by decide)

/-! ### The steps of the threads -/

namespace Terminal

/-- **`recieve_lookup` with a reply**: its two steps, with none of another thread between them. -/
theorem recieveLookup_steps {s : State} (h : Accepts buffer out temp parsed) (hl : s.lookup = none)
    {r : Menu × Bool}
    (hr : recieveLookup e inetAton buffer out temp time s.menu s.menuChanged = some r) :
    ∃ addr name s', step W s (.reply addr name time) = some s' ∧
      step W s' .addMenu = some { s with menu := r.1, menuChanged := r.2 } := by
  rw [recieveLookup_accepts h] at hr
  obtain ⟨addr, -, hr⟩ := Option.bind_eq_some_iff.1 hr
  have hreply : ∀ name, step W s (.reply addr name time) =
      some { s with lookup := some ⟨s.menuChanged, addr, name, time⟩ } := by
    intro name
    show s.locked _ = _
    unfold State.locked
    rw [hl, Option.isNone_none, if_pos rfl]
  -- of which name the section makes a string
  have hname : ∃ name, r =
      if s.menuChanged then (s.menu, true) else s.menu.addMenu addr name time := by
    by_cases hf : s.menuChanged = true
    · rw [if_pos hf] at hr
      exact ⟨[], by rw [if_pos hf, Option.some.inj hr]⟩
    · rw [if_neg hf] at hr
      unfold Menu.addName at hr
      split at hr
      · exact ⟨[], by rw [if_neg hf, Option.some.inj hr]⟩
      · obtain ⟨name, -, hr⟩ := Option.map_eq_some_iff.1 hr
        exact ⟨name, by rw [if_neg hf, hr]⟩
  obtain ⟨name, rfl⟩ := hname
  refine ⟨addr, name, _, hreply name, ?_⟩
  simp only [step, Option.map_some, ← hl]

/-- **The end of a turn** of `loop_terminal`. -/
theorem endTurn_step {s : State} (ht : s.terminal = .tail) (hl : s.lookup = none) (ready : Bool)
    (red : Option (List UInt8)) : step W s (.terminal ready red time) =
      some { s with
        menu := (endTurn W time s.menu s.menuChanged).1
        menuChanged := (endTurn W time s.menu s.menuChanged).2
        terminal := .head } := by
  unfold step stepTerminal endTurn State.locked
  rw [ht, hl]
  by_cases hf : s.menuChanged = true
  · simp only [Option.isNone_none, if_true, ← hf]
  · simp only [if_neg hf, Option.isNone_none, if_true]

end Terminal

end SikMimuw.Receiver
