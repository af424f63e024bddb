import SikMimuw.Proof.Big.Playing
import SikMimuw.Proof.Reassembly

/-!
# The C receiver and the C++ receiver

`big3` is `big` rewritten in C++. Where a packet fills the first hole, finds the buffer empty or
full, or is ahead of it and has room, both do the same (`big_agrees`). They differ in the other
holes, which only `big3` fills, in what they do when the buffer overflows, and in the blocks that
only `big` loses.
-/

namespace SikMimuw.Big

open Function Lts

/-- The receiver of `big3`: its buffer, the package that its printing thread has in hand, and its
output. -/
structure Big3 where
  buffor : Receiver.Buffer
  package : Option Receiver.Package
  written : List UInt8

/-- **A turn** of the threads of `big3/odbiornik.cpp`: `add_to_buffor`, a section of `printing_loop`
(lines 365-374), the output of the package (376), or a `reset`. -/
inductive Big3.Step (W : Receiver.Wild) : Big3 → Turn → Big3 → Prop
  | add {s : Big3} (num : UInt64) (data : List UInt8) (k : ℕ)
      (hd : (Receiver.addToBuffor W s.buffor num data k).done = true) :
      Big3.Step W s (.add num data)
        { s with buffor := (Receiver.addToBuffor W s.buffor num data k).buf }
  | take {s : Big3} {p : Receiver.Package} {b : Receiver.Buffer} (hs : s.package = none)
      (hp : s.buffor.pop = some (p, b)) : Big3.Step W s .take
        (if p.data = [] then { s with buffor := b.reset }
          else { s with buffor := b, package := some p })
  | write {s : Big3} {p : Receiver.Package} (hs : s.package = some p) :
      Big3.Step W s .write ⟨s.buffor, none, s.written ++ p.data⟩
  | reset {s : Big3} : Big3.Step W s .reset { s with buffor := s.buffor.reset }

/-- The first hole, or no hole and: an empty buffer, a full one, or room up to the packet. -/
def Plain (len : UInt64) (b : Receiver.Buffer) (num : UInt64) : Prop :=
  b.packages.values.find? (fun p => p.data = []) = some ⟨[], num⟩ ∨
    num ∉ b.set.keys ∧ (b.packages.values = [] ∨ b.size.toNat ≤ b.packages.size ∨
      ∃ back ∈ b.packages.values.getLast?, back.num < num ∧
        len.toNat ∣ num.toNat - back.num.toNat ∧
        b.packages.size + (num.toNat - back.num.toNat) / len.toNat ≤ b.size.toNat)

/-- A turn with such a packet, or without any. -/
def Turn.Plain (len : UInt64) (s : Big3) : Turn → Prop
  | .add num data => data.length = len.toNat ∧ Big.Plain len s.buffor num
  | _ => True

/-- Both hold the same. -/
structure Agrees (len : UInt64) (s : Big3) (t : Playing) : Prop where
  ok : Receiver.BufOk len s.buffor
  packages : t.view.packages = s.buffor.packages.values
  size : s.buffor.size.toNat = t.view.size
  maxData : s.buffor.maxData = t.view.maxData
  package : t.package = s.package
  written : t.written = s.written

variable {W : Receiver.Wild} {alloc : Malloc} {len max num : UInt64} {s s' : Big3}
  {t : Playing} {data : List UInt8} {n k : ℕ} {e : Turn} {ts : List Turn} {b : Receiver.Buffer}

/-! ### The calls -/

/-- Whenever it returns, it returns the same. -/
theorem addToBuffor_unique {i j : ℕ} (hi : (Receiver.addToBuffor W b num data i).done = true)
    (hj : (Receiver.addToBuffor W b num data j).done = true) :
    Receiver.addToBuffor W b num data i = Receiver.addToBuffor W b num data j := by
  have hle : ∀ {i j : ℕ}, i ≤ j → (Receiver.addToBuffor W b num data i).done = true →
      Receiver.addToBuffor W b num data j = Receiver.addToBuffor W b num data i := by
    intro i j hij hi
    obtain ⟨k, rfl⟩ := Nat.exists_eq_add_of_le' hij
    unfold Receiver.addToBuffor at hi ⊢
    rw [iterate_add_apply]
    exact Receiver.iterate_pass_done W num data hi k
  rcases le_total i j with h | h
  · exact (hle h hi).symm
  · exact hle h hj

/-- The call, if it returns as soon as it has looked for the number. -/
theorem addToBuffor_enter {b' : Receiver.Buffer} (henter : b.enter num data = ⟨b', [], true⟩)
    (hd : (Receiver.addToBuffor W b num data k).done = true) :
    (Receiver.addToBuffor W b num data k).buf = b' := by
  have hzero : Receiver.addToBuffor W b num data 0 = ⟨b', [], true⟩ := henter
  rw [addToBuffor_unique hd (by rw [hzero] : (Receiver.addToBuffor W b num data 0).done = true), hzero]

/-- **The first hole.** -/
theorem Agrees.fill (h : Agrees len s t) (hne : data ≠ [])
    (hfirst : s.buffor.packages.values.find? (fun p => p.data = []) = some ⟨[], num⟩)
    (hd : (Receiver.addToBuffor W s.buffor num data k).done = true) :
    t.view.Accepts len num ∧
      Agrees len { s with buffor := (Receiver.addToBuffor W s.buffor num data k).buf }
        { t with view := t.view.add num data } := by
  have hmiss : t.view.firstMissing = some ⟨[], num⟩ := by
    unfold View.firstMissing
    rw [h.packages]
    exact hfirst
  obtain ⟨it, hdes⟩ := NodeList.exists_designates (List.mem_of_find?_eq_some hfirst)
  have hit := (h.ok.keys num it).2 hdes
  have henter : s.buffor.enter num data = ⟨s.buffor.fill it num data, [], true⟩ := by
    unfold Receiver.Buffer.enter
    rw [OrdMap.find?_eq_some.2 hit]
  rw [addToBuffor_enter henter hd]
  unfold View.add
  rw [if_pos hmiss]
  refine ⟨Or.inl hmiss, h.ok.fill hit hne, ?_, h.size, h.maxData, h.package, h.written⟩
  show t.view.packages.map _ = _
  rw [Receiver.values_fill h.ok hit, h.packages]
  apply List.map_congr_left
  intro p _
  split_ifs with hp
  · rw [hp]
  · rfl

/-- A number that is no key is not missing. -/
theorem Agrees.firstMissing_ne (h : Agrees len s t) (hkey : num ∉ s.buffor.set.keys) :
    t.view.firstMissing ≠ some ⟨[], num⟩ := by
  intro hmiss
  unfold View.firstMissing at hmiss
  rw [h.packages] at hmiss
  exact hkey (h.ok.keys.mem_keys.2 (List.mem_of_find?_eq_some hmiss))

theorem find?_eq_none_of_notMem (hkey : num ∉ b.set.keys) : b.set.find? num = none :=
  OrdMap.find?_eq_none.2 fun it hit => hkey (OrdMap.mem_keys.2 ⟨it, hit⟩)

/-- **The first packet.** -/
theorem Agrees.first (h : Agrees len s t) (hlen : 0 < len.toNat) (hdata : data.length = len.toNat)
    (hkey : num ∉ s.buffor.set.keys) (hnil : s.buffor.packages.values = [])
    (hd : (Receiver.addToBuffor W s.buffor num data k).done = true) :
    t.view.Accepts len num ∧
      Agrees len { s with buffor := (Receiver.addToBuffor W s.buffor num data k).buf }
        { t with view := t.view.add num data } := by
  have hofNat := Receiver.ofNat_length hdata
  have hnone : t.view.packages.getLast? = none := by
    rw [h.packages, hnil]
    rfl
  have henter : s.buffor.enter num data =
      ⟨{ s.buffor with size := s.buffor.maxData / len }.append num data, [], true⟩ := by
    unfold Receiver.Buffer.enter
    rw [find?_eq_none_of_notMem hkey, ← hofNat]
    exact if_pos hnil
  rw [addToBuffor_enter henter hd]
  unfold View.add View.insert
  rw [if_neg (h.firstMissing_ne hkey), hnone, hofNat]
  refine ⟨Or.inr fun back hback => ?_, h.ok.first hnil (Receiver.ne_nil_of_length hlen hdata), ?_, ?_,
    h.maxData, h.package, h.written⟩
  · rw [hnone] at hback
    cases hback
  · show [_] = (s.buffor.packages.pushBack _).values
    rw [NodeList.values_pushBack, hnil]
    rfl
  · show (s.buffor.maxData / len).toNat = (t.view.maxData / len).toNat
    rw [h.maxData]

/-- **A full buffer**: nothing comes in. -/
theorem Agrees.full (h : Agrees len s t) (hkey : num ∉ s.buffor.set.keys)
    (hne : s.buffor.packages.values ≠ []) (hfull : s.buffor.size.toNat ≤ s.buffor.packages.size)
    (hd : (Receiver.addToBuffor W s.buffor num data k).done = true) :
    t.view.Accepts len num ∧
      Agrees len { s with buffor := (Receiver.addToBuffor W s.buffor num data k).buf }
        { t with view := t.view.add num data } := by
  have hnot : ¬ t.view.packages.length < t.view.size := by
    rw [h.packages, NodeList.length_values, ← h.size]
    omega
  have henter : s.buffor.enter num data = ⟨s.buffor, [], false⟩ := by
    unfold Receiver.Buffer.enter
    rw [find?_eq_none_of_notMem hkey]
    exact if_neg hne
  have hone : Receiver.addToBuffor W s.buffor num data 1 = ⟨s.buffor, [], true⟩ := by
    show Receiver.Call.pass W num data (s.buffor.enter num data) = _
    rw [henter]
    exact if_pos (Or.inr (by simpa using hfull))
  rw [addToBuffor_unique hd (by rw [hone]), hone]
  obtain ⟨back, hback⟩ : ∃ back, t.view.packages.getLast? = some back := by
    rw [h.packages]
    exact ⟨_, List.getLast?_eq_some_getLast hne⟩
  unfold View.add View.insert
  rw [if_neg (h.firstMissing_ne hkey), hback]
  dsimp only
  rw [if_neg hnot]
  exact ⟨Or.inr fun _ _ hlt => absurd hlt hnot, h.ok, h.packages, h.size, h.maxData, h.package,
    h.written⟩

/-- **A packet ahead**, with room up to it. -/
theorem Agrees.ahead (h : Agrees len s t) (hlen : 0 < len.toNat)
    (hasc : Receiver.Ascending len (t.view.packages.map Receiver.Package.num))
    (hdata : data.length = len.toNat) (hkey : num ∉ s.buffor.set.keys)
    (hroom : s.buffor.packages.size < s.buffor.size.toNat) {back : Receiver.Package}
    (hback : s.buffor.packages.values.getLast? = some back) (hlt : back.num < num)
    (hdvd : len.toNat ∣ num.toNat - back.num.toNat)
    (hfit : s.buffor.packages.size + (num.toNat - back.num.toNat) / len.toNat ≤ s.buffor.size.toNat)
    (hd : (Receiver.addToBuffor W s.buffor num data k).done = true) :
    t.view.Accepts len num ∧
      Agrees len { s with buffor := (Receiver.addToBuffor W s.buffor num data k).buf }
        { t with view := t.view.add num data } := by
  have hofNat := Receiver.ofNat_length hdata
  have hback' : t.view.packages.getLast? = some back := by rwa [h.packages]
  have hroom' : t.view.packages.length < t.view.size := by
    rw [h.packages, NodeList.length_values, ← h.size]
    exact hroom
  obtain ⟨j, hj, hgap⟩ := exists_gap hlen hlt hdvd
  have hcount : (num.toNat - back.num.toNat) / len.toNat = j + 1 := by
    rw [hj, Nat.add_sub_cancel_left, Nat.mul_div_cancel _ hlen]
  rw [hcount] at hfit
  have hw : back.num.toNat + (j + 1) * len.toNat < 2 ^ 64 := by
    rw [← hj]
    exact num.toNat_lt
  have hnum : num = back.num + UInt64.ofNat (j + 1) * len := by
    rw [← UInt64.toNat_inj, Receiver.toNat_behind hw, hj]
  have hstretch : Receiver.Stretch len s.buffor back := by
    refine ⟨?_, hback, fun key hk => ?_, hroom⟩
    · rw [h.packages] at hasc
      exact hasc
    · obtain ⟨it, hit⟩ := OrdMap.mem_keys.1 hk
      exact List.mem_map.2 ⟨_, ((h.ok.keys key it).1 hit).mem, rfl⟩
  obtain ⟨i, hdone, -, hsize, hvalues⟩ :=
    hstretch.ahead_fits hlen (Nat.succ_pos j) hw hdata hfit W
  rw [Nat.succ_eq_add_one, ← hnum] at hdone hsize hvalues
  have hfits : Receiver.Fits len s.buffor num :=
    Or.inr (Or.inr (Or.inr (Or.inr ⟨back, hback, j + 1, Nat.succ_pos j, hfit, hnum⟩)))
  have hok := (Receiver.fits_call (W := W) hdata hfits (h.ok.keeps hlen hdata) i).2
  have hmax : (Receiver.addToBuffor W s.buffor num data i).buf.maxData = s.buffor.maxData := by
    have hkeeps : Receiver.Keeps (fun b => b.maxData = s.buffor.maxData) len num data s.buffor :=
      ⟨rfl, fun _ _ => rfl, fun _ => rfl, fun _ _ _ hb _ _ _ _ _ => hb,
        fun _ _ _ _ hb _ _ _ _ _ _ => hb⟩
    exact (Receiver.fits_call hdata hfits hkeeps i).2
  rw [addToBuffor_unique hd hdone]
  unfold View.add View.insert
  rw [if_neg (h.firstMissing_ne hkey), hback', hofNat]
  dsimp only
  rw [if_pos hroom', hgap]
  refine ⟨Or.inr fun b hb _ => ?_, hok, ?_, ?_, ?_, h.package, h.written⟩
  · rw [hback', Option.mem_some_iff] at hb
    rw [← hb]
    exact ⟨hlt, hdvd⟩
  · show (t.view.packages ++ _ ++ _).rtake t.view.size = _
    rw [hvalues, h.packages, Nat.add_sub_cancel]
    apply Window.rtake_of_length_le
    rw [List.length_append, List.length_append, Receiver.length_missing, NodeList.length_values,
      List.length_singleton, ← h.size]
    omega
  · exact (congrArg UInt64.toNat hsize).trans h.size
  · exact hmax.trans h.maxData

theorem Agrees.add (h : Agrees len s t) (hlen : 0 < len.toNat)
    (hasc : Receiver.Ascending len (t.view.packages.map Receiver.Package.num))
    (hdata : data.length = len.toNat) (hp : Plain len s.buffor num)
    (hd : (Receiver.addToBuffor W s.buffor num data k).done = true) :
    t.view.Accepts len num ∧
      Agrees len { s with buffor := (Receiver.addToBuffor W s.buffor num data k).buf }
        { t with view := t.view.add num data } := by
  rcases hp with hfirst | ⟨hkey, hnil | hfull | ⟨back, hback, hlt, hdvd, hfit⟩⟩
  · exact h.fill (Receiver.ne_nil_of_length hlen hdata) hfirst hd
  · exact h.first hlen hdata hkey hnil hd
  · by_cases hnil : s.buffor.packages.values = []
    · exact h.first hlen hdata hkey hnil hd
    · exact h.full hkey hnil hfull hd
  · by_cases hroom : s.buffor.packages.size < s.buffor.size.toNat
    · exact h.ahead hlen hasc hdata hkey hroom hback hlt hdvd hfit hd
    · have hne : s.buffor.packages.values ≠ [] := by
        intro h0
        rw [h0] at hback
        cases hback
      exact h.full hkey hne (not_lt.1 hroom) hd

/-! ### Runs -/

/-- **Every turn of the one is a turn of the other.** -/
theorem Agrees.turn (h : Agrees len s t) (hlen : 0 < len.toNat)
    (hasc : Receiver.Ascending len (t.view.packages.map Receiver.Package.num))
    (hst : Big3.Step W s e s') (hp : e.Plain len s) :
    ∃ t', t.turn len e = some t' ∧ Agrees len s' t' := by
  cases hst with
  | add num data k hd =>
    obtain ⟨hacc, hagrees⟩ := h.add hlen hasc hp.1 hp.2 hd
    exact ⟨_, if_pos ⟨hp.1, hacc⟩, hagrees⟩
  | @take p b hs hpop =>
    obtain ⟨hhead, rfl⟩ := Receiver.pop_eq_some.1 hpop
    obtain ⟨ps, hps⟩ := List.head?_eq_some_iff.1 hhead
    have hpackages : t.view.packages = p :: ps := h.packages.trans hps
    have hnone : t.package = none := h.package.trans hs
    have hturn : t.turn len .take = if p.data = [] then
        some { t with view := { t.view with packages := [], leaked := t.view.leaked + 1 } }
        else some { t with view := { t.view with packages := ps }, package := some p } := by
      simp only [Playing.turn, hpackages, hnone]
    by_cases hd : p.data = []
    · rw [if_pos hd] at hturn ⊢
      exact ⟨_, hturn, Receiver.reset_ok len _, rfl, h.size, h.maxData, h.package, h.written⟩
    · rw [if_neg hd] at hturn ⊢
      refine ⟨_, hturn, h.ok.pop hpop hd, ?_, h.size, h.maxData, rfl, h.written⟩
      show ps = s.buffor.packages.popFront.values
      rw [NodeList.values_popFront, hps]
      rfl
  | @write p hs =>
    refine ⟨⟨t.view, none, t.written ++ p.data⟩, ?_, h.ok, h.packages, h.size, h.maxData, rfl, ?_⟩
    · have hsome : t.package = some p := h.package.trans hs
      show t.package.map _ = _
      rw [hsome]
      rfl
    · rw [h.written]
  | reset =>
    exact ⟨_, rfl, Receiver.reset_ok len s.buffor, rfl, h.size, h.maxData, h.package, h.written⟩

/-- The steps of `big3` with such packets. -/
def Big3.PlainStep (W : Receiver.Wild) (len : UInt64) : Big3 → Turn → Big3 → Prop :=
  Guarded (Big3.Step W) fun s e => e.Plain len s

def Big3.start (max : UInt64) : Big3 := ⟨Receiver.Buffer.init max, none, []⟩

/-- **The C receiver does what the C++ receiver does**, on its heap: in every run of `big3` with
packets of one length that fill the first hole, come when the buffer is empty or full, or are ahead
and have room, the same turns are one of `big`. Both hold the same packages in the end, and have
written the same. The length, the size of the buffer, the heap and the number of turns are as in
`big_refines`. -/
theorem big_agrees (halloc : Allocates alloc) (hn : 2 ^ 64 ≤ n) (hlen : len ≠ 0)
    (hexact : max / (max / len) = len) (hmax : (max / len).toNat < 2 ^ 31) {h : Heap}
    (hlive : h.live = ∅) (bytes : UInt64 → List UInt8) (hts : ts.length ≤ 2 ^ 62)
    (hrun : Run (Big3.PlainStep W len) (Big3.start max) ts s) :
    ∃ p t, Run (Fires (Process.turn alloc n)) (Process.start h max bytes) ts p ∧ Plays len p t ∧
      t.view.packages = s.buffor.packages.values ∧ t.package = s.package ∧ p.written = s.written := by
  have hpos : 0 < len.toNat := Nat.pos_of_ne_zero fun h0 => hlen (UInt64.toNat_inj.1 h0)
  have key : ∃ t, Run (Fires (Playing.turn len)) (Playing.start max) ts t ∧ Agrees len s t := by
    induction hrun with
    | nil =>
      exact ⟨_, Run.nil, Receiver.init_ok len max, rfl, rfl, rfl, rfl, rfl⟩
    | snoc _ hst ih =>
      rw [List.length_append, List.length_singleton] at hts
      obtain ⟨t, hrun, hag⟩ := ih (by omega)
      -- the numbers are ascending, as those in the heap are
      obtain ⟨p, -, hp, -⟩ := Plays.run halloc hn hlen hexact hmax hlive bytes (by omega) hrun
      obtain ⟨q, es, hshows⟩ := hp.shows
      obtain ⟨t', hturn, hag'⟩ := hag.turn hpos hshows.ascending hst.1 hst.2
      exact ⟨t', hrun.snoc hturn, hag'⟩
  obtain ⟨t, hrun, hag⟩ := key
  obtain ⟨p, hprun, hp, -⟩ := Plays.run halloc hn hlen hexact hmax hlive bytes hts hrun
  exact ⟨p, t, hprun, hp, hag.packages, hag.package, hp.written.trans hag.written⟩

/-- The turns of `fourTurns`: packet 4 comes before packet 2. -/
theorem big_agrees_four : ∃ p t,
    Run (Fires (Process.turn firstFree (2 ^ 64))) (Process.start unused 8 fun _ => []) fourTurns p ∧
      Plays 2 p t ∧ t.view.packages = [⟨[5, 6], 4⟩] ∧ t.package = some ⟨[3, 4], 2⟩ ∧
        p.written = [1, 2] := by
  have h0 : Run (Big3.PlainStep ⟨fun _ _ => 0, fun _ _ => 0⟩ 2) (Big3.start 8) [] (Big3.start 8) :=
    Run.nil
  have h1 := h0.snoc ⟨Big3.Step.add 0 [1, 2] 0 rfl, rfl, Or.inr ⟨by decide, Or.inl rfl⟩⟩
  have h2 := h1.snoc ⟨Big3.Step.add 4 [5, 6] 2 rfl, rfl, Or.inr ⟨by decide, Or.inr (Or.inr
    ⟨⟨[1, 2], 0⟩, rfl, by decide, by decide, by decide⟩)⟩⟩
  have h3 := h2.snoc ⟨Big3.Step.take rfl rfl, trivial⟩
  have h4 := h3.snoc ⟨Big3.Step.add 2 [3, 4] 0 rfl, rfl, Or.inl rfl⟩
  have h5 := h4.snoc ⟨Big3.Step.write rfl, trivial⟩
  have h6 := h5.snoc ⟨Big3.Step.take rfl rfl, trivial⟩
  exact big_agrees firstFree_allocates le_rfl (by decide) (by decide) (by decide) rfl _ (by decide) h6

end SikMimuw.Big
