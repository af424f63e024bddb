import SikMimuw.Proof.Blocks

/-!
# What becomes of `stdin`

`main` sends a block only when one `read` fills it, and starts every `read` at the beginning of
its buffer, so the bytes of a short read are dropped. The stream that was sent is the stream that
was read exactly if no read is short while a whole block is left (`FullWhileLeft`), and the
64-bit number of the last block does not wrap (`intact_iff`).
-/

namespace SikMimuw.Transmitter

open Lts

variable {params : Parameters} {stdin r : List UInt8} {s s' : State} {psize o : ℕ}
  {rs : List (List UInt8)}

/-- The full reads, each with its offset in what was read. -/
def blocksAt (psize : ℕ) : ℕ → List (List UInt8) → List (ℕ × List UInt8)
  | _, [] => []
  | o, r :: rs =>
    if r.length = psize then (o, r) :: blocksAt psize (o + r.length) rs
    else blocksAt psize (o + r.length) rs

/-- A read that starts with a whole block left returns a whole block. -/
def FullWhileLeft (psize : ℕ) : List (List UInt8) → Prop
  | [] => True
  | r :: rs => (psize ≤ (r :: rs).flatten.length → r.length = psize) ∧ FullWhileLeft psize rs

/-- **The stream is intact**: the payloads are the longest prefix of `stdin` that is made of whole
blocks, and block `k` has number `k * PSIZE`, its offset in `stdin`. -/
structure Intact (params : Parameters) (stdin : List UInt8) (s : State) : Prop where
  payloads : ((originals s.log).map Package.data).flatten =
    stdin.take (params.psize * (stdin.length / params.psize))
  nums : ∀ k p, (originals s.log)[k]? = some p → p.num.toNat = k * params.psize
  offsets : ∀ k b, (blocksAt params.psize 0 s.reads)[k]? = some b → b.1 = k * params.psize

/-! ### Reads -/

theorem fullReads_cons (h : r.length = psize) :
    fullReads psize (r :: rs) = r :: fullReads psize rs := by simp [fullReads, h]

theorem map_blocksAt (o : ℕ) : (blocksAt psize o rs).map Prod.snd = fullReads psize rs := by
  induction rs generalizing o with
  | nil => rfl
  | cons r rs ih =>
    by_cases h : r.length = psize
    · rw [blocksAt, if_pos h, List.map_cons, ih, fullReads_cons h]
    · rw [blocksAt, if_neg h, ih]
      simp [fullReads, h]

theorem le_of_mem_blocksAt {b : ℕ × List UInt8} : ∀ {o}, b ∈ blocksAt psize o rs → o ≤ b.1 := by
  induction rs with
  | nil => intro o hb; cases hb
  | cons r rs ih =>
    intro o hb
    unfold blocksAt at hb
    split at hb
    · rcases List.mem_cons.1 hb with rfl | hb
      · exact le_rfl
      · exact (Nat.le_add_right _ _).trans (ih hb)
    · exact (Nat.le_add_right _ _).trans (ih hb)

theorem length_flatten_fullReads (psize : ℕ) (rs : List (List UInt8)) :
    (fullReads psize rs).flatten.length = psize * (fullReads psize rs).length := by
  have hlen : ∀ r ∈ fullReads psize rs, r.length = psize := fun r hr => by
    simpa using (List.mem_filter.1 hr).2
  rw [List.length_flatten, List.map_congr_left hlen, List.map_const', List.sum_replicate_nat,
    Nat.mul_comm]

/-- Less than a block in all holds no block. -/
theorem fullReads_of_lt (h : rs.flatten.length < psize) : fullReads psize rs = [] := by
  unfold fullReads
  rw [List.filter_eq_nil_iff]
  intro r hr
  have hle := (List.sublist_flatten_of_mem hr).length_le
  simp only [decide_eq_true_eq]
  omega

theorem fullWhileLeft_of_lt (h : rs.flatten.length < psize) : FullWhileLeft psize rs := by
  induction rs with
  | nil => trivial
  | cons r rs ih =>
    refine ⟨fun hle => absurd hle (by omega), ih ?_⟩
    rw [List.flatten_cons, List.length_append] at h
    omega

/-- **Full reads keep every byte** but those of an unfinished last block. -/
theorem blocks_of_fullWhileLeft (hp : 1 ≤ psize) (h : FullWhileLeft psize rs) : ∀ o,
    (fullReads psize rs).flatten = rs.flatten.take (psize * (rs.flatten.length / psize)) ∧
    ∀ k b, (blocksAt psize o rs)[k]? = some b → b.1 = o + k * psize := by
  induction rs with
  | nil => intro o; simp [fullReads, blocksAt]
  | cons r rs ih =>
    intro o
    obtain ⟨hr, hrs⟩ := h
    by_cases hle : psize ≤ (r :: rs).flatten.length
    · have hlen := hr hle
      obtain ⟨hflat, hoff⟩ := ih hrs (o + r.length)
      constructor
      · have hdiv : psize * ((psize + rs.flatten.length) / psize) =
            psize + psize * (rs.flatten.length / psize) := by
          rw [Nat.add_div_left _ (by omega), Nat.mul_succ, Nat.add_comm]
        rw [fullReads_cons hlen, List.flatten_cons, List.flatten_cons, List.length_append, hlen,
          hdiv, hflat, List.take_append, List.take_of_length_le (l := r) (by omega), hlen,
          Nat.add_sub_cancel_left]
      · intro k b hk
        rw [blocksAt, if_pos hlen] at hk
        cases k with
        | zero =>
          simp only [List.getElem?_cons_zero, Option.some.injEq] at hk
          subst hk
          simp
        | succ k =>
          rw [List.getElem?_cons_succ] at hk
          rw [hoff k b hk, hlen, Nat.succ_mul]
          omega
    -- less than a block is left: no read can fill one
    · have hnil : fullReads psize (r :: rs) = [] := fullReads_of_lt (by omega)
      constructor
      · rw [hnil, Nat.div_eq_of_lt (by omega)]
        simp
      · intro k b hk
        rw [← map_blocksAt o, List.map_eq_nil_iff] at hnil
        rw [hnil] at hk
        cases hk

/-- **A short read is not made up for**: if every block stands at its offset and none is
missing, no read was short while a block was left. -/
theorem fullWhileLeft_of_blocks (hp : 1 ≤ psize)
    (hend : ∀ pre post, rs = pre ++ [] :: post → post.flatten = []) : ∀ {o},
    (∀ k b, (blocksAt psize o rs)[k]? = some b → b.1 = o + k * psize) →
    (fullReads psize rs).length = rs.flatten.length / psize → FullWhileLeft psize rs := by
  induction rs with
  | nil => intro _ _ _; trivial
  | cons r rs ih =>
    intro o hoff hcount
    by_cases hle : psize ≤ (r :: rs).flatten.length
    swap
    · exact fullWhileLeft_of_lt (by omega)
    by_cases hlen : r.length = psize
    · refine ⟨fun _ => hlen, ih (fun pre post he => hend (r :: pre) post (by rw [he]; rfl))
        (o := o + r.length) ?_ ?_⟩
      · intro k b hk
        have h1 := hoff (k + 1) b (by rwa [blocksAt, if_pos hlen, List.getElem?_cons_succ])
        rw [h1, hlen, Nat.succ_mul]
        omega
      · rw [fullReads_cons hlen, List.flatten_cons, List.length_append, hlen, List.length_cons,
          Nat.add_div_left _ (by omega)] at hcount
        omega
    · exfalso
      -- the first block comes after the short read, but stands at its offset
      have hpos : 0 < (fullReads psize (r :: rs)).length := by
        rw [hcount]
        exact Nat.div_pos hle (by omega)
      rw [← map_blocksAt o, List.length_map] at hpos
      have hfirst := hoff 0 _ (List.getElem?_eq_getElem hpos)
      have hge : o + r.length ≤ (blocksAt psize o (r :: rs))[0].1 := by
        have hmem := List.getElem_mem hpos
        generalize (blocksAt psize o (r :: rs))[0] = b at hmem
        rw [blocksAt, if_neg hlen] at hmem
        exact le_of_mem_blocksAt hmem
      have hnil : r = [] := List.length_eq_zero_iff.1 (by omega)
      have hrest := hend [] rs (by rw [hnil]; rfl)
      rw [List.flatten_cons, hnil, hrest] at hle
      simp only [List.append_nil, List.length_nil] at hle
      omega

/-! ### Runs -/

/-- After the end of file `main` reads no more. -/
structure EofOk (s : State) : Prop where
  last : [] ∈ s.reads → s.stdin = [] ∧ s.finish ∧ (s.main = .test ∨ s.main = .done)
  once : ∀ pre post, s.reads = pre ++ [] :: post → post.flatten = []

theorem init_eofOk (params : Parameters) (stdin : List UInt8) : EofOk (State.init params stdin) := by
  constructor <;> simp [State.init]

theorem MainStep.eofOk (hp : 1 ≤ params.psize) (hs : EofOk s) (h : MainStep params s s') :
    EofOk s' := by
  obtain ⟨hlast, honce⟩ := hs
  cases h with
  | @read n hpc hle havail hend =>
    have hnot : [] ∉ s.reads := fun hm => by simpa [hpc] using (hlast hm).2.2
    constructor
    · intro hm
      -- the new read is the one that is empty
      have htake : s.stdin.take n = [] := by
        rcases List.mem_append.1 hm with hm | hm
        · exact absurd hm hnot
        · exact (List.mem_singleton.1 hm).symm
      have hn : n = 0 := by
        have hlen : (s.stdin.take n).length = n := by rw [List.length_take]; omega
        rw [htake] at hlen
        exact hlen.symm
      subst hn
      exact ⟨by simp [hend rfl], by simp, Or.inl (if_neg (by omega))⟩
    · intro pre post he
      rcases snoc_eq_append_cons.1 he with ⟨rfl, -, -⟩ | ⟨post', -, hreads⟩
      · rfl
      · exact absurd (by rw [hreads]; simp) hnot
  | again hpc hfin =>
    refine ⟨fun hm => ?_, honce⟩
    rw [(hlast hm).2.1] at hfin
    cases hfin
  | done hpc hfin =>
    exact ⟨fun hm => ⟨(hlast hm).1, hfin, Or.inr rfl⟩, honce⟩
  | poll hpc | ready hpc | lock hpc | send hpc | enqueue hpc | advance hpc | unlock hpc =>
    exact ⟨fun hm => by simpa [hpc] using (hlast hm).2.2, honce⟩

theorem EofOk.frame (hs : EofOk s) (h : Frame s s') (hfin : s.finish → s'.finish) : EofOk s' where
  last hm := by
    rw [h.reads] at hm
    obtain ⟨hstdin, hf, hmain⟩ := hs.last hm
    exact ⟨by rwa [h.stdin], hfin hf, by rwa [h.main]⟩
  once := by rw [h.reads]; exact hs.once

theorem step_eofOk {ev : Event} (hp : 1 ≤ params.psize) (hs : EofOk s)
    (h : step params s ev = some s') : EofOk s' := by
  cases ev <;> unfold step at h <;> dsimp only at h
  case signal =>
    cases h
    exact hs.frame ⟨rfl, rfl, rfl, rfl, rfl, rfl⟩ fun _ => rfl
  case main => exact (stepMain_cases h).eofOk hp hs
  case ctrl =>
    have hc := stepCtrl_cases h
    apply hs.frame hc.frame
    cases hc <;> exact id
  case replay =>
    have hr := stepReplay_cases h
    apply hs.frame hr.frame
    cases hr <;> exact id

/-- At the end of file every full read was sent, and all of `stdin` was read. -/
theorem eof_sent {es : List Event} (hp : 1 ≤ params.psize)
    (h : Run (Fires (step params)) (State.init params stdin) es s) (heof : [] ∈ s.reads) :
    (originals s.log).map Package.data = fullReads params.psize s.reads ∧
      s.reads.flatten = stdin ∧ ∀ pre post, s.reads = pre ++ [] :: post → post.flatten = [] := by
  have hok := (run_senderOk hp h).stream
  have heo : EofOk s := h.inv (init_eofOk params stdin) fun _ _ _ hI hst => step_eofOk hp hI hst
  obtain ⟨hstdin, -, hmain⟩ := heo.last heof
  have hheld : s.main.held = [] := by rcases hmain with hm | hm <;> rw [hm] <;> rfl
  refine ⟨?_, ?_, heo.once⟩
  · rw [← hok.blocks, hheld, List.append_nil]
  · rw [← hok.stdin, hstdin, List.append_nil]

/-- **The exact condition** for a run that read `stdin` to its end. -/
theorem intact_iff (params : Parameters) (stdin : List UInt8) (hp : 1 ≤ params.psize)
    {es : List Event} {s : State} (h : Run (Fires (step params)) (State.init params stdin) es s)
    (heof : [] ∈ s.reads) :
    Intact params stdin s ↔ FullWhileLeft params.psize s.reads ∧
      (stdin.length / params.psize - 1) * params.psize < 2 ^ 64 := by
  obtain ⟨hsent, hall, honce⟩ := eof_sent hp h heof
  have hnums := (run_senderOk hp h).stream.nums
  -- with whole blocks for payloads, the longest prefix decides how many there are
  have hcount : (fullReads params.psize s.reads).flatten =
      stdin.take (params.psize * (stdin.length / params.psize)) →
      (originals s.log).length = stdin.length / params.psize := by
    intro hflat
    have hlen := congrArg List.length hflat
    rw [length_flatten_fullReads, List.length_take,
      min_eq_left (Nat.mul_div_le _ _)] at hlen
    rw [← List.length_map (f := Package.data), hsent]
    exact Nat.eq_of_mul_eq_mul_left hp hlen
  constructor
  · rintro ⟨hpay, hnum, hoff⟩
    rw [hsent] at hpay
    have hq := hcount hpay
    refine ⟨fullWhileLeft_of_blocks hp honce (o := 0) ?_ ?_, ?_⟩
    · intro k b hk
      rw [Nat.zero_add]
      exact hoff k b hk
    · rw [hall, ← hq, ← hsent, List.length_map]
    · cases hk : stdin.length / params.psize with
      | zero => simp
      | succ k =>
        have hlt : k < (originals s.log).length := by omega
        rw [Nat.add_sub_cancel, ← hnum k _ (List.getElem?_eq_getElem hlt)]
        exact UInt64.toNat_lt _
  · rintro ⟨hfull, hwrap⟩
    obtain ⟨hflat, hoff⟩ := blocks_of_fullWhileLeft hp hfull 0
    rw [hall] at hflat
    refine ⟨by rw [hsent, hflat], fun k p hk => ?_, fun k b hk => ?_⟩
    · have hlt : k < (originals s.log).length := (List.getElem?_eq_some_iff.1 hk).1
      have hle : k * params.psize ≤ (stdin.length / params.psize - 1) * params.psize :=
        Nat.mul_le_mul_right _ (by rw [hcount hflat] at hlt; omega)
      rw [hnums k p hk, UInt64.toNat_ofNat', Nat.mod_eq_of_lt (by omega)]
    · rw [hoff k b hk, Nat.zero_add]

/-- `main` alone: reads of the given lengths, each with the steps up to the next one. -/
def mainReads (lens : List (ℕ × ℕ)) : List Event :=
  lens.flatMap fun (n, steps) => List.replicate steps (.main (some n))

/-- A full read, an unfinished block and the end of file. -/
theorem intact_full : ∃ s,
    Run (Fires (step ⟨[], 0, 2, 4, []⟩)) (State.init ⟨[], 0, 2, 4, []⟩ [1, 2, 3])
      (mainReads [(2, 8), (1, 3), (0, 2)]) s ∧ Intact ⟨[], 0, 2, 4, []⟩ [1, 2, 3] s := by
  have he : ((exec (step ⟨[], 0, 2, 4, []⟩) (State.init ⟨[], 0, 2, 4, []⟩ [1, 2, 3])
      (mainReads [(2, 8), (1, 3), (0, 2)])).map State.reads) = some [[1, 2], [3], []] := by decide
  obtain ⟨s, hr, hs⟩ := Option.map_eq_some_iff.1 he
  refine ⟨s, exec_run hr, (intact_iff ⟨[], 0, 2, 4, []⟩ [1, 2, 3] (by decide) (exec_run hr)
    (by rw [hs]; decide)).2 ⟨?_, by decide⟩⟩
  rw [hs]
  simp [FullWhileLeft]

/-- A short read first: the first block starts at byte 1. -/
theorem short_read_drops : ¬ ∀ (params : Parameters) (stdin : List UInt8) (es : List Event)
    (s : State), 1 ≤ params.psize → Run (Fires (step params)) (State.init params stdin) es s →
      [] ∈ s.reads → Intact params stdin s := by
  intro h
  have he : ((exec (step ⟨[], 0, 2, 4, []⟩) (State.init ⟨[], 0, 2, 4, []⟩ [1, 2, 3])
      (mainReads [(1, 3), (2, 8), (0, 2)])).map fun s => (s.reads, originals s.log)) =
        some ([[1], [2, 3], []], [⟨[2, 3], 0⟩]) := by decide
  obtain ⟨s, hr, hs⟩ := Option.map_eq_some_iff.1 he
  simp only [Prod.mk.injEq] at hs
  have hpay := (h _ _ _ s (by decide) (exec_run hr) (by rw [hs.1]; decide)).payloads
  rw [hs.2] at hpay
  exact absurd hpay (by decide)

end SikMimuw.Transmitter
