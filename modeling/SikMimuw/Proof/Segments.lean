import SikMimuw.Proof.Terminal

/-!
# Keys over TCP

A key is three bytes, and `loop_terminal` asks `read` for three. It keeps nothing of a shorter
read, so what follows one is read out of step. A read that is out of step never looks like a key
(`filter_arrows`): the keys that count are those that are read whole, and two ways to cut the same
keys come to the same only if these agree (`segments_agree_iff`). No key at all comes through
every cut (`all_agree_iff`).
-/

namespace SikMimuw.Receiver

/-- An arrow key. -/
inductive Arrow
  | up
  | down
deriving DecidableEq

def Arrow.bytes : Arrow → List UInt8
  | up => Receiver.up
  | down => Receiver.down

/-- The bytes that a client sends for its keys. -/
def keyBytes (keys : List Arrow) : List UInt8 := keys.flatMap Arrow.bytes

/-- A way in which `read` can return the bytes for the keys. -/
structure Cut (keys : List Arrow) (pieces : List (List UInt8)) : Prop where
  flatten : pieces.flatten = keyBytes keys
  length : ∀ piece ∈ pieces, 1 ≤ piece.length ∧ piece.length ≤ 3

/-- The places of the keys that are read whole, by pieces from byte `pos` on. -/
def whole : ℕ → List (List UInt8) → List ℕ
  | _, [] => []
  | pos, piece :: pieces =>
    if pos % 3 = 0 ∧ piece.length = 3 then pos / 3 :: whole (pos + piece.length) pieces
    else whole (pos + piece.length) pieces

/-- The keys that are read whole. -/
def wholeKeys (keys : List Arrow) (pieces : List (List UInt8)) : List Arrow :=
  (whole 0 pieces).filterMap fun i => keys[i]?

variable {m : Menu} {keys : List Arrow} {pieces p q : List (List UInt8)}

@[simp] theorem Arrow.length_bytes (k : Arrow) : k.bytes.length = 3 := by cases k <;> rfl

theorem Arrow.bytes_injective : Function.Injective Arrow.bytes := by
  intro a b h
  cases a <;> cases b <;> first | rfl | exact absurd h (by decide)

/-- A piece that is an arrow key. -/
def isArrow (piece : List UInt8) : Bool := piece = up ∨ piece = down

theorem Arrow.isArrow_bytes (k : Arrow) : isArrow k.bytes := by cases k <;> rfl

/-- Behind the first `i` keys stand the bytes of the others. -/
theorem drop_keyBytes (keys : List Arrow) : ∀ i, (keyBytes keys).drop (3 * i) = keyBytes (keys.drop i) := by
  induction keys with
  | nil => intro i; simp [keyBytes]
  | cons k ks ih =>
    intro i
    cases i with
    | zero => simp
    | succ i =>
      have h3 : 3 * (i + 1) = k.bytes.length + 3 * i := by
        rw [Arrow.length_bytes]
        omega
      have hcons : keyBytes (k :: ks) = k.bytes ++ keyBytes ks := rfl
      rw [h3, List.drop_succ_cons, ← ih i, hcons, ← List.drop_drop, List.drop_left]

/-- Three bytes that begin where a key begins are that key. -/
theorem key_of_whole {i : ℕ} {piece t : List UInt8} (hlen : piece.length = 3)
    (h : piece ++ t = keyBytes (keys.drop i)) : ∃ k, keys[i]? = some k ∧ piece = k.bytes := by
  cases hd : keys.drop i with
  | nil =>
    have hnil : piece ++ t = [] := by simpa [hd, keyBytes] using h
    rw [(List.append_eq_nil_iff.1 hnil).1] at hlen
    simp at hlen
  | cons k ks =>
    refine ⟨k, ?_, ?_⟩
    · rw [← List.head?_drop, hd]
      rfl
    · have hcons : keyBytes (k :: ks) = k.bytes ++ keyBytes ks := rfl
      rw [hd, hcons] at h
      exact (List.append_inj h (by rw [hlen, Arrow.length_bytes])).1

/-- **A piece that is a key begins where a key begins**: its first byte is 27. -/
theorem whole_of_arrow {i r : ℕ} {piece t : List UInt8} (hr : r < 3) (harrow : isArrow piece)
    (h : piece ++ t = (keyBytes (keys.drop i)).drop r) : r = 0 ∧ piece.length = 3 := by
  have hup : piece = up ∨ piece = down := by simpa [isArrow] using harrow
  have h27 : (piece ++ t).head? = some 27 := by rcases hup with rfl | rfl <;> rfl
  refine ⟨?_, by rcases hup with rfl | rfl <;> rfl⟩
  rw [h] at h27
  by_contra hne
  cases hd : keys.drop i with
  | nil => simp [hd, keyBytes] at h27
  | cons k ks =>
    have hcons : keyBytes (k :: ks) = k.bytes ++ keyBytes ks := rfl
    rw [hd, hcons] at h27
    obtain rfl | rfl : r = 1 ∨ r = 2 := by omega
    · cases k <;> exact absurd h27 (by simp [Arrow.bytes, up, down])
    · cases k <;> exact absurd h27 (by simp [Arrow.bytes, up, down])

/-- **The pieces that are keys** are the keys read whole. -/
theorem filter_arrows {pos : ℕ} (hflat : pieces.flatten = (keyBytes keys).drop pos) :
    pieces.filter isArrow = ((whole pos pieces).filterMap fun i => keys[i]?).map Arrow.bytes := by
  induction pieces generalizing pos with
  | nil => rfl
  | cons piece pieces ih =>
    have hrest : pieces.flatten = (keyBytes keys).drop (pos + piece.length) := by
      rw [← List.drop_drop, ← hflat, List.flatten_cons, List.drop_left]
    have hpos : 3 * (pos / 3) + pos % 3 = pos := by omega
    have hhere : piece ++ pieces.flatten = (keyBytes (keys.drop (pos / 3))).drop (pos % 3) := by
      rw [← drop_keyBytes, List.drop_drop, hpos, ← hflat, List.flatten_cons]
    rw [whole]
    split
    · rename_i hw
      rw [hw.1, List.drop_zero] at hhere
      obtain ⟨k, hk, rfl⟩ := key_of_whole hw.2 hhere
      rw [List.filter_cons_of_pos k.isArrow_bytes, ih hrest, List.filterMap_cons_some hk, List.map_cons]
    · rename_i hw
      have hnot : ¬ isArrow piece = true := fun ha => hw (whole_of_arrow (by omega) ha hhere)
      rw [List.filter_cons_of_neg hnot, ih hrest]

/-- The list of stations is the same after a read. -/
theorem size_readKey (m : Menu) (inBuffer : List UInt8) :
    (m.readKey inBuffer).1.stations.size = m.stations.size := by
  unfold Menu.readKey Menu.transform
  split_ifs <;> rfl

/-- The calls that ask for a refresh, with two stations or more. -/
theorem readKeys_calls (hm : 2 ≤ m.stations.size) : (m.readKeys pieces).2 = pieces.filter isArrow := by
  induction pieces generalizing m with
  | nil => rfl
  | cons piece pieces ih =>
    rw [Menu.readKeys, ih (by rw [size_readKey]; exact hm)]
    have hpiece : (m.readKey piece).2 = if isArrow piece then [piece] else [] := by
      unfold Menu.readKey Menu.transform
      by_cases hlen : piece.length = 3
      · rw [if_pos hlen, if_neg (by omega), List.take_of_length_le (by omega)]
        by_cases hu : piece = up
        · simp [hu, isArrow]
        · by_cases hd : piece = down
          · simp [hd, isArrow, up, down]
          · simp [hu, hd, isArrow]
      · have hu : piece ≠ up := by
          rintro rfl
          exact hlen rfl
        have hd : piece ≠ down := by
          rintro rfl
          exact hlen rfl
        simp [hlen, hu, hd, isArrow]
    rw [hpiece]
    cases hp : isArrow piece <;> simp [hp]

/-- With fewer there are none, and nothing changes. -/
theorem readKeys_few (hm : m.stations.size < 2) : m.readKeys pieces = (m, []) := by
  induction pieces with
  | nil => rfl
  | cons piece pieces ih =>
    have hpiece : m.readKey piece = (m, []) := by
      unfold Menu.readKey Menu.transform
      simp [hm]
    rw [Menu.readKeys, hpiece]
    simp [ih]

/-- The menu after the reads is the menu after those calls. -/
theorem readKeys_menu (m : Menu) (pieces : List (List UInt8)) :
    (m.readKeys pieces).1 = (m.readKeys pieces).2.foldl (fun m buffer => (m.transform buffer).1) m := by
  induction pieces generalizing m with
  | nil => rfl
  | cons piece pieces ih =>
    have hpiece : (m.readKey piece).1 =
        (m.readKey piece).2.foldl (fun m buffer => (m.transform buffer).1) m := by
      unfold Menu.readKey
      split
      · cases hr : (m.transform piece).2 with
        | true => simp [hr]
        | false => simpa [hr] using transform_same hr
      · rfl
    rw [Menu.readKeys]
    dsimp only
    rw [List.foldl_append, ← hpiece, ih]

/-- With two stations the calls are the keys read whole. -/
theorem calls_eq_wholeKeys (hm : 2 ≤ m.stations.size) (hp : Cut keys p) :
    (m.readKeys p).2 = (wholeKeys keys p).map Arrow.bytes := by
  rw [readKeys_calls hm]
  exact filter_arrows (by simpa using hp.flatten)

theorem calls_eq_iff (hm : 2 ≤ m.stations.size) (hp : Cut keys p) (hq : Cut keys q) :
    (m.readKeys p).2 = (m.readKeys q).2 ↔ wholeKeys keys p = wholeKeys keys q := by
  rw [calls_eq_wholeKeys hm hp, calls_eq_wholeKeys hm hq]
  exact (List.map_injective_iff.2 Arrow.bytes_injective).eq_iff

/-- **Two ways to cut the same keys** come to the same calls, and the same station, exactly if they
agree on the keys that are read whole, or no key has an effect. -/
theorem segments_agree_iff (m : Menu) (keys : List Arrow) (p q : List (List UInt8))
    (hp : Cut keys p) (hq : Cut keys q) :
    ((m.readKeys p).2 = (m.readKeys q).2 ∧ (m.readKeys p).1.active = (m.readKeys q).1.active) ↔
      m.stations.size < 2 ∨ wholeKeys keys p = wholeKeys keys q := by
  by_cases hm : m.stations.size < 2
  · rw [readKeys_few hm, readKeys_few hm]
    simp [hm]
  · have htwo : 2 ≤ m.stations.size := by omega
    rw [← calls_eq_iff htwo hp hq]
    constructor
    · intro h
      exact Or.inr h.1
    · rintro (h | h)
      · exact absurd h hm
      · refine ⟨h, ?_⟩
        rw [readKeys_menu, readKeys_menu, h]

/-- The keys can come whole. -/
theorem cut_bytes (keys : List Arrow) : Cut keys (keys.map Arrow.bytes) where
  flatten := (List.flatMap_def ..).symm
  length := by
    rw [List.forall_mem_map]
    intro k _
    rw [Arrow.length_bytes]
    omega

/-- And byte by byte. -/
theorem cut_singletons (keys : List Arrow) : Cut keys ((keyBytes keys).map fun c => [c]) where
  flatten := by simp [← List.flatMap_def]
  length := by simp

theorem filter_singletons (bs : List UInt8) : (bs.map fun c => [c]).filter isArrow = [] := by
  rw [List.filter_eq_nil_iff, List.forall_mem_map]
  intro c _
  simp [isArrow, up, down]

/-- **Every cut comes to the same** only if nothing is sent, or no key has an effect. -/
theorem all_agree_iff (m : Menu) (keys : List Arrow) :
    (∀ p q, Cut keys p → Cut keys q → (m.readKeys p).2 = (m.readKeys q).2) ↔
      m.stations.size < 2 ∨ keys = [] := by
  constructor
  · intro h
    by_contra hne
    rw [not_or] at hne
    have hm : 2 ≤ m.stations.size := by omega
    have hs := h _ _ (cut_bytes keys) (cut_singletons keys)
    rw [readKeys_calls hm, readKeys_calls hm, filter_singletons,
      List.filter_eq_self.2] at hs
    · exact hne.2 (List.map_eq_nil_iff.1 hs)
    · rw [List.forall_mem_map]
      intro k _
      exact k.isArrow_bytes
  · rintro (hm | rfl) p q hp hq
    · rw [readKeys_few hm, readKeys_few hm]
    · have hnil : ∀ r, Cut [] r → r = [] := by
        intro r hr
        cases r with
        | nil => rfl
        | cons piece pieces =>
          have hpiece : piece = [] := (List.append_eq_nil_iff.1 hr.flatten).1
          have := (hr.length piece (by simp)).1
          simp [hpiece] at this
      rw [hnil p hp, hnil q hq]

/-- A menu with two stations, the first one active. -/
def twoStations : Menu :=
  let m := ((Menu.init []).addMenu ⟨1, 1⟩ [65] 0).1
  (m.addMenu ⟨2, 2⟩ [66] 0).1

/-- A key that comes whole, both times. -/
theorem segments_agree_iff_whole :
    (twoStations.readKeys [down]).1.active = (twoStations.readKeys [[27, 91, 66]]).1.active :=
  ((segments_agree_iff twoStations [.down] [down] [[27, 91, 66]] ⟨rfl, by decide⟩
    ⟨rfl, by decide⟩).2 (Or.inr rfl)).2

/-- The same key in two pieces is lost. -/
theorem key_lost : ¬ ∀ (m : Menu) (keys : List Arrow) (p q : List (List UInt8)),
    Cut keys p → Cut keys q → (m.readKeys p).2 = (m.readKeys q).2 ∧
      (m.readKeys p).1.active = (m.readKeys q).1.active := by
  intro h
  have hs := h twoStations [.down] [down] [[27], [91, 66]] ⟨rfl, by decide⟩ ⟨rfl, by decide⟩
  exact absurd hs.2 (by decide)

end SikMimuw.Receiver
