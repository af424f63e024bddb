import Mathlib.Data.List.Perm.Subperm
import SikMimuw.Lib.Relay
import SikMimuw.Lib.Run
import SikMimuw.Model.Echo

/-!
# What the echo server does for its connections

A connection is a relay with a place while it is open (`Line`). A state shows a list of them
(`Shows`), and every step of the server is a step of that list (`step_shows`): a connection comes, its
relay takes or gives data, or it is closed.

* `connections_ok`: the open connections, their descriptors and their places are in step, the counter
  is their number, and none is open when the program ends.
* `echoed_ok`: what has been sent to a client, and what waits, is what it has sent.
-/

namespace SikMimuw.Echo

open Lts

/-- A connection of the service. -/
structure Line where
  relay : Relay UInt8
  slot : Option ℕ

def Line.conn (a : Line) : Conn := ⟨a.relay.received, a.relay.sent, if a.slot.isSome then 0 else 1⟩

/-- What waits in a client's buffer. -/
structure Client.Holds (c : Client) (waiting : List UInt8) : Prop where
  buf : c.buf.length = bufSize
  idle : c.events = .pollin → waiting = []
  busy : c.events = .pollout →
    0 ≤ c.bufPos ∧ c.bufPos < c.bufLen ∧ c.bufLen ≤ bufSize ∧ waiting = c.rest

/-- **Where the connections are**: each open one has a descriptor of its own in a slot of its own. `up`
says that the main socket is in use. -/
structure Placed (up : Prop) (files : ℤ → Option File) (client : ℕ → Client) (A : List Line) : Prop where
  opened : ∀ {c : ℕ} {a : Line} {i : ℕ}, A[c]? = some a → a.slot = some i → 1 ≤ i ∧ i < posixOpenMax ∧
    files (client i).fd = some (.conn c) ∧ (client i).Holds a.relay.waiting
  closed : ∀ {c : ℕ} {a : Line}, A[c]? = some a → a.slot = none → a.relay.waiting = []
  taken : ∀ {i : ℕ}, 1 ≤ i → i < posixOpenMax → (client i).fd ≠ -1 →
    ∃ (c : ℕ) (a : Line), A[c]? = some a ∧ a.slot = some i
  conn : ∀ {fd : ℤ} {c : ℕ}, files fd = some (.conn c) →
    ∃ (a : Line) (i : ℕ), A[c]? = some a ∧ a.slot = some i ∧ (client i).fd = fd
  listener : ∀ {fd : ℤ}, files fd = some .listener → fd = (client 0).fd
  main : up → 0 ≤ (client 0).fd → files (client 0).fd = some .listener
  nonneg : ∀ {fd : ℤ}, files fd ≠ none → 0 ≤ fd

variable {A : List Line} {a : Line} {c i : ℕ} {fd : ℤ} {up : Prop} {files : ℤ → Option File}
  {client : ℕ → Client}

/-! ### Lists -/

theorem getElem?_set_eq_some {α : Type*} {l : List α} {i j : ℕ} {a b : α} (h : (l.set i b)[j]? = some a) :
    j = i ∧ a = b ∨ j ≠ i ∧ l[j]? = some a := by
  by_cases hj : j = i
  · subst hj
    rw [List.getElem?_set_self'] at h
    obtain ⟨x, -, hx⟩ := Option.map_eq_some_iff.1 h
    exact Or.inl ⟨rfl, hx.symm⟩
  · rw [List.getElem?_set_ne (Ne.symm hj)] at h
    exact Or.inr ⟨hj, h⟩

theorem getElem?_concat_eq_some {α : Type*} {l : List α} {j : ℕ} {a b : α}
    (h : (l ++ [b])[j]? = some a) : l[j]? = some a ∨ j = l.length ∧ a = b := by
  rcases Nat.lt_trichotomy j l.length with hj | hj | hj
  · rw [List.getElem?_append_left hj] at h
    exact Or.inl h
  · subst hj
    rw [List.getElem?_concat_length, Option.some.injEq] at h
    exact Or.inr ⟨rfl, h.symm⟩
  · rw [List.getElem?_eq_none (by rw [List.length_append, List.length_singleton]; omega)] at h
    cases h

theorem getElem?_concat_of_some {α : Type*} {l : List α} {j : ℕ} {a b : α} (h : l[j]? = some a) :
    (l ++ [b])[j]? = some a := by
  rw [List.getElem?_append_left (List.getElem?_eq_some_iff.1 h).1, h]

theorem modify_map {α β : Type*} {f : α → β} {g : β → β} {l : List α} {i : ℕ} {a b : α}
    (ha : l[i]? = some a) (hg : g (f a) = f b) : (l.map f).modify i g = (l.set i b).map f := by
  apply List.ext_getElem?
  intro j
  rw [List.getElem?_modify, List.getElem?_map, List.getElem?_map]
  by_cases hj : i = j
  · subst hj
    rw [List.getElem?_set_self', ha]
    simp [hg]
  · rw [List.getElem?_set_ne hj]
    simp [hj]

/-- Other places are those of other connections. -/
theorem ne_of_slot {l : List Line} {c c' i j : ℕ} {a a' : Line} (hc : l[c]? = some a)
    (hs : a.slot = some i) (hc' : l[c']? = some a') (hs' : a'.slot = some j) (hj : j ≠ i) : c' ≠ c := by
  rintro rfl
  obtain rfl := Option.some.inj (hc'.symm.trans hc)
  rw [hs'] at hs
  exact hj (Option.some.inj hs)

/-- A descriptor that is left when another one is closed. -/
theorem update_none_eq_some {files : ℤ → Option File} {fd fd' : ℤ} {file : File} :
    Function.update files fd none fd' = some file ↔ fd' ≠ fd ∧ files fd' = some file := by
  by_cases hfd : fd' = fd
  · subst hfd
    rw [Function.update_self]
    exact ⟨fun h => absurd h (Option.some_ne_none file).symm, fun h => absurd rfl h.1⟩
  · rw [Function.update_of_ne hfd]
    exact ⟨fun h => ⟨hfd, h⟩, fun h => h.2⟩

/-- The places that are taken, when an open connection changes. -/
theorem countP_set_line {l : List Line} {b : Line} (h : l[c]? = some a) (hs : a.slot = some i) :
    (l.set c b).countP (·.slot.isSome) + 1 =
      l.countP (·.slot.isSome) + if b.slot.isSome then 1 else 0 := by
  obtain ⟨hlt, rfl⟩ := List.getElem?_eq_some_iff.1 h
  have hpos : 0 < l.countP (·.slot.isSome) :=
    List.countP_pos_iff.2 ⟨l[c], List.getElem_mem hlt, by rw [hs]; rfl⟩
  rw [List.countP_set hlt, hs, Option.isSome_some, if_pos rfl]
  omega

/-! ### Places -/

theorem Placed.nonneg_of_eq (h : Placed up files client A) {file : File} (hf : files fd = some file) :
    0 ≤ fd := by
  refine h.nonneg ?_
  rw [hf]
  exact Option.some_ne_none _

/-- Closing one descriptor opens no other. -/
theorem Placed.nonneg_of_closed (h : Placed up files client A) {fd' : ℤ}
    (hf : Function.update files fd' none fd ≠ none) : 0 ≤ fd := by
  obtain ⟨file, hfile⟩ := Option.ne_none_iff_exists'.1 hf
  exact h.nonneg_of_eq (update_none_eq_some.1 hfile).2

/-- Two connections have different places. -/
theorem Placed.slot_inj (h : Placed up files client A) {c' : ℕ} {a' : Line} (hc : A[c]? = some a)
    (hs : a.slot = some i) (hc' : A[c']? = some a') (hs' : a'.slot = some i) : c = c' := by
  obtain ⟨-, -, hf, -⟩ := h.opened hc hs
  obtain ⟨-, -, hf', -⟩ := h.opened hc' hs'
  rw [hf] at hf'
  simpa using hf'

/-- Another slot has another descriptor. -/
theorem Placed.fd_ne (h : Placed up files client A) {c' j : ℕ} {a' : Line} (hc : A[c]? = some a)
    (hs : a.slot = some i) (hc' : A[c']? = some a') (hs' : a'.slot = some j) (hne : c' ≠ c) :
    j ≠ i ∧ (client j).fd ≠ (client i).fd := by
  obtain ⟨-, -, hf, -⟩ := h.opened hc hs
  obtain ⟨-, -, hf', -⟩ := h.opened hc' hs'
  refine ⟨?_, ?_⟩
  · rintro rfl
    exact hne (h.slot_inj hc' hs' hc hs)
  · intro hfd
    rw [hfd, hf] at hf'
    simp only [Option.some.injEq, File.conn.injEq] at hf'
    exact hne hf'.symm

/-- The slot of a descriptor. -/
theorem Placed.slot_of_file (h : Placed up files client A) (h1 : 1 ≤ i) (hi : i < posixOpenMax)
    (hf : files (client i).fd = some (.conn c)) : ∃ a, A[c]? = some a ∧ a.slot = some i := by
  have hge := h.nonneg_of_eq hf
  obtain ⟨c', a, hc, hs⟩ := h.taken h1 hi (by omega)
  obtain ⟨-, -, hf', -⟩ := h.opened hc hs
  rw [hf] at hf'
  obtain rfl : c = c' := by simpa using hf'
  exact ⟨a, hc, hs⟩

/-- `revents` of the clients may change. -/
theorem Placed.revents (h : Placed up files client A) (r : ℕ → Revents) :
    Placed up files (fun i => { client i with revents := r i }) A where
  opened := by
    intro c a i hc hs
    obtain ⟨h1, hlt, hf, hh⟩ := h.opened hc hs
    exact ⟨h1, hlt, hf, hh.buf, hh.idle, hh.busy⟩
  closed := h.closed
  taken := h.taken
  conn := h.conn
  listener := h.listener
  main := h.main
  nonneg := h.nonneg

/-- **A new connection** in a free slot. -/
theorem Placed.insert (h : Placed up files client A) (hup : up) (h1 : 1 ≤ i) (hlt : i < posixOpenMax)
    (hfree : (client i).fd = -1) (hbuf : (client i).buf.length = bufSize) (h0 : 0 ≤ fd)
    (hf : files fd = none) : Placed up (Function.update files fd (some (.conn A.length)))
      (Function.update client i { client i with fd, events := .pollin })
      (A ++ [⟨.empty, some i⟩]) := by
  have hother : ∀ {fd' : ℤ} {file : File}, files fd' = some file → fd' ≠ fd := by
    rintro fd' file hfile rfl
    rw [hf] at hfile
    cases hfile
  have hne : ∀ {c : ℕ} {a : Line} {j : ℕ}, A[c]? = some a → a.slot = some j → j ≠ i := by
    rintro c a j hc hs rfl
    have hge := h.nonneg_of_eq (h.opened hc hs).2.2.1
    omega
  have hzero : Function.update client i { client i with fd, events := .pollin } 0 = client 0 :=
    Function.update_of_ne (by omega) _ _
  constructor
  case opened =>
    intro c a j hc hs
    rcases getElem?_concat_eq_some hc with hc | ⟨rfl, rfl⟩
    · obtain ⟨h1, hlt, hfile, hh⟩ := h.opened hc hs
      rw [Function.update_of_ne (hne hc hs), Function.update_of_ne (hother hfile)]
      exact ⟨h1, hlt, hfile, hh⟩
    · obtain rfl : i = j := Option.some.inj hs
      rw [Function.update_self, Function.update_self]
      exact ⟨h1, hlt, rfl, hbuf, fun _ => rfl, fun he => by cases he⟩
  case closed =>
    intro c a hc hs
    rcases getElem?_concat_eq_some hc with hc | ⟨rfl, rfl⟩
    · exact h.closed hc hs
    · cases hs
  case taken =>
    intro j h1 hlt hfd
    by_cases hj : j = i
    · subst hj
      exact ⟨A.length, _, List.getElem?_concat_length, rfl⟩
    · rw [Function.update_of_ne hj] at hfd
      obtain ⟨c, a, hc, hs⟩ := h.taken h1 hlt hfd
      exact ⟨c, a, getElem?_concat_of_some hc, hs⟩
  case conn =>
    intro fd' c hfile
    by_cases hfd : fd' = fd
    · subst hfd
      rw [Function.update_self] at hfile
      obtain rfl : A.length = c := by simpa using hfile
      exact ⟨_, i, List.getElem?_concat_length, rfl, by rw [Function.update_self]⟩
    · rw [Function.update_of_ne hfd] at hfile
      obtain ⟨a, j, hc, hs, hj⟩ := h.conn hfile
      exact ⟨a, j, getElem?_concat_of_some hc, hs, by rw [Function.update_of_ne (hne hc hs), hj]⟩
  case listener =>
    intro fd' hfile
    rw [hzero]
    by_cases hfd : fd' = fd
    · subst hfd
      rw [Function.update_self] at hfile
      cases hfile
    · rw [Function.update_of_ne hfd] at hfile
      exact h.listener hfile
  case main =>
    intro _ hge
    rw [hzero] at hge ⊢
    have hmain := h.main hup hge
    rw [Function.update_of_ne (hother hmain), hmain]
  case nonneg =>
    intro fd' hfile
    by_cases hfd : fd' = fd
    · rw [hfd]
      exact h0
    · rw [Function.update_of_ne hfd] at hfile
      exact h.nonneg hfile

/-- **A connection that finds no slot** is closed at once. -/
theorem Placed.reject (h : Placed up files client A) : Placed up files client (A ++ [⟨.empty, none⟩]) where
  opened := by
    intro c a i hc hs
    rcases getElem?_concat_eq_some hc with hc | ⟨rfl, rfl⟩
    · exact h.opened hc hs
    · cases hs
  closed := by
    intro c a hc hs
    rcases getElem?_concat_eq_some hc with hc | ⟨rfl, rfl⟩
    · exact h.closed hc hs
    · rfl
  taken := by
    intro i h1 hlt hfd
    obtain ⟨c, a, hc, hs⟩ := h.taken h1 hlt hfd
    exact ⟨c, a, getElem?_concat_of_some hc, hs⟩
  conn := by
    intro fd c hf
    obtain ⟨a, i, hc, hs, hfd⟩ := h.conn hf
    exact ⟨a, i, getElem?_concat_of_some hc, hs, hfd⟩
  listener := h.listener
  main := h.main
  nonneg := h.nonneg

/-- **A connection is closed.** -/
theorem Placed.remove (h : Placed up files client A) (hc : A[c]? = some a) (hs : a.slot = some i) :
    Placed up (Function.update files (client i).fd none)
      (Function.update client i { client i with fd := -1 }) (A.set c ⟨a.relay.discard, none⟩) := by
  obtain ⟨h1, hlt, hf, -⟩ := h.opened hc hs
  have hzero : Function.update client i { client i with fd := -1 } 0 = client 0 :=
    Function.update_of_ne (by omega) _ _
  constructor
  case opened =>
    intro c' a' j hc' hs'
    rcases getElem?_set_eq_some hc' with ⟨rfl, rfl⟩ | ⟨hne, hc'⟩
    · cases hs'
    · obtain ⟨hj, hfd⟩ := h.fd_ne hc hs hc' hs' hne
      rw [Function.update_of_ne hj, Function.update_of_ne hfd]
      exact h.opened hc' hs'
  case closed =>
    intro c' a' hc' hs'
    rcases getElem?_set_eq_some hc' with ⟨rfl, rfl⟩ | ⟨-, hc'⟩
    · rfl
    · exact h.closed hc' hs'
  case taken =>
    intro j hj1 hjlt hfd
    by_cases hj : j = i
    · subst hj
      rw [Function.update_self] at hfd
      exact absurd rfl hfd
    · rw [Function.update_of_ne hj] at hfd
      obtain ⟨c', a', hc', hs'⟩ := h.taken hj1 hjlt hfd
      have hne : c' ≠ c := ne_of_slot hc hs hc' hs' hj
      exact ⟨c', a', by rw [List.getElem?_set_ne (Ne.symm hne), hc'], hs'⟩
  case conn =>
    intro fd' c' hf'
    obtain ⟨hfd, hf'⟩ := update_none_eq_some.1 hf'
    obtain ⟨a', j, hc', hs', hj⟩ := h.conn hf'
    have hji : j ≠ i := by
      rintro rfl
      exact hfd hj.symm
    have hne : c' ≠ c := ne_of_slot hc hs hc' hs' hji
    exact ⟨a', j, by rw [List.getElem?_set_ne (Ne.symm hne), hc'], hs',
      by rw [Function.update_of_ne hji, hj]⟩
  case listener =>
    intro fd' hf'
    rw [hzero]
    exact h.listener (update_none_eq_some.1 hf').2
  case main =>
    intro hup hge
    rw [hzero] at hge ⊢
    have hmain := h.main hup hge
    have hfd : (client 0).fd ≠ (client i).fd := by
      intro hfd
      rw [hfd, hf] at hmain
      cases hmain
    rw [Function.update_of_ne hfd, hmain]
  case nonneg => exact h.nonneg_of_closed

/-- **A connection's buffer** changes. -/
theorem Placed.update (h : Placed up files client A) (hc : A[c]? = some a) (hs : a.slot = some i)
    {cl : Client} {r : Relay UInt8} (hfd : cl.fd = (client i).fd) (hh : cl.Holds r.waiting) :
    Placed up files (Function.update client i cl) (A.set c ⟨r, some i⟩) := by
  obtain ⟨h1, hlt, hf, -⟩ := h.opened hc hs
  have hfds : ∀ j, (Function.update client i cl j).fd = (client j).fd := by
    intro j
    by_cases hj : j = i
    · rw [hj, Function.update_self, hfd]
    · rw [Function.update_of_ne hj]
  have hset : ∀ {c' j : ℕ} {a' : Line}, A[c']? = some a' → a'.slot = some j →
      ∃ b, (A.set c ⟨r, some i⟩)[c']? = some b ∧ b.slot = some j := by
    intro c' j a' hc' hs'
    by_cases hcc : c' = c
    · subst hcc
      obtain rfl := Option.some.inj (hc'.symm.trans hc)
      exact ⟨⟨r, some i⟩, by rw [List.getElem?_set_self', hc']; rfl, by rw [← hs, hs']⟩
    · exact ⟨a', by rw [List.getElem?_set_ne (Ne.symm hcc), hc'], hs'⟩
  constructor
  case opened =>
    intro c' a' j hc' hs'
    rw [hfds]
    rcases getElem?_set_eq_some hc' with ⟨rfl, rfl⟩ | ⟨hne, hc'⟩
    · obtain rfl : i = j := Option.some.inj hs'
      rw [Function.update_self]
      exact ⟨h1, hlt, hf, hh⟩
    · rw [Function.update_of_ne (h.fd_ne hc hs hc' hs' hne).1]
      exact h.opened hc' hs'
  case closed =>
    intro c' a' hc' hs'
    rcases getElem?_set_eq_some hc' with ⟨rfl, rfl⟩ | ⟨-, hc'⟩
    · cases hs'
    · exact h.closed hc' hs'
  case taken =>
    intro j hj1 hjlt hj
    rw [hfds] at hj
    obtain ⟨c', a', hc', hs'⟩ := h.taken hj1 hjlt hj
    obtain ⟨b, hb, hbs⟩ := hset hc' hs'
    exact ⟨c', b, hb, hbs⟩
  case conn =>
    intro fd' c' hf'
    obtain ⟨a', j, hc', hs', hj⟩ := h.conn hf'
    obtain ⟨b, hb, hbs⟩ := hset hc' hs'
    exact ⟨b, j, hb, hbs, by rw [hfds, hj]⟩
  case listener =>
    intro fd' hf'
    rw [hfds]
    exact h.listener hf'
  case main =>
    intro hup hge
    rw [hfds] at hge ⊢
    exact h.main hup hge
  case nonneg => exact h.nonneg

/-- **The main socket is closed.** -/
theorem Placed.closeMain (h : Placed up files client A) (hup : up) (hge : 0 ≤ (client 0).fd) {up' : Prop}
    {cl : Client} (hcl : up' → cl.fd < 0) :
    Placed up' (Function.update files (client 0).fd none) (Function.update client 0 cl) A := by
  have hmain := h.main hup hge
  have hother : ∀ {fd' : ℤ} {c : ℕ}, files fd' = some (.conn c) → fd' ≠ (client 0).fd := by
    rintro fd' c hf rfl
    rw [hmain] at hf
    cases hf
  have hzero : ∀ {j : ℕ}, 1 ≤ j → Function.update client 0 cl j = client j := fun hj =>
    Function.update_of_ne (by omega) _ _
  constructor
  case opened =>
    intro c a i hc hs
    obtain ⟨h1, hlt, hf, hh⟩ := h.opened hc hs
    rw [hzero h1, Function.update_of_ne (hother hf)]
    exact ⟨h1, hlt, hf, hh⟩
  case closed => exact h.closed
  case taken =>
    intro i h1 hlt hfd
    rw [hzero h1] at hfd
    exact h.taken h1 hlt hfd
  case conn =>
    intro fd c hf
    obtain ⟨a, i, hc, hs, hi⟩ := h.conn (update_none_eq_some.1 hf).2
    exact ⟨a, i, hc, hs, by rw [hzero (h.opened hc hs).1, hi]⟩
  case listener =>
    intro fd hf
    obtain ⟨hfd, hf⟩ := update_none_eq_some.1 hf
    exact absurd (h.listener hf) hfd
  case main =>
    intro hup' hge'
    rw [Function.update_self] at hge'
    have hlt := hcl hup'
    omega
  case nonneg => exact h.nonneg_of_closed

/-! ### Buffers -/

theorem holds_filled {cl : Client} {data : List UInt8} (hbuf : cl.buf.length = bufSize) (hne : data ≠ [])
    (hle : data.length ≤ bufSize) : ({ cl with
      buf := data ++ cl.buf.drop data.length
      bufLen := data.length
      bufPos := 0
      events := .pollout } : Client).Holds data where
  buf := by
    rw [List.length_append, List.length_drop, hbuf]
    omega
  idle := by
    intro he
    cases he
  busy := by
    intro _
    have hpos := List.length_pos_iff.2 hne
    dsimp only
    refine ⟨by omega, by omega, by omega, ?_⟩
    simp [Client.rest]

/-- **`n` bytes have left.** -/
theorem Client.Holds.advance {cl : Client} {waiting : List UInt8} {n : ℕ} (h : cl.Holds waiting)
    (he : cl.events = .pollout) (hle : (n : ℤ) ≤ cl.bufLen - cl.bufPos) : ({ cl with
      bufPos := cl.bufPos + n
      events := if cl.bufPos + n = cl.bufLen then .pollin else cl.events } : Client).Holds
        (waiting.drop n) := by
  obtain ⟨h0, hlt, hmax, hw⟩ := h.busy he
  refine ⟨h.buf, ?_, ?_⟩
  · intro hidle
    dsimp only at hidle
    by_cases hall : cl.bufPos + n = cl.bufLen
    · apply List.drop_eq_nil_of_le
      rw [hw, Client.rest, List.length_take]
      omega
    · rw [if_neg hall, he] at hidle
      cases hidle
  · intro hbusy
    dsimp only at hbusy ⊢
    by_cases hall : cl.bufPos + n = cl.bufLen
    · rw [if_pos hall] at hbusy
      cases hbusy
    · have hto : (cl.bufPos + n).toNat = cl.bufPos.toNat + n := by omega
      have hlen : (cl.bufLen - (cl.bufPos + n)).toNat = (cl.bufLen - cl.bufPos).toNat - n := by omega
      refine ⟨by omega, by omega, hmax, ?_⟩
      rw [hw, Client.rest, Client.rest, List.drop_take, List.drop_drop]
      dsimp only
      rw [hto, hlen]

/-! ### Operations -/

/-- **A state and its connections.** -/
structure Shows (up : Prop) (s : State) (A : List Line) : Prop where
  conns : s.conns = A.map Line.conn
  active : s.activeClients = A.countP (·.slot.isSome)
  buf : ∀ {i : ℕ}, 1 ≤ i → (s.client i).buf.length = bufSize
  placed : Placed up s.files s.client A

variable {s t : State} {data : Option (List UInt8)} {rval : Option ℕ}

theorem Shows.connOf (h : Shows up s A) (hc : A[c]? = some a) (hs : a.slot = some i) :
    s.connOf (s.client i).fd = some c := by
  obtain ⟨-, -, hf, -⟩ := h.placed.opened hc hs
  rw [State.connOf, hf]

theorem Shows.newClient (h : Shows up s A) (hup : up) (h0 : 0 ≤ fd) (hf : s.files fd = none) :
    ∃ slot, Shows up ((s.connect fd).newClient fd) (A ++ [⟨.empty, slot⟩]) := by
  have hlen : s.conns.length = A.length := by rw [h.conns, List.length_map]
  unfold State.newClient
  cases hfree : (s.connect fd).freeSlot with
  | some i =>
    have hmem := List.mem_of_find?_eq_some hfree
    have hneg : ((s.connect fd).client i).fd = -1 := by simpa using List.find?_some hfree
    have hi : 1 ≤ i ∧ i < posixOpenMax := by
      rw [List.mem_range'_1] at hmem
      unfold posixOpenMax at hmem ⊢
      omega
    refine ⟨some i, ?_, ?_, ?_, ?_⟩
    · simp [State.connect, State.setClient, h.conns, Line.conn, Relay.empty]
    · simp [State.connect, h.active]
    · intro j hj
      dsimp only [State.connect, State.setClient]
      by_cases hji : j = i
      · rw [hji, Function.update_self]
        exact h.buf hi.1
      · rw [Function.update_of_ne hji]
        exact h.buf hj
    · have hp := h.placed.insert hup hi.1 hi.2 hneg (h.buf hi.1) h0 hf
      rw [← hlen] at hp
      exact hp
  | none =>
    have hconn : (s.connect fd).connOf fd = some s.conns.length := by
      simp [State.connOf, State.connect]
    have hfiles : Function.update (Function.update s.files fd (some (.conn s.conns.length))) fd none =
        s.files := by
      rw [Function.update_idem, ← hf, Function.update_eq_self]
    refine ⟨none, ?_⟩
    dsimp only [State.close]
    rw [hconn]
    refine ⟨?_, ?_, h.buf, ?_⟩
    · simp only [State.modifyConn, State.connect]
      have hnew : s.conns ++ [(⟨[], [], 0⟩ : Conn)] = (A ++ [(⟨.empty, some 0⟩ : Line)]).map Line.conn := by
        rw [h.conns, List.map_append]
        rfl
      rw [hnew, hlen, modify_map (b := ⟨.empty, none⟩) List.getElem?_concat_length rfl,
        List.set_append_right _ _ (Nat.le_refl _), Nat.sub_self]
      rfl
    · simp [State.modifyConn, State.connect, h.active]
    · simp only [State.modifyConn, State.connect, hfiles]
      exact h.placed.reject

theorem Shows.endClient (h : Shows up s A) (hc : A[c]? = some a) (hs : a.slot = some i) :
    Shows up (s.endClient i) (A.set c ⟨a.relay.discard, none⟩) := by
  have hconn := h.connOf hc hs
  unfold State.endClient State.close
  dsimp only
  rw [hconn]
  refine ⟨?_, ?_, ?_, h.placed.remove hc hs⟩
  · simp only [State.modifyConn, State.setClient, h.conns]
    exact modify_map hc (by simp [Line.conn, Relay.discard, hs])
  · have hcount := countP_set_line (b := ⟨a.relay.discard, none⟩) hc hs
    have hactive := h.active
    rw [Option.isSome_none, if_neg Bool.false_ne_true] at hcount
    dsimp only
    omega
  · intro j hj
    simp only [State.modifyConn, State.setClient]
    by_cases hji : j = i
    · rw [hji, Function.update_self]
      exact h.buf (h.placed.opened hc hs).1
    · rw [Function.update_of_ne hji]
      exact h.buf hj

/-- The buffer of an open connection, and what the kernel knows of it. -/
theorem Shows.update (h : Shows up s A) (hc : A[c]? = some a) (hs : a.slot = some i) {cl : Client}
    {r : Relay UInt8} {g : Conn → Conn} (hfd : cl.fd = (s.client i).fd) (hh : cl.Holds r.waiting)
    (hg : g a.conn = Line.conn ⟨r, some i⟩) :
    Shows up ((s.modifyConn c g).setClient i cl) (A.set c ⟨r, some i⟩) where
  conns := by
    simp only [State.modifyConn, State.setClient, h.conns]
    exact modify_map hc hg
  active := by
    have hcount := countP_set_line (b := ⟨r, some i⟩) hc hs
    rw [Option.isSome_some, if_pos rfl] at hcount
    rw [Nat.add_right_cancel hcount]
    exact h.active
  buf := by
    intro j hj
    simp only [State.modifyConn, State.setClient]
    by_cases hji : j = i
    · rw [hji, Function.update_self]
      exact hh.buf
    · rw [Function.update_of_ne hji]
      exact h.buf hj
  placed := h.placed.update hc hs hfd hh

/-- **Lines 132 to 152**: what waited is lost, if anything did. -/
theorem Shows.read (h : Shows up s A) (hc : A[c]? = some a) (hs : a.slot = some i)
    (hst : s.stepRead i data = some t) : ∃ b : Line, Shows up t (A.set c b) ∧
      b.relay.lost = a.relay.lost + a.relay.waiting.length := by
  have hend : Shows up (s.endClient i) (A.set c ⟨a.relay.discard, none⟩) := h.endClient hc hs
  cases data with
  | none =>
    obtain rfl := Option.some.inj hst
    exact ⟨_, hend, rfl⟩
  | some data =>
    rw [State.stepRead, h.connOf hc hs] at hst
    dsimp only at hst
    split at hst
    case isFalse => cases hst
    rename_i hle
    obtain rfl := Option.some.inj hst
    cases data with
    | nil =>
      have hnil : (s.modifyConn c fun k => { k with received := k.received ++ [] }) = s := by
        simp only [State.modifyConn, List.append_nil]
        exact congrArg (fun conns => { s with conns }) (List.modify_id c s.conns)
      refine ⟨⟨a.relay.discard, none⟩, ?_, rfl⟩
      rw [hnil]
      exact hend
    | cons x data =>
      have hbuf := h.buf (h.placed.opened hc hs).1
      refine ⟨⟨a.relay.take (x :: data), some i⟩, h.update hc hs rfl ?_ ?_, rfl⟩
      · exact holds_filled hbuf (List.cons_ne_nil x data) hle
      · simp [Line.conn, Relay.take, hs]

/-- **Lines 157 to 172.** -/
theorem Shows.write (h : Shows up s A) (hc : A[c]? = some a) (hs : a.slot = some i)
    (he : (s.client i).events = .pollout) (hst : s.stepWrite i rval = some t) :
    ∃ b : Line, Shows up t (A.set c b) ∧ (rval ≠ none → b.relay.lost = a.relay.lost) := by
  cases rval with
  | none =>
    obtain rfl := Option.some.inj hst
    exact ⟨_, h.endClient hc hs, fun hne => absurd rfl hne⟩
  | some rval =>
    rw [State.stepWrite, h.connOf hc hs] at hst
    dsimp only at hst
    split at hst
    case isFalse => cases hst
    rename_i hle
    obtain rfl := Option.some.inj hst
    obtain ⟨-, -, -, hh⟩ := h.placed.opened hc hs
    refine ⟨⟨a.relay.give rval, some i⟩, h.update hc hs rfl (hh.advance he hle) ?_, fun _ => rfl⟩
    simp [Line.conn, Relay.give, hs, (hh.busy he).2.2.2]

/-- The main socket has no connection behind it. -/
theorem Shows.close_main (h : Shows up s A) (hup : up) (hge : 0 ≤ (s.client 0).fd) :
    s.close (s.client 0).fd = { s with files := Function.update s.files (s.client 0).fd none } := by
  have hconn : s.connOf (s.client 0).fd = none := by
    rw [State.connOf, h.placed.main hup hge]
  unfold State.close
  dsimp only
  rw [hconn]

theorem Shows.closeMain (h : Shows up s A) (hup : up) (hge : 0 ≤ (s.client 0).fd) {up' : Prop}
    {cl : Client} (hcl : up' → cl.fd < 0) :
    Shows up' ((s.close (s.client 0).fd).setClient 0 cl) A := by
  rw [h.close_main hup hge]
  refine ⟨h.conns, h.active, ?_, h.placed.closeMain hup hge hcl⟩
  intro i hi
  dsimp only [State.setClient]
  rw [Function.update_of_ne (by omega)]
  exact h.buf hi

/-! ### Steps -/

/-- What `poll` has told of a client, until it is looked at. -/
structure Client.Told (calm : Prop) (cl : Client) : Prop where
  gone : cl.fd < 0 → cl.revents = .zero
  pollin : cl.revents.pollin = true → cl.events = .pollin
  pollout : cl.revents.pollout = true → cl.events = .pollout
  calm : calm → cl.revents.pollerr = false

variable {calm : Prop} {e : Event}

/-- **Where the program is**, and what it can rely on there. -/
def Knows (calm : Prop) (s : State) : Prop :=
  match s.pc with
  | .accept | .accepting => ∀ j < posixOpenMax, (s.client j).Told calm
  | .read i => 1 ≤ i ∧ i < posixOpenMax ∧ ∀ j, i ≤ j → j < posixOpenMax → (s.client j).Told calm
  | .write i => 1 ≤ i ∧ i < posixOpenMax ∧
      ((s.client i).revents.pollout = true → (s.client i).events = .pollout) ∧
      ∀ j, i < j → j < posixOpenMax → (s.client j).Told calm
  | .done => s.finish = true ∧ s.activeClients ≤ 0 ∧ ∀ fd, s.files fd ≠ some .listener
  | _ => True

/-- No call fails, and `poll` reports no error. -/
def Event.Calm : Event → Prop
  | .poll (some revents) => ∀ i < posixOpenMax, (revents i).pollerr = false
  | .read none => False
  | .write none => False
  | _ => True

/-- Nothing of a connection is lost. -/
def Lossless (A : List Line) : Prop := ∀ a ∈ A, a.relay.lost = 0

theorem Lossless.set {b : Line} (h : Lossless A) (hc : A[c]? = some a)
    (hb : a.relay.lost = 0 → b.relay.lost = 0) : Lossless (A.set c b) := by
  intro x hx
  rcases List.mem_or_eq_of_mem_set hx with hx | rfl
  · exact h x hx
  · exact hb (h a (List.mem_of_getElem? hc))

/-- **What a step keeps.** -/
structure Keeps (calm : Prop) (A : List Line) (t : State) (B : List Line) : Prop where
  shows : Shows (t.pc ≠ .done) t B
  knows : Knows calm t
  lossless : calm → Lossless A → Lossless B

theorem Shows.mono {up' : Prop} (h : Shows up s A) (hup : up' → up) : Shows up' s A :=
  ⟨h.conns, h.active, h.buf, h.placed.opened, h.placed.closed, h.placed.taken, h.placed.conn,
    h.placed.listener, fun hu => h.placed.main (hup hu), h.placed.nonneg⟩

theorem Shows.goto (h : Shows up s A) (pc : Pc) : Shows up { s with pc } A :=
  ⟨h.conns, h.active, h.buf, h.placed⟩

theorem knows_next {s : State} (h1 : 1 ≤ i)
    (h : ∀ j, i < j → j < posixOpenMax → (s.client j).Told calm) (hpc : s.pc = next i) :
    Knows calm s := by
  unfold Knows
  rw [hpc, next]
  by_cases hi : i + 1 < posixOpenMax
  · rw [if_pos hi]
    exact ⟨by omega, hi, fun j hj => h j (by omega)⟩
  · rw [if_neg hi]
    trivial

@[simp] theorem close_client : (s.close fd).client = s.client := by
  unfold State.close
  dsimp only
  split <;> rfl

@[simp] theorem close_pc : (s.close fd).pc = s.pc := by
  unfold State.close
  dsimp only
  split <;> rfl

@[simp] theorem close_finish : (s.close fd).finish = s.finish := by
  unfold State.close
  dsimp only
  split <;> rfl

@[simp] theorem length_close_conns : (s.close fd).conns.length = s.conns.length := by
  unfold State.close
  dsimp only
  split
  · exact List.length_modify ..
  · rfl

/-- What giving a client up leaves alone. -/
theorem endClient_frame : (s.endClient i).pc = s.pc ∧ (s.endClient i).finish = s.finish ∧
    (s.endClient i).conns.length = s.conns.length ∧
    (∀ j, j ≠ i → (s.endClient i).client j = s.client j) ∧
    ((s.endClient i).client i).revents = (s.client i).revents ∧
    ((s.endClient i).client i).events = (s.client i).events := by
  unfold State.endClient State.setClient
  dsimp only
  refine ⟨close_pc, close_finish, length_close_conns, ?_, ?_, ?_⟩
  · intro j hj
    rw [Function.update_of_ne hj, close_client]
  · rw [Function.update_self]
  · rw [Function.update_self]

theorem stepRead_frame (hst : s.stepRead i data = some t) : t.pc = s.pc ∧ t.finish = s.finish ∧
    t.conns.length = s.conns.length ∧ (∀ j, j ≠ i → t.client j = s.client j) ∧
    (t.client i).revents = (s.client i).revents ∧
    ((t.client i).events = (s.client i).events ∨ (t.client i).events = .pollout) := by
  cases data with
  | none =>
    obtain rfl := Option.some.inj hst
    obtain ⟨hpc, hfin, hlen, hcl, hrev, hev⟩ := endClient_frame (s := s) (i := i)
    exact ⟨hpc, hfin, hlen, hcl, hrev, Or.inl hev⟩
  | some data =>
    unfold State.stepRead at hst
    dsimp only at hst
    split at hst
    · cases hst
    · rename_i c _
      split at hst
      case isFalse => cases hst
      obtain rfl := Option.some.inj hst
      have hconns : (s.modifyConn c fun k => { k with received := k.received ++ data }).conns.length =
          s.conns.length := List.length_modify ..
      cases data with
      | nil =>
        obtain ⟨hpc, hfin, hlen, hcl, hrev, hev⟩ := endClient_frame
          (s := s.modifyConn c fun k => { k with received := k.received ++ [] }) (i := i)
        exact ⟨hpc, hfin, hlen.trans hconns, hcl, hrev, Or.inl hev⟩
      | cons x data =>
        refine ⟨rfl, rfl, hconns, ?_, ?_, Or.inr ?_⟩
        · intro j hj
          exact Function.update_of_ne hj _ _
        · simp [State.readClient, State.setClient, State.modifyConn]
        · simp [State.readClient, State.setClient]

theorem stepWrite_frame (hst : s.stepWrite i rval = some t) : t.pc = s.pc ∧ t.finish = s.finish ∧
    t.conns.length = s.conns.length ∧ ∀ j, j ≠ i → t.client j = s.client j := by
  cases rval with
  | none =>
    obtain rfl := Option.some.inj hst
    obtain ⟨hpc, hfin, hlen, hcl, -⟩ := endClient_frame (s := s) (i := i)
    exact ⟨hpc, hfin, hlen, hcl⟩
  | some rval =>
    unfold State.stepWrite at hst
    dsimp only at hst
    split at hst
    · cases hst
    · split at hst
      case isFalse => cases hst
      obtain rfl := Option.some.inj hst
      refine ⟨rfl, rfl, List.length_modify .., ?_⟩
      intro j hj
      exact Function.update_of_ne hj _ _

/-- **A new client** has been told nothing. -/
theorem newClient_told (h : ∀ j < posixOpenMax, (s.client j).Told calm) :
    ∀ j < posixOpenMax, (((s.connect fd).newClient fd).client j).Told calm := by
  intro j hj
  have hold := h j hj
  unfold State.newClient
  cases hfree : (s.connect fd).freeSlot with
  | none =>
    dsimp only
    rw [close_client]
    exact hold
  | some i =>
    have hneg : ((s.connect fd).client i).fd = -1 := by simpa using List.find?_some hfree
    dsimp only [State.setClient, State.connect]
    by_cases hji : j = i
    · subst hji
      have hzero : (s.client j).revents = .zero := hold.gone (by
        have hfd : (s.client j).fd = -1 := hneg
        omega)
      rw [Function.update_self]
      refine ⟨?_, fun _ => rfl, ?_, hold.calm⟩
      · exact fun _ => hzero
      · dsimp only
        rw [hzero]
        intro hz
        cases hz
    · rw [Function.update_of_ne hji]
      exact hold

/-! ### The points of the program -/

theorem signal_keeps (h : Shows (s.pc ≠ .done) s A) (hk : Knows calm s) (hpc : s.pc ≠ .done) :
    Keeps calm A { s with finish := true } A := by
  refine ⟨⟨h.conns, h.active, h.buf, h.placed⟩, ?_, fun _ hl => hl⟩
  unfold Knows at hk ⊢
  dsimp only
  cases hp : s.pc <;> simp only [hp] at hk ⊢
  case done => exact absurd hp hpc
  all_goals exact hk

theorem top_keeps (h : Shows True s A) :
    Keeps calm A { s.clearRevents.closeMain with pc := .poll } A := by
  have hclear : Shows True s.clearRevents A :=
    ⟨h.conns, h.active, h.buf, h.placed.revents fun _ => .zero⟩
  have hclose : Shows True s.clearRevents.closeMain A := by
    unfold State.closeMain
    split
    · rename_i hcond
      exact hclear.closeMain trivial hcond.2 fun _ => Int.negSucc_lt_zero 0
    · exact hclear
  exact ⟨(hclose.goto .poll).mono fun _ => trivial, trivial, fun _ hl => hl⟩

theorem poll_keeps {revents : ℕ → Revents} (h : Shows True s A) (hr : s.Reports revents)
    (hcalm : calm → ∀ i < posixOpenMax, (revents i).pollerr = false) :
    Keeps calm A { s with
      pc := .accept
      client := fun i => { s.client i with revents := revents i } } A := by
  have hplaced : Shows True { s with client := fun i => { s.client i with revents := revents i } } A :=
    ⟨h.conns, h.active, h.buf, h.placed.revents revents⟩
  refine ⟨(hplaced.goto .accept).mono fun _ => trivial, ?_, fun _ hl => hl⟩
  intro j hj
  obtain ⟨h1, h2, h3⟩ := hr j hj
  exact ⟨h1, h2, h3, fun hc => hcalm hc j hj⟩

theorem accept_keeps {msgsock : Option ℤ} (h : Shows True s A)
    (hk : ∀ j < posixOpenMax, (s.client j).Told calm) (hst : s.stepAccept msgsock = some t) :
    ∃ B, Keeps calm A { t with pc := .read 1 } B := by
  cases msgsock with
  | none =>
    obtain rfl := Option.some.inj hst
    exact ⟨A, (h.goto _).mono fun _ => trivial, ⟨Nat.le_refl 1, by decide, fun j _ => hk j⟩, fun _ hl => hl⟩
  | some fd =>
    unfold State.stepAccept at hst
    dsimp only at hst
    split at hst
    case isFalse => cases hst
    rename_i hcond
    obtain rfl := Option.some.inj hst
    obtain ⟨slot, hnew⟩ := h.newClient trivial hcond.1 hcond.2
    refine ⟨_, (hnew.goto _).mono fun _ => trivial, ⟨Nat.le_refl 1, by decide, fun j _ => newClient_told hk j⟩, ?_⟩
    intro _ hl a ha
    rcases List.mem_append.1 ha with ha | ha
    · exact hl a ha
    · rw [List.mem_singleton.1 ha]
      rfl

theorem read_keeps (h : Shows True s A) (h1 : 1 ≤ i) (hlt : i < posixOpenMax)
    (hk : ∀ j, i ≤ j → j < posixOpenMax → (s.client j).Told calm) (hreads : s.reads i)
    (hst : s.stepRead i data = some t) : ∃ B, Keeps calm A { t with pc := .write i } B := by
  simp only [State.reads, Bool.and_eq_true, bne_iff_ne, Bool.or_eq_true] at hreads
  obtain ⟨hfd, hrev⟩ := hreads
  obtain ⟨c, a, hc, hs⟩ := h.placed.taken h1 hlt hfd
  obtain ⟨b, hb, hlost⟩ := h.read hc hs hst
  obtain ⟨-, -, -, hcl, hr, hev⟩ := stepRead_frame hst
  have htold := hk i (Nat.le_refl i) hlt
  refine ⟨_, (hb.goto _).mono fun _ => trivial, ⟨h1, hlt, ?_, ?_⟩, ?_⟩
  · intro hout
    rcases hev with hev | hev
    · dsimp only at hout ⊢
      rw [hr] at hout
      rw [hev]
      exact htold.pollout hout
    · exact hev
  · intro j hj hjlt
    dsimp only
    rw [hcl j (by omega)]
    exact hk j (by omega) hjlt
  · -- without errors it was asked for data, and nothing waited
    intro hcalm hl
    refine hl.set hc fun ha => ?_
    have hin : (s.client i).revents.pollin = true := by
      rcases hrev with hin | herr
      · exact hin
      · rw [htold.calm hcalm] at herr
        cases herr
    have hidle := (h.placed.opened hc hs).2.2.2.idle (htold.pollin hin)
    rw [hlost, ha, hidle]
    rfl

theorem write_keeps (h : Shows True s A) (h1 : 1 ≤ i) (hlt : i < posixOpenMax)
    (hev : (s.client i).revents.pollout = true → (s.client i).events = .pollout)
    (hk : ∀ j, i < j → j < posixOpenMax → (s.client j).Told calm) (hwrites : s.writes i)
    (hcalm : calm → rval ≠ none) (hst : s.stepWrite i rval = some t) :
    ∃ B, Keeps calm A { t with pc := next i } B := by
  simp only [State.writes, Bool.and_eq_true, bne_iff_ne] at hwrites
  obtain ⟨hfd, hout⟩ := hwrites
  obtain ⟨c, a, hc, hs⟩ := h.placed.taken h1 hlt hfd
  obtain ⟨b, hb, hlost⟩ := h.write hc hs (hev hout) hst
  obtain ⟨-, -, -, hcl⟩ := stepWrite_frame hst
  refine ⟨_, (hb.goto _).mono fun _ => trivial, knows_next h1 ?_ rfl, ?_⟩
  · intro j hj hjlt
    dsimp only
    rw [hcl j (by omega)]
    exact hk j hj hjlt
  · intro hc' hl
    exact hl.set hc fun ha => by rw [hlost (hcalm hc'), ha]

theorem bottom_keeps (h : Shows True s A) : Keeps calm A s.bottom A := by
  unfold State.bottom
  split
  · exact ⟨(h.goto _).mono fun _ => trivial, trivial, fun _ hl => hl⟩
  · rename_i hcond
    have hfin : s.finish = true := by
      cases hf : s.finish
      · exact absurd (Or.inl hf) hcond
      · rfl
    have hact : s.activeClients ≤ 0 := Int.not_lt.1 fun hlt => hcond (Or.inr hlt)
    split
    · rename_i hge
      have hclose : Shows False (s.close (s.client 0).fd) A := by
        have hsame : (s.close (s.client 0).fd).setClient 0 (s.client 0) = s.close (s.client 0).fd := by
          rw [h.close_main trivial hge]
          dsimp only [State.setClient]
          rw [Function.update_eq_self]
        rw [← hsame]
        exact h.closeMain trivial hge False.elim
      refine ⟨(hclose.goto _).mono fun hne => hne rfl, ?_, fun _ hl => hl⟩
      rw [h.close_main trivial hge]
      refine ⟨hfin, hact, ?_⟩
      intro fd hf
      obtain ⟨hfd, hf⟩ := update_none_eq_some.1 hf
      exact hfd (h.placed.listener hf)
    · rename_i hneg
      refine ⟨(h.goto _).mono fun _ => trivial, ⟨hfin, hact, ?_⟩, fun _ hl => hl⟩
      intro fd hf
      have h0 := h.placed.nonneg_of_eq hf
      rw [h.placed.listener hf] at h0
      exact hneg h0

/-- **What a step can do.** -/
inductive Moves (s : State) : Event → State → Prop
  | signal (hpc : s.pc ≠ .done) : Moves s .signal { s with finish := true }
  | top (hpc : s.pc = .top) : Moves s .go { s.clearRevents.closeMain with pc := .poll }
  | idle (hpc : s.pc = .poll) : Moves s (.poll none) { s with pc := .bottom }
  | poll {revents : ℕ → Revents} (hpc : s.pc = .poll) (hr : s.Reports revents) :
      Moves s (.poll (some revents)) { s with
        pc := .accept
        client := fun i => { s.client i with revents := revents i } }
  | noAccept (hpc : s.pc = .accept) : Moves s .go { s with pc := .read 1 }
  | willAccept (hpc : s.pc = .accept) (ha : s.accepts) : Moves s .go { s with pc := .accepting }
  | accept {msgsock : Option ℤ} {t : State} (hpc : s.pc = .accepting)
      (hst : s.stepAccept msgsock = some t) : Moves s (.accept msgsock) { t with pc := .read 1 }
  | noRead {i : ℕ} (hpc : s.pc = .read i) : Moves s .go { s with pc := .write i }
  | read {i : ℕ} {data : Option (List UInt8)} {t : State} (hpc : s.pc = .read i) (hr : s.reads i)
      (hst : s.stepRead i data = some t) : Moves s (.read data) { t with pc := .write i }
  | noWrite {i : ℕ} (hpc : s.pc = .write i) : Moves s .go { s with pc := next i }
  | write {i : ℕ} {rval : Option ℕ} {t : State} (hpc : s.pc = .write i) (hw : s.writes i)
      (hst : s.stepWrite i rval = some t) : Moves s (.write rval) { t with pc := next i }
  | bottom (hpc : s.pc = .bottom) : Moves s .go s.bottom

theorem moves_of_step (hst : step s e = some t) : Moves s e t := by
  cases e with
  | signal =>
    unfold step at hst
    dsimp only at hst
    split at hst
    · cases hst
    · rename_i hpc
      obtain rfl := Option.some.inj hst
      exact Moves.signal hpc
  | go =>
    unfold step at hst
    dsimp only at hst
    split at hst
    · rename_i hpc
      obtain rfl := Option.some.inj hst
      exact Moves.top hpc
    · rename_i hpc
      obtain rfl := Option.some.inj hst
      split
      · exact Moves.willAccept hpc ‹_›
      · exact Moves.noAccept hpc
    · rename_i hpc
      split at hst
      · cases hst
      · obtain rfl := Option.some.inj hst
        exact Moves.noRead hpc
    · rename_i hpc
      split at hst
      · cases hst
      · obtain rfl := Option.some.inj hst
        exact Moves.noWrite hpc
    · rename_i hpc
      obtain rfl := Option.some.inj hst
      exact Moves.bottom hpc
    · cases hst
  | poll revents =>
    unfold step at hst
    dsimp only at hst
    split at hst
    · rename_i hpc
      obtain rfl := Option.some.inj hst
      exact Moves.idle hpc
    · rename_i hpc
      split at hst
      · rename_i hr
        obtain rfl := Option.some.inj hst
        exact Moves.poll hpc hr
      · cases hst
    · cases hst
  | accept msgsock =>
    unfold step at hst
    dsimp only at hst
    split at hst
    · rename_i hpc
      obtain ⟨u, hu, rfl⟩ := Option.map_eq_some_iff.1 hst
      exact Moves.accept hpc hu
    · cases hst
  | read data =>
    unfold step at hst
    dsimp only at hst
    split at hst
    · rename_i hpc
      split at hst
      · rename_i hr
        obtain ⟨u, hu, rfl⟩ := Option.map_eq_some_iff.1 hst
        exact Moves.read hpc hr hu
      · cases hst
    · cases hst
  | write rval =>
    unfold step at hst
    dsimp only at hst
    split at hst
    · rename_i hpc
      split at hst
      · rename_i hw
        obtain ⟨u, hu, rfl⟩ := Option.map_eq_some_iff.1 hst
        exact Moves.write hpc hw hu
      · cases hst
    · cases hst

/-- **Every step of the server is a step of its connections.** -/
theorem step_keeps (h : Shows (s.pc ≠ .done) s A) (hk : Knows calm s) (he : calm → e.Calm)
    (hst : step s e = some t) : ∃ B, Keeps calm A t B := by
  have hup : s.pc ≠ .done → Shows True s A := fun hne => h.mono fun _ => hne
  cases moves_of_step hst with
  | signal hpc => exact ⟨A, signal_keeps h hk hpc⟩
  | top hpc => exact ⟨A, top_keeps (hup (by rw [hpc]; decide))⟩
  | idle hpc => exact ⟨A, ((hup (by rw [hpc]; decide)).goto _).mono fun _ => trivial, trivial, fun _ hl => hl⟩
  | poll hpc hr => exact ⟨A, poll_keeps (hup (by rw [hpc]; decide)) hr he⟩
  | noAccept hpc =>
    rw [Knows, hpc] at hk
    have hnone : s.stepAccept none = some s := rfl
    exact accept_keeps (hup (by rw [hpc]; decide)) hk hnone
  | willAccept hpc =>
    rw [Knows, hpc] at hk
    exact ⟨A, ((hup (by rw [hpc]; decide)).goto _).mono fun _ => trivial, hk, fun _ hl => hl⟩
  | accept hpc hu =>
    rw [Knows, hpc] at hk
    exact accept_keeps (hup (by rw [hpc]; decide)) hk hu
  | noRead hpc =>
    rw [Knows, hpc] at hk
    obtain ⟨h1, hlt, hk⟩ := hk
    exact ⟨A, ((hup (by rw [hpc]; exact fun h => by cases h)).goto _).mono fun _ => trivial,
      ⟨h1, hlt, (hk _ (Nat.le_refl _) hlt).pollout, fun j hj => hk j (Nat.le_of_lt hj)⟩, fun _ hl => hl⟩
  | read hpc hr hu =>
    rw [Knows, hpc] at hk
    obtain ⟨h1, hlt, hk⟩ := hk
    exact read_keeps (hup (by rw [hpc]; exact fun h => by cases h)) h1 hlt hk hr hu
  | noWrite hpc =>
    rw [Knows, hpc] at hk
    obtain ⟨h1, hlt, -, hk⟩ := hk
    exact ⟨A, ((hup (by rw [hpc]; exact fun h => by cases h)).goto _).mono fun _ => trivial,
      knows_next h1 hk rfl, fun _ hl => hl⟩
  | write hpc hw hu =>
    rw [Knows, hpc] at hk
    obtain ⟨h1, hlt, hev, hk⟩ := hk
    refine write_keeps (hup (by rw [hpc]; exact fun h => by cases h)) h1 hlt hev hk hw ?_ hu
    rintro hcalm rfl
    exact he hcalm
  | bottom hpc => exact ⟨A, bottom_keeps (hup (by rw [hpc]; decide))⟩

/-! ### Runs -/

variable {s₀ : State} {es : List Event}

theorem initial_shows (h : s.Initial) : Shows (s.pc ≠ .done) s [] where
  conns := h.conns
  active := h.activeClients
  buf := fun _ => h.buf _
  placed := by
    refine ⟨?_, ?_, ?_, ?_, ?_, ?_, ?_⟩
    · intro c a i hc
      cases hc
    · intro c a hc
      cases hc
    · intro i h1 _ hfd
      exact absurd (h.clients i (by omega)).1 hfd
    · intro fd c hf
      rw [h.files] at hf
      split at hf <;> cases hf
    · intro fd hf
      rw [h.files] at hf
      split at hf
      · assumption
      · cases hf
    · intro _ _
      rw [h.files, if_pos rfl]
    · intro fd hf
      rw [h.files] at hf
      split at hf
      · rename_i hfd
        rw [hfd]
        exact h.listener
      · exact absurd rfl hf

/-- **Every run of the server is a run of its connections.** -/
theorem run_shows (h0 : s₀.Initial) (hrun : Run (Fires step) s₀ es s)
    (hcalm : calm → ∀ e ∈ es, e.Calm) :
    ∃ A, Shows (s.pc ≠ .done) s A ∧ Knows calm s ∧ (calm → Lossless A) := by
  induction hrun with
  | nil =>
    refine ⟨[], initial_shows h0, ?_, fun _ a ha => by cases ha⟩
    unfold Knows
    rw [h0.pc]
    trivial
  | @snoc es s e t hr hst ih =>
    obtain ⟨A, hA, hk, hl⟩ := ih fun hc e he => hcalm hc e (List.mem_append_left _ he)
    obtain ⟨B, hB, hkB, hlB⟩ := step_keeps hA hk
      (fun hc => hcalm hc e (List.mem_append_right _ List.mem_cons_self)) hst
    exact ⟨B, hB, hkB, fun hc => hlB hc (hl hc)⟩

/-- There is no more room than there are slots. -/
theorem Placed.count_le (h : Placed up files client A) : A.countP (·.slot.isSome) ≤ posixOpenMax - 1 := by
  have hnodup : (A.filterMap Line.slot).Nodup := by
    unfold List.Nodup
    rw [List.pairwise_filterMap, List.pairwise_iff_getElem]
    intro c c' hc hc' hlt i hi j hj hij
    subst hij
    have heq := h.slot_inj (List.getElem?_eq_getElem hc) hi (List.getElem?_eq_getElem hc') hj
    omega
  have hsub : A.filterMap Line.slot ⊆ List.range' 1 (posixOpenMax - 1) := by
    intro i hi
    obtain ⟨a, ha, hs⟩ := List.mem_filterMap.1 hi
    obtain ⟨c, hc⟩ := List.mem_iff_getElem?.1 ha
    obtain ⟨h1, hlt, -⟩ := h.opened hc hs
    rw [List.mem_range'_1]
    omega
  have hle := (List.subperm_of_subset hnodup hsub).length_le
  rw [List.length_filterMap_eq_countP, List.length_range'] at hle
  exact hle

/-- A connection is open as long as it has a place. -/
theorem Shows.getElem? (h : Shows up s A) {k : Conn} (hk : s.conns[c]? = some k) :
    ∃ a, A[c]? = some a ∧ k = a.conn := by
  rw [h.conns, List.getElem?_map] at hk
  obtain ⟨a, ha, hka⟩ := Option.map_eq_some_iff.1 hk
  exact ⟨a, ha, hka.symm⟩

/-- **An open connection** has one slot, a closed one no descriptor. -/
theorem Shows.conn_ok (h : Shows up s A) {k : Conn} (hk : s.conns[c]? = some k) :
    (k.closes = 0 ∧ ∃! i, 1 ≤ i ∧ i < posixOpenMax ∧ s.files (s.client i).fd = some (.conn c)) ∨
    (k.closes = 1 ∧ ∀ fd, s.files fd ≠ some (.conn c)) := by
  obtain ⟨a, hc, rfl⟩ := h.getElem? hk
  cases hs : a.slot with
  | none =>
    refine Or.inr ⟨by simp [Line.conn, hs], ?_⟩
    intro fd hf
    obtain ⟨a', i, hc', hs', -⟩ := h.placed.conn hf
    obtain rfl := Option.some.inj (hc'.symm.trans hc)
    rw [hs] at hs'
    cases hs'
  | some i =>
    obtain ⟨h1, hi, hf, -⟩ := h.placed.opened hc hs
    refine Or.inl ⟨by simp [Line.conn, hs], i, ⟨h1, hi, hf⟩, ?_⟩
    rintro j ⟨hj1, hj, hfj⟩
    obtain ⟨a', hc', hs'⟩ := h.placed.slot_of_file hj1 hj hfj
    obtain rfl := Option.some.inj (hc'.symm.trans hc)
    rw [hs'] at hs
    exact Option.some.inj hs

/-- The counter is the number of open connections. -/
theorem Shows.active_eq (h : Shows up s A) : s.activeClients = s.conns.countP (·.closes == 0) := by
  have hsame : A.countP ((·.closes == 0) ∘ Line.conn) = A.countP (·.slot.isSome) := by
    refine List.countP_congr fun a _ => ?_
    cases hs : a.slot <;> simp [Line.conn, hs]
  rw [h.active, h.conns, List.countP_map, hsame]

/-- **No socket is open** where no connection is counted and the main one is closed. -/
theorem Shows.files_none (h : Shows up s A) (hactive : s.activeClients ≤ 0)
    (hlisten : ∀ fd, s.files fd ≠ some .listener) (fd : ℤ) : s.files fd = none := by
  cases hf : s.files fd with
  | none => rfl
  | some file =>
    cases file with
    | listener => exact absurd hf (hlisten fd)
    | conn c =>
      obtain ⟨a, i, hc, hs, -⟩ := h.placed.conn hf
      have hpos : 0 < A.countP (·.slot.isSome) :=
        List.countP_pos_iff.2 ⟨a, List.mem_of_getElem? hc, by rw [hs]; rfl⟩
      have hact := h.active
      omega

/-- The calls of `accept` that the test has let pass. -/
def State.accepting (s : State) : ℕ := if s.pc = .accepting then 1 else 0

theorem next_ne_accepting : next i ≠ .accepting := by
  unfold next
  split <;> nofun

theorem newClient_finish : ((s.connect fd).newClient fd).finish = s.finish := by
  unfold State.newClient
  split
  · rfl
  · exact close_finish

theorem length_conns_newClient : ((s.connect fd).newClient fd).conns.length = s.conns.length + 1 := by
  have hconnect : (s.connect fd).conns.length = s.conns.length + 1 := List.length_append
  unfold State.newClient
  split
  · exact hconnect
  · exact length_close_conns.trans hconnect

/-- **After `finish`** a connection comes only where the test was made before. -/
theorem finish_step (hst : step s e = some t) (hf : s.finish = true) :
    t.finish = true ∧ s.conns.length ≤ t.conns.length ∧
      t.conns.length + t.accepting ≤ s.conns.length + s.accepting := by
  have hother : ∀ {u : State}, u.finish = true → u.conns.length = s.conns.length → u.pc ≠ .accepting →
      u.finish = true ∧ s.conns.length ≤ u.conns.length ∧
        u.conns.length + u.accepting ≤ s.conns.length + s.accepting := by
    intro u hfin hlen hpc
    have hzero : u.accepting = 0 := if_neg hpc
    exact ⟨hfin, Nat.le_of_eq hlen.symm, by omega⟩
  cases moves_of_step hst with
  | signal => exact ⟨rfl, Nat.le_refl _, Nat.le_refl _⟩
  | top =>
    refine hother ?_ ?_ nofun <;> unfold State.closeMain <;> split
    · exact close_finish.trans hf
    · exact hf
    · exact length_close_conns
    · rfl
  | willAccept _ ha =>
    rw [State.accepts, hf] at ha
    cases ha
  | idle | poll | noAccept | noRead => exact hother hf rfl nofun
  | noWrite => exact hother hf rfl next_ne_accepting
  | @accept msgsock u hpc hu =>
    have hone : s.accepting = 1 := if_pos hpc
    cases msgsock with
    | none =>
      obtain rfl := Option.some.inj hu
      exact hother hf rfl nofun
    | some fd =>
      unfold State.stepAccept at hu
      dsimp only at hu
      split at hu
      case isFalse => cases hu
      obtain rfl := Option.some.inj hu
      have hlen : ((s.connect fd).newClient fd).conns.length = s.conns.length + 1 :=
        length_conns_newClient
      refine ⟨newClient_finish.trans hf, ?_, ?_⟩
      · show s.conns.length ≤ ((s.connect fd).newClient fd).conns.length
        omega
      · show ((s.connect fd).newClient fd).conns.length + 0 ≤ _
        omega
  | read _ _ hu =>
    obtain ⟨-, hfin, hlen, -⟩ := stepRead_frame hu
    exact hother (hfin.trans hf) hlen nofun
  | write _ _ hu =>
    obtain ⟨-, hfin, hlen, -⟩ := stepWrite_frame hu
    exact hother (hfin.trans hf) hlen next_ne_accepting
  | bottom hpc =>
    unfold State.bottom
    split
    · exact hother hf rfl nofun
    · split
      · exact hother (close_finish.trans hf) length_close_conns nofun
      · exact hother hf rfl nofun

/-- **The connections of the server.** In every run, whatever the kernel reports and whenever
a signal comes: `activeClients` is the number of open connections, and never above the number of
slots; an open connection has a slot of its own, a closed one has been closed once and has no
descriptor; and a slot in use has an open descriptor. Once `finish` is set no connection comes, but
for one that the test of line 104 has let pass before, and when the program ends no socket is open. -/
theorem connections_ok (h0 : s₀.Initial) (hrun : Run (Fires step) s₀ es s) :
    s.activeClients = s.conns.countP (·.closes == 0) ∧ s.activeClients ≤ posixOpenMax - 1 ∧
    (∀ c k, s.conns[c]? = some k →
      (k.closes = 0 ∧ ∃! i, 1 ≤ i ∧ i < posixOpenMax ∧ s.files (s.client i).fd = some (.conn c)) ∨
      (k.closes = 1 ∧ ∀ fd, s.files fd ≠ some (.conn c))) ∧
    (∀ i, 1 ≤ i → i < posixOpenMax → (s.client i).fd ≠ -1 →
      ∃ c, s.files (s.client i).fd = some (.conn c)) ∧
    (s.finish = true → ∀ es' t, Run (Fires step) s es' t →
      (s.pc ≠ .accepting → t.conns.length = s.conns.length) ∧ t.conns.length ≤ s.conns.length + 1) ∧
    (s.pc = .done → ∀ fd, s.files fd = none) := by
  obtain ⟨A, h, hk, -⟩ := @run_shows s False s₀ es h0 hrun False.elim
  have hlt := h.placed.count_le
  refine ⟨h.active_eq, ?_, fun c k hk => h.conn_ok hk, ?_, ?_, ?_⟩
  · rw [h.active]
    unfold posixOpenMax at hlt ⊢
    omega
  · intro i h1 hi hfd
    obtain ⟨c, a, hc, hs⟩ := h.placed.taken h1 hi hfd
    exact ⟨c, (h.placed.opened hc hs).2.2.1⟩
  · intro hfin es' t hrun'
    obtain ⟨-, hge, hle⟩ : t.finish = true ∧ s.conns.length ≤ t.conns.length ∧
        t.conns.length + t.accepting ≤ s.conns.length + s.accepting := by
      induction hrun' with
      | nil => exact ⟨hfin, Nat.le_refl _, Nat.le_refl _⟩
      | snoc _ hst ih =>
        obtain ⟨hf, hge, hle⟩ := ih
        obtain ⟨hf', hge', hle'⟩ := finish_step hst hf
        exact ⟨hf', Nat.le_trans hge hge', Nat.le_trans hle' hle⟩
    have hone : s.accepting ≤ 1 := by
      unfold State.accepting
      split <;> omega
    refine ⟨fun hpc => ?_, by omega⟩
    have hzero : s.accepting = 0 := if_neg hpc
    omega
  · intro hpc
    rw [Knows, hpc] at hk
    exact h.files_none hk.2.1 hk.2.2

/-- A server whose main socket is 3. -/
def start : State where
  pc := .top
  finish := false
  client i := ⟨if i = 0 then 3 else -1, .pollin, .zero, List.replicate bufSize 0, 0, 0⟩
  activeClients := 0
  files fd := if fd = 3 then some .listener else none
  conns := []

theorem start_initial : start.Initial where
  pc := rfl
  clients := fun i hi => ⟨if_neg hi, rfl⟩
  buf := fun _ => List.length_replicate
  listener := by decide
  files := fun _ => rfl
  activeClients := rfl
  conns := rfl

/-- A client comes and sends three bytes, of which two are sent back. -/
def threeBytes : List Event :=
  [.go, .poll (some fun i => if i = 0 then ⟨true, false, false⟩ else .zero), .go,
    .accept (some 4)] ++
  List.replicate 40 .go ++
  [.poll (some fun i => if i = 1 then ⟨true, false, false⟩ else .zero), .go, .read (some [1, 2, 3])] ++
  List.replicate 39 .go ++
  [.poll (some fun i => if i = 1 then ⟨false, true, false⟩ else .zero), .go, .go, .write (some 2)]

theorem exec_threeBytes : ∃ s, Run (Fires step) start threeBytes s ∧
    s.conns[0]? = some ⟨[1, 2, 3], [1, 2], 0⟩ ∧ s.files (s.client 1).fd = some (.conn 0) ∧
    (s.client 1).events = .pollout ∧ (s.client 1).rest = [3] := by
  have hview : ((exec step start threeBytes).map fun s => (s.conns[0]?, s.files (s.client 1).fd,
      (s.client 1).events, (s.client 1).rest)) =
      some (some ⟨[1, 2, 3], [1, 2], 0⟩, some (.conn 0), .pollout, [3]) := by decide
  obtain ⟨s, hs, hv⟩ := Option.map_eq_some_iff.1 hview
  simp only [Prod.mk.injEq] at hv
  exact ⟨s, exec_run hs, hv⟩

/-- The one client of this run has the one slot. -/
theorem connections_ok_one : ∃ s, Run (Fires step) start threeBytes s ∧
    ∃! i, 1 ≤ i ∧ i < posixOpenMax ∧ s.files (s.client i).fd = some (.conn 0) := by
  obtain ⟨s, hrun, hk, -⟩ := exec_threeBytes
  obtain ⟨-, -, hconn, -⟩ := connections_ok start_initial hrun
  rcases hconn 0 _ hk with ⟨-, hslot⟩ | ⟨hcl, -⟩
  · exact ⟨s, hrun, hslot⟩
  · cases hcl

/-- **What is echoed.** In every run the bytes sent to a client, and behind them those that wait in
its buffer, are bytes that it has sent, in their order. If no call fails and `poll` reports no
error, they are all of them: while the connection is open with what waits, and once it is closed
without. The server writes only where something waits, and stays in the buffer. -/
theorem echoed_ok (h0 : s₀.Initial) (hrun : Run (Fires step) s₀ es s) {k : Conn}
    (hk : s.conns[c]? = some k) :
    (k.closes = 1 → k.sent.Sublist k.received ∧ ((∀ e ∈ es, e.Calm) → k.sent = k.received)) ∧
    ∀ i, 1 ≤ i → i < posixOpenMax → s.files (s.client i).fd = some (.conn c) →
      ∃ waiting, (k.sent ++ waiting).Sublist k.received ∧
        ((∀ e ∈ es, e.Calm) → k.sent ++ waiting = k.received) ∧
        ((s.client i).events = .pollin → waiting = []) ∧
        ((s.client i).events = .pollout → 0 ≤ (s.client i).bufPos ∧
          (s.client i).bufPos < (s.client i).bufLen ∧ (s.client i).bufLen ≤ bufSize ∧
          waiting = (s.client i).rest) := by
  obtain ⟨A, h, -, hl⟩ := run_shows h0 hrun fun hc => hc
  obtain ⟨a, hc, rfl⟩ := h.getElem? hk
  have hall : (∀ e ∈ es, e.Calm) → a.relay.sent ++ a.relay.waiting = a.relay.received := fun hcalm =>
    Relay.sent_append_waiting (hl hcalm a (List.mem_of_getElem? hc))
  refine ⟨?_, ?_⟩
  · intro hcl
    have hs : a.slot = none := by
      cases hs : a.slot with
      | none => rfl
      | some i => simp [Line.conn, hs] at hcl
    have hw := h.placed.closed hc hs
    refine ⟨(List.sublist_append_left _ _).trans a.relay.order, ?_⟩
    intro hcalm
    have hs := hall hcalm
    rwa [hw, List.append_nil] at hs
  · intro i h1 hi hf
    obtain ⟨a', hc', hs⟩ := h.placed.slot_of_file h1 hi hf
    obtain rfl := Option.some.inj (hc'.symm.trans hc)
    obtain ⟨-, -, -, hh⟩ := h.placed.opened hc hs
    exact ⟨a'.relay.waiting, a'.relay.order, hall, hh.idle, hh.busy⟩

/-- The third byte waits. -/
theorem echoed_ok_three : ∃ s, Run (Fires step) start threeBytes s ∧
    (s.client 1).rest = [3] ∧ [1, 2] ++ (s.client 1).rest = [1, 2, 3] := by
  obtain ⟨s, hrun, hk, hf, hev, hrest⟩ := exec_threeBytes
  obtain ⟨-, hopen⟩ := echoed_ok start_initial hrun hk
  obtain ⟨waiting, -, hall, -, hbusy⟩ := hopen 1 (Nat.le_refl 1) (by decide) hf
  obtain ⟨-, -, -, hw⟩ := hbusy hev
  have hcalm : ∀ e ∈ threeBytes, e.Calm := by
    intro e he
    simp only [threeBytes, List.mem_append, List.mem_cons, List.mem_replicate, List.not_mem_nil,
      or_false] at he
    -- only the three reports of `poll` say more than that they are not failed calls
    rcases he with (((((rfl | rfl | rfl | rfl) | ⟨-, rfl⟩) | rfl | rfl | rfl) | ⟨-, rfl⟩) | rfl | rfl | rfl | rfl)
    all_goals first | trivial | (intro i hi; dsimp only; split <;> rfl)
  rw [hw] at hall
  exact ⟨s, hrun, hrest, hall hcalm⟩

end SikMimuw.Echo
