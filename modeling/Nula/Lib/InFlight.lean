import Mathlib

/-!
# `Lib.InFlight` — calls that wait for their answers

A client with many calls under way keeps, under a key for each, the sending end of a one-shot channel; whoever reads
the answers takes the sender out and uses it, or parks it and puts it back later. A call leaves in its own time: with
what its channel brought, or because it failed or waited too long.

`Sound` ties the table to the calls: a sender that is stored or parked belongs to a call of that key whose channel
is still empty. Two properties are asked of an exit: that no key of a finished call stays in the table (`NoLeak`),
and that the other calls do not notice (`Apart`). Each operation has a lemma for each.
-/

namespace Nula

/-- A one-shot channel. -/
inductive Channel (ρ : Type) where
  | empty
  | sent (r : ρ)
  /-- The sender is gone. -/
  | closed

/-- `oneshot::Sender::send`. -/
def Channel.send {ρ : Type} (r : ρ) : Channel ρ → Channel ρ
  | .empty => .sent r
  | other => other

/-- What a channel holds after a `send` was there before or is new. -/
theorem Channel.send_eq_sent {ρ : Type} {c : Channel ρ} {r r' : ρ} (h : c.send r = .sent r') :
    c = .sent r' ∨ r' = r := by
  cases c with
  | empty =>
      cases h
      exact Or.inr rfl
  | sent r₀ => exact Or.inl h
  | closed => cases h

/-- The sender is dropped. -/
def Channel.drop {ρ : Type} : Channel ρ → Channel ρ
  | .empty => .closed
  | other => other

/-- What was sent survives the end of the sender. -/
theorem Channel.drop_eq_sent {ρ : Type} {c : Channel ρ} {r : ρ} (h : c.drop = .sent r) : c = .sent r := by
  cases c with
  | empty => cases h
  | sent r₀ => exact h
  | closed => cases h

/-- Where a call is: before its request is written, waiting for the answer, or back. -/
inductive CallPhase (ρ : Type) where
  | sending
  | waiting
  | returned (r : ρ)

def CallPhase.isReturned {ρ : Type} : CallPhase ρ → Bool
  | .returned _ => true
  | _ => false

/-- A call under way: its key, what it asked for, its end of the channel, and its phase. -/
structure Call (κ ι ρ : Type) where
  key : κ
  request : ι
  channel : Channel ρ
  phase : CallPhase ρ

/-- The calls in order, and where their senders are: each call is known by its number. -/
structure InFlight (κ ι ρ : Type) where
  calls : List (Call κ ι ρ)
  pending : List (κ × Nat)
  /-- Taken out, to be put back. -/
  parked : Option (κ × Nat)

namespace InFlight

theorem modify_last {α : Type} (l : List α) (a : α) (f : α → α) : (l ++ [a]).modify l.length f = l ++ [f a] := by
  induction l with
  | nil => rfl
  | cons x l ih => simp [ih]

variable {κ ι ρ : Type}

/-- No calls. -/
def empty : InFlight κ ι ρ := ⟨[], [], none⟩

section

variable (t : InFlight κ ι ρ)

/-- A call is changed. -/
def update (n : Nat) (f : Call κ ι ρ → Call κ ι ρ) : InFlight κ ι ρ := { t with calls := t.calls.modify n f }

/-- The answer is sent to a call. -/
def send (n : Nat) (r : ρ) : InFlight κ ι ρ := t.update n (fun c => { c with channel := c.channel.send r })

/-- The sender of a call is dropped. -/
def drop (n : Nat) : InFlight κ ι ρ := t.update n (fun c => { c with channel := c.channel.drop })

/-- The call goes on to wait for its channel. -/
def await (n : Nat) : InFlight κ ι ρ := t.update n (fun c => { c with phase := .waiting })

/-- A call returns. -/
def finish (n : Nat) (r : ρ) : InFlight κ ι ρ := t.update n (fun c => { c with phase := .returned r })

/-- A waiting call takes what its channel brings; `cancelled` if the sender is gone. -/
def receive (n : Nat) (cancelled : ρ) : InFlight κ ι ρ :=
  match t.calls[n]? with
  | some ⟨_, _, .sent r, .waiting⟩ => t.finish n r
  | some ⟨_, _, .closed, .waiting⟩ => t.finish n cancelled
  | _ => t

/-- A call that fails before it enters the table. -/
def refuse (key : κ) (request : ι) (r : ρ) : InFlight κ ι ρ :=
  { t with calls := t.calls ++ [⟨key, request, .empty, .returned r⟩] }

/-- Every stored sender is used for `r`. -/
def drain (r : ρ) : InFlight κ ι ρ := { t.pending.foldl (fun t e => t.send e.2 r) t with pending := [] }

variable [DecidableEq κ]

/-- The call that a key belongs to. -/
def lookup (key : κ) : Option Nat := (t.pending.find? (fun e => e.1 = key)).map Prod.snd

/-- The key is taken out of the table. -/
def remove (key : κ) : InFlight κ ι ρ := { t with pending := t.pending.filter (fun e => e.1 ≠ key) }

/-- `HashMap::insert`. -/
def put (key : κ) (n : Nat) : InFlight κ ι ρ := { t with pending := (key, n) :: (t.remove key).pending }

/-- A call enters the table; what becomes of the sender of an entry of this key is `evict`. -/
def enter (key : κ) (request : ι) (evict : Channel ρ → Channel ρ) : InFlight κ ι ρ :=
  let evicted := match t.lookup key with
    | some m => t.update m (fun c => { c with channel := evict c.channel })
    | none => t
  { evicted.put key t.calls.length with calls := evicted.calls ++ [⟨key, request, .empty, .sending⟩] }

/-- The sender is taken out and used. -/
def answer (key : κ) (n : Nat) (r : ρ) : InFlight κ ι ρ := (t.remove key).send n r

/-- The sender is taken out and kept. -/
def park (key : κ) (n : Nat) : InFlight κ ι ρ := { t.remove key with parked := some (key, n) }

/-- A parked sender is put back; an entry of its key is dropped. -/
def unpark : InFlight κ ι ρ :=
  match t.parked with
  | none => t
  | some (key, n) =>
      let dropped := match t.lookup key with
        | some m => t.drop m
        | none => t
      { dropped.put key n with parked := none }

/-- A parked sender is used. -/
def failParked (r : ρ) : InFlight κ ι ρ :=
  match t.parked with
  | none => t
  | some (_, n) => { t.send n r with parked := none }

end

/-! ## What is kept -/

/-- A call of this key whose channel is empty. -/
def Open (t : InFlight κ ι ρ) (key : κ) (n : Nat) : Prop :=
  ∃ c, t.calls[n]? = some c ∧ c.key = key ∧ c.channel = .empty

/-- The key is not in the table. -/
def Gone (t : InFlight κ ι ρ) (key : κ) : Prop := ∀ m, (key, m) ∉ t.pending

/-- Keys are not used twice, and stored senders belong to calls that have no answer. -/
structure Sound (t : InFlight κ ι ρ) : Prop where
  keys : (t.calls.map (·.key)).Nodup
  pending : ∀ key n, (key, n) ∈ t.pending → t.Open key n
  parked : ∀ key n, t.parked = some (key, n) → t.Open key n ∧ t.Gone key

/-- The key of a call that has returned is not in the table. -/
def NoLeak (t : InFlight κ ι ρ) : Prop :=
  ∀ (n : Nat) (c : Call κ ι ρ), t.calls[n]? = some c → c.phase.isReturned = true → t.Gone c.key

/-- Between `t` and `t'` only the call `n` was resolved or lost its entry. -/
def Apart (n : Nat) (t t' : InFlight κ ι ρ) : Prop :=
  ∀ m, m ≠ n → t'.calls[m]? = t.calls[m]? ∧ ∀ key, (key, m) ∈ t.pending → (key, m) ∈ t'.pending

theorem sound_empty : (empty : InFlight κ ι ρ).Sound := ⟨List.nodup_nil, nofun, nofun⟩

theorem noLeak_empty : (empty : InFlight κ ι ρ).NoLeak := by
  intro n c hc
  cases hc

/-! ## One call changed -/

variable {t t' : InFlight κ ι ρ} {f : Call κ ι ρ → Call κ ι ρ} {evict : Channel ρ → Channel ρ} {key : κ} {n m : Nat}
  {r : ρ}

@[simp] theorem update_pending : (t.update n f).pending = t.pending := rfl
@[simp] theorem update_parked : (t.update n f).parked = t.parked := rfl

theorem update_calls (m : Nat) :
    (t.update n f).calls[m]? = if n = m then t.calls[m]?.map f else t.calls[m]? := by
  rw [update, List.getElem?_modify]
  split
  · rfl
  · exact Option.map_id'

theorem update_calls_of_ne (h : m ≠ n) : (t.update n f).calls[m]? = t.calls[m]? := by
  rw [update_calls, if_neg (Ne.symm h)]

/-- A changed call is the old one, or `f` of it. -/
theorem update_calls_eq_some {c' : Call κ ι ρ} (h : (t.update n f).calls[m]? = some c') :
    ∃ c, t.calls[m]? = some c ∧ (c' = c ∨ n = m ∧ c' = f c) := by
  rw [update_calls] at h
  split at h
  · rename_i hnm
    obtain ⟨c, hc, rfl⟩ := Option.map_eq_some_iff.mp h
    exact ⟨c, hc, Or.inr ⟨hnm, rfl⟩⟩
  · exact ⟨c', h, Or.inl rfl⟩

theorem update_keys (hkey : ∀ c, (f c).key = c.key) : (t.update n f).calls.map (·.key) = t.calls.map (·.key) := by
  apply List.ext_getElem?
  intro m
  rw [List.getElem?_map, List.getElem?_map, update_calls]
  split
  · rw [Option.map_map]
    congr 1
    funext c
    exact hkey c
  · rfl

/-- An open call does not notice what happens to another. -/
theorem Open.update_of_ne (h : t.Open key m) (hne : m ≠ n) : (t.update n f).Open key m := by
  obtain ⟨c, hc, hopen⟩ := h
  exact ⟨c, by rw [update_calls_of_ne hne, hc], hopen⟩

/-- An open call stays open when its key and its channel stay. -/
theorem Open.update (h : t.Open key m) (hkey : ∀ c, (f c).key = c.key)
    (hchannel : ∀ c, (f c).channel = c.channel) : (t.update n f).Open key m := by
  obtain ⟨c, hc, hck, hcc⟩ := h
  rw [Open, update_calls]
  split
  · exact ⟨f c, by rw [hc]; rfl, by rw [hkey, hck], by rw [hchannel, hcc]⟩
  · exact ⟨c, hc, hck, hcc⟩

/-- A call has one key. -/
theorem Open.key_eq {key' : κ} (h : t.Open key n) (h' : t.Open key' n) : key = key' := by
  obtain ⟨c, hc, rfl, -⟩ := h
  obtain ⟨c', hc', rfl, -⟩ := h'
  rw [hc] at hc'
  cases hc'
  rfl

/-- A key has one call. -/
theorem Sound.number_eq (hs : t.Sound) {c c' : Call κ ι ρ} (hc : t.calls[n]? = some c) (hc' : t.calls[m]? = some c')
    (hkey : c.key = c'.key) : n = m := by
  have hn : (t.calls.map (·.key))[n]? = some c.key := by rw [List.getElem?_map, hc]; rfl
  have hm : (t.calls.map (·.key))[m]? = some c.key := by rw [List.getElem?_map, hc', Option.map_some, hkey]
  exact (List.getElem?_inj (List.getElem?_eq_some_iff.mp hn).1 hs.keys).mp (hn.trans hm.symm)

/-! ## Soundness -/

/-- A change that leaves keys and channels alone. -/
theorem Sound.update (hs : t.Sound) (hkey : ∀ c, (f c).key = c.key) (hchannel : ∀ c, (f c).channel = c.channel) :
    (t.update n f).Sound where
  keys := by
    rw [update_keys hkey]
    exact hs.keys
  pending key m hm := (hs.pending key m hm).update hkey hchannel
  parked key m hm := by
    obtain ⟨hopen, hout⟩ := hs.parked key m hm
    exact ⟨hopen.update hkey hchannel, hout⟩

theorem Sound.await (hs : t.Sound) : (t.await n).Sound := hs.update (fun _ => rfl) (fun _ => rfl)

theorem Sound.finish (hs : t.Sound) : (t.finish n r).Sound := hs.update (fun _ => rfl) (fun _ => rfl)

/-- A channel is written whose sender is neither stored nor parked. -/
theorem Sound.send (hs : t.Sound) (hstored : ∀ key, (key, n) ∉ t.pending) (hparked : ∀ key, t.parked ≠ some (key, n)) :
    (t.send n r).Sound where
  keys := by
    have hkeys : (t.send n r).calls.map (·.key) = t.calls.map (·.key) := update_keys (fun _ => rfl)
    rw [hkeys]
    exact hs.keys
  pending key m hm := by
    refine (hs.pending key m hm).update_of_ne ?_
    rintro rfl
    exact hstored key hm
  parked key m hm := by
    obtain ⟨hopen, hout⟩ := hs.parked key m hm
    refine ⟨hopen.update_of_ne ?_, hout⟩
    rintro rfl
    exact hparked key hm

/-- A sender is in one place. -/
theorem Sound.not_parked (hs : t.Sound) {key' : κ} (h : (key, n) ∈ t.pending) : t.parked ≠ some (key', n) := by
  intro hparked
  obtain ⟨hopen, hout⟩ := hs.parked key' n hparked
  obtain rfl := (hs.pending key n h).key_eq hopen
  exact hout n h

/-- A call whose channel is written is neither stored nor parked. -/
theorem Sound.not_pending (hs : t.Sound) {c : Call κ ι ρ} (hc : t.calls[n]? = some c) (hchannel : c.channel ≠ .empty) :
    t.Gone c.key := by
  intro m hm
  obtain ⟨c', hc', hkey, hempty⟩ := hs.pending c.key m hm
  obtain rfl := hs.number_eq hc hc' hkey.symm
  rw [hc] at hc'
  cases hc'
  exact hchannel hempty

theorem Sound.failParked (hs : t.Sound) : (t.failParked r).Sound := by
  rw [InFlight.failParked]
  cases h : t.parked with
  | none => exact hs
  | some e =>
      obtain ⟨key, n⟩ := e
      have hfree : ({ t with parked := none } : InFlight κ ι ρ).Sound := ⟨hs.keys, hs.pending, nofun⟩
      obtain ⟨hopen, hout⟩ := hs.parked key n h
      refine hfree.send (n := n) (r := r) ?_ nofun
      intro k hk
      obtain rfl := hopen.key_eq (hs.pending k n hk)
      exact hout n hk

/-- A loop of sends writes the channels of its senders and no other. -/
theorem foldl_send_calls (l : List (κ × Nat)) (t : InFlight κ ι ρ) (m : Nat) (h : ∀ e ∈ l, e.2 ≠ m) :
    (l.foldl (fun t e => t.send e.2 r) t).calls[m]? = t.calls[m]? := by
  induction l generalizing t with
  | nil => rfl
  | cons e l ih =>
      rw [List.foldl_cons, ih _ (fun e' he' => h e' (List.mem_cons_of_mem _ he'))]
      exact update_calls_of_ne (Ne.symm (h e List.mem_cons_self))

/-- Failing a row of calls changes their channels and nothing else. -/
theorem foldl_send_same (l : List (κ × Nat)) (t : InFlight κ ι ρ) :
    (l.foldl (fun t e => t.send e.2 r) t).calls.map (·.key) = t.calls.map (·.key) ∧
      (l.foldl (fun t e => t.send e.2 r) t).parked = t.parked ∧
      ∀ (m : Nat) (c' : Call κ ι ρ), (l.foldl (fun t e => t.send e.2 r) t).calls[m]? = some c' →
        ∃ c : Call κ ι ρ, t.calls[m]? = some c ∧ c'.key = c.key ∧ c'.request = c.request ∧ c'.phase = c.phase := by
  induction l generalizing t with
  | nil => exact ⟨rfl, rfl, fun m c' hc' => ⟨c', hc', rfl, rfl, rfl⟩⟩
  | cons e l ih =>
      obtain ⟨hkeys, hparked, hcalls⟩ := ih (t.send e.2 r)
      refine ⟨hkeys.trans (update_keys (fun _ => rfl)), hparked, fun m c' hc' => ?_⟩
      obtain ⟨c₁, hc₁, hkey, hrequest, hphase⟩ := hcalls m c' hc'
      obtain ⟨c, hc, rfl | ⟨-, rfl⟩⟩ := update_calls_eq_some hc₁
      · exact ⟨c₁, hc, hkey, hrequest, hphase⟩
      · exact ⟨c, hc, hkey, hrequest, hphase⟩

theorem Sound.drain (hs : t.Sound) : (t.drain r).Sound where
  keys := by
    change ((t.pending.foldl (fun t e => t.send e.2 r) t).calls.map (·.key)).Nodup
    rw [(foldl_send_same t.pending t).1]
    exact hs.keys
  pending := nofun
  parked key n hn := by
    change (t.pending.foldl (fun t e => t.send e.2 r) t).parked = some (key, n) at hn
    rw [(foldl_send_same t.pending t).2.1] at hn
    obtain ⟨⟨c, hc, hopen⟩, -⟩ := hs.parked key n hn
    refine ⟨⟨c, ?_, hopen⟩, nofun⟩
    change (t.pending.foldl (fun t e => t.send e.2 r) t).calls[n]? = some c
    rw [foldl_send_calls, hc]
    rintro ⟨k, m⟩ hm rfl
    exact hs.not_parked hm hn

/-- The calls of a table that got one more. -/
theorem append_calls_eq_some {l : List (Call κ ι ρ)} {new c : Call κ ι ρ} (h : (l ++ [new])[m]? = some c) :
    l[m]? = some c ∨ (m = l.length ∧ c = new) := by
  rcases Nat.lt_or_ge m l.length with hm | hm
  · rw [List.getElem?_append_left hm] at h
    exact Or.inl h
  · have hlen := (List.getElem?_eq_some_iff.mp h).1
    rw [List.length_append, List.length_singleton] at hlen
    obtain rfl : m = l.length := by omega
    rw [List.getElem?_concat_length] at h
    cases h
    exact Or.inr ⟨rfl, rfl⟩

/-- No call has this key. -/
def Fresh (t : InFlight κ ι ρ) (key : κ) : Prop := key ∉ t.calls.map (·.key)

theorem Sound.fresh_gone (hs : t.Sound) (h : t.Fresh key) : t.Gone key := by
  intro m hm
  obtain ⟨c, hc, rfl, -⟩ := hs.pending key m hm
  exact h (List.mem_map.mpr ⟨c, List.mem_of_getElem? hc, rfl⟩)

theorem Open.append (h : t.Open key n) (new : Call κ ι ρ) :
    ({ t with calls := t.calls ++ [new] } : InFlight κ ι ρ).Open key n := by
  obtain ⟨c, hc, hopen⟩ := h
  refine ⟨c, ?_, hopen⟩
  rw [List.getElem?_append_left (List.getElem?_eq_some_iff.mp hc).1, hc]

theorem nodup_append_fresh {new : Call κ ι ρ} (hs : t.Sound) (h : t.Fresh new.key) :
    ((t.calls ++ [new]).map (·.key)).Nodup := by
  rw [List.map_append, List.map_singleton]
  exact hs.keys.append (List.nodup_singleton _) (List.disjoint_singleton.mpr h)

theorem Sound.refuse (hs : t.Sound) (h : t.Fresh key) (request : ι) : (t.refuse key request r).Sound where
  keys := nodup_append_fresh hs h
  pending k m hm := (hs.pending k m hm).append _
  parked k m hm := by
    obtain ⟨hopen, hout⟩ := hs.parked k m hm
    exact ⟨hopen.append _, hout⟩

section

variable [DecidableEq κ]

theorem mem_remove {e : κ × Nat} : e ∈ (t.remove key).pending ↔ e ∈ t.pending ∧ e.1 ≠ key := by
  rw [remove, List.mem_filter, decide_eq_true_eq]

theorem lookup_eq_some (h : t.lookup key = some n) : (key, n) ∈ t.pending := by
  obtain ⟨⟨k, m⟩, hfind, rfl⟩ := Option.map_eq_some_iff.mp h
  have hkey := List.find?_some hfind
  rw [decide_eq_true_eq] at hkey
  rw [← hkey]
  exact List.mem_of_find?_eq_some hfind

theorem lookup_eq_none_iff : t.lookup key = none ↔ t.Gone key := by
  rw [lookup, Option.map_eq_none_iff, List.find?_eq_none]
  constructor
  · intro h m hm
    exact h _ hm (decide_eq_true rfl)
  · rintro h ⟨k, m⟩ hm hk
    obtain rfl : k = key := of_decide_eq_true hk
    exact h m hm

theorem Sound.remove (hs : t.Sound) : (t.remove key).Sound where
  keys := hs.keys
  pending k m hm := hs.pending k m (mem_remove.mp hm).1
  parked k m hm := by
    obtain ⟨hopen, hout⟩ := hs.parked k m hm
    exact ⟨hopen, fun m' hm' => hout m' (mem_remove.mp hm').1⟩

/-- Taking a sender out and using it keeps the table sound: no second sender of the call is left. -/
theorem Sound.answer (hs : t.Sound) (h : (key, n) ∈ t.pending) : (t.answer key n r).Sound := by
  refine hs.remove.send ?_ ?_
  · intro k hk
    obtain ⟨hmem, hne⟩ := mem_remove.mp hk
    exact hne ((hs.pending k n hmem).key_eq (hs.pending key n h))
  · intro k
    exact hs.not_parked h

theorem Sound.park (hs : t.Sound) (h : (key, n) ∈ t.pending) : (t.park key n).Sound where
  keys := hs.keys
  pending k m hm := hs.pending k m (mem_remove.mp hm).1
  parked k m hm := by
    cases hm
    exact ⟨hs.pending key n h, fun m hm => (mem_remove.mp hm).2 rfl⟩

theorem unpark_eq (hs : t.Sound) (h : t.parked = some (key, n)) :
    t.unpark = { t.put key n with parked := none } := by
  have hnone : t.lookup key = none := lookup_eq_none_iff.mpr (hs.parked key n h).2
  simp only [unpark, h, hnone]

theorem mem_put {e : κ × Nat} : e ∈ (t.put key n).pending ↔ e = (key, n) ∨ (e ∈ t.pending ∧ e.1 ≠ key) := by
  rw [put, List.mem_cons, mem_remove]

theorem Sound.unpark (hs : t.Sound) (h : t.parked = some (key, n)) : t.unpark.Sound := by
  rw [unpark_eq hs h]
  refine ⟨hs.keys, ?_, nofun⟩
  intro k m hm
  rcases mem_put.mp hm with heq | ⟨hmem, -⟩
  · cases heq
    exact (hs.parked key n h).1
  · exact hs.pending k m hmem

theorem enter_eq (hs : t.Sound) (h : t.Fresh key) (request : ι) :
    t.enter key request evict =
      { t.put key t.calls.length with calls := t.calls ++ [⟨key, request, .empty, .sending⟩] } := by
  have hnone : t.lookup key = none := lookup_eq_none_iff.mpr (hs.fresh_gone h)
  simp only [enter, hnone]

/-- A new call is under its key, its channel empty. -/
theorem Sound.enter (hs : t.Sound) (h : t.Fresh key) (request : ι) : (t.enter key request evict).Sound := by
  rw [enter_eq hs h]
  refine ⟨nodup_append_fresh hs h, ?_, ?_⟩
  · intro k m hm
    rcases mem_put.mp hm with heq | ⟨hmem, -⟩
    · cases heq
      exact ⟨_, List.getElem?_concat_length, rfl, rfl⟩
    · exact (hs.pending k m hmem).append _
  · intro k m hm
    obtain ⟨hopen, hout⟩ := hs.parked k m hm
    refine ⟨hopen.append _, fun m' hm' => ?_⟩
    rcases mem_put.mp hm' with heq | ⟨hmem, -⟩
    · cases heq
      obtain ⟨c, hc, hkey, -⟩ := hopen
      exact h (List.mem_map.mpr ⟨c, List.mem_of_getElem? hc, hkey⟩)
    · exact hout m' hmem

end

/-- A call takes a reply, or is told that there is none, or goes on. -/
theorem receive_cases (t : InFlight κ ι ρ) (n : Nat) (r : ρ) :
    (t.receive n r = t ∧ ∀ c : Call κ ι ρ, t.calls[n]? = some c → c.phase = .waiting → c.channel = .empty) ∨
    ∃ c : Call κ ι ρ, t.calls[n]? = some c ∧ c.phase = .waiting ∧
      ((∃ r', c.channel = .sent r' ∧ t.receive n r = t.finish n r') ∨
        (c.channel = .closed ∧ t.receive n r = t.finish n r)) := by
  unfold receive
  cases hc : t.calls[n]? with
  | none =>
      refine Or.inl ⟨rfl, fun c hc _ => ?_⟩
      cases hc
  | some c =>
      obtain ⟨key, request, channel, phase⟩ := c
      cases phase with
      | waiting =>
          cases channel with
          | empty =>
              refine Or.inl ⟨rfl, fun c hc _ => ?_⟩
              cases hc
              rfl
          | sent r' => exact Or.inr ⟨_, rfl, rfl, Or.inl ⟨r', rfl, rfl⟩⟩
          | closed => exact Or.inr ⟨_, rfl, rfl, Or.inr ⟨rfl, rfl⟩⟩
      | sending =>
          refine Or.inl ⟨by cases channel <;> rfl, fun c hc hphase => ?_⟩
          cases hc
          cases hphase
      | returned r' =>
          refine Or.inl ⟨by cases channel <;> rfl, fun c hc hphase => ?_⟩
          cases hc
          cases hphase

theorem receive_rest : (t.receive n r).pending = t.pending ∧ (t.receive n r).parked = t.parked := by
  rcases receive_cases t n r with ⟨heq, -⟩ | ⟨c, -, -, ⟨r', -, heq⟩ | ⟨-, heq⟩⟩
  · rw [heq]
    exact ⟨rfl, rfl⟩
  · rw [heq]
    exact ⟨rfl, rfl⟩
  · rw [heq]
    exact ⟨rfl, rfl⟩

theorem Sound.receive (hs : t.Sound) : (t.receive n r).Sound := by
  rcases receive_cases t n r with ⟨heq, -⟩ | ⟨c, -, -, ⟨r', -, heq⟩ | ⟨-, heq⟩⟩
  · rwa [heq]
  · rw [heq]
    exact hs.finish
  · rw [heq]
    exact hs.finish

/-! ## Leaks -/

/-- Less is stored, and what has returned had returned. -/
theorem NoLeak.mono (h : t.NoLeak) (hpending : ∀ e ∈ t'.pending, e ∈ t.pending)
    (hcalls : ∀ (m : Nat) (c' : Call κ ι ρ), t'.calls[m]? = some c' → c'.phase.isReturned = true →
      ∃ (k : Nat) (c : Call κ ι ρ), t.calls[k]? = some c ∧ c.key = c'.key ∧ c.phase.isReturned = true) : t'.NoLeak := by
  intro m c' hc' hreturned k hk
  obtain ⟨i, c, hc, hkey, hphase⟩ := hcalls m c' hc' hreturned
  refine h i c hc hphase k ?_
  rw [hkey]
  exact hpending _ hk

theorem NoLeak.update (h : t.NoLeak) (hkey : ∀ c, (f c).key = c.key)
    (hphase : ∀ c, (f c).phase.isReturned = true → c.phase.isReturned = true) : (t.update n f).NoLeak := by
  refine h.mono (fun _ he => he) (fun m c' hc' hreturned => ?_)
  obtain ⟨c, hc, rfl | ⟨-, rfl⟩⟩ := update_calls_eq_some hc'
  · exact ⟨m, c', hc, rfl, hreturned⟩
  · exact ⟨m, c, hc, (hkey c).symm, hphase c hreturned⟩

theorem NoLeak.send (h : t.NoLeak) : (t.send n r).NoLeak := h.update (fun _ => rfl) (fun _ => id)

theorem NoLeak.await (h : t.NoLeak) : (t.await n).NoLeak := h.update (fun _ => rfl) (fun _ hc => by cases hc)

theorem NoLeak.refuse (h : t.NoLeak) (hs : t.Sound) (hfresh : t.Fresh key) (request : ι) :
    (t.refuse key request r).NoLeak := by
  intro m c hc hreturned k hk
  rcases append_calls_eq_some hc with hold | ⟨-, rfl⟩
  · exact h m c hold hreturned k hk
  · exact hs.fresh_gone hfresh k hk

/-- A call that returns must not be in the table. -/
theorem noLeak_finish_iff (h : t.NoLeak) {c : Call κ ι ρ} (hc : t.calls[n]? = some c) :
    (t.finish n r).NoLeak ↔ t.Gone c.key := by
  constructor
  · intro hfinish m hm
    refine hfinish n { c with phase := .returned r } ?_ rfl m hm
    rw [finish, update_calls, if_pos rfl, hc]
    rfl
  · intro hout m c' hc' hreturned k hk
    obtain ⟨c₀, hc₀, rfl | ⟨rfl, rfl⟩⟩ := update_calls_eq_some hc'
    · exact h m c' hc₀ hreturned k hk
    · rw [hc] at hc₀
      cases hc₀
      exact hout k hk

/-- An answered call is not in the table. -/
theorem NoLeak.receive (h : t.NoLeak) (hs : t.Sound) : (t.receive n r).NoLeak := by
  rcases receive_cases t n r with ⟨heq, -⟩ | ⟨c, hc, -, ⟨r', hsent, heq⟩ | ⟨hclosed, heq⟩⟩
  · rwa [heq]
  · rw [heq]
    refine (noLeak_finish_iff h hc).mpr (hs.not_pending hc ?_)
    rw [hsent]
    exact nofun
  · rw [heq]
    refine (noLeak_finish_iff h hc).mpr (hs.not_pending hc ?_)
    rw [hclosed]
    exact nofun

theorem NoLeak.failParked (h : t.NoLeak) : (t.failParked r).NoLeak := by
  rw [InFlight.failParked]
  cases t.parked with
  | none => exact h
  | some e => exact h.send

section

variable [DecidableEq κ]

theorem NoLeak.remove (h : t.NoLeak) : (t.remove key).NoLeak :=
  h.mono (fun _ he => (mem_remove.mp he).1) (fun m c hc hreturned => ⟨m, c, hc, rfl, hreturned⟩)

theorem NoLeak.answer (h : t.NoLeak) : (t.answer key n r).NoLeak := h.remove.send

theorem NoLeak.park (h : t.NoLeak) : (t.park key n).NoLeak := h.remove

theorem NoLeak.enter (h : t.NoLeak) (hs : t.Sound) (hfresh : t.Fresh key) (request : ι) :
    (t.enter key request evict).NoLeak := by
  rw [enter_eq hs hfresh]
  intro m c hc hreturned k hk
  rcases append_calls_eq_some hc with hold | ⟨-, rfl⟩
  · rcases mem_put.mp hk with heq | ⟨hmem, -⟩
    · cases heq
      exact hfresh (List.mem_map.mpr ⟨c, List.mem_of_getElem? hold, rfl⟩)
    · exact h m c hold hreturned k hmem
  · cases hreturned

/-- A sender must not be put back for a call that has returned. -/
theorem noLeak_unpark_iff (h : t.NoLeak) (hs : t.Sound) (hparked : t.parked = some (key, n)) {c : Call κ ι ρ}
    (hc : t.calls[n]? = some c) : t.unpark.NoLeak ↔ c.phase.isReturned = false := by
  obtain ⟨c', hc', rfl, -⟩ := (hs.parked key n hparked).1
  rw [hc] at hc'
  cases hc'
  rw [unpark_eq hs hparked]
  constructor
  · intro hunpark
    by_contra hreturned
    exact hunpark n c hc (Bool.not_eq_false _ ▸ hreturned) n (mem_put.mpr (Or.inl rfl))
  · intro hrunning m c' hc' hreturned k hk
    rcases mem_put.mp hk with heq | ⟨hmem, -⟩
    · change t.calls[m]? = some c' at hc'
      obtain rfl := hs.number_eq hc' hc (Prod.mk.inj heq).1
      rw [hc] at hc'
      cases hc'
      rw [hrunning] at hreturned
      cases hreturned
    · exact h m c' hc' hreturned k hmem

end

/-! ## Keys -/

theorem await_keys : (t.await n).calls.map (·.key) = t.calls.map (·.key) := update_keys (fun _ => rfl)

theorem finish_keys : (t.finish n r).calls.map (·.key) = t.calls.map (·.key) := update_keys (fun _ => rfl)

theorem receive_keys : (t.receive n r).calls.map (·.key) = t.calls.map (·.key) := by
  rcases receive_cases t n r with ⟨heq, -⟩ | ⟨c, -, -, ⟨r', -, heq⟩ | ⟨-, heq⟩⟩
  · rw [heq]
  · rw [heq]
    exact finish_keys
  · rw [heq]
    exact finish_keys

theorem send_keys : (t.send n r).calls.map (·.key) = t.calls.map (·.key) := update_keys (fun _ => rfl)

theorem drop_keys : (t.drop n).calls.map (·.key) = t.calls.map (·.key) := update_keys (fun _ => rfl)

theorem drain_keys : (t.drain r).calls.map (·.key) = t.calls.map (·.key) := (foldl_send_same t.pending t).1

theorem refuse_keys (request : ι) :
    (t.refuse key request r).calls.map (·.key) = t.calls.map (·.key) ++ [key] := List.map_append

theorem failParked_keys : (t.failParked r).calls.map (·.key) = t.calls.map (·.key) := by
  rw [failParked]
  cases t.parked with
  | none => rfl
  | some e => exact send_keys

section

variable [DecidableEq κ]

theorem enter_keys (request : ι) :
    (t.enter key request evict).calls.map (·.key) = t.calls.map (·.key) ++ [key] := by
  have happend : ∀ t : InFlight κ ι ρ,
      (t.calls ++ [(⟨key, request, .empty, .sending⟩ : Call κ ι ρ)]).map (·.key) = t.calls.map (·.key) ++ [key] :=
    fun _ => List.map_append
  rw [enter]
  cases t.lookup key with
  | none => exact happend t
  | some m =>
      have hkeys : (t.update m (fun c => { c with channel := evict c.channel })).calls.map (·.key) =
          t.calls.map (·.key) := update_keys (fun _ => rfl)
      exact (happend _).trans (by rw [hkeys])

theorem unpark_keys : t.unpark.calls.map (·.key) = t.calls.map (·.key) := by
  rw [unpark]
  cases t.parked with
  | none => rfl
  | some e =>
      simp only
      cases t.lookup e.1 with
      | none => rfl
      | some m => exact drop_keys

end

/-! ## Exits and the other calls -/

theorem apart_finish : Apart n t (t.finish n r) :=
  fun _ hm => ⟨update_calls_of_ne hm, fun _ hk => hk⟩

/-- Emptying the table is apart only if there is nobody else in it. -/
theorem apart_drain_iff {r' : ρ} : Apart n t ((t.drain r').finish n r) ↔ ∀ e ∈ t.pending, e.2 = n := by
  constructor
  · rintro h ⟨key, m⟩ he
    by_contra hne
    cases (h m hne).2 key he
  · intro h m hm
    refine ⟨?_, fun key hk => absurd (h _ hk) hm⟩
    rw [finish, update_calls_of_ne hm]
    change (t.pending.foldl (fun t e => t.send e.2 r') t).calls[m]? = _
    rw [foldl_send_calls]
    rintro e he rfl
    exact hm (h e he)

/-- A call that takes its own entry along does not leak. -/
theorem NoLeak.remove_finish [DecidableEq κ] (h : t.NoLeak) {c : Call κ ι ρ} (hc : t.calls[n]? = some c) :
    ((t.remove c.key).finish n r).NoLeak := by
  have hgone : (t.remove c.key).Gone c.key := fun m hm => (mem_remove.mp hm).2 rfl
  exact (noLeak_finish_iff (t := t.remove c.key) h.remove hc).mpr hgone

theorem apart_remove_finish [DecidableEq κ] {c : Call κ ι ρ} (hs : t.Sound) (hc : t.calls[n]? = some c) :
    Apart n t ((t.remove c.key).finish n r) := by
  intro m hm
  refine ⟨update_calls_of_ne hm, fun key hk => mem_remove.mpr ⟨hk, ?_⟩⟩
  rintro rfl
  obtain ⟨c', hc', hkey, -⟩ := hs.pending _ m hk
  exact hm (hs.number_eq hc' hc hkey)

/-! ## What channels bring and calls return -/

section

variable {Q : ι → ρ → Prop}

/-- What was sent satisfies `Q`. -/
def Brings (Q : ι → ρ → Prop) (t : InFlight κ ι ρ) : Prop :=
  ∀ (n : Nat) (c : Call κ ι ρ) (r : ρ), t.calls[n]? = some c → c.channel = .sent r → Q c.request r

/-- What was returned satisfies `Q`. -/
def Returns (Q : ι → ρ → Prop) (t : InFlight κ ι ρ) : Prop :=
  ∀ (n : Nat) (c : Call κ ι ρ) (r : ρ), t.calls[n]? = some c → c.phase = .returned r → Q c.request r

theorem brings_empty : Brings Q (empty : InFlight κ ι ρ) := by
  intro n c r hc
  cases hc

theorem returns_empty : Returns Q (empty : InFlight κ ι ρ) := by
  intro n c r hc
  cases hc

/-- What a channel brings stays good when nothing new is sent. -/
theorem Brings.update (h : t.Brings Q) (hrequest : ∀ c, (f c).request = c.request)
    (hchannel : ∀ c r, (f c).channel = .sent r → c.channel = .sent r) : (t.update n f).Brings Q := by
  intro m c' r hc' hr
  obtain ⟨c, hc, rfl | ⟨-, rfl⟩⟩ := update_calls_eq_some hc'
  · exact h m c' r hc hr
  · rw [hrequest]
    exact h m c r hc (hchannel c r hr)

theorem Brings.await (h : t.Brings Q) : (t.await n).Brings Q := h.update (fun _ => rfl) (fun _ _ => id)

theorem Brings.finish (h : t.Brings Q) : (t.finish n r).Brings Q := h.update (fun _ => rfl) (fun _ _ => id)

theorem Brings.receive (h : t.Brings Q) : (t.receive n r).Brings Q := by
  rcases receive_cases t n r with ⟨heq, -⟩ | ⟨c, -, -, ⟨r', -, heq⟩ | ⟨-, heq⟩⟩
  · rwa [heq]
  · rw [heq]
    exact h.finish
  · rw [heq]
    exact h.finish

theorem Brings.send (h : t.Brings Q) (hr : ∀ c : Call κ ι ρ, t.calls[n]? = some c → Q c.request r) :
    (t.send n r).Brings Q := by
  intro m c' r' hc' hr'
  obtain ⟨c, hc, rfl | ⟨rfl, rfl⟩⟩ := update_calls_eq_some hc'
  · exact h m c' r' hc hr'
  · rcases Channel.send_eq_sent hr' with hold | rfl
    · exact h n c r' hc hold
    · exact hr c hc

theorem Brings.drop (h : t.Brings Q) : (t.drop n).Brings Q :=
  h.update (fun _ => rfl) (fun _ _ => Channel.drop_eq_sent)

/-- One answer for all must be good for every request. -/
theorem Brings.drain (h : t.Brings Q) (hr : ∀ i, Q i r) : (t.drain r).Brings Q := by
  have hfold : ∀ l : List (κ × Nat), ∀ t : InFlight κ ι ρ, t.Brings Q →
      (l.foldl (fun t e => t.send e.2 r) t).Brings Q := by
    intro l
    induction l with
    | nil => exact fun _ ht => ht
    | cons e l ih => exact fun t ht => ih _ (ht.send (fun c _ => hr c.request))
  exact hfold t.pending t h

theorem Brings.append (h : t.Brings Q) (new : Call κ ι ρ) (hnew : new.channel = .empty) :
    ({ t with calls := t.calls ++ [new] } : InFlight κ ι ρ).Brings Q := by
  intro m c r' hc hr'
  rcases append_calls_eq_some hc with hold | ⟨-, rfl⟩
  · exact h m c r' hold hr'
  · rw [hnew] at hr'
    cases hr'

theorem Brings.failParked (h : t.Brings Q) (hr : ∀ i, Q i r) : (t.failParked r).Brings Q := by
  rw [InFlight.failParked]
  cases t.parked with
  | none => exact h
  | some e => exact h.send (fun c _ => hr c.request)

/-- A table with the same phases. -/
theorem Returns.mono (h : t.Returns Q) (hcalls : ∀ (m : Nat) (c' : Call κ ι ρ) (r : ρ), t'.calls[m]? = some c' →
    c'.phase = .returned r → ∃ c : Call κ ι ρ, t.calls[m]? = some c ∧ c'.request = c.request ∧
      c.phase = .returned r) : t'.Returns Q := by
  intro m c' r hc' hr
  obtain ⟨c, hc, hrequest, hphase⟩ := hcalls m c' r hc' hr
  rw [hrequest]
  exact h m c r hc hphase

/-- What calls returned stays good when none returns. -/
theorem Returns.update (h : t.Returns Q) (hrequest : ∀ c, (f c).request = c.request)
    (hphase : ∀ c r, (f c).phase = .returned r → c.phase = .returned r) : (t.update n f).Returns Q := by
  refine h.mono (fun m c' r hc' hr => ?_)
  obtain ⟨c, hc, rfl | ⟨-, rfl⟩⟩ := update_calls_eq_some hc'
  · exact ⟨c', hc, rfl, hr⟩
  · exact ⟨c, hc, hrequest c, hphase c r hr⟩

theorem Returns.send (h : t.Returns Q) : (t.send n r).Returns Q := h.update (fun _ => rfl) (fun _ _ => id)

theorem Returns.drop (h : t.Returns Q) : (t.drop n).Returns Q := h.update (fun _ => rfl) (fun _ _ => id)

theorem Returns.await (h : t.Returns Q) : (t.await n).Returns Q := h.update (fun _ => rfl) (fun _ _ hr => by cases hr)

theorem Returns.drain (h : t.Returns Q) : (t.drain r).Returns Q := by
  refine h.mono (fun m c' r' hc' hr' => ?_)
  obtain ⟨c, hc, -, hrequest, hphase⟩ := (foldl_send_same t.pending t).2.2 m c' hc'
  exact ⟨c, hc, hrequest, hphase ▸ hr'⟩

theorem Returns.failParked (h : t.Returns Q) : (t.failParked r).Returns Q := by
  rw [InFlight.failParked]
  cases t.parked with
  | none => exact h
  | some e => exact h.send

/-- A call returns what satisfies `Q`. -/
theorem Returns.finish (h : t.Returns Q) (hr : ∀ c : Call κ ι ρ, t.calls[n]? = some c → Q c.request r) :
    (t.finish n r).Returns Q := by
  intro m c' r' hc' hr'
  obtain ⟨c₀, hc₀, rfl | ⟨rfl, rfl⟩⟩ := update_calls_eq_some hc'
  · exact h m c' r' hc₀ hr'
  · cases hr'
    exact hr c₀ hc₀

/-- When one returns, it depends on what it returns. -/
theorem returns_finish_iff (h : t.Returns Q) {c : Call κ ι ρ} (hc : t.calls[n]? = some c) :
    (t.finish n r).Returns Q ↔ Q c.request r := by
  constructor
  · intro hfinish
    refine hfinish n { c with phase := .returned r } r ?_ rfl
    rw [InFlight.finish, update_calls, if_pos rfl, hc]
    rfl
  · intro hr
    refine h.finish (fun c' hc' => ?_)
    rw [hc] at hc'
    cases hc'
    exact hr

theorem Returns.refuse (h : t.Returns Q) {request : ι} (hr : Q request r) : (t.refuse key request r).Returns Q := by
  intro m c r' hc hr'
  rcases append_calls_eq_some hc with hold | ⟨-, rfl⟩
  · exact h m c r' hold hr'
  · cases hr'
    exact hr

section

variable [DecidableEq κ]

/-- A new call brings nothing; one that it evicts may be told so. -/
theorem Brings.enter (h : t.Brings Q) (request : ι)
    (hevict : ∀ i c r, (c = .sent r → Q i r) → evict c = .sent r → Q i r) :
    (t.enter key request evict).Brings Q := by
  rw [InFlight.enter]
  cases t.lookup key with
  | none => exact h.append _ rfl
  | some m =>
      have hevicted : (t.update m (fun c => { c with channel := evict c.channel })).Brings Q := by
        intro k c' r hc' hr
        obtain ⟨c, hc, rfl | ⟨-, rfl⟩⟩ := update_calls_eq_some hc'
        · exact h k c' r hc hr
        · exact hevict c.request c.channel r (h k c r hc) hr
      exact hevicted.append _ rfl

theorem Returns.enter (h : t.Returns Q) (request : ι) : (t.enter key request evict).Returns Q := by
  have happend : ∀ t : InFlight κ ι ρ, t.Returns Q →
      ({ t with calls := t.calls ++ [⟨key, request, .empty, .sending⟩] } : InFlight κ ι ρ).Returns Q := by
    intro t ht m c r' hc hr'
    rcases append_calls_eq_some hc with hold | ⟨-, rfl⟩
    · exact ht m c r' hold hr'
    · cases hr'
  rw [InFlight.enter]
  cases t.lookup key with
  | none => exact happend t h
  | some m => exact happend _ (h.update (fun _ => rfl) (fun _ _ => id))

theorem Brings.unpark (h : t.Brings Q) : t.unpark.Brings Q := by
  rw [InFlight.unpark]
  cases t.parked with
  | none => exact h
  | some e =>
      simp only
      cases t.lookup e.1 with
      | none => exact h
      | some m => exact h.drop

theorem Returns.unpark (h : t.Returns Q) : t.unpark.Returns Q := by
  rw [InFlight.unpark]
  cases t.parked with
  | none => exact h
  | some e =>
      simp only
      cases t.lookup e.1 with
      | none => exact h
      | some m => exact h.drop

end

end

/-! ## Every call -/

section

variable {P : Nat → Call κ ι ρ → Prop}

/-- Every call satisfies `P`, which may depend on its number. -/
def Each (P : Nat → Call κ ι ρ → Prop) (t : InFlight κ ι ρ) : Prop :=
  ∀ (n : Nat) (c : Call κ ι ρ), t.calls[n]? = some c → P n c

/-- A stored sender belongs to a call of its key. -/
def Keyed (t : InFlight κ ι ρ) : Prop :=
  ∀ key n, (key, n) ∈ t.pending → ∃ c : Call κ ι ρ, t.calls[n]? = some c ∧ c.key = key

theorem each_empty : Each P (empty : InFlight κ ι ρ) := by
  intro n c hc
  cases hc

theorem keyed_empty : Keyed (empty : InFlight κ ι ρ) := nofun

theorem Each.mono {P' : Nat → Call κ ι ρ → Prop} (h : t.Each P) (hP : ∀ n c, P n c → P' n c) : t.Each P' :=
  fun n c hc => hP n c (h n c hc)

/-- A property of all calls, after an update of one. -/
theorem Each.update (h : t.Each P) (hf : ∀ c, t.calls[n]? = some c → P n c → P n (f c)) : (t.update n f).Each P := by
  intro m c' hc'
  obtain ⟨c, hc, rfl | ⟨rfl, rfl⟩⟩ := update_calls_eq_some hc'
  · exact h m c' hc
  · exact hf c hc (h n c hc)

theorem Each.append (h : t.Each P) {new : Call κ ι ρ} (hnew : P t.calls.length new) :
    ({ t with calls := t.calls ++ [new] } : InFlight κ ι ρ).Each P := by
  intro m c hc
  rcases append_calls_eq_some hc with hold | ⟨rfl, rfl⟩
  · exact h m c hold
  · exact hnew

/-- The table names calls of the right key as long as they keep it. -/
theorem Keyed.update (h : t.Keyed) (hkey : ∀ c, (f c).key = c.key) : (t.update n f).Keyed := by
  intro key m hm
  obtain ⟨c, hc, rfl⟩ := h key m hm
  rw [update_calls]
  split
  · exact ⟨f c, by rw [hc]; rfl, hkey c⟩
  · exact ⟨c, hc, rfl⟩

theorem Keyed.receive (h : t.Keyed) : (t.receive n r).Keyed := by
  rcases receive_cases t n r with ⟨heq, -⟩ | ⟨c, -, -, ⟨r', -, heq⟩ | ⟨-, heq⟩⟩
  · rwa [heq]
  · rw [heq]
    exact h.update (fun _ => rfl)
  · rw [heq]
    exact h.update (fun _ => rfl)

/-- A call that takes what its channel brings. -/
theorem Each.receive (h : t.Each P) (hsent : ∀ (c : Call κ ι ρ) (r' : ρ), c.channel = .sent r' → P n c →
    P n { c with phase := .returned r' }) (hclosed : ∀ c : Call κ ι ρ, P n c → P n { c with phase := .returned r }) :
    (t.receive n r).Each P := by
  rcases receive_cases t n r with ⟨heq, -⟩ | ⟨c, hc, -, ⟨r', hr', heq⟩ | ⟨-, heq⟩⟩
  · rwa [heq]
  · rw [heq]
    refine h.update (fun c' hc' hP => ?_)
    cases hc.symm.trans hc'
    exact hsent c r' hr' hP
  · rw [heq]
    exact h.update (fun c' _ hP => hclosed c' hP)

variable [DecidableEq κ]

theorem Each.remove (h : t.Each P) : (t.remove key).Each P := h

theorem Keyed.remove (h : t.Keyed) : (t.remove key).Keyed := fun k m hm => h k m (mem_remove.mp hm).1

theorem Each.enter (h : t.Each P) {request : ι}
    (hevict : ∀ n c, P n c → P n { c with channel := evict c.channel })
    (hnew : P t.calls.length ⟨key, request, .empty, .sending⟩) : (t.enter key request evict).Each P := by
  rw [InFlight.enter]
  cases t.lookup key with
  | none => exact h.append hnew
  | some m =>
      have hevicted : (t.update m (fun c => { c with channel := evict c.channel })).Each P :=
        h.update (fun c _ hP => hevict m c hP)
      refine hevicted.append ?_
      rw [InFlight.update, List.length_modify]
      exact hnew

theorem Keyed.enter (h : t.Keyed) (request : ι) : (t.enter key request evict).Keyed := by
  have happend : ∀ t' : InFlight κ ι ρ, t'.Keyed → t'.calls.length = t.calls.length →
      ({ t'.put key t.calls.length with calls := t'.calls ++ [⟨key, request, .empty, .sending⟩] } :
        InFlight κ ι ρ).Keyed := by
    intro t' ht hlength k m hm
    rcases List.mem_cons.mp hm with heq | hm
    · cases heq
      rw [← hlength]
      exact ⟨_, List.getElem?_concat_length, rfl⟩
    · obtain ⟨c, hc, hkey⟩ := ht k m (mem_remove.mp hm).1
      exact ⟨c, by rw [List.getElem?_append_left (List.getElem?_eq_some_iff.mp hc).1, hc], hkey⟩
  rw [InFlight.enter]
  cases t.lookup key with
  | none => exact happend t h rfl
  | some m => exact happend _ (h.update (fun _ => rfl)) (List.length_modify _ _ _)

end

end InFlight

end Nula
