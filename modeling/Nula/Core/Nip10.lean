import Nula.Core.Nip09
import Nula.Core.Nips

/-!
# `Core.Nip10` — threads of notes

The `e` and `p` tags of a text note (`nips/nip10.rs`): the roles that positions stand for in notes without markers, and
the tags as they are written and read back.

## Contents
- **Inference.** `Inferred`, the three shapes of a list of references; `root_iff` and `reply_iff`, when an inferred
  marker leaves the marked root and the marked reply in their place.
- **The wire.** `fromTag_buildETag`, and from it `fromEvent_noteWithContext`.
-/

namespace Nula

/-! ## Threads (`nips/nip10.rs`) -/

inductive NoteMarker where
  | root
  | reply
  | mention
  deriving DecidableEq, Repr

namespace NoteMarker

def asStr : NoteMarker → String
  | .root => "root"
  | .reply => "reply"
  | .mention => "mention"

/-- `NoteMarker::from_str`; the error is the text that names no marker. -/
def parse : String → Except String NoteMarker
  | "root" => .ok .root
  | "reply" => .ok .reply
  | "mention" => .ok .mention
  | other => .error other

theorem parse_asStr (m : NoteMarker) : parse m.asStr = .ok m := by
  cases m <;> rfl

end NoteMarker

/-- `EventReference`: an `e` tag of a thread. -/
structure EventReference where
  eventId : EventId
  relayHint : Option RelayUrl
  marker : Option NoteMarker
  authorHint : Option PublicKey
  deriving DecidableEq

namespace EventReference

def new (eventId : EventId) : EventReference := ⟨eventId, none, none, none⟩

/-- The reference with a marker. -/
def withMarker (marker : NoteMarker) (r : EventReference) : EventReference := { r with marker := some marker }

/-- A reference without a marker. -/
def unmarked (r : EventReference) : Bool := r.marker.isNone

@[simp] theorem unmarked_withMarker (m : NoteMarker) (r : EventReference) : (r.withMarker m).unmarked = false := rfl

theorem unmarked_eq_false {r : EventReference} {m : NoteMarker} (h : r.marker = some m) : r.unmarked = false := by
  rw [unmarked, h]
  rfl

theorem marker_of_unmarked {r : EventReference} (h : r.unmarked = true) : r.marker = none :=
  Option.isNone_iff_eq_none.mp h

end EventReference

/-- `ThreadContext`: the thread an event stands in. -/
structure ThreadContext where
  events : List EventReference
  mentionedPubkeys : List PublicKey
  deriving DecidableEq

namespace ThreadContext

/-- `root`: the first reference marked so. -/
def root (c : ThreadContext) : Option EventReference := c.events.find? (fun r => r.marker = some .root)

/-- `reply`: the first reference marked so. -/
def reply (c : ThreadContext) : Option EventReference := c.events.find? (fun r => r.marker = some .reply)

/-! ## Inference -/

/-- The closure of `infer_legacy_markers`. -/
def assign (events : List EventReference) (idx : Nat) (marker : NoteMarker) : List EventReference :=
  events.modify idx (EventReference.withMarker marker)

/-- `infer_legacy_markers`, on the references. -/
def inferMarkers (events : List EventReference) : List EventReference :=
  match events.findIdxs EventReference.unmarked with
  | [] => events
  | [only] => assign events only .root
  | first :: second :: rest =>
      (second :: rest).dropLast.foldl (fun events idx => assign events idx .mention)
        (assign (assign events first .root) ((second :: rest).getLast (List.cons_ne_nil _ _)) .reply)

/-- `ThreadContext::infer_legacy_markers`. -/
def inferLegacyMarkers (c : ThreadContext) : ThreadContext := { c with events := inferMarkers c.events }

/-- A reference between the first and the last unmarked one. -/
def between (r : EventReference) : EventReference := if r.unmarked then r.withMarker .mention else r

/-- All of them have markers. -/
def Marked (events : List EventReference) : Prop := ∀ r ∈ events, r.unmarked = false

/-- The reference with a marker of some kind; one that it had, it keeps. -/
def Filled (r filled : EventReference) : Prop :=
  ∃ m, filled = r.withMarker m ∧ (r.marker = none ∨ r.marker = some m)

/-- What is inferred from a list of references: by the first and the last of those without a marker. -/
inductive Inferred : List EventReference → List EventReference → Prop where
  | none {events : List EventReference} : Marked events → Inferred events events
  | one {pre post : List EventReference} {r : EventReference} : Marked pre → Marked post → r.unmarked = true →
      Inferred (pre ++ r :: post) (pre ++ r.withMarker .root :: post)
  | many {pre mid post : List EventReference} {first last : EventReference} : Marked pre → Marked post →
      first.unmarked = true → last.unmarked = true →
      Inferred (pre ++ first :: (mid ++ last :: post))
        (pre ++ first.withMarker .root :: (mid.map between ++ last.withMarker .reply :: post))

section Inference

variable {events pre mid post : List EventReference} {r first last : EventReference}

theorem findIdxs_marked (h : Marked events) (s : Nat) : events.findIdxs EventReference.unmarked s = [] :=
  List.findIdxs_eq_nil_iff.mpr h

/-- The first place without a marker, and those behind it. -/
theorem findIdxs_unmarked (hpre : Marked pre) (hr : r.unmarked = true) (s : Nat) :
    (pre ++ r :: post).findIdxs EventReference.unmarked s =
      (s + pre.length) :: post.findIdxs EventReference.unmarked (s + pre.length + 1) := by
  rw [List.findIdxs_append, findIdxs_marked hpre, List.nil_append, List.findIdxs_cons, if_pos hr]

/-- Where not all are marked, there is a first one that is not. -/
theorem exists_first (h : ¬Marked events) :
    ∃ pre r post, events = pre ++ r :: post ∧ Marked pre ∧ r.unmarked = true := by
  cases hfind : events.find? EventReference.unmarked with
  | none =>
      have hall := List.find?_eq_none.mp hfind
      exact absurd (fun r hr => Bool.eq_false_iff.mpr (hall r hr)) h
  | some r =>
      obtain ⟨hr, pre, post, hevents, hpre⟩ := List.find?_eq_some_iff_append.mp hfind
      refine ⟨pre, r, post, hevents, fun x hx => ?_, hr⟩
      simpa using hpre x hx

theorem exists_last (h : ¬Marked events) :
    ∃ pre r post, events = pre ++ r :: post ∧ Marked post ∧ r.unmarked = true := by
  have hreverse : ¬Marked events.reverse := fun hall => h (fun r hr => hall r (List.mem_reverse.mpr hr))
  obtain ⟨post, r, pre, hevents, hpost, hr⟩ := exists_first hreverse
  refine ⟨pre.reverse, r, post.reverse, ?_, fun x hx => hpost x (List.mem_reverse.mp hx), hr⟩
  rw [← List.reverse_reverse events, hevents]
  simp

/-- Marking a place changes the reference there. -/
theorem assign_append (m : NoteMarker) : assign (pre ++ r :: post) pre.length m = pre ++ r.withMarker m :: post := by
  induction pre with
  | nil => rfl
  | cons x pre ih => exact congrArg (x :: ·) ih

/-- The third loop marks what stands between. -/
theorem foldl_assign (mid : List EventReference) (pre post : List EventReference) :
    (mid.findIdxs EventReference.unmarked pre.length).foldl (fun events idx => assign events idx .mention)
      (pre ++ (mid ++ post)) = pre ++ (mid.map between ++ post) := by
  induction mid generalizing pre with
  | nil => rfl
  | cons x mid ih =>
      have htail : ∀ y : EventReference, (mid.findIdxs EventReference.unmarked (pre.length + 1)).foldl
          (fun events idx => assign events idx .mention) (pre ++ y :: (mid ++ post)) =
            pre ++ y :: (mid.map between ++ post) := by
        intro y
        have h := ih (pre ++ [y])
        simpa using h
      rw [List.findIdxs_cons, List.map_cons, between]
      by_cases hx : x.unmarked = true
      · rw [if_pos hx, if_pos hx, List.foldl_cons, List.cons_append, assign_append]
        exact htail _
      · rw [if_neg hx, if_neg hx]
        exact htail _

theorem inferMarkers_none (h : Marked events) : inferMarkers events = events := by
  rw [inferMarkers, findIdxs_marked h]

/-- A single reference without a marker is the root. -/
theorem inferMarkers_one (hpre : Marked pre) (hpost : Marked post) (hr : r.unmarked = true) :
    inferMarkers (pre ++ r :: post) = pre ++ r.withMarker .root :: post := by
  rw [inferMarkers, findIdxs_unmarked hpre hr, findIdxs_marked hpost, Nat.zero_add]
  exact assign_append .root

/-- The third arm: the first index, those between, and the last. -/
theorem inferMarkers_eq {i j : Nat} {idxs : List Nat}
    (h : events.findIdxs EventReference.unmarked = i :: (idxs ++ [j])) : inferMarkers events =
      idxs.foldl (fun events idx => assign events idx .mention) (assign (assign events i .root) j .reply) := by
  have hne : idxs ++ [j] ≠ [] := List.append_ne_nil_of_right_ne_nil idxs (List.cons_ne_nil j [])
  obtain ⟨second, rest, hcons⟩ := List.exists_cons_of_ne_nil hne
  rw [inferMarkers, h, hcons]
  simp only [← hcons, List.dropLast_concat, List.getLast_append_singleton]

/-- Of several the first is the root, the last the reply, and those between are mentions. -/
theorem inferMarkers_many (hpre : Marked pre) (hpost : Marked post) (hfirst : first.unmarked = true)
    (hlast : last.unmarked = true) : inferMarkers (pre ++ first :: (mid ++ last :: post)) =
      pre ++ first.withMarker .root :: (mid.map between ++ last.withMarker .reply :: post) := by
  let start := pre.length + 1
  let idxs := mid.findIdxs EventReference.unmarked start
  have hidxs : (pre ++ first :: (mid ++ last :: post)).findIdxs EventReference.unmarked =
      pre.length :: (idxs ++ [start + mid.length]) := by
    rw [findIdxs_unmarked hpre hfirst, Nat.zero_add, List.findIdxs_append, List.findIdxs_cons, if_pos hlast,
      findIdxs_marked hpost]
  have hreply : assign (assign (pre ++ first :: (mid ++ last :: post)) pre.length .root) (start + mid.length) .reply =
      (pre ++ [first.withMarker .root]) ++ (mid ++ last.withMarker .reply :: post) := by
    have hlength : start + mid.length = (pre ++ first.withMarker .root :: mid).length := by
      simp only [start, List.length_append, List.length_cons]
      omega
    have hassign : assign ((pre ++ first.withMarker .root :: mid) ++ last :: post)
        (pre ++ first.withMarker .root :: mid).length .reply = _ := assign_append .reply
    rw [assign_append, hlength]
    simpa using hassign
  have hmiddle := foldl_assign mid (pre ++ [first.withMarker .root]) (last.withMarker .reply :: post)
  rw [List.length_append, List.length_singleton, ← hreply] at hmiddle
  rw [inferMarkers_eq hidxs, hmiddle, List.append_assoc]
  rfl

/-- A list of references has one of the three shapes. -/
theorem inferred (events : List EventReference) : Inferred events (inferMarkers events) := by
  by_cases hmarked : Marked events
  · rw [inferMarkers_none hmarked]
    exact .none hmarked
  obtain ⟨pre, first, rest, rfl, hpre, hfirst⟩ := exists_first hmarked
  by_cases hrest : Marked rest
  · rw [inferMarkers_one hpre hrest hfirst]
    exact .one hpre hrest hfirst
  obtain ⟨mid, last, post, rfl, hpost, hlast⟩ := exists_last hrest
  rw [inferMarkers_many hpre hpost hfirst hlast]
  exact .many hpre hpost hfirst hlast

theorem filled_self (h : r.unmarked = false) : Filled r r := by
  obtain ⟨m, hm⟩ : ∃ m, r.marker = some m := Option.isSome_iff_exists.mp (Option.isNone_eq_false_iff.mp h)
  refine ⟨m, ?_, Or.inr hm⟩
  rw [EventReference.withMarker, ← hm]

/-- A marker is given to a reference that has none. -/
theorem filled_withMarker (h : r.unmarked = true) (m : NoteMarker) : Filled r (r.withMarker m) :=
  ⟨m, rfl, Or.inl (EventReference.marker_of_unmarked h)⟩

/-- Those between get a marker only where there is none. -/
theorem filled_between (r : EventReference) : Filled r (between r) := by
  rw [between]
  split
  · exact filled_withMarker ‹_› .mention
  · exact filled_self (Bool.eq_false_iff.mpr ‹_›)

/-- A list that is marked throughout stays as it is. -/
theorem filled_marked (h : Marked events) : List.Forall₂ Filled events events :=
  List.forall₂_same.mpr (fun r hr => filled_self (h r hr))

/-- Nothing but missing markers is filled in. -/
theorem filled_inferMarkers (events : List EventReference) : List.Forall₂ Filled events (inferMarkers events) := by
  have hshape := inferred events
  generalize inferMarkers events = result at hshape ⊢
  cases hshape with
  | none hmarked => exact filled_marked hmarked
  | one hpre hpost hr =>
      exact List.rel_append (filled_marked hpre) (.cons (filled_withMarker hr _) (filled_marked hpost))
  | many hpre hpost hfirst hlast =>
      have hmid : ∀ mid : List EventReference, List.Forall₂ Filled mid (mid.map between) := fun mid =>
        List.forall₂_map_right_iff.mpr (List.forall₂_same.mpr (fun r _ => filled_between r))
      exact List.rel_append (filled_marked hpre) (.cons (filled_withMarker hfirst _)
        (List.rel_append (hmid _) (.cons (filled_withMarker hlast _) (filled_marked hpost))))

theorem marked_of_filled {result : List EventReference} (h : List.Forall₂ Filled events result) : Marked result := by
  induction h with
  | nil => exact fun _ hr => absurd hr List.not_mem_nil
  | cons hfilled _ ih =>
      obtain ⟨m, rfl, -⟩ := hfilled
      exact List.forall_mem_cons.mpr ⟨EventReference.unmarked_withMarker m _, ih⟩

/-- **No reference is left without a marker.** The list has none, one or several, and `inferMarkers` fills each of the
    three. -/
theorem marked_inferMarkers (events : List EventReference) : Marked (inferMarkers events) :=
  marked_of_filled (filled_inferMarkers events)

/-! ### The root and the reply -/

/-- The references in front of the first with this marker. -/
def before (m : NoteMarker) (events : List EventReference) : List EventReference :=
  events.takeWhile (fun r => r.marker ≠ some m)

/-- The references behind it. -/
def behind (m : NoteMarker) (events : List EventReference) : List EventReference :=
  (events.dropWhile (fun r => r.marker ≠ some m)).tail

/-- The first reference without a marker stands behind the root, or names the same. -/
def RootKept (c : ThreadContext) : Prop :=
  ∀ r, c.root = some r → ∀ x ∈ (before .root c.events).find? EventReference.unmarked, x.withMarker .root = r

/-- Of several references without a marker, the last stands behind the reply, or names the same. -/
def ReplyKept (c : ThreadContext) : Prop :=
  ∀ r, c.reply = some r → Marked (behind .reply c.events) →
    ∀ x ∈ ((before .reply c.events).filter EventReference.unmarked).tail.getLast?, x.withMarker .reply = r

/-- The first reference with a marker splits the list. -/
theorem split_of_find {m : NoteMarker} (h : events.find? (fun r => r.marker = some m) = some r) :
    r.marker = some m ∧ (∀ x ∈ before m events, x.marker ≠ some m) ∧
      events = before m events ++ r :: behind m events := by
  obtain ⟨hr, pre, post, rfl, hpre⟩ := List.find?_eq_some_iff_append.mp h
  have hpre' : ∀ x ∈ pre, decide (x.marker ≠ some m) = true := by simpa using hpre
  have hr' : r.marker = some m := of_decide_eq_true hr
  have hbefore : before m (pre ++ r :: post) = pre := by
    rw [before, List.takeWhile_append_of_pos hpre', List.takeWhile_cons_of_neg (by simp [hr']), List.append_nil]
  have hbehind : behind m (pre ++ r :: post) = post := by
    rw [behind, List.dropWhile_append_of_pos hpre', List.dropWhile_cons_of_neg (by simp [hr']), List.tail_cons]
  rw [hbefore, hbehind]
  exact ⟨hr', fun x hx => of_decide_eq_true (hpre' x hx), rfl⟩

/-- The first reference with a marker, where the ones before have another. -/
theorem find_append {m : NoteMarker} (hpre : ∀ x ∈ pre, x.marker ≠ some m) (hr : r.marker = some m) :
    (pre ++ r :: post).find? (fun r => r.marker = some m) = some r :=
  List.find?_eq_some_iff_append.mpr ⟨decide_eq_true hr, pre, post, rfl, fun x hx => by simpa using hpre x hx⟩

/-- References with markers in front change nothing. -/
theorem inferMarkers_append (hpre : Marked pre) (events : List EventReference) :
    inferMarkers (pre ++ events) = pre ++ inferMarkers events := by
  have hmarked : ∀ l, Marked l → Marked (pre ++ l) := fun l hl => List.forall_mem_append.mpr ⟨hpre, hl⟩
  have hshape := inferred events
  generalize hresult : inferMarkers events = result at hshape ⊢
  cases hshape with
  | none hevents => exact inferMarkers_none (hmarked _ hevents)
  | one hpre' hpost hr =>
      rw [← List.append_assoc, inferMarkers_one (hmarked _ hpre') hpost hr, List.append_assoc]
  | many hpre' hpost hfirst hlast =>
      rw [← List.append_assoc, inferMarkers_many (hmarked _ hpre') hpost hfirst hlast, List.append_assoc]

/-- The first without a marker is the root of what is inferred. -/
theorem inferMarkers_first (hfirst : first.unmarked = true) (rest : List EventReference) :
    ∃ tail, inferMarkers (first :: rest) = first.withMarker .root :: tail := by
  by_cases hrest : Marked rest
  · exact ⟨rest, inferMarkers_one (fun _ hr => absurd hr List.not_mem_nil) hrest hfirst⟩
  · obtain ⟨mid, last, post, rfl, hpost, hlast⟩ := exists_last hrest
    exact ⟨_, inferMarkers_many (fun _ hr => absurd hr List.not_mem_nil) hpost hfirst hlast⟩

theorem filter_marked (h : Marked events) : events.filter EventReference.unmarked = [] :=
  List.filter_eq_nil_iff.mpr (fun r hr => Bool.eq_false_iff.mp (h r hr))

/-- Nothing is inferred in front of a marker that has only markers in front of it. -/
theorem find_of_marked {m : NoteMarker} (hpre : Marked pre) (hno : ∀ x ∈ pre, x.marker ≠ some m)
    (hr : r.marker = some m) :
    (inferMarkers (pre ++ r :: post)).find? (fun r => r.marker = some m) = some r := by
  have hcons : inferMarkers (r :: post) = r :: inferMarkers post :=
    inferMarkers_append (List.forall_mem_singleton.mpr (EventReference.unmarked_eq_false hr)) post
  rw [inferMarkers_append hpre, hcons]
  exact find_append hno hr

/-- **When the root stays the root**: the first reference without a marker in front of it, if there is one, would be
    the same as the root. Behind the root nothing matters, as the first of two roots is taken. -/
theorem find_root_of_split (hr : r.marker = some .root) (hno : ∀ x ∈ pre, x.marker ≠ some .root) :
    (inferMarkers (pre ++ r :: post)).find? (fun r => r.marker = some .root) = some r ↔
      ∀ x ∈ pre.find? EventReference.unmarked, x.withMarker .root = r := by
  by_cases hpre : Marked pre
  · have hnone : pre.find? EventReference.unmarked = none :=
      List.find?_eq_none.mpr (fun x hx => Bool.eq_false_iff.mp (hpre x hx))
    rw [hnone]
    exact iff_of_true (find_of_marked hpre hno hr) nofun
  · obtain ⟨before, first, rest, rfl, hbefore, hfirst⟩ := exists_first hpre
    have hfind : (before ++ first :: rest).find? EventReference.unmarked = some first :=
      List.find?_eq_some_iff_append.mpr ⟨hfirst, before, rest, rfl, fun x hx => by simp [hbefore x hx]⟩
    obtain ⟨tail, htail⟩ := inferMarkers_first hfirst (rest ++ r :: post)
    have hbeforeNo : ∀ x ∈ before, x.marker ≠ some .root := fun x hx => hno x (List.mem_append_left _ hx)
    rw [List.append_assoc, List.cons_append, inferMarkers_append hbefore, htail, find_append hbeforeNo rfl, hfind]
    simp

/-- **When the reply stays the reply**: the last gap takes the marker, so it is in front of the reply only if no gap
    is behind it. -/
theorem find_reply_of_split (hr : r.marker = some .reply) (hno : ∀ x ∈ pre, x.marker ≠ some .reply) :
    (inferMarkers (pre ++ r :: post)).find? (fun r => r.marker = some .reply) = some r ↔
      (Marked post → ∀ x ∈ (pre.filter EventReference.unmarked).tail.getLast?, x.withMarker .reply = r) := by
  by_cases hpre : Marked pre
  · rw [filter_marked hpre]
    exact iff_of_true (find_of_marked hpre hno hr) (fun _ => nofun)
  obtain ⟨before, first, rest, rfl, hbefore, hfirst⟩ := exists_first hpre
  have hfilter : (before ++ first :: rest).filter EventReference.unmarked =
      first :: rest.filter EventReference.unmarked := by
    rw [List.filter_append, filter_marked hbefore, List.nil_append, List.filter_cons_of_pos hfirst]
  -- What comes in front of the reply is still no reply when it gets the marker of a root or of a mention.
  have hroot : ∀ l, (∀ x ∈ l, x.marker ≠ some .reply) →
      ∀ x ∈ before ++ first.withMarker .root :: l, x.marker ≠ some .reply := by
    intro l hl
    refine List.forall_mem_append.mpr ⟨fun x hx => hno x (List.mem_append_left _ hx), ?_⟩
    exact List.forall_mem_cons.mpr ⟨by simp [EventReference.withMarker], hl⟩
  have hrest : ∀ x ∈ rest, x.marker ≠ some .reply := fun x hx =>
    hno x (List.mem_append_right _ (List.mem_cons_of_mem _ hx))
  have hbetween : ∀ l : List EventReference, (∀ x ∈ l, x.marker ≠ some .reply) →
      ∀ x ∈ l.map between, x.marker ≠ some .reply := by
    intro l hl x hx
    obtain ⟨y, hy, rfl⟩ := List.mem_map.mp hx
    rw [between]
    split
    · simp [EventReference.withMarker]
    · exact hl y hy
  rw [hfilter, List.tail_cons, List.append_assoc, List.cons_append]
  by_cases hpost : Marked post
  · by_cases hmarked : Marked rest
    · have hafter : Marked (rest ++ r :: post) :=
        List.forall_mem_append.mpr ⟨hmarked, List.forall_mem_cons.mpr ⟨EventReference.unmarked_eq_false hr, hpost⟩⟩
      rw [inferMarkers_one hbefore hafter hfirst, filter_marked hmarked, ← List.cons_append, ← List.append_assoc]
      exact iff_of_true (find_append (hroot rest hrest) hr) (fun _ => nofun)
    · obtain ⟨mid, last, after, rfl, hafter, hlast⟩ := exists_last hmarked
      have hend : Marked (after ++ r :: post) :=
        List.forall_mem_append.mpr ⟨hafter, List.forall_mem_cons.mpr ⟨EventReference.unmarked_eq_false hr, hpost⟩⟩
      have hmid : ∀ x ∈ mid, x.marker ≠ some .reply := fun x hx => hrest x (List.mem_append_left _ hx)
      have hlastOf : ((mid ++ last :: after).filter EventReference.unmarked).getLast? = some last := by
        rw [List.filter_append, List.filter_cons_of_pos hlast, filter_marked hafter, List.getLast?_concat]
      rw [List.append_assoc, List.cons_append, inferMarkers_many hbefore hend hfirst hlast, ← List.cons_append,
        ← List.append_assoc, find_append (hroot _ (hbetween mid hmid)) rfl, hlastOf]
      simp [hpost]
  · obtain ⟨mid, last, after, rfl, hafter, hlast⟩ := exists_last hpost
    have hsame : between r = r := if_neg (Bool.eq_false_iff.mp (EventReference.unmarked_eq_false hr))
    have hresult : inferMarkers (before ++ first :: (rest ++ r :: (mid ++ last :: after))) =
        (before ++ first.withMarker .root :: rest.map between) ++
          r :: (mid.map between ++ last.withMarker .reply :: after) := by
      have hmany : inferMarkers (before ++ first :: ((rest ++ r :: mid) ++ last :: after)) = _ :=
        inferMarkers_many hbefore hafter hfirst hlast
      simpa [hsame] using hmany
    rw [hresult]
    exact iff_of_true (find_append (hroot _ (hbetween rest hrest)) hr) (fun hmarked => absurd hmarked hpost)

/-- The marked root stays the root exactly when it is in its place. -/
theorem root_iff (c : ThreadContext) :
    (∀ r, c.root = some r → c.inferLegacyMarkers.root = some r) ↔ RootKept c := by
  refine forall_congr' (fun r => imp_congr_right (fun hroot => ?_))
  obtain ⟨hr, hno, hevents⟩ := split_of_find hroot
  have hfind : (inferMarkers (before .root c.events ++ r :: behind .root c.events)).find? _ = some r ↔ _ :=
    find_root_of_split hr hno
  rw [← hevents] at hfind
  exact hfind

/-- The marked reply stays the reply exactly when it is in its place. -/
theorem reply_iff (c : ThreadContext) :
    (∀ r, c.reply = some r → c.inferLegacyMarkers.reply = some r) ↔ ReplyKept c := by
  refine forall_congr' (fun r => imp_congr_right (fun hreply => ?_))
  obtain ⟨hr, hno, hevents⟩ := split_of_find hreply
  have hfind : (inferMarkers (before .reply c.events ++ r :: behind .reply c.events)).find? _ = some r ↔ _ :=
    find_reply_of_split hr hno
  rw [← hevents] at hfind
  exact hfind

end Inference

/-! ## The wire -/

inductive ThreadError where
  | notEventTag (head : String)
  | missingEventId
  | invalidEventId (e : EventIdError)
  | invalidRelay (e : RelayUrlError)
  | invalidMarker (text : String)
  | invalidAuthor (e : PublicKeyError)
  deriving DecidableEq, Repr

/-- The kind of a reference to an event. -/
def eKind : TagKind := .singleLetter (.lowercase .E)

/-- The kind of a mention. -/
def pKind : TagKind := .singleLetter (.lowercase .P)

/-- `build_e_tag`: empty columns at the end are left out. -/
def buildETag (r : EventReference) : Tag :=
  let relay := (r.relayHint.map RelayUrl.asStr).getD ""
  let marker := (r.marker.map NoteMarker.asStr).getD ""
  let author := (r.authorHint.map PublicKey.toHex).getD ""
  if author ≠ "" then .withArgs eKind [r.eventId.toHex, relay, marker, author]
  else if marker ≠ "" then .withArgs eKind [r.eventId.toHex, relay, marker]
  else if relay ≠ "" then .withArgs eKind [r.eventId.toHex, relay]
  else .withArgs eKind [r.eventId.toHex]

/-- A `p` tag of `to_tags`. -/
def buildPTag (pk : PublicKey) : Tag := .withArgs pKind [pk.toHex]

/-- `ThreadContext::to_tags`. -/
def toTags (c : ThreadContext) : List Tag := c.events.map buildETag ++ c.mentionedPubkeys.map buildPTag

/-- `EventReference::from_tag`. -/
def fromTag (urls : UrlCrate) (t : Tag) : Except ThreadError EventReference :=
  if t.kind ≠ eKind then .error (.notEventTag t.kind.asStr)
  else
    match t.values.drop 1 with
    | [] => .error .missingEventId
    | id :: values => do
        let eventId ← (EventId.parse id).mapError .invalidEventId
        let relayHint ← (RelayUrl.hint urls values[0]?).mapError .invalidRelay
        let marker ← (optionalColumn NoteMarker.parse values[1]?).mapError .invalidMarker
        let authorHint ← (optionalColumn PublicKey.parse values[2]?).mapError .invalidAuthor
        return ⟨eventId, relayHint, marker, authorHint⟩

/-- The public key of a `p` tag. -/
def pubkeyOf (t : Tag) : Option PublicKey := t.content.bind (fun s => (PublicKey.parse s).toOption)

/-- One turn of the loop of `from_event`; a malformed tag is passed over. -/
def addTag (urls : UrlCrate) (c : ThreadContext) (t : Tag) : ThreadContext :=
  match if t.kind = eKind then (fromTag urls t).toOption else none with
  | some reference => { c with events := c.events ++ [reference] }
  | none =>
      match if t.kind = pKind then pubkeyOf t else none with
      | some pk => { c with mentionedPubkeys := c.mentionedPubkeys ++ [pk] }
      | none => c

/-- `ThreadContext::from_event`. -/
def fromEvent (urls : UrlCrate) (event : Event) : ThreadContext :=
  event.tags.items.foldl (addTag urls) ⟨[], []⟩

section Wire

variable {urls : UrlCrate}

/-- The relay hint comes from the parser, as every relay url does. -/
def Hinted (urls : UrlCrate) (r : EventReference) : Prop :=
  ∀ url ∈ r.relayHint, ∃ s, RelayUrl.parse urls s = .ok url

/-- The hex of a key is not empty, as a hint that is absent would be. -/
theorem toHex_ne_empty (pk : PublicKey) : pk.toHex ≠ "" := by
  intro h
  have hparse := PublicKey.parse_toHex pk
  rw [h] at hparse
  revert hparse
  exact nofun

/-- The columns that were left out are read as empty ones. -/
theorem fromTag_of_columns {id : String} {values : List String} {eventId : EventId}
    {relayHint : Option RelayUrl} {markerOf : Option NoteMarker} {authorHint : Option PublicKey}
    (hid : EventId.parse id = .ok eventId)
    (hrelay : RelayUrl.hint urls values[0]? = .ok relayHint)
    (hmarker : optionalColumn NoteMarker.parse values[1]? = .ok markerOf)
    (hauthor : optionalColumn PublicKey.parse values[2]? = .ok authorHint) :
    fromTag urls (.withArgs eKind (id :: values)) = .ok ⟨eventId, relayHint, markerOf, authorHint⟩ := by
  have hkind : (Tag.withArgs eKind (id :: values)).kind = eKind := Tag.kind_letter .E _
  rw [fromTag, if_neg (not_not.mpr hkind)]
  show (do
    let eventId ← (EventId.parse id).mapError _
    let relayHint ← (RelayUrl.hint urls values[0]?).mapError ThreadError.invalidRelay
    let marker ← (optionalColumn NoteMarker.parse values[1]?).mapError ThreadError.invalidMarker
    let authorHint ← (optionalColumn PublicKey.parse values[2]?).mapError ThreadError.invalidAuthor
    return (⟨eventId, relayHint, marker, authorHint⟩ : EventReference)) = _
  rw [hid, hrelay, hmarker, hauthor]
  rfl

theorem kind_buildETag (r : EventReference) : (buildETag r).kind = eKind := by
  unfold buildETag
  dsimp only
  split_ifs <;> exact Tag.kind_letter .E _

section Laws

variable (laws : RelayUrl.Lawful urls) (hempty : ∀ url, urls.parse "" ≠ .ok url)

include laws hempty

/-- **A reference comes back from its tag**: an absent hint is written empty where something follows it, and read back
    as absent. -/
theorem fromTag_buildETag {r : EventReference} (hhint : Hinted urls r) : fromTag urls (buildETag r) = .ok r := by
  have hid := EventId.parse_toHex r.eventId
  have hrelay : RelayUrl.hint urls (some ((r.relayHint.map RelayUrl.asStr).getD "")) = .ok r.relayHint :=
    RelayUrl.hint_getD laws hempty hhint
  have hmarker : optionalColumn NoteMarker.parse (some ((r.marker.map NoteMarker.asStr).getD "")) =
      .ok r.marker := by
    refine optionalColumn_getD (fun m _ => ⟨?_, NoteMarker.parse_asStr m⟩)
    cases m <;> decide
  have hauthor : optionalColumn PublicKey.parse (some ((r.authorHint.map PublicKey.toHex).getD "")) =
      .ok r.authorHint := optionalColumn_getD (fun pk _ => ⟨toHex_ne_empty pk, PublicKey.parse_toHex pk⟩)
  unfold buildETag
  dsimp only
  split
  · exact fromTag_of_columns hid hrelay hmarker hauthor
  rename_i hnoAuthor
  have hauthor' := optionalColumn_none hauthor (not_not.mp hnoAuthor)
  split
  · exact fromTag_of_columns hid hrelay hmarker hauthor'
  rename_i hnoMarker
  have hmarker' := optionalColumn_none hmarker (not_not.mp hnoMarker)
  split
  · exact fromTag_of_columns hid hrelay hmarker' hauthor'
  · rename_i hnoRelay
    exact fromTag_of_columns hid (optionalColumn_none hrelay (not_not.mp hnoRelay)) hmarker' hauthor'

/-- The tag of a reference adds it to the thread. -/
theorem addTag_buildETag {r : EventReference} (hhint : Hinted urls r) (c : ThreadContext) :
    addTag urls c (buildETag r) = { c with events := c.events ++ [r] } := by
  rw [addTag, if_pos (kind_buildETag r), fromTag_buildETag laws hempty hhint]
  rfl

end Laws

theorem addTag_buildPTag (pk : PublicKey) (c : ThreadContext) :
    addTag urls c (buildPTag pk) = { c with mentionedPubkeys := c.mentionedPubkeys ++ [pk] } := by
  have hkind : (buildPTag pk).kind = pKind := Tag.kind_letter .P _
  have hpubkey : pubkeyOf (buildPTag pk) = some pk := by
    rw [pubkeyOf, buildPTag, Tag.content_withArgs, List.head?_cons, Option.bind_some, PublicKey.parse_toHex]
    rfl
  rw [addTag, if_neg (by rw [hkind]; decide), if_pos hkind, hpubkey]

/-- The tags of a context are read back as the context. -/
theorem foldl_toTags (laws : RelayUrl.Lawful urls) (hempty : ∀ url, urls.parse "" ≠ .ok url) {c : ThreadContext}
    (hhints : ∀ r ∈ c.events, Hinted urls r) : c.toTags.foldl (addTag urls) ⟨[], []⟩ = c := by
  have hevents : ∀ (l : List EventReference) (c : ThreadContext), (∀ r ∈ l, Hinted urls r) →
      (l.map buildETag).foldl (addTag urls) c = { c with events := c.events ++ l } := by
    intro l
    induction l with
    | nil => intro c _; simp
    | cons r l ih =>
        intro c hl
        obtain ⟨hr, hl⟩ := List.forall_mem_cons.mp hl
        rw [List.map_cons, List.foldl_cons, addTag_buildETag laws hempty hr, ih _ hl]
        simp
  have hpubkeys : ∀ (l : List PublicKey) (c : ThreadContext),
      (l.map buildPTag).foldl (addTag urls) c = { c with mentionedPubkeys := c.mentionedPubkeys ++ l } := by
    intro l
    induction l with
    | nil => intro c; simp
    | cons pk l ih =>
        intro c
        rw [List.map_cons, List.foldl_cons, addTag_buildPTag, ih]
        simp
  rw [toTags, List.foldl_append, hevents _ _ hhints, hpubkeys]
  rfl

end Wire

end ThreadContext

def Kind.textNote : Kind := ⟨1⟩

/-- `EventBuilder::note_with_context`. -/
def EventBuilder.noteWithContext (content : String) (c : ThreadContext) : EventBuilder :=
  (EventBuilder.new Kind.textNote content).extendTags c.toTags

/-- What `infer_legacy_markers` promises of a thread. -/
structure ThreadContext.InfersSafely (c : ThreadContext) : Prop where
  filled : List.Forall₂ Filled c.events c.inferLegacyMarkers.events
  pubkeys : c.inferLegacyMarkers.mentionedPubkeys = c.mentionedPubkeys
  marked : Marked c.inferLegacyMarkers.events
  again : c.inferLegacyMarkers.inferLegacyMarkers = c.inferLegacyMarkers
  root : ∀ r, c.root = some r → c.inferLegacyMarkers.root = some r
  reply : ∀ r, c.reply = some r → c.inferLegacyMarkers.reply = some r

/-- A note that carries the context is read back as the context. -/
def ThreadContext.RoundTrips (urls : UrlCrate) (c : ThreadContext) : Prop :=
  ∀ (crypto : KeyCrypto) (clock : Clock) (aux : Bytes) (keys : Keys) (content : String) (createdAt : Option Timestamp)
    (event : Event),
    { EventBuilder.noteWithContext content c with createdAt := createdAt }.signWithKeys crypto clock aux keys =
      .ok event → fromEvent urls event = c

/-- **When inference keeps a thread.** Every reference keeps what it has and gets a marker if it has none, once for all,
    and a context comes back from the note that carries it. The marked root and the marked reply stay what they are
    exactly when the references that inference makes the root and the reply do not come before them.

    A list has no gap, one or several, and inference fills them in each case (`inferMarkers_many`). The root is
    then the first of two candidates, and so is the reply, which `root_iff` and `reply_iff` work out from where
    they stand. -/
theorem infersSafely_iff (urls : UrlCrate) (laws : RelayUrl.Lawful urls) (hempty : ∀ url, urls.parse "" ≠ .ok url)
    (c : ThreadContext) (hhints : ∀ r ∈ c.events, ThreadContext.Hinted urls r) :
    c.InfersSafely ∧ c.RoundTrips urls ↔ c.RootKept ∧ c.ReplyKept := by
  have hroundTrip : c.RoundTrips urls := by
    intro crypto clock aux keys content createdAt event h
    obtain ⟨-, -, htags, -⟩ := EventBuilder.signWithKeys_eq_ok h
    have hitems : event.tags.items = c.toTags := by
      rw [htags]
      rfl
    rw [ThreadContext.fromEvent, hitems]
    exact ThreadContext.foldl_toTags laws hempty hhints
  have hmarked := ThreadContext.marked_inferMarkers c.events
  constructor
  · rintro ⟨hsafe, -⟩
    exact ⟨c.root_iff.mp hsafe.root, c.reply_iff.mp hsafe.reply⟩
  · rintro ⟨hroot, hreply⟩
    refine ⟨⟨ThreadContext.filled_inferMarkers c.events, rfl, hmarked, ?_, c.root_iff.mpr hroot,
      c.reply_iff.mpr hreply⟩, hroundTrip⟩
    show (⟨_, _⟩ : ThreadContext) = ⟨_, _⟩
    rw [ThreadContext.inferLegacyMarkers, ThreadContext.inferMarkers_none hmarked]

/-! A reference without a marker in front of the root of its thread, and one behind it. -/

namespace Sample

/-- Where a reference can be found. -/
def hint : RelayUrl := ⟨⟨"wss://r.example/"⟩⟩

/-- The URL crate, of one url. -/
def hintUrls : UrlCrate where
  parse s := if s = hint.asStr then .ok ⟨s⟩ else .error "relative URL without a base"
  scheme _ := "wss"
  hostStr _ := some "r.example"
  port _ := none
  clearFragment url := url
  clearPort := some

/-- The marked root. -/
def rooted : EventReference := ⟨id 2, some hint, some .root, none⟩

/-- A reference without a marker in front of the root. -/
def mixed : ThreadContext := ⟨[.new (id 1), rooted], [carol]⟩

/-- The same with the root in front. -/
def ordered : ThreadContext := ⟨[rooted, .new (id 1)], [carol]⟩

theorem hintUrls_lawful : RelayUrl.Lawful hintUrls where
  reparse url h := by
    induction h with
    | @parse s url hparse =>
        unfold hintUrls at hparse ⊢
        dsimp only at hparse ⊢
        split at hparse
        · rename_i hs
          cases hparse
          exact if_pos hs
        · cases hparse
    | clearFragment _ ih => exact ih
    | clearPort _ hsame ih =>
        cases hsame
        exact ih
  scheme_clearFragment _ _ := rfl
  hostStr_clearFragment _ _ := rfl
  clearFragment_again _ _ := rfl
  scheme_clearPort _ _ _ _ := rfl
  hostStr_clearPort _ _ _ _ := rfl
  port_clearPort _ _ _ _ := rfl
  fragment_clearPort _ _ _ h _ := by
    cases h
    rfl

end Sample

open Sample in
theorem infersSafely_iff_ordered : ordered.InfersSafely ∧ ordered.RoundTrips hintUrls := by
  refine (infersSafely_iff hintUrls hintUrls_lawful (fun url h => by cases h) ordered ?_).mpr ⟨?_, ?_⟩
  · intro r hr url hurl
    rcases List.mem_pair.mp hr with rfl | rfl
    · cases hurl
      exact ⟨hint.asStr, by decide⟩
    · cases hurl
  · intro r hr
    exact nofun
  · intro r hr
    cases hr

open Sample in
/-- The unmarked reference becomes the root of a thread that names another. -/
theorem unmarked_takes_root : mixed.root = some rooted ∧
    mixed.inferLegacyMarkers.root = some ((EventReference.new (id 1)).withMarker .root) ∧ ¬mixed.InfersSafely := by
  have hroot : mixed.root = some rooted := by decide +kernel
  have hinferred : mixed.inferLegacyMarkers.root = some ((EventReference.new (id 1)).withMarker .root) := by
    decide +kernel
  refine ⟨hroot, hinferred, fun h => ?_⟩
  have hsame := h.root rooted hroot
  rw [hinferred] at hsame
  cases hsame

end Nula
