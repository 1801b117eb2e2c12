import Nula.Core.Filter
import Nula.Core.Signing
import Nula.Core.Spelling
import Nula.Lib.Classes

/-!
# `Core.TagList` — tag lists that change

A tag list with its lazily built index (`event/tag/list.rs`), and the two operations that thin it out: `dedup`, which
keeps the best tag of each class, and `replace_or_push`, on which `EventBuilder::expiration` (`nips/nip40.rs`) rests.

## Contents
- **The list.** `TagList`, whose cached index is always the index of its items.
- **Deduplication.** `dedup_keepsBest`.
- **Replacement.** `atMostOne_iff`, and from it `deadline_iff`.
-/

namespace Nula

open Std

/-! ## Building tags (`event/tag/tag.rs`) -/

namespace Tag

/-- `Tag::with`. -/
def withArgs (head : TagKind) (args : List String) : Tag := ⟨head.asStr :: args, List.cons_ne_nil _ _⟩

def e (id : EventId) : Tag := withArgs (.singleLetter (.lowercase .E)) [id.toHex]

def d (identifier : String) : Tag := withArgs (.singleLetter (.lowercase .D)) [identifier]

def k (kind : Kind) : Tag := withArgs (.singleLetter (.lowercase .K)) [toString kind.val.toNat]

def len (t : Tag) : Nat := t.values.length

@[simp] theorem content_withArgs (head : TagKind) (args : List String) : (withArgs head args).content = args.head? := by
  cases args <;> rfl

theorem kind_letter (a : Alphabet) (args : List String) :
    (withArgs (.singleLetter (.lowercase a)) args).kind = .singleLetter (.lowercase a) := by
  show TagKind.fromWire (TagKind.singleLetter (.lowercase a)).asStr = .singleLetter (.lowercase a)
  cases a <;> decide

end Tag

/-! ## The list (`event/tag/list.rs`) -/

/-- `Tags`, with the index once it has been asked for; the index is that of the items. -/
structure TagList where
  items : List Tag
  cached : Option TagsIndexes
  fresh : ∀ indexes ∈ cached, indexes = (Tags.mk items).indexes

namespace TagList

/-- `Tags::from_vec`: nothing is indexed yet. -/
def fromVec (items : List Tag) : TagList := ⟨items, none, nofun⟩

/-- `Tags::indexes`: the index, and the list that now holds it. -/
def indexes (t : TagList) : TagsIndexes × TagList :=
  match t.cached with
  | some indexes => (indexes, t)
  | none => ((Tags.mk t.items).indexes, ⟨t.items, some (Tags.mk t.items).indexes, fun _ h => (Option.some.inj h).symm⟩)

/-- **The index is that of the tags**, whether it is made now or was made before. -/
theorem indexes_eq (t : TagList) : t.indexes.1 = (Tags.mk t.items).indexes := by
  unfold indexes
  split
  · rename_i indexes hcached
    exact t.fresh indexes hcached
  · rfl

/-! ### Deduplication -/

/-- Where a tag came first, and where its longest form is. -/
structure DedupVal where
  firstIdx : Nat
  bestIdx : Nat

/-- The head and the value behind it, if there is one. -/
abbrev DedupKey := String × Option String

/-- What tags must agree in to be duplicates: name and value. -/
def dedupKey (t : Tag) : DedupKey := (t.name, t.content)

/-- One tag of the first loop of `dedup`. -/
def dedupTag (items : List Tag) (map : HashMap DedupKey DedupVal) (entry : Tag × Nat) : HashMap DedupKey DedupVal :=
  let val := map.getD (dedupKey entry.1) ⟨entry.2, entry.2⟩
  let bestLen := ((items[val.bestIdx]?).map Tag.len).getD 0
  map.insert (dedupKey entry.1) (if bestLen < entry.1.len then { val with bestIdx := entry.2 } else val)

/-- The places of all keys, in one pass. -/
def dedupMap (items : List Tag) : HashMap DedupKey DedupVal := items.zipIdx.foldl (dedupTag items) ∅

/-- One class of the second loop. -/
def placeBest (items : List Tag) (slots : List (Option Tag)) (val : DedupVal) : List (Option Tag) :=
  match items[val.bestIdx]? with
  | some best => slots.set val.firstIdx (some best)
  | none => slots

/-- `Tags::dedup`; `rank` is the order of the hash map. -/
def dedup (rank : DedupKey → Nat) (t : TagList) : TagList :=
  if t.items.isEmpty then t
  else
    fromVec ((((dedupMap t.items).iter rank).foldl (fun slots entry => placeBest t.items slots entry.2)
      (List.replicate t.items.length none)).reduceOption)

section Dedup

open Classes

variable {items l : List Tag} {m : HashMap DedupKey DedupVal}

/-- What the first loop knows of the tags it has seen. -/
structure Tracks (l : List Tag) (m : HashMap DedupKey DedupVal) : Prop where
  known : ∀ k v, m[k]? = some v → (∃ a, BestAt dedupKey Tag.len l v.bestIdx a ∧ dedupKey a = k) ∧
    (∃ a, l[v.firstIdx]? = some a ∧ dedupKey a = k) ∧ k ∉ (l.take v.firstIdx).map dedupKey
  unknown : ∀ k, m[k]? = none → k ∉ l.map dedupKey

theorem tracks_empty : Tracks [] ∅ where
  known k v h := by
    rw [ExtTreeMap.getElem?_empty] at h
    cases h
  unknown _ _ := List.not_mem_nil

/-- What is in front does not change by what comes behind. -/
theorem take_append_of_le {n : Nat} (h : n ≤ l.length) (x : Tag) : (l ++ [x]).take n = l.take n :=
  List.take_append_of_le_length h

/-- **One tag more**: its key is new, or its form is longer than the longest so far, or it changes nothing. The class
    of the tag is looked at on its own, and any other is as it was. -/
theorem dedupTag_tracks {x : Tag} {rest : List Tag} (hitems : items = l ++ x :: rest) (h : Tracks l m) :
    Tracks (l ++ [x]) (dedupTag items m (x, l.length)) := by
  have hx : items[l.length]? = some x := by
    rw [hitems, List.getElem?_append_right le_rfl, Nat.sub_self]
    rfl
  have hold : ∀ k v, m[k]? = some v → (∃ a, (l ++ [x])[v.firstIdx]? = some a ∧ dedupKey a = k) ∧
      k ∉ ((l ++ [x]).take v.firstIdx).map dedupKey := by
    intro k v hv
    obtain ⟨-, ⟨a, ha, hkey⟩, hfirst⟩ := h.known k v hv
    have hlt := (List.getElem?_eq_some_iff.mp ha).1
    exact ⟨⟨a, (List.getElem?_append_left hlt).trans ha, hkey⟩, by rwa [take_append_of_le hlt.le]⟩
  constructor
  · intro k v hv
    rw [dedupTag, ExtTreeMap.getElem?_insert] at hv
    split at hv
    · -- the class of `x`
      rename_i hcmp
      obtain rfl := LawfulEqCmp.compare_eq_iff_eq.mp hcmp
      obtain rfl := Option.some.inj hv
      cases hm : m[dedupKey x]? with
      | none =>
          have hnew := h.unknown _ hm
          rw [ExtTreeMap.getD_eq_getD_getElem?, hm, Option.getD_none]
          simp only [hx, Option.map_some, Option.getD_some, Nat.lt_irrefl, if_false]
          refine ⟨⟨x, bestAt_new hnew, rfl⟩, ⟨x, List.getElem?_concat_length, rfl⟩, ?_⟩
          rwa [take_append_of_le le_rfl, List.take_length]
      | some v =>
          obtain ⟨⟨a, hbest, hkey⟩, -, -⟩ := h.known _ v hm
          have hlt := (List.getElem?_eq_some_iff.mp hbest.here).1
          have ha : items[v.bestIdx]? = some a := by
            rw [hitems, List.getElem?_append_left hlt]
            exact hbest.here
          rw [ExtTreeMap.getD_eq_getD_getElem?, hm, Option.getD_some]
          simp only [ha, Option.map_some, Option.getD_some]
          have hbest' := hbest.append (x := x)
          obtain ⟨hfirst, hfresh⟩ := hold _ v hm
          by_cases hlonger : a.len < x.len
          · rw [if_pos ⟨hkey.symm, hlonger⟩] at hbest'
            rw [if_pos hlonger]
            exact ⟨⟨x, hbest', rfl⟩, hfirst, hfresh⟩
          · rw [if_neg (fun hboth => hlonger hboth.2)] at hbest'
            rw [if_neg hlonger]
            exact ⟨⟨a, hbest', hkey⟩, hfirst, hfresh⟩
    · -- any other class is as it was
      rename_i hother
      obtain ⟨⟨a, hbest, hkey⟩, -, -⟩ := h.known k v hv
      have hbest' := hbest.append (x := x)
      rw [if_neg (fun hboth => hother (by rw [hboth.1, hkey]; exact Std.compare_self))] at hbest'
      exact ⟨⟨a, hbest', hkey⟩, hold k v hv⟩
  · intro k hk
    rw [dedupTag, ExtTreeMap.getElem?_insert] at hk
    split at hk
    · cases hk
    · rename_i hother
      rw [List.map_append, List.mem_append]
      rintro (hmem | hmem)
      · exact h.unknown k hk hmem
      · rw [List.map_singleton, List.mem_singleton] at hmem
        exact hother (by rw [hmem]; exact Std.compare_self)

/-- What the pass knows at the end, by induction on the tags. -/
theorem dedupMap_tracks (items : List Tag) : Tracks items (dedupMap items) := by
  have hrun : ∀ (rest l : List Tag) (m : HashMap DedupKey DedupVal), items = l ++ rest → Tracks l m →
      Tracks items ((rest.zipIdx l.length).foldl (dedupTag items) m) := by
    intro rest
    induction rest with
    | nil =>
        intro l m hitems h
        rw [hitems, List.append_nil]
        exact h
    | cons x rest ih =>
        intro l m hitems h
        rw [List.zipIdx_cons, List.foldl_cons]
        have hstep := ih (l ++ [x]) _ (by rw [hitems, List.append_assoc]; rfl) (dedupTag_tracks hitems h)
        rwa [List.length_append] at hstep
  exact hrun items [] ∅ rfl tracks_empty

/-- Where a class has its first place, and only there, a tag is put. By induction on the entries: one that has this
    place writes the best tag, any other leaves the slot alone. -/
theorem placed {entries : List (DedupKey × DedupVal)} {slots : List (Option Tag)} {i : Nat} (hi : i < slots.length) :
    (∀ best, (∀ entry ∈ entries, entry.2.firstIdx = i → items[entry.2.bestIdx]? = some best) →
      slots[i]? = some (some best) ∨ (∃ entry ∈ entries, entry.2.firstIdx = i) →
      (entries.foldl (fun slots entry => placeBest items slots entry.2) slots)[i]? = some (some best)) ∧
    ((∀ entry ∈ entries, entry.2.firstIdx ≠ i) →
      (entries.foldl (fun slots entry => placeBest items slots entry.2) slots)[i]? = slots[i]?) := by
  induction entries generalizing slots with
  | nil =>
      refine ⟨fun best _ h => ?_, fun _ => rfl⟩
      rcases h with h | ⟨entry, hentry, -⟩
      · exact h
      · cases hentry
  | cons entry entries ih =>
      have hlength : (placeBest items slots entry.2).length = slots.length := by
        unfold placeBest
        split
        · exact List.length_set
        · rfl
      have hother : entry.2.firstIdx ≠ i → (placeBest items slots entry.2)[i]? = slots[i]? := by
        intro hne
        unfold placeBest
        split
        · exact List.getElem?_set_ne hne
        · rfl
      have hi' : i < (placeBest items slots entry.2).length := hlength ▸ hi
      obtain ⟨ihput, ihleft⟩ := ih hi'
      constructor
      · intro best hsame h
        refine ihput best (fun e he => hsame e (List.mem_cons_of_mem entry he)) ?_
        by_cases hhere : entry.2.firstIdx = i
        · left
          rw [placeBest, hsame entry List.mem_cons_self hhere, hhere]
          exact List.getElem?_set_self hi
        · rw [hother hhere]
          rcases h with h | ⟨e, he, hplace⟩
          · exact Or.inl h
          · rcases List.mem_cons.mp he with rfl | he
            · exact absurd hplace hhere
            · exact Or.inr ⟨e, he, hplace⟩
      · intro hnone
        rw [List.foldl_cons, ihleft (fun e he => hnone e (List.mem_cons_of_mem entry he)),
          hother (hnone entry List.mem_cons_self)]

/-- `dedup` leaves the best tag of each class, whatever order the map has. The order of the entries does not matter,
    since no two of them have the same first place. -/
theorem represents_dedup (rank : DedupKey → Nat) (t : TagList) :
    Represents dedupKey Tag.len t.items (t.dedup rank).items := by
  rw [dedup]
  split
  · rename_i hempty
    rw [List.isEmpty_iff.mp hempty]
    exact ⟨rfl, nofun⟩
  · have htracks := dedupMap_tracks t.items
    have hmem : ∀ k v, (k, v) ∈ (dedupMap t.items).iter rank ↔ (dedupMap t.items)[k]? = some v :=
      fun k v => HashMap.mem_iter
    refine represents_slots ?_ ?_ ?_
    · have hlength : ∀ (entries : List (DedupKey × DedupVal)) (slots : List (Option Tag)),
          (entries.foldl (fun slots entry => placeBest t.items slots entry.2) slots).length = slots.length := by
        intro entries
        induction entries with
        | nil => exact fun _ => rfl
        | cons entry entries ih =>
            intro slots
            rw [List.foldl_cons, ih]
            unfold placeBest
            split
            · exact List.length_set
            · rfl
      rw [hlength, List.length_replicate]
    · intro i a ha hfirst
      have hi : i < t.items.length := (List.getElem?_eq_some_iff.mp ha).1
      cases hm : (dedupMap t.items)[dedupKey a]? with
      | none => exact absurd (List.mem_map_of_mem (List.mem_of_getElem? ha)) (htracks.unknown _ hm)
      | some v =>
          obtain ⟨⟨b, hbest, hkey⟩, ⟨c, hc, hckey⟩, hfresh⟩ := htracks.known _ v hm
          -- the first place of the class of `a` is `i`
          have hplace : v.firstIdx = i := by
            rcases Nat.lt_trichotomy v.firstIdx i with hlt | heq | hgt
            · refine absurd ?_ hfirst
              rw [← hckey]
              exact List.mem_map_of_mem (List.mem_of_getElem? (i := v.firstIdx)
                (by rw [List.getElem?_take_of_lt hlt]; exact hc))
            · exact heq
            · refine absurd ?_ hfresh
              exact List.mem_map_of_mem (List.mem_of_getElem? (i := i)
                (by rw [List.getElem?_take_of_lt hgt]; exact ha))
          refine ⟨b, v.bestIdx, ?_, hkey, hbest⟩
          refine (placed (by rw [List.length_replicate]; exact hi)).1 b (fun entry hentry hsame => ?_)
            (Or.inr ⟨(dedupKey a, v), (hmem _ _).mpr hm, hplace⟩)
          obtain ⟨k, w⟩ := entry
          have hw := (hmem k w).mp hentry
          obtain ⟨-, ⟨d, hd, hdkey⟩, -⟩ := htracks.known k w hw
          rw [hsame, ha] at hd
          obtain rfl := Option.some.inj hd
          obtain rfl := hdkey
          cases hm.symm.trans hw
          exact hbest.here
    · intro i a ha hseen
      have hi : i < t.items.length := (List.getElem?_eq_some_iff.mp ha).1
      rw [(placed (by rw [List.length_replicate]; exact hi)).2, List.getElem?_replicate_of_lt hi]
      rintro ⟨k, v⟩ hentry rfl
      obtain ⟨-, ⟨d, hd, hdkey⟩, hfresh⟩ := htracks.known k v ((hmem k v).mp hentry)
      rw [ha] at hd
      obtain rfl := Option.some.inj hd
      exact hfresh (hdkey ▸ hseen)

/-- Whether a filter for a letter matches depends on the classes only. -/
theorem hasTag_congr {r : List Tag} (h : ∀ k, k ∈ l.map dedupKey ↔ k ∈ r.map dedupKey) (letter : SingleLetterTag)
    (values : List String) : (Tags.mk l).hasTag letter values = (Tags.mk r).hasTag letter values := by
  have hclass : ∀ items : List Tag, (Tags.mk items).hasTag letter values = true ↔
      ∃ k ∈ items.map dedupKey, (SingleLetterTag.parse k.1).toOption = some letter ∧ ∃ v ∈ values, k.2 = some v := by
    intro items
    rw [Tags.hasTag_iff]
    constructor
    · rintro ⟨tag, htag, hletter, hvalue⟩
      exact ⟨dedupKey tag, List.mem_map_of_mem htag, hletter, hvalue⟩
    · rintro ⟨k, hk, hletter, hvalue⟩
      obtain ⟨tag, htag, rfl⟩ := List.mem_map.mp hk
      exact ⟨tag, htag, hletter, hvalue⟩
  rw [Bool.eq_iff_iff, hclass, hclass]
  simp only [h]

theorem dedup_cached (rank : DedupKey → Nat) {t : TagList} (h : t.items ≠ []) : (t.dedup rank).cached = none := by
  rw [dedup, if_neg (fun hempty => h (List.isEmpty_iff.mp hempty))]
  rfl

/-- A second pass changes nothing. -/
theorem dedup_dedup (rank rank' : DedupKey → Nat) (t : TagList) : (t.dedup rank).dedup rank' = t.dedup rank := by
  have hitems : ((t.dedup rank).dedup rank').items = (t.dedup rank).items :=
    (represents_dedup rank' _).unique (represents_dedup rank t).self
  by_cases hempty : t.items = []
  · have hsame : t.dedup rank = t := by
      rw [dedup, if_pos (List.isEmpty_iff.mpr hempty)]
    rw [hsame, dedup, if_pos (List.isEmpty_iff.mpr hempty)]
  · have hcached := dedup_cached rank hempty
    by_cases hnone : (t.dedup rank).items = []
    · rw [dedup.eq_1 rank', if_pos (List.isEmpty_iff.mpr hnone)]
    · have hcached' := dedup_cached rank' hnone
      revert hitems hcached hcached'
      generalize t.dedup rank = d
      generalize d.dedup rank' = d'
      obtain ⟨items, cached, fresh⟩ := d
      obtain ⟨items', cached', fresh'⟩ := d'
      rintro rfl rfl rfl
      rfl

end Dedup

/-- **`dedup` keeps the best of each class**: one tag for each head and value, in the order of first occurrence, each
    the earliest among the longest of its class. The index is that of the new list, a second pass changes nothing, and
    every filter for letters matches as before.

    The pass over the tags tracks for each key its first place and its longest form (`dedupMap_tracks`); what is
    rebuilt from that represents the classes (`represents_dedup`), and representatives are unique, whatever the
    order of the map. -/
theorem dedup_keepsBest (t : TagList) (rank rank' : DedupKey → Nat) :
    (t.dedup rank).items.map dedupKey = (t.items.map dedupKey).eraseDups ∧
    (∀ tag ∈ (t.dedup rank).items, ∃ before behind, t.items = before ++ tag :: behind ∧
      (∀ o ∈ before, dedupKey o = dedupKey tag → o.len < tag.len) ∧
      ∀ o ∈ behind, dedupKey o = dedupKey tag → o.len ≤ tag.len) ∧
    (t.dedup rank).indexes.1 = (Tags.mk (t.dedup rank).items).indexes ∧
    (t.dedup rank).dedup rank' = t.dedup rank ∧
    ∀ (filters : IndexMap SingleLetterTag (List String)) (event : Event),
      Filter.genericTagsMatch filters { event with tags := ⟨(t.dedup rank).items⟩ } =
        Filter.genericTagsMatch filters { event with tags := ⟨t.items⟩ } := by
  have hrep := represents_dedup rank t
  refine ⟨hrep.keys, fun tag htag => ?_, indexes_eq _, dedup_dedup rank rank' t, fun filters event => ?_⟩
  · obtain ⟨i, hi⟩ := hrep.best tag htag
    obtain ⟨hlt, hget⟩ := List.getElem?_eq_some_iff.mp hi.here
    refine ⟨t.items.take i, t.items.drop (i + 1), ?_, fun o ho hkey => ?_, fun o ho hkey => ?_⟩
    · rw [← hget, List.cons_getElem_drop_succ, List.take_append_drop]
    · obtain ⟨j, hj⟩ := List.mem_iff_getElem?.mp ho
      rw [List.getElem?_take] at hj
      split at hj
      · exact hi.before j ‹_› o hj hkey
      · cases hj
    · obtain ⟨j, hj⟩ := List.mem_iff_getElem?.mp ho
      rw [List.getElem?_drop] at hj
      exact hi.behind (i + 1 + j) (by omega) o hj hkey
  · have hclasses : ∀ k, k ∈ (t.dedup rank).items.map dedupKey ↔ k ∈ t.items.map dedupKey := by
      intro k
      rw [hrep.keys]
      exact (Classes.nodup_eraseDups _).2 k
    unfold Filter.genericTagsMatch
    refine congrArg (fun p => filters.entries.all p) (funext fun filter => ?_)
    exact hasTag_congr hclasses filter.1 filter.2

example : ((fromVec [⟨["t", "test"], by decide⟩, ⟨["t", "test1"], by decide⟩,
    ⟨["t", "test", "wss://relay.damus.io"], by decide⟩]).dedup (fun _ => 0)).items.map Tag.values =
      [["t", "test", "wss://relay.damus.io"], ["t", "test1"]] := by
  decide +kernel

end TagList

/-! ### Replacement -/

/-- The loop of `Tags::replace_or_push`. -/
def replaceFirst (kind : TagKind) (tag : Tag) : List Tag → List Tag
  | [] => [tag]
  | t :: rest => if t.kind = kind then tag :: rest else t :: replaceFirst kind tag rest

/-- `Tags::replace_or_push`. -/
def TagList.replaceOrPush (kind : TagKind) (tag : Tag) (t : TagList) : TagList :=
  .fromVec (replaceFirst kind tag t.items)

/-- The tags with this head. -/
def ofKind (kind : TagKind) (items : List Tag) : List Tag := items.filter (fun t => t.kind = kind)

/-- All others. -/
def notOfKind (kind : TagKind) (items : List Tag) : List Tag := items.filter (fun t => t.kind ≠ kind)

section Replace

variable {kind : TagKind} {tag : Tag} (htag : tag.kind = kind) (items : List Tag)

include htag

/-- The first tag with the head makes room for the new one; if there is none, the new one comes last. -/
theorem ofKind_replaceFirst : ofKind kind (replaceFirst kind tag items) = tag :: (ofKind kind items).tail := by
  induction items with
  | nil => simp [replaceFirst, ofKind, htag]
  | cons t rest ih =>
      rw [replaceFirst]
      split
      · rename_i ht
        simp [ofKind, ht, htag]
      · rename_i ht
        unfold ofKind at ih ⊢
        rw [List.filter_cons_of_neg (by simpa using ht), ih, List.filter_cons_of_neg (by simpa using ht)]

/-- Replacing a tag leaves those of other kinds as they are. -/
theorem notOfKind_replaceFirst : notOfKind kind (replaceFirst kind tag items) = notOfKind kind items := by
  induction items with
  | nil => simp [replaceFirst, notOfKind, htag]
  | cons t rest ih =>
      rw [replaceFirst]
      split
      · rename_i ht
        simp [notOfKind, ht, htag]
      · rename_i ht
        unfold notOfKind at ih ⊢
        rw [List.filter_cons_of_pos (by simpa using ht), ih, List.filter_cons_of_pos (by simpa using ht)]

/-- Replacing leaves as many tags of the kind as there were, and at least one. -/
theorem length_ofKind_replaceFirst :
    (ofKind kind (replaceFirst kind tag items)).length = max 1 (ofKind kind items).length := by
  rw [ofKind_replaceFirst htag, List.length_cons, List.length_tail]
  omega

end Replace

theorem findFirst_eq_head? (kind : TagKind) (items : List Tag) :
    (Tags.mk items).findFirst kind = (ofKind kind items).head? := by
  rw [Tags.findFirst, ofKind, List.head?_filter]

/-! ## Deadlines (`nips/nip40.rs`) -/

/-- The kind of the `expiration` tag. -/
def expirationKind : TagKind := TagKind.fromWire "expiration"

/-- The tag of a deadline. -/
def expirationTag (ts : Timestamp) : Tag := .withArgs expirationKind [toString ts.toNat]

/-- `EventBuilder::expiration`. -/
def EventBuilder.expiration (ts : Timestamp) (b : EventBuilder) : EventBuilder :=
  { b with tags := ⟨((TagList.fromVec b.tags.items).replaceOrPush expirationKind (expirationTag ts)).items⟩ }

theorem kind_expirationTag (ts : Timestamp) : (expirationTag ts).kind = expirationKind := by
  rfl

/-- The reader takes the first deadline, which is the one that was set. -/
theorem expiration_of_replaced {event : Event} {ts : Timestamp} {items : List Tag}
    (h : event.tags = ⟨replaceFirst expirationKind (expirationTag ts) items⟩) : event.expiration = .ok (some ts) := by
  have hfirst : event.tags.findFirst (TagKind.fromWire "expiration") = some (expirationTag ts) := by
    rw [h]
    show (Tags.mk _).findFirst expirationKind = _
    rw [findFirst_eq_head?, ofKind_replaceFirst (kind_expirationTag ts), List.head?_cons]
  unfold Event.expiration
  rw [hfirst]
  simp only [expirationTag, Tag.content_withArgs, List.head?_cons, parseU64_toString]

/-- **When a deadline is the only one.** An event signed after `expiration(t)` carries one deadline, which is read as
    `t`, and all other tags as they were, exactly when the builder had at most one before; and `replace_or_push` leaves
    at most one tag of any head exactly when there was at most one.

    `replace_or_push` leaves as many tags of a head as there were, and at least one (`length_ofKind_replaceFirst`),
    and the first of them is the new one. -/
theorem deadline_iff (crypto : KeyCrypto) (clock : Clock) (aux : Bytes) (keys : Keys) (b : EventBuilder)
    (ts : Timestamp) (event : Event) (h : (b.expiration ts).signWithKeys crypto clock aux keys = .ok event) :
    ((ofKind expirationKind event.tags.items).length = 1 ∧ event.expiration = .ok (some ts) ∧
        notOfKind expirationKind event.tags.items = notOfKind expirationKind b.tags.items ↔
      (ofKind expirationKind b.tags.items).length ≤ 1) ∧
    ∀ (t : TagList) (kind : TagKind) (tag : Tag), tag.kind = kind →
      ((ofKind kind (t.replaceOrPush kind tag).items).length ≤ 1 ↔ (ofKind kind t.items).length ≤ 1) := by
  obtain ⟨-, -, htags, -⟩ := EventBuilder.signWithKeys_eq_ok h
  have hreplaced : event.tags = ⟨replaceFirst expirationKind (expirationTag ts) b.tags.items⟩ := htags
  have hcount := length_ofKind_replaceFirst (kind_expirationTag ts) b.tags.items
  refine ⟨⟨fun hone => ?_, fun hone => ⟨?_, expiration_of_replaced hreplaced, ?_⟩⟩, fun t kind tag htag => ?_⟩
  · rw [hreplaced, hcount] at hone
    omega
  · rw [hreplaced, hcount]
    omega
  · rw [hreplaced, notOfKind_replaceFirst (kind_expirationTag ts)]
  · show (ofKind kind (replaceFirst kind tag t.items)).length ≤ 1 ↔ _
    rw [length_ofKind_replaceFirst htag]
    omega

/-! ## Sample values

Carol's (secret key 3) builders have one deadline and two, and get another; the events with their real ids and
signatures. -/

namespace Sample

theorem length_goodForAll : (List.replicate 64 (0 : UInt8)).length = 64 := by decide

/-- A signature that is taken for good. -/
def goodForAll : Signature := ⟨List.replicate 64 0, length_goodForAll⟩

/-- Carol's keys. -/
def carolKeys : Keys := ⟨⟨List.replicate 31 0 ++ [3], by decide, by decide⟩, carol⟩

/-- Primitives that know these digests and signatures; every other digest is zero, and one signature is good for
    everything. -/
def knowing (digests : List (Bytes × EventId)) (signed : List Event) : Curve where
  sha256 b := ((digests.find? (fun d => d.1 = b)).map (fun d => d.2.bytes)).getD (List.replicate 32 0)
  sha256_size b := by
    cases digests.find? (fun d => d.1 = b) with
    | none => simp
    | some d => exact d.2.size
  verifySchnorr sig message pubkey :=
    sig = goodForAll || signed.any (fun e => e.sig = sig && e.id.bytes = message && e.pubkey = pubkey)
  signSchnorr _ _ message := ((signed.find? (fun e => e.id.bytes = message)).map Event.sig).getD goodForAll
  nip44Seal _ _ _ text := text
  nip44Open _ _ payload := .ok payload
  nip04Seal _ _ _ text := text
  nip04Open _ _ payload := .ok payload
  xOnlyPublicKey _ := carol

/-- What carol signs verifies. -/
theorem verify_knowing {digests : List (Bytes × EventId)} {signed : List Event} (h : ∀ e ∈ signed, e.pubkey = carol)
    (secret : SecretKey) (aux message : Bytes) : (knowing digests signed).verifySchnorr
      ((knowing digests signed).signSchnorr secret aux message) message carol = true := by
  simp only [knowing]
  cases hfind : signed.find? (fun e => e.id.bytes = message) with
  | none => rfl
  | some e =>
      have he := List.mem_of_find?_eq_some hfind
      have hid := List.find?_some hfind
      refine (Bool.or_eq_true _ _).mpr (Or.inr (List.any_eq_true.mpr ⟨e, he, ?_⟩))
      simpa [h e he] using hid

/-- The note with two deadlines, of which the first was replaced. -/
def deadlined : Event where
  id := ⟨hexBytes "920efbaca779d86aa1f24a4b1d3d655ad32d3cdc4f10484195254172a3a09922", by decide +kernel⟩
  pubkey := carol
  createdAt := 1700000000
  kind := ⟨1⟩
  tags := ⟨[expirationTag 300, expirationTag 200]⟩
  content := "note"
  sig := ⟨hexBytes ("84315116a945e147cfcfda43652c3ea04e849ac525cf6bc5b9d4c26e2713368e" ++
    "56d38ff5378b68d529d729677155937dfe3f0df65804d8c484f6f068a633fcb1"), by decide +kernel⟩

/-- The same with another tag, and one deadline. -/
def extended : Event where
  id := ⟨hexBytes "d43c9bebcd38d7855148e929b291af81acb2d3a1ed5f09cf39ad99010d906fbf", by decide +kernel⟩
  pubkey := carol
  createdAt := 1700000000
  kind := ⟨1⟩
  tags := ⟨[.withArgs (.singleLetter (.lowercase .T)) ["late"], expirationTag 300]⟩
  content := "note"
  sig := ⟨hexBytes ("e9536c41a3627baba26dda811f9ed25c14dcac0d651acf4cfb9c418e81ab2c5f" ++
    "a282cdcec022d46f415823928c8fe639b697bff9cce3ca6dd79ae1768aad09de"), by decide +kernel⟩

/-- The digests of both notes, and their signatures. -/
def deadlineCrypto : KeyCrypto :=
  (knowing [(canonicalBytes carol 1700000000 ⟨1⟩ deadlined.tags "note", deadlined.id),
    (canonicalBytes carol 1700000000 ⟨1⟩ extended.tags "note", extended.id)] [deadlined, extended]).toKeyCrypto

/-- A note with two deadlines. -/
def twoDeadlines : EventBuilder := ⟨⟨1⟩, "note", ⟨[expirationTag 100, expirationTag 200]⟩, some 1700000000⟩

/-- A note with one, behind another tag. -/
def oneDeadline : EventBuilder :=
  ⟨⟨1⟩, "note", ⟨[.withArgs (.singleLetter (.lowercase .T)) ["late"], expirationTag 100]⟩, some 1700000000⟩

/-- The note with one deadline is signed with the new one. -/
theorem oneDeadline_signed : (oneDeadline.expiration 300).signWithKeys deadlineCrypto (.error "") [] carolKeys =
    .ok extended := by
  decide +kernel

/-- The note with two deadlines is signed with both. -/
theorem twoDeadlines_signed : (twoDeadlines.expiration 300).signWithKeys deadlineCrypto (.error "") [] carolKeys =
    .ok deadlined := by
  decide +kernel

end Sample

open Sample in
/-- The second deadline stays. -/
theorem second_deadline_stays :
    (twoDeadlines.expiration 300).signWithKeys deadlineCrypto (.error "") [] carolKeys = .ok deadlined ∧
      (ofKind expirationKind deadlined.tags.items).length = 2 :=
  ⟨twoDeadlines_signed, by decide +kernel⟩

open Sample in
/-- The deadline is put off. -/
theorem deadline_iff_signed :
    (ofKind expirationKind extended.tags.items).length = 1 ∧ extended.expiration = .ok (some 300) ∧
      notOfKind expirationKind extended.tags.items = notOfKind expirationKind oneDeadline.tags.items :=
  (deadline_iff deadlineCrypto (.error "") [] carolKeys oneDeadline 300 extended oneDeadline_signed).1.mpr
    (by decide +kernel)

end Nula
