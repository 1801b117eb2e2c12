import Nula.Gossip.Routes

/-!
# `Gossip.BreakDown` — a filter split over the relays of its keys

`break_down` (`filter.rs`): the filter is handed to the relays of the keys it names, narrowed to the keys each of
them serves. What a relay is asked for is exactly what it serves of the filter (`breakDown_sound`). A key without
a relay is in none of the parts, so its events are lost as soon as some other key is routed
(`breakDown_covers_iff`).
-/

namespace Nula

/-! ## Filters that match something -/

namespace Filter

/-- No slot of the filter is empty, and its window is not reversed. -/
structure Satisfiable (f : Filter) : Prop where
  ids : f.ids ≠ some []
  authors : f.authors ≠ some []
  kinds : f.kinds ≠ some []
  window : ∀ s t, f.since = some s → f.until = some t → s ≤ t
  tags : ∀ c ∈ f.genericTags.entries, c.2 ≠ []

/-- A tag with a single-letter head. -/
def letterTag (letter : SingleLetterTag) (value : String) : Tag := ⟨[String.singleton letter.asChar, value], by simp⟩

theorem singleLetterTag_letterTag (letter : SingleLetterTag) (value : String) :
    (letterTag letter value).singleLetterTag = some letter := by
  unfold Tag.singleLetterTag
  rw [show (letterTag letter value).name = String.singleton letter.asChar from rfl, SingleLetterTag.parse_asChar]
  rfl

theorem content_letterTag (letter : SingleLetterTag) (value : String) :
    (letterTag letter value).content = some value := rfl

/-- An event by the author with one tag for each constraint. -/
def craft (f : Filter) (author : PublicKey) (pick : SingleLetterTag × List String → String) : Event :=
  { Sample.event 0 author (f.since.getD (f.until.getD 0)) 1 [] with
    id := (f.ids.bind List.head?).getD (Sample.id 0)
    kind := (f.kinds.bind List.head?).getD ⟨1⟩
    tags := ⟨f.genericTags.entries.map (fun c => letterTag c.1 (pick c))⟩ }

variable {f : Filter} {author : PublicKey} {pick : SingleLetterTag × List String → String}

/-- The first of a list that is not empty is in it. -/
theorem getD_head_mem {α : Type} {slot : Option (List α)} {l : List α} {d : α} (hne : slot ≠ some [])
    (h : slot = some l) : (slot.bind List.head?).getD d ∈ l := by
  subst h
  cases l with
  | nil => exact absurd rfl hne
  | cons a rest => simp

/-- What a crafted event is tagged with: of each letter that is asked for, the value that was picked. -/
theorem craft_hasTag_iff {letter : SingleLetterTag} {values : List String} :
    (f.craft author pick).tags.hasTag letter values = true ↔
      ∃ c ∈ f.genericTags.entries, c.1 = letter ∧ pick c ∈ values := by
  rw [Tags.hasTag_iff]
  constructor
  · rintro ⟨tag, htag, hletter, v, hv, hcontent⟩
    obtain ⟨c, hc, rfl⟩ := List.mem_map.mp htag
    rw [singleLetterTag_letterTag, Option.some.injEq] at hletter
    rw [content_letterTag, Option.some.injEq] at hcontent
    exact ⟨c, hc, hletter, hcontent ▸ hv⟩
  · rintro ⟨c, hc, rfl, hp⟩
    exact ⟨letterTag c.1 (pick c), List.mem_map_of_mem hc, singleLetterTag_letterTag c.1 (pick c), pick c, hp,
      content_letterTag c.1 (pick c)⟩

/-- **A filter that can be satisfied admits what is crafted from it**: the author and the picked values are among
    those it asks for, and time and kind are taken from it. -/
theorem admits_craft (h : f.Satisfiable) (hauthor : ∀ authors, f.authors = some authors → author ∈ authors)
    (hpick : ∀ c ∈ f.genericTags.entries, pick c ∈ c.2) : f.admits (f.craft author pick) = true := by
  rw [admits_iff]
  refine ⟨fun ids hids => getD_head_mem h.ids hids, hauthor, fun kinds hkinds => getD_head_mem h.kinds hkinds,
    ?_, ?_, ?_⟩
  · intro s hs
    simp [craft, Sample.event, hs]
  · intro t ht
    cases hs : f.since with
    | none => simp [craft, Sample.event, hs, ht]
    | some s => simpa [craft, Sample.event, hs] using h.window s t hs ht
  · intro c hc
    exact craft_hasTag_iff.mpr ⟨c, hc, rfl, hpick c hc⟩

/-- A filter that matches an event is satisfiable. -/
theorem satisfiable_of_admits {e : Event} (h : f.admits e = true) : f.Satisfiable := by
  obtain ⟨hids, hauthors, hkinds, hsince, huntil, htags⟩ := (admits_iff f e).mp h
  refine ⟨?_, ?_, ?_, ?_, ?_⟩
  · intro h0
    exact absurd (hids [] h0) List.not_mem_nil
  · intro h0
    exact absurd (hauthors [] h0) List.not_mem_nil
  · intro h0
    exact absurd (hkinds [] h0) List.not_mem_nil
  · intro s t hs ht
    exact UInt64.le_trans (hsince s hs) (huntil t ht)
  · intro c hc h0
    obtain ⟨tag, _, _, v, hv, _⟩ := (Tags.hasTag_iff _ _ _).mp (htags c hc)
    rw [h0] at hv
    exact absurd hv List.not_mem_nil

end Filter

namespace Gossip

open Std

/-! ## `break_down` -/

/-- `p_tag`. -/
def pTag : SingleLetterTag := .lowercase .P

/-- The values of the `#p` slot. -/
def pValues (f : Filter) : Option (List String) := f.genericTags.get pTag

inductive BrokenDownFilters where
  | perRelay (filters : HashMap RelayUrl Filter)
  | orphan (filter : Filter)
  | generic (filter : Filter)

/-- `pattern_needs_dm`. -/
def patternNeedsDm (f : Filter) : Bool :=
  let pPresent := (pValues f).any (fun v => !v.isEmpty)
  match f.kinds, pPresent with
  | some kinds, p => Kind.giftWrap ∈ kinds || (kinds.isEmpty && p)
  | none, p => p

/-- Whose relays are asked: where the authors write, or where the recipients read. -/
inductive Direction where
  | outbox
  | inbox

variable (urls : UrlCrate)

/-- The relays of one user in a direction. -/
def directional (direction : Direction) (needsDm : Bool) (options : GossipOptions) (routes : UserRoutes) :
    HashSet RelayUrl :=
  let relays := match direction with
    | .outbox => outbox urls options routes
    | .inbox => inbox urls options routes
  if needsDm then relays ∪ dmRelays urls options routes else relays

/-- The keys of a list, in order. -/
def keySet (keys : List PublicKey) : BTreeSet PublicKey := keys.foldl (fun s k => s.insert k) ∅

namespace Inner

variable {D : Type}

/-- `collect_directional`. -/
def collectDirectional (direction : Direction) (needsDm : Bool) (keys : BTreeSet PublicKey) (inner : Inner D) :
    HashMap RelayUrl (BTreeSet PublicKey) :=
  let snapshot := keys.toList.filterMap (fun pk =>
    (inner.routes[pk]?).map (fun routes => (pk, directional urls direction needsDm inner.options routes)))
  snapshot.foldl (fun out (pk, relays) => relays.toList.foldl (fun out url => Buckets.add out url pk) out) ∅

/-- One user of `collect_union_relays`. -/
def addRelays (needsDm : Bool) (inner : Inner D) (acc : BTreeSet RelayUrl) (pk : PublicKey) : BTreeSet RelayUrl :=
  match inner.routes[pk]? with
  | none => acc
  | some routes =>
      let acc := acc ∪ outbox urls inner.options routes ∪ inbox urls inner.options routes
      if needsDm then acc ∪ Gossip.dmRelays urls inner.options routes else acc

/-- `collect_union_relays`. -/
def collectUnionRelays (needsDm : Bool) (targets : BTreeSet PublicKey) (inner : Inner D) : BTreeSet RelayUrl :=
  targets.toList.foldl (addRelays urls needsDm inner) ∅

end Inner

/-- `narrow_authors`. -/
def narrowAuthors (f : Filter) (perRelay : HashMap RelayUrl (BTreeSet PublicKey)) : HashMap RelayUrl Filter :=
  perRelay.map (fun _ pks => { f with authors := some pks.toList })

/-- `narrow_p_tags`. -/
def narrowPTags (f : Filter) (perRelay : HashMap RelayUrl (BTreeSet PublicKey)) : HashMap RelayUrl Filter :=
  perRelay.map (fun _ pks =>
    { f with genericTags := f.genericTags.insert pTag (pks.toList.map PublicKey.toHex) })

/-- Every relay is handed the whole filter. -/
def everyRelay (f : Filter) (relays : BTreeSet RelayUrl) : HashMap RelayUrl Filter :=
  relays.toList.foldl (fun map url => map.insert url f) ∅

/-- `break_down`. -/
def Inner.breakDown {D : Type} (inner : Inner D) (f : Filter) : BrokenDownFilters :=
  let authors := f.authors.map keySet
  let pPubkeys := (pValues f).map (fun values =>
    keySet (values.filterMap (fun s => (PublicKey.parse s).toOption)))
  let needsDm := patternNeedsDm f
  -- who writes is read from where they write, who is named from where they read
  match authors, pPubkeys with
  | some authors, none =>
      let perRelay := inner.collectDirectional urls .outbox needsDm authors
      if perRelay.isEmpty then .orphan f else .perRelay (narrowAuthors f perRelay)
  | none, some pSet =>
      let perRelay := inner.collectDirectional urls .inbox needsDm pSet
      if perRelay.isEmpty then .orphan f else .perRelay (narrowPTags f perRelay)
  | some authors, some pSet =>
      -- with both, the filter goes out whole
      let relays := inner.collectUnionRelays urls needsDm (authors ∪ pSet)
      if relays.isEmpty then .orphan f else .perRelay (everyRelay f relays)
  | none, none => .generic f

/-! ## The filter apart from its keys -/

/-- The filters differ in their authors and their `#p` slot at most. -/
structure SharesRest (part f : Filter) : Prop where
  ids : part.ids = f.ids
  kinds : part.kinds = f.kinds
  since : part.since = f.since
  «until» : part.until = f.until
  limit : part.limit = f.limit
  search : part.search = f.search
  tags : ∀ letter, letter ≠ pTag → part.genericTags.get letter = f.genericTags.get letter

namespace SharesRest

variable {part f : Filter} {e : Event}

theorem refl (f : Filter) : SharesRest f f := ⟨rfl, rfl, rfl, rfl, rfl, rfl, fun _ _ => rfl⟩

theorem symm (h : SharesRest part f) : SharesRest f part :=
  ⟨h.ids.symm, h.kinds.symm, h.since.symm, h.until.symm, h.limit.symm, h.search.symm,
    fun letter hl => (h.tags letter hl).symm⟩

/-- An event that passes the rest passes the part once it passes the part's own keys. -/
theorem admits (h : SharesRest part f) (he : f.admits e = true)
    (hauthors : ∀ keys, part.authors = some keys → e.pubkey ∈ keys)
    (hp : ∀ values, pValues part = some values → e.tags.hasTag pTag values = true) : part.admits e = true := by
  obtain ⟨hids, _, hkinds, hsince, huntil, htags⟩ := (Filter.admits_iff f e).mp he
  rw [Filter.admits_iff, h.ids, h.kinds, h.since, h.until]
  refine ⟨hids, hauthors, hkinds, hsince, huntil, ?_⟩
  rintro ⟨letter, values⟩ hc
  have hget : part.genericTags.get letter = some values := IndexMap.get_eq_some_iff.mpr hc
  by_cases hl : letter = pTag
  · subst hl
    exact hp values hget
  · rw [h.tags letter hl] at hget
    exact htags (letter, values) (IndexMap.get_eq_some_iff.mp hget)

theorem withAuthors (f : Filter) (keys : List PublicKey) : SharesRest { f with authors := some keys } f :=
  ⟨rfl, rfl, rfl, rfl, rfl, rfl, fun _ _ => rfl⟩

theorem withPValues (f : Filter) (values : List String) :
    SharesRest { f with genericTags := f.genericTags.insert pTag values } f :=
  ⟨rfl, rfl, rfl, rfl, rfl, rfl, fun _ hl => IndexMap.get_insert_of_ne _ _ hl⟩

end SharesRest

theorem pValues_insert (f : Filter) (values : List String) :
    pValues { f with genericTags := f.genericTags.insert pTag values } = some values :=
  IndexMap.get_insert_self _ _ _

/-! ## The relays of a key -/

theorem mem_keySet {keys : List PublicKey} {k : PublicKey} : k ∈ keySet keys ↔ k ∈ keys := by
  rw [keySet, Buckets.mem_foldl_insert]
  simp

/-- The `#p` values are public keys in lowercase hex. -/
def HexKeys (f : Filter) : Prop := ∀ values, pValues f = some values → ∀ v ∈ values, ∃ k : PublicKey, v = k.toHex

/-- Where all recipients are hex, parsing them loses none. -/
theorem HexKeys.mem_iff {f : Filter} (h : HexKeys f) {values : List String} (hv : pValues f = some values)
    (k : PublicKey) :
    k ∈ keySet (values.filterMap (fun s => (PublicKey.parse s).toOption)) ↔ k.toHex ∈ values := by
  rw [mem_keySet, List.mem_filterMap]
  constructor
  · rintro ⟨v, hmem, hk⟩
    obtain ⟨k', rfl⟩ := h values hv v hmem
    rw [PublicKey.parse_toHex] at hk
    obtain rfl : k' = k := Option.some.inj hk
    exact hmem
  · intro hmem
    refine ⟨k.toHex, hmem, ?_⟩
    rw [PublicKey.parse_toHex]
    rfl

namespace Inner

variable {D : Type}

/-- The relays a key is asked for at. -/
def served (direction : Direction) (needsDm : Bool) (inner : Inner D) (pk : PublicKey) : HashSet RelayUrl :=
  inner.relaysOf (directional urls direction needsDm) pk

variable {inner : Inner D} {needsDm : Bool} {pk : PublicKey} {r : RelayUrl}

/-- An author is served where they write, and on their message relays if those are needed. -/
theorem mem_served_outbox : r ∈ inner.served urls .outbox needsDm pk ↔
    r ∈ inner.outboxRelays urls pk ∨ (needsDm = true ∧ r ∈ inner.dmRelays urls pk) := by
  unfold served outboxRelays dmRelays relaysOf directional
  cases inner.routes[pk]? with
  | none => simp
  | some routes => cases needsDm <;> simp

/-- A recipient is served where they read, and on their message relays if those are needed. -/
theorem mem_served_inbox : r ∈ inner.served urls .inbox needsDm pk ↔
    r ∈ inner.inboxRelays urls pk ∨ (needsDm = true ∧ r ∈ inner.dmRelays urls pk) := by
  unfold served inboxRelays dmRelays relaysOf directional
  cases inner.routes[pk]? with
  | none => simp
  | some routes => cases needsDm <;> simp

theorem served_allowed {direction : Direction} (h : r ∈ inner.served urls direction needsDm pk) :
    inner.options.allowed.isAllowed urls r = true := by
  cases direction with
  | outbox =>
      rcases (mem_served_outbox urls).mp h with h | h
      · exact outboxRelays_allowed urls h
      · exact dmRelays_allowed urls h.2
  | inbox =>
      rcases (mem_served_inbox urls).mp h with h | h
      · exact inboxRelays_allowed urls h
      · exact dmRelays_allowed urls h.2

/-! ## What is collected -/

/-- The collected map relates a relay to the keys it serves. -/
theorem holds_collectDirectional {direction : Direction} {keys : BTreeSet PublicKey} :
    Buckets.Holds (inner.collectDirectional urls direction needsDm keys) r pk ↔
      pk ∈ keys ∧ r ∈ inner.served urls direction needsDm pk := by
  have hrelay : ∀ (p : PublicKey × HashSet RelayUrl) (out : HashMap RelayUrl (BTreeSet PublicKey)),
      Buckets.Holds (p.2.toList.foldl (fun out url => Buckets.add out url p.1) out) r pk ↔
        Buckets.Holds out r pk ∨ (p.1 = pk ∧ r ∈ p.2) := by
    intro p out
    rw [Buckets.foldl_iff (P := fun out => Buckets.Holds out r pk) (fun out url => Buckets.holds_add out url p.1 r pk)]
    simp [and_comm]
  rw [collectDirectional,
    Buckets.foldl_iff (P := fun out => Buckets.Holds out r pk) (fun out p => hrelay p out)]
  simp only [Buckets.not_holds_empty, false_or, List.mem_filterMap, Option.map_eq_some_iff, served, mem_relaysOf,
    ExtTreeSet.mem_toList]
  constructor
  · rintro ⟨_, ⟨k, hk, routes, hroutes, rfl⟩, rfl, hr⟩
    exact ⟨hk, routes, hroutes, hr⟩
  · rintro ⟨hk, routes, hroutes, hr⟩
    exact ⟨(pk, _), ⟨pk, hk, routes, hroutes, rfl⟩, rfl, hr⟩

theorem inhabited_collectDirectional {direction : Direction} {keys : BTreeSet PublicKey} :
    Buckets.Inhabited (inner.collectDirectional urls direction needsDm keys) := by
  refine Buckets.foldl_keeps ?_ _ Buckets.inhabited_empty
  rintro out ⟨pk, relays⟩ hout
  exact Buckets.foldl_keeps (P := Buckets.Inhabited) (fun out url h => Buckets.inhabited_add h url pk)
    relays.toList hout

/-- Every relay of the union is a relay of some key. -/
theorem union_allowed {targets : BTreeSet PublicKey} (h : r ∈ inner.collectUnionRelays urls needsDm targets) :
    inner.options.allowed.isAllowed urls r = true := by
  have hstep : ∀ (acc : BTreeSet RelayUrl) (k : PublicKey),
      (r ∈ acc → inner.options.allowed.isAllowed urls r = true) →
      r ∈ addRelays urls needsDm inner acc k → inner.options.allowed.isAllowed urls r = true := by
    intro acc k hacc hr
    unfold addRelays at hr
    split at hr
    · exact hacc hr
    rename_i routes _
    have hunion : r ∈ acc ∪ outbox urls inner.options routes ∪ inbox urls inner.options routes →
        inner.options.allowed.isAllowed urls r = true := by
      intro h
      rw [ExtTreeSet.mem_union_iff, ExtTreeSet.mem_union_iff] at h
      exact h.elim (fun h => h.elim hacc (select_allowed urls)) (select_allowed urls)
    split at hr
    · rcases ExtTreeSet.mem_union_iff.mp hr with hr | hr
      · exact hunion hr
      · exact ((mem_dmRelays urls).mp hr).2
    · exact hunion hr
  exact Buckets.foldl_keeps (P := fun acc : BTreeSet RelayUrl =>
    r ∈ acc → inner.options.allowed.isAllowed urls r = true) hstep targets.toList
    (fun h => absurd h ExtTreeSet.not_mem_empty) h

end Inner

theorem getElem?_everyRelay {f : Filter} {relays : BTreeSet RelayUrl} {r : RelayUrl} {part : Filter} :
    (everyRelay f relays)[r]? = some part ↔ part = f ∧ r ∈ relays := by
  have hmem : r ∈ everyRelay f relays ↔ r ∈ relays := by
    have hstep : ∀ (map : HashMap RelayUrl Filter) (url : RelayUrl),
        r ∈ map.insert url f ↔ r ∈ map ∨ url = r := by
      intro map url
      rw [ExtTreeMap.mem_insert, LawfulEqCmp.compare_eq_iff_eq, or_comm]
    have h := Buckets.foldl_iff (P := fun map : HashMap RelayUrl Filter => r ∈ map) hstep relays.toList ∅
    rw [everyRelay, h]
    simp
  have hval : ∀ part, (everyRelay f relays)[r]? = some part → part = f := by
    have hstep : ∀ (map : HashMap RelayUrl Filter) (url : RelayUrl),
        (∀ part, map[r]? = some part → part = f) → ∀ part, (map.insert url f)[r]? = some part → part = f := by
      intro map url h part hpart
      rw [ExtTreeMap.getElem?_insert] at hpart
      split at hpart
      · exact (Option.some.inj hpart).symm
      · exact h part hpart
    exact Buckets.foldl_keeps (P := fun map : HashMap RelayUrl Filter => ∀ part, map[r]? = some part → part = f)
      hstep relays.toList (fun part h => by rw [ExtTreeMap.getElem?_empty] at h; cases h)
  constructor
  · intro h
    exact ⟨hval part h, hmem.mp (ExtTreeMap.mem_iff_isSome_getElem?.mpr (by rw [h]; rfl))⟩
  · rintro ⟨rfl, hr⟩
    obtain ⟨part', hpart⟩ := Option.isSome_iff_exists.mp (ExtTreeMap.mem_iff_isSome_getElem?.mp (hmem.mpr hr))
    rw [hpart, hval part' hpart]

/-! ## Sample values -/

/-- The parts, if the filter was split and they pass the test. -/
def BrokenDownFilters.splitsInto (p : HashMap RelayUrl Filter → Bool) : BrokenDownFilters → Bool
  | .perRelay m => p m
  | _ => false

theorem BrokenDownFilters.exists_of_splitsInto {p : HashMap RelayUrl Filter → Bool} {b : BrokenDownFilters}
    (h : b.splitsInto p = true) : ∃ m, b = .perRelay m ∧ p m = true := by
  cases b with
  | perRelay m => exact ⟨m, rfl, h⟩
  | orphan f => cases h
  | generic f => cases h

namespace Sample

/-- Alice reads and writes at one relay; of bob nothing is known. -/
def table : Inner Unit where
  options := .default
  db := ()
  routes := (∅ : HashMap PublicKey UserRoutes).insert Sample.alice
    { UserRoutes.default with nip65 := some ⟨(∅ : BTreeMap RelayUrl RelayMarker).insert one .readWrite⟩ }

/-- What the given authors write. -/
def byAuthors (keys : List PublicKey) : Filter := { Sample.everything with authors := some keys }

/-- What authors say to alice. -/
def toAlice (authors : List PublicKey) : Filter :=
  { byAuthors authors with genericTags := ⟨[(pTag, [Sample.alice.toHex])], by simp⟩ }

theorem hexKeys_byAuthors (keys : List PublicKey) : HexKeys (byAuthors keys) := by
  intro values h
  cases h

theorem hexKeys_toAlice (authors : List PublicKey) : HexKeys (toAlice authors) := by
  intro values h v hv
  cases h
  exact ⟨Sample.alice, List.mem_singleton.mp hv⟩

end Sample

/-! ## The parts -/

section Parts

variable {D : Type} {inner : Inner D} {f : Filter} {m : HashMap RelayUrl Filter}

/-- The branches of `break_down` that give parts, each with what its parts are. One case for each pair of what the
    filter may have, authors and `#p` values. -/
theorem breakDown_cases (h : inner.breakDown urls f = .perRelay m) :
    (∃ authors, f.authors = some authors ∧ pValues f = none ∧
      m = narrowAuthors f (inner.collectDirectional urls .outbox (patternNeedsDm f) (keySet authors))) ∨
    (∃ values, f.authors = none ∧ pValues f = some values ∧
      m = narrowPTags f (inner.collectDirectional urls .inbox (patternNeedsDm f)
        (keySet (values.filterMap (fun s => (PublicKey.parse s).toOption))))) ∨
    (∃ authors values relays, f.authors = some authors ∧ pValues f = some values ∧
      relays.isEmpty = false ∧ (∀ r ∈ relays, inner.options.allowed.isAllowed urls r = true) ∧
      m = everyRelay f relays) := by
  unfold Inner.breakDown at h
  cases hauthors : f.authors with
  | none =>
      cases hp : pValues f with
      | none =>
          simp only [hauthors, hp, Option.map_none] at h
          cases h
      | some values =>
          simp only [hauthors, hp, Option.map_none, Option.map_some] at h
          split at h
          · cases h
          · cases h
            exact Or.inr (Or.inl ⟨values, rfl, rfl, rfl⟩)
  | some authors =>
      cases hp : pValues f with
      | none =>
          simp only [hauthors, hp, Option.map_none, Option.map_some] at h
          split at h
          · cases h
          · cases h
            exact Or.inl ⟨authors, rfl, rfl, rfl⟩
      | some values =>
          simp only [hauthors, hp, Option.map_some] at h
          split at h
          · cases h
          · rename_i hne
            cases h
            exact Or.inr (Or.inr ⟨authors, values, _, rfl, rfl, Bool.eq_false_iff.mpr hne,
              fun r hr => Inner.union_allowed urls hr, rfl⟩)

/-- The parts of a filter split over `m`: what they share with it, which keys they name and which relays get one. -/
structure RoutesExactly (inner : Inner D) (f : Filter) (m : HashMap RelayUrl Filter) : Prop where
  rest : ∀ (r : RelayUrl) part, m[r]? = some part → SharesRest part f
  sound : ∀ (r : RelayUrl) part, m[r]? = some part → ∀ e, part.admits e = true → f.admits e = true
  authors : pValues f = none → ∀ keys, f.authors = some keys → ∀ (k : PublicKey) (r : RelayUrl),
    (∃ part ks, m[r]? = some part ∧ part.authors = some ks ∧ k ∈ ks) ↔
      k ∈ keys ∧ (r ∈ inner.outboxRelays urls k ∨ (patternNeedsDm f = true ∧ r ∈ inner.dmRelays urls k))
  recipients : f.authors = none → ∀ values, pValues f = some values → ∀ (k : PublicKey) (r : RelayUrl),
    (∃ part vs, m[r]? = some part ∧ pValues part = some vs ∧ k.toHex ∈ vs) ↔
      k.toHex ∈ values ∧ (r ∈ inner.inboxRelays urls k ∨ (patternNeedsDm f = true ∧ r ∈ inner.dmRelays urls k))
  authors_none : ∀ (r : RelayUrl) part, m[r]? = some part → (part.authors = none ↔ f.authors = none)
  recipients_none : ∀ (r : RelayUrl) part, m[r]? = some part → (pValues part = none ↔ pValues f = none)
  authors_ne : ∀ (r : RelayUrl) part, m[r]? = some part → part.authors = some [] → f.authors = some []
  recipients_ne : ∀ (r : RelayUrl) part, m[r]? = some part → pValues part = some [] → pValues f = some []
  allowed : ∀ (r : RelayUrl) part, m[r]? = some part → inner.options.allowed.isAllowed urls r = true

variable {keys : BTreeSet PublicKey} {needsDm : Bool} {r : RelayUrl} {part : Filter}

/-- A part made from the keys of a relay names exactly the keys the relay serves, of which there are some. -/
theorem part_of_collected (build : List PublicKey → Filter) {direction : Direction}
    (h : ((inner.collectDirectional urls direction needsDm keys).map (fun _ pks => build pks.toList))[r]? =
      some part) :
    ∃ ks, part = build ks ∧ ks ≠ [] ∧ ∀ k, k ∈ ks ↔ k ∈ keys ∧ r ∈ inner.served urls direction needsDm k := by
  rw [ExtTreeMap.getElem?_map, Option.map_eq_some_iff] at h
  obtain ⟨pks, hpks, rfl⟩ := h
  refine ⟨pks.toList, rfl, ?_, fun k => ?_⟩
  · obtain ⟨k, hk⟩ := Inner.inhabited_collectDirectional urls r pks hpks
    exact List.ne_nil_of_mem (ExtTreeSet.mem_toList.mpr hk)
  · rw [ExtTreeSet.mem_toList, ← Inner.holds_collectDirectional, Buckets.Holds, hpks]
    simp

/-- Every relay that serves a key gets a part. -/
theorem collected_of_served (build : List PublicKey → Filter) {direction : Direction} {k : PublicKey} (hk : k ∈ keys)
    (hr : r ∈ inner.served urls direction needsDm k) : ∃ part,
      ((inner.collectDirectional urls direction needsDm keys).map (fun _ pks => build pks.toList))[r]? = some part := by
  obtain ⟨pks, hpks, _⟩ := (Inner.holds_collectDirectional urls).mpr ⟨hk, hr⟩
  exact ⟨build pks.toList, by rw [ExtTreeMap.getElem?_map, hpks]; rfl⟩

/-- The branch of a filter with authors and no `#p`. The part of a relay asks for the authors that have it, and each
    field of `RoutesExactly` is read off that. -/
theorem routes_authors {authors : List PublicKey} (hauthors : f.authors = some authors) (hp : pValues f = none) :
    RoutesExactly urls inner f
      (narrowAuthors f (inner.collectDirectional urls .outbox (patternNeedsDm f) (keySet authors))) := by
  have hpart : ∀ (r : RelayUrl) part,
      (narrowAuthors f (inner.collectDirectional urls .outbox (patternNeedsDm f) (keySet authors)))[r]? = some part →
      ∃ ks : List PublicKey, part = { f with authors := some ks } ∧ ks ≠ [] ∧ ∀ k, k ∈ ks ↔ k ∈ authors ∧
        (r ∈ inner.outboxRelays urls k ∨ (patternNeedsDm f = true ∧ r ∈ inner.dmRelays urls k)) := by
    intro r part h
    obtain ⟨ks, hks, hne, hmem⟩ := part_of_collected urls (fun ks => { f with authors := some ks }) h
    refine ⟨ks, hks, hne, fun k => ?_⟩
    rw [hmem, mem_keySet, Inner.mem_served_outbox]
  refine ⟨?_, ?_, ?_, ?_, ?_, ?_, ?_, ?_, ?_⟩
  · intro r part h
    obtain ⟨ks, rfl, _⟩ := hpart r part h
    exact .withAuthors f ks
  · intro r part h e he
    obtain ⟨ks, rfl, _, hmem⟩ := hpart r part h
    refine (SharesRest.withAuthors f ks).symm.admits he ?_ (fun values hv => absurd (hp.symm.trans hv) (by simp))
    intro keys hkeys
    cases hauthors.symm.trans hkeys
    exact ((hmem e.pubkey).mp (((Filter.admits_iff _ e).mp he).2.1 ks rfl)).1
  · intro _ keys hkeys k r
    cases hauthors.symm.trans hkeys
    constructor
    · rintro ⟨part, ks, h, hks, hk⟩
      obtain ⟨ks', rfl, _, hmem⟩ := hpart r part h
      cases hks
      exact (hmem k).mp hk
    · rintro ⟨hk, hr⟩
      obtain ⟨part, h⟩ := collected_of_served urls (fun ks => { f with authors := some ks })
        (mem_keySet.mpr hk) ((Inner.mem_served_outbox urls).mpr hr)
      obtain ⟨ks, hks, _, hmem⟩ := hpart r part h
      exact ⟨part, ks, h, by rw [hks], (hmem k).mpr ⟨hk, hr⟩⟩
  · intro hnone
    exact absurd (hauthors.symm.trans hnone) (by simp)
  · intro r part h
    obtain ⟨ks, rfl, _⟩ := hpart r part h
    simp [hauthors]
  · intro r part h
    obtain ⟨ks, rfl, _⟩ := hpart r part h
    exact Iff.rfl
  · intro r part h hempty
    obtain ⟨ks, rfl, hne, _⟩ := hpart r part h
    exact absurd (Option.some.inj hempty) hne
  · intro r part h hempty
    obtain ⟨ks, rfl, _⟩ := hpart r part h
    exact absurd (hp.symm.trans hempty) (by simp)
  · intro r part h
    obtain ⟨ks, _, hne, hmem⟩ := hpart r part h
    obtain ⟨k, hk⟩ := List.exists_mem_of_ne_nil ks hne
    exact Inner.served_allowed urls ((Inner.mem_served_outbox urls).mpr ((hmem k).mp hk).2)

/-- The branch of a filter with `#p` and no authors. It goes as for the authors, with the keys that the values spell
    in their place. -/
theorem routes_recipients {values : List String} (hauthors : f.authors = none) (hp : pValues f = some values)
    (hhex : HexKeys f) :
    RoutesExactly urls inner f (narrowPTags f (inner.collectDirectional urls .inbox (patternNeedsDm f)
      (keySet (values.filterMap (fun s => (PublicKey.parse s).toOption))))) := by
  have hpart : ∀ (r : RelayUrl) part,
      (narrowPTags f (inner.collectDirectional urls .inbox (patternNeedsDm f)
        (keySet (values.filterMap (fun s => (PublicKey.parse s).toOption)))))[r]? = some part →
      ∃ ks : List PublicKey,
        part = { f with genericTags := f.genericTags.insert pTag (ks.map PublicKey.toHex) } ∧ ks ≠ [] ∧
        ∀ k, k ∈ ks ↔ k.toHex ∈ values ∧
          (r ∈ inner.inboxRelays urls k ∨ (patternNeedsDm f = true ∧ r ∈ inner.dmRelays urls k)) := by
    intro r part h
    obtain ⟨ks, hks, hne, hmem⟩ := part_of_collected urls
      (fun ks => { f with genericTags := f.genericTags.insert pTag (ks.map PublicKey.toHex) }) h
    refine ⟨ks, hks, hne, fun k => ?_⟩
    rw [hmem, hhex.mem_iff hp, Inner.mem_served_inbox]
  refine ⟨?_, ?_, ?_, ?_, ?_, ?_, ?_, ?_, ?_⟩
  · intro r part h
    obtain ⟨ks, rfl, _⟩ := hpart r part h
    exact .withPValues f _
  · intro r part h e he
    obtain ⟨ks, rfl, _, hmem⟩ := hpart r part h
    have hnone : ∀ keys, f.authors = some keys → e.pubkey ∈ keys :=
      fun keys hkeys => absurd (hauthors.symm.trans hkeys) (by simp)
    refine (SharesRest.withPValues f _).symm.admits he hnone ?_
    intro vs hvs
    cases hp.symm.trans hvs
    have htags := ((Filter.admits_iff _ e).mp he).2.2.2.2.2 (pTag, ks.map PublicKey.toHex)
      (IndexMap.get_eq_some_iff.mp (IndexMap.get_insert_self _ _ _))
    obtain ⟨tag, htag, hletter, v, hv, hcontent⟩ := (Tags.hasTag_iff _ _ _).mp htags
    obtain ⟨k, hk, rfl⟩ := List.mem_map.mp hv
    exact (Tags.hasTag_iff _ _ _).mpr ⟨tag, htag, hletter, k.toHex, ((hmem k).mp hk).1, hcontent⟩
  · intro hnone
    exact absurd (hp.symm.trans hnone) (by simp)
  · intro _ vs hvs k r
    cases hp.symm.trans hvs
    constructor
    · rintro ⟨part, ws, h, hws, hk⟩
      obtain ⟨ks, rfl, _, hmem⟩ := hpart r part h
      rw [pValues_insert] at hws
      cases hws
      obtain ⟨k', hk', heq⟩ := List.mem_map.mp hk
      obtain rfl := PublicKey.toHex_injective heq
      exact (hmem k').mp hk'
    · rintro ⟨hk, hr⟩
      obtain ⟨part, h⟩ := collected_of_served urls
        (fun ks => { f with genericTags := f.genericTags.insert pTag (ks.map PublicKey.toHex) })
        ((hhex.mem_iff hp k).mpr hk) ((Inner.mem_served_inbox urls).mpr hr)
      obtain ⟨ks, hks, _, hmem⟩ := hpart r part h
      refine ⟨part, ks.map PublicKey.toHex, h, ?_, List.mem_map_of_mem ((hmem k).mpr ⟨hk, hr⟩)⟩
      rw [hks, pValues_insert]
  · intro r part h
    obtain ⟨ks, rfl, _⟩ := hpart r part h
    exact Iff.rfl
  · intro r part h
    obtain ⟨ks, rfl, _⟩ := hpart r part h
    rw [pValues_insert, hp]
    simp
  · intro r part h hempty
    obtain ⟨ks, rfl, _⟩ := hpart r part h
    exact hempty
  · intro r part h hempty
    obtain ⟨ks, rfl, hne, _⟩ := hpart r part h
    rw [pValues_insert] at hempty
    exact absurd (List.map_eq_nil_iff.mp (Option.some.inj hempty)) hne
  · intro r part h
    obtain ⟨ks, _, hne, hmem⟩ := hpart r part h
    obtain ⟨k, hk⟩ := List.exists_mem_of_ne_nil ks hne
    exact Inner.served_allowed urls ((Inner.mem_served_inbox urls).mpr ((hmem k).mp hk).2)

/-- The branch of a filter with both: the whole filter for every relay. -/
theorem routes_everyRelay {relays : BTreeSet RelayUrl} {authors : List PublicKey} {values : List String}
    (hauthors : f.authors = some authors) (hp : pValues f = some values)
    (hallowed : ∀ r ∈ relays, inner.options.allowed.isAllowed urls r = true) :
    RoutesExactly urls inner f (everyRelay f relays) := by
  have hpart : ∀ (r : RelayUrl) part, (everyRelay f relays)[r]? = some part → part = f ∧ r ∈ relays :=
    fun r part h => getElem?_everyRelay.mp h
  refine ⟨?_, ?_, ?_, ?_, ?_, ?_, ?_, ?_, ?_⟩
  · intro r part h
    rw [(hpart r part h).1]
    exact .refl f
  · intro r part h e he
    rw [(hpart r part h).1] at he
    exact he
  · intro hnone
    exact absurd (hp.symm.trans hnone) (by simp)
  · intro hnone
    exact absurd (hauthors.symm.trans hnone) (by simp)
  · intro r part h
    rw [(hpart r part h).1]
  · intro r part h
    rw [(hpart r part h).1]
  · intro r part h hempty
    rwa [(hpart r part h).1] at hempty
  · intro r part h hempty
    rwa [(hpart r part h).1] at hempty
  · intro r part h
    exact hallowed r (hpart r part h).2

/-- **A filter is split exactly along its keys**: no part asks for more than the filter, each names the keys its
    relay serves, and only allowed relays get one. A part has an empty key list only where the filter has.

    `breakDown_cases` has one case for authors, one for recipients and one for both; in each the parts are what the
    buckets of the relays collect. -/
theorem breakDown_sound (inner : Inner D) (f : Filter) (hhex : HexKeys f) {m : HashMap RelayUrl Filter}
    (h : inner.breakDown urls f = .perRelay m) : RoutesExactly urls inner f m := by
  rcases breakDown_cases urls h with ⟨authors, hauthors, hp, rfl⟩ | ⟨values, hauthors, hp, rfl⟩ |
    ⟨authors, values, relays, hauthors, hp, _, hallowed, rfl⟩
  · exact routes_authors urls hauthors hp
  · exact routes_recipients urls hauthors hp hhex
  · exact routes_everyRelay urls hauthors hp hallowed

/-- Alice's notes are asked for where she writes. -/
theorem breakDown_sound_alice :
    ∃ m, Sample.table.breakDown Sample.urlCrate (Sample.byAuthors [Sample.alice]) = .perRelay m ∧
      RoutesExactly Sample.urlCrate Sample.table (Sample.byAuthors [Sample.alice]) m := by
  have h : (Sample.table.breakDown Sample.urlCrate (Sample.byAuthors [Sample.alice])).splitsInto
      (fun _ => true) = true := by decide +kernel
  obtain ⟨m, hm, _⟩ := BrokenDownFilters.exists_of_splitsInto h
  exact ⟨m, hm, breakDown_sound Sample.urlCrate Sample.table _ (Sample.hexKeys_byAuthors _) hm⟩

/-- What no author says to alice is asked for at her relay, with the empty author list. -/
theorem breakDown_empty_authors :
    HexKeys (Sample.toAlice []) ∧
    ∃ m part, Sample.table.breakDown Sample.urlCrate (Sample.toAlice []) = .perRelay m ∧
      m[Sample.one]? = some part ∧ part.authors = some [] := by
  have h : (Sample.table.breakDown Sample.urlCrate (Sample.toAlice [])).splitsInto
      (fun m => (m[Sample.one]?).any (fun part => part.authors = some [])) = true := by decide +kernel
  obtain ⟨m, hm, hany⟩ := BrokenDownFilters.exists_of_splitsInto h
  cases hone : m[Sample.one]? with
  | none =>
      rw [hone] at hany
      cases hany
  | some part =>
      rw [hone] at hany
      exact ⟨Sample.hexKeys_toAlice _, m, part, hm, hone, of_decide_eq_true hany⟩

/-- Every key the filter names has a relay. -/
structure KeysRouted (inner : Inner D) (f : Filter) : Prop where
  authors : ∀ keys, f.authors = some keys → ∀ k ∈ keys,
    ∃ r, r ∈ inner.served urls .outbox (patternNeedsDm f) k
  recipients : ∀ values, pValues f = some values → ∀ k : PublicKey, k.toHex ∈ values →
    ∃ r, r ∈ inner.served urls .inbox (patternNeedsDm f) k

/-- Every admitted event is admitted by some part. -/
def Covers (f : Filter) (m : HashMap RelayUrl Filter) : Prop :=
  ∀ e, f.admits e = true → ∃ (r : RelayUrl) (part : Filter), m[r]? = some part ∧ part.admits e = true

/-- **Authors are covered exactly if each has a relay**: what only a left-out author writes would match no part. A
    left-out author of a satisfiable filter has an event that shows the gap: one made up from the filter itself. -/
theorem covers_authors_iff {authors : List PublicKey} (hauthors : f.authors = some authors) (hp : pValues f = none)
    (hroutes : RoutesExactly urls inner f m) : Covers f m ↔ KeysRouted urls inner f ∨ ¬ f.Satisfiable := by
  constructor
  · intro hcovers
    by_cases hsat : f.Satisfiable
    · refine Or.inl ⟨?_, fun values hv => absurd (hp.symm.trans hv) (by simp)⟩
      intro keys hkeys k hk
      -- an event of the filter by this author
      have he : f.admits (f.craft k (fun c => c.2.headD "")) = true := by
        refine Filter.admits_craft hsat (fun ks hks => ?_) (fun c hc => ?_)
        · cases hkeys.symm.trans hks
          exact hk
        · cases hc2 : c.2 with
          | nil => exact absurd hc2 (hsat.tags c hc)
          | cons v rest => simp
      obtain ⟨r, part, hpart, he⟩ := hcovers _ he
      cases hks : part.authors with
      | none => exact absurd (hauthors.symm.trans ((hroutes.authors_none r part hpart).mp hks)) (by simp)
      | some ks =>
          have hmem := ((Filter.admits_iff part _).mp he).2.1 ks hks
          have hr := ((hroutes.authors hp keys hkeys k r).mp ⟨part, ks, hpart, hks, hmem⟩).2
          exact ⟨r, (Inner.mem_served_outbox urls).mpr hr⟩
    · exact Or.inr hsat
  · rintro (hrouted | hunsat) e he
    · have hmem := ((Filter.admits_iff f e).mp he).2.1 authors hauthors
      obtain ⟨r, hr⟩ := hrouted.authors authors hauthors e.pubkey hmem
      obtain ⟨part, ks, hpart, hks, hk⟩ := (hroutes.authors hp authors hauthors e.pubkey r).mpr
        ⟨hmem, (Inner.mem_served_outbox urls).mp hr⟩
      refine ⟨r, part, hpart, (hroutes.rest r part hpart).admits he ?_ ?_⟩
      · intro keys hkeys
        cases hks.symm.trans hkeys
        exact hk
      · intro values hv
        exact absurd (((hroutes.recipients_none r part hpart).mpr hp).symm.trans hv) (by simp)
    · exact absurd (Filter.satisfiable_of_admits he) hunsat

/-- **Recipients are covered exactly if each has a relay**, for the same reason. The event made up here names the
    left-out key, and no other under `#p`. -/
theorem covers_recipients_iff {values : List String} (hauthors : f.authors = none) (hp : pValues f = some values)
    (hhex : HexKeys f) (hroutes : RoutesExactly urls inner f m) :
    Covers f m ↔ KeysRouted urls inner f ∨ ¬ f.Satisfiable := by
  constructor
  · intro hcovers
    by_cases hsat : f.Satisfiable
    · refine Or.inl ⟨fun keys hkeys => absurd (hauthors.symm.trans hkeys) (by simp), ?_⟩
      intro vs hvs k hk
      -- an event of the filter that names this key and no other
      let pick (c : SingleLetterTag × List String) : String := if c.1 = pTag then k.toHex else c.2.headD ""
      have he : f.admits (f.craft Sample.alice pick) = true := by
        refine Filter.admits_craft hsat (fun ks hks => absurd (hauthors.symm.trans hks) (by simp)) (fun c hc => ?_)
        by_cases hc1 : c.1 = pTag
        · have hget : pValues f = some c.2 := by
            rw [pValues, ← hc1]
            exact IndexMap.get_eq_some_iff.mpr hc
          cases hvs.symm.trans hget
          simpa [pick, hc1] using hk
        · cases hc2 : c.2 with
          | nil => exact absurd hc2 (hsat.tags c hc)
          | cons v rest => simp [pick, hc1, hc2]
      obtain ⟨r, part, hpart, he⟩ := hcovers _ he
      cases hws : pValues part with
      | none => exact absurd (hp.symm.trans ((hroutes.recipients_none r part hpart).mp hws)) (by simp)
      | some ws =>
          have htag := ((Filter.admits_iff part _).mp he).2.2.2.2.2 (pTag, ws) (IndexMap.get_eq_some_iff.mp hws)
          obtain ⟨c, _, hc1, hmem⟩ := Filter.craft_hasTag_iff.mp htag
          have hpick : pick c = k.toHex := by simp [pick, hc1]
          have hr := ((hroutes.recipients hauthors vs hvs k r).mp ⟨part, ws, hpart, hws, hpick ▸ hmem⟩).2
          exact ⟨r, (Inner.mem_served_inbox urls).mpr hr⟩
    · exact Or.inr hsat
  · rintro (hrouted | hunsat) e he
    · have htag := ((Filter.admits_iff f e).mp he).2.2.2.2.2 (pTag, values) (IndexMap.get_eq_some_iff.mp hp)
      obtain ⟨tag, htag, hletter, v, hv, hcontent⟩ := (Tags.hasTag_iff _ _ _).mp htag
      obtain ⟨k, rfl⟩ := hhex values hp v hv
      obtain ⟨r, hr⟩ := hrouted.recipients values hp k hv
      obtain ⟨part, ws, hpart, hws, hk⟩ := (hroutes.recipients hauthors values hp k r).mpr
        ⟨hv, (Inner.mem_served_inbox urls).mp hr⟩
      refine ⟨r, part, hpart, (hroutes.rest r part hpart).admits he ?_ ?_⟩
      · intro keys hkeys
        exact absurd (((hroutes.authors_none r part hpart).mpr hauthors).symm.trans hkeys) (by simp)
      · intro vs hvs
        cases hws.symm.trans hvs
        exact (Tags.hasTag_iff _ _ _).mpr ⟨tag, htag, hletter, k.toHex, hk, hcontent⟩
    · exact absurd (Filter.satisfiable_of_admits he) hunsat

theorem covers_everyRelay {relays : BTreeSet RelayUrl} (hne : relays.isEmpty = false) :
    Covers f (everyRelay f relays) := by
  intro e he
  cases hrelays : relays.toList with
  | nil =>
      rw [← ExtTreeSet.isEmpty_toList, hrelays] at hne
      exact absurd hne (by decide)
  | cons r rest =>
      have hr : r ∈ relays := ExtTreeSet.mem_toList.mp (hrelays ▸ List.mem_cons_self)
      exact ⟨r, f, getElem?_everyRelay.mpr ⟨rfl, hr⟩, he⟩

/-- **When nothing is lost**: every event the filter admits is asked for somewhere exactly when the filter goes
    out whole, when each key it names has a relay, or when it admits no event at all.

    The cases are those of `breakDown_cases`. Where keys decide, an event crafted from the filter for a key without
    a relay is admitted and asked for nowhere; where the filter goes out whole, it covers itself. -/
theorem breakDown_covers_iff (inner : Inner D) (f : Filter) (hhex : HexKeys f) {m : HashMap RelayUrl Filter}
    (h : inner.breakDown urls f = .perRelay m) :
    Covers f m ↔ (f.authors ≠ none ∧ pValues f ≠ none) ∨ KeysRouted urls inner f ∨ ¬ f.Satisfiable := by
  rcases breakDown_cases urls h with ⟨authors, hauthors, hp, rfl⟩ | ⟨values, hauthors, hp, rfl⟩ |
    ⟨authors, values, relays, hauthors, hp, hne, _, rfl⟩
  · rw [covers_authors_iff urls hauthors hp (routes_authors urls hauthors hp)]
    simp [hp]
  · rw [covers_recipients_iff urls hauthors hp hhex (routes_recipients urls hauthors hp hhex)]
    simp [hauthors]
  · exact iff_of_true (covers_everyRelay hne) (Or.inl ⟨by simp [hauthors], by simp [hp]⟩)

/-- Alice's notes are covered, as she has a relay. -/
theorem breakDown_covers_iff_alice :
    ∃ m, Sample.table.breakDown Sample.urlCrate (Sample.byAuthors [Sample.alice]) = .perRelay m ∧
      (Covers (Sample.byAuthors [Sample.alice]) m ↔
        ((Sample.byAuthors [Sample.alice]).authors ≠ none ∧ pValues (Sample.byAuthors [Sample.alice]) ≠ none) ∨
        KeysRouted Sample.urlCrate Sample.table (Sample.byAuthors [Sample.alice]) ∨
        ¬ (Sample.byAuthors [Sample.alice]).Satisfiable) := by
  have h : (Sample.table.breakDown Sample.urlCrate (Sample.byAuthors [Sample.alice])).splitsInto
      (fun _ => true) = true := by decide +kernel
  obtain ⟨m, hm, _⟩ := BrokenDownFilters.exists_of_splitsInto h
  exact ⟨m, hm, breakDown_covers_iff Sample.urlCrate Sample.table _ (Sample.hexKeys_byAuthors _) hm⟩

/-- Alice has a relay and bob has none: nobody is asked for bob's events. -/
theorem breakDown_loses :
    HexKeys (Sample.byAuthors [Sample.alice, Sample.bob]) ∧
    ∃ m, Sample.table.breakDown Sample.urlCrate (Sample.byAuthors [Sample.alice, Sample.bob]) = .perRelay m ∧
      ¬ Covers (Sample.byAuthors [Sample.alice, Sample.bob]) m := by
  have h : (Sample.table.breakDown Sample.urlCrate (Sample.byAuthors [Sample.alice, Sample.bob])).splitsInto
      (fun m => m.toList.all (fun x => !x.2.admits (Sample.event 1 Sample.bob 5 1 []))) = true := by decide +kernel
  obtain ⟨m, hm, hall⟩ := BrokenDownFilters.exists_of_splitsInto h
  refine ⟨Sample.hexKeys_byAuthors _, m, hm, fun hcovers => ?_⟩
  obtain ⟨r, part, hpart, he⟩ := hcovers (Sample.event 1 Sample.bob 5 1 []) (by decide +kernel)
  have hno := List.all_eq_true.mp hall (r, part) (ExtTreeMap.mem_toList_iff_getElem?_eq_some.mpr hpart)
  simp [he] at hno

end Parts

end Gossip

end Nula
