import Nula.Gossip.Publish
import Nula.Gossip.Refresh

/-!
# `Sdk.RelayLists` — where routing is learnt from

Four calls take a user's list from what relays deliver. `Gossip::refresh` and `Client::refresh_relay_metadata` hand
the newest event to `process`, which writes the list under the author the event names; `Client::get_relay_list` and
`get_dm_relays` (`nips/nip65.rs`, `nips/nip17.rs`) return what the newest event says, whoever its author is. None of
them verifies it.

## Contents
- **The calls.** `getRelayList`, `getDmRelays`, and `refresh_relay_metadata` as a machine next to `Gossip.step`.
- **One event.** `process` replaces a list of the author's, or none (`learnt_process_iff`).
- **Main result.** `learnt_iff`.
-/

namespace Nula.Sdk

open Std Gossip
open Pool (StreamError)

/-! ## Fetching (`client.rs`) -/

/-- What a stream yields, or why it could not be opened. -/
abbrev Fetched := Except ClientError (List (RelayUrl × Except StreamError Event))

/-- `collect_events`. -/
def collectEvents (items : List (RelayUrl × Except StreamError Event)) : List Event :=
  Events.fromUnsorted (items.filterMap (fun item => item.2.toOption))

/-- `fetch_events`, and the first of them. -/
def fetchFirst (fetched : Fetched) : Except ClientError (Option Event) :=
  fetched.map (fun items => (collectEvents items).head?)

/-- `Error`, as far as these calls raise it. -/
inductive ListError where
  | client (e : ClientError)
  | nip65 (e : RelayListError)
  | nip17 (e : Nip17Error)

/-- What `get_relay_list` and `get_dm_relays` share. -/
def getList {α : Type} (stream : Filter → Fetched) (filter : Filter) (parse : Event → Except ListError α) :
    Except ListError (Option α) :=
  match fetchFirst (stream filter) with
  | .error e => .error (.client e)
  | .ok none => .ok none
  | .ok (some event) => (parse event).map some

section

variable (urls : UrlCrate)

/-- NIP-65, as the client reads it. -/
def parseRelayList (event : Event) : Except ListError RelayList := (RelayList.fromEvent urls event).mapError .nip65

/-- NIP-17, as the client reads it. -/
def parseDmRelays (event : Event) : Except ListError (List RelayUrl) := (parseDmRelaysEvent urls event).mapError .nip17

/-- `Client::get_relay_list`; the key is in the filter only. -/
def getRelayList (stream : Filter → Fetched) (pubkey : PublicKey) : Except ListError (Option RelayList) :=
  getList stream (listFilter pubkey .nip65) (parseRelayList urls)

/-- `Client::get_dm_relays`, likewise. -/
def getDmRelays (stream : Filter → Fetched) (pubkey : PublicKey) : Except ListError (Option (List RelayUrl)) :=
  getList stream (listFilter pubkey .nip17) (parseDmRelays urls)

/-! ## Refreshing (`nips/nip65.rs`) -/

/-- Where a call of `refresh_relay_metadata` is suspended. -/
inductive MetadataPoint where
  | fetching
  /-- Before `process`. -/
  | ingesting (event : Event)
  | returned (result : Except ClientError Nat)
  /-- The future was dropped. -/
  | dropped

/-- A call of `refresh_relay_metadata`: the lists it has still to fetch, and how many events it has ingested. -/
structure MetadataCall where
  left : List (PublicKey × ListKind)
  ingested : Nat
  point : MetadataPoint

namespace MetadataCall

/-- The next list, or the end. -/
def next (left : List (PublicKey × ListKind)) (ingested : Nat) : MetadataCall :=
  ⟨left, ingested, if left.isEmpty then .returned (.ok ingested) else .fetching⟩

/-- The loop over the keys, each with both lists. -/
def start (pubkeys : List PublicKey) : MetadataCall :=
  next (pubkeys.flatMap (fun pk => [(pk, .nip65), (pk, .nip17)])) 0

/-- `refresh_one`, up to `process`. -/
def fetched (call : MetadataCall) (fetched : Fetched) : MetadataCall :=
  match fetchFirst fetched with
  | .error e => { call with point := .returned (.error e) }
  | .ok none => next call.left.tail call.ingested
  | .ok (some event) => { call with point := .ingesting event }

end MetadataCall

/-- A router and the calls under way that refresh it. -/
structure Refreshing (D : Type) where
  gossip : Gossip.State D
  calls : List MetadataCall

/-- What can happen while lists are refreshed and metadata is fetched. -/
inductive RefreshAction where
  /-- A step of `Gossip::refresh`. -/
  | gossip (a : Gossip.Action)
  | metadata (pubkeys : List PublicKey)
  /-- What call `k` has fetched. -/
  | fetched (k : Nat) (fetched : Fetched)
  | ingest (k : Nat) (now : Timestamp)
  /-- The caller of call `k` gives up. -/
  | drop (k : Nat)

namespace Refreshing

variable {D : Type}

def start (inner : Inner D) : Refreshing D := ⟨Gossip.State.start inner, []⟩

/-- A metadata call that goes on. -/
def setCall (s : Refreshing D) (k : Nat) (call : MetadataCall) : Refreshing D := { s with calls := s.calls.set k call }

variable [Gossip.NostrDatabase D]

def step (s : Refreshing D) : RefreshAction → Refreshing D
  | .gossip a => { s with gossip := Gossip.step urls s.gossip a }
  | .metadata pubkeys => { s with calls := s.calls ++ [.start pubkeys] }
  -- the fetch of one batch
  | .fetched k fetched =>
      match s.calls[k]? with
      | some ⟨left, ingested, .fetching⟩ => s.setCall k (MetadataCall.fetched ⟨left, ingested, .fetching⟩ fetched)
      | _ => s
  | .ingest k now =>
      match s.calls[k]? with
      | some ⟨left, ingested, .ingesting event⟩ =>
          { s with gossip := { s.gossip with inner := s.gossip.inner.process urls event none now } }.setCall k
            (.next left.tail (ingested + 1))
      | _ => s
  -- a call may be dropped wherever it waits
  | .drop k =>
      match s.calls[k]? with
      | some ⟨_, _, .returned _⟩ | none => s
      | some call => s.setCall k { call with point := .dropped }

def run (inner : Inner D) (actions : List RefreshAction) : Refreshing D := actions.foldl (step urls) (start inner)

theorem run_append_singleton (inner : Inner D) (actions : List RefreshAction) (a : RefreshAction) :
    run urls inner (actions ++ [a]) = step urls (run urls inner actions) a := by
  rw [run, List.foldl_append]
  rfl

omit [Gossip.NostrDatabase D] in
/-- The event that goes into the table in this step. -/
def ingests (s : Refreshing D) : RefreshAction → Option Event
  | .gossip (.ingest n _) =>
      match s.gossip.tasks[n]? with
      | some ⟨_, _, _, .ingesting event⟩ => some event
      | _ => none
  | .gossip (.process event _ _) => some event
  | .ingest k _ =>
      match s.calls[k]? with
      | some ⟨_, _, .ingesting event⟩ => some event
      | _ => none
  | _ => none

end Refreshing

/-! ## Whose word it is -/

/-- Where the lists of a user have changed, this event says so and the user has signed it. -/
structure Learnt {D : Type} (crypto : Crypto) (before after : Inner D) (ingested : Option Event) : Prop where
  nip65 : ∀ user, (after.routes.getD user .default).nip65 ≠ (before.routes.getD user .default).nip65 →
    ∃ e ∈ ingested, e.pubkey = user ∧ e.verify crypto = .ok () ∧
      ∃ list, RelayList.fromEvent urls e = .ok list ∧ (after.routes.getD user .default).nip65 = some list
  nip17 : ∀ user, (after.routes.getD user .default).nip17 ≠ (before.routes.getD user .default).nip17 →
    ∃ e ∈ ingested, e.pubkey = user ∧ e.verify crypto = .ok () ∧
      ∃ relays, parseDmRelaysEvent urls e = .ok relays ∧
        (after.routes.getD user .default).nip17 = relays.filter (before.options.allowed.isAllowed urls)

/-- The event replaces a list of its author's: it is a well-formed list, newer than the one held, and another. -/
def Replaces {D : Type} (inner : Inner D) (e : Event) : Prop :=
  (∃ list, RelayList.fromEvent urls e = .ok list ∧
    newerThan e.createdAt (inner.routes.getD e.pubkey .default).nip65EventAt = true ∧
    some list ≠ (inner.routes.getD e.pubkey .default).nip65) ∨
  ∃ relays, parseDmRelaysEvent urls e = .ok relays ∧
    newerThan e.createdAt (inner.routes.getD e.pubkey .default).nip17EventAt = true ∧
    relays.filter (inner.options.allowed.isAllowed urls) ≠ (inner.routes.getD e.pubkey .default).nip17

/-- A list that is returned is what the newest event says, and the user has signed it. -/
def FromUser {α : Type} (crypto : Crypto) (user : PublicKey) (parse : Event → Except ListError α) (fetched : Fetched)
    (result : Except ListError (Option α)) : Prop :=
  ∀ list, result = .ok (some list) → ∃ e, fetchFirst fetched = .ok (some e) ∧ parse e = .ok list ∧ e.pubkey = user ∧
    e.verify crypto = .ok ()

/-- The newest event, if it is a well-formed list, is the user's and verifies. -/
def NewestSigned {α : Type} (crypto : Crypto) (user : PublicKey) (parse : Event → Except ListError α)
    (fetched : Fetched) : Prop :=
  ∀ e list, fetchFirst fetched = .ok (some e) → parse e = .ok list → e.pubkey = user ∧ e.verify crypto = .ok ()

end

/-! ## One event -/

section OneEvent

variable {urls : UrlCrate} {D : Type} {inner after : Inner D} {e : Event} {crypto : Crypto} {allowed : AllowedRelays}
  {entry : UserRoutes}

/-- **What an event does to a relay list**: a newer one takes its place. -/
theorem nip65_apply : (applyEventToEntry urls allowed e entry).nip65 =
    match RelayList.fromEvent urls e with
    | .ok list => if newerThan e.createdAt entry.nip65EventAt then some list else entry.nip65
    | .error _ => entry.nip65 := by
  unfold applyEventToEntry
  by_cases hkind : e.kind = Kind.relayList
  · rw [if_pos hkind]
    cases RelayList.fromEvent urls e with
    | error err => rfl
    | ok list =>
        simp only
        split <;> rfl
  · have hother : RelayList.fromEvent urls e = .error (.unexpectedKind Kind.relayList.val e.kind.val) := if_pos hkind
    rw [if_neg hkind, hother]
    show _ = entry.nip65
    repeat' split
    all_goals first
      | rfl
      | exact harvestRelayHints_lists.nip65

/-- What it does to a list of message relays: a newer one takes its place, as far as the policy allows its relays. -/
theorem nip17_apply : (applyEventToEntry urls allowed e entry).nip17 =
    match parseDmRelaysEvent urls e with
    | .ok relays =>
        if newerThan e.createdAt entry.nip17EventAt then relays.filter (allowed.isAllowed urls) else entry.nip17
    | .error _ => entry.nip17 := by
  unfold applyEventToEntry
  by_cases hkind : e.kind = Kind.dmRelays
  · have hother : e.kind ≠ Kind.relayList := by
      rw [hkind]
      decide
    rw [if_neg hother, if_pos hkind]
    cases parseDmRelaysEvent urls e with
    | error err => rfl
    | ok relays =>
        simp only
        split <;> rfl
  · have hother : parseDmRelaysEvent urls e = .error (.unexpectedKind e.kind.val) := if_pos hkind
    rw [hother]
    show _ = entry.nip17
    repeat' split
    all_goals first
      | rfl
      | exact absurd ‹_› hkind
      | exact harvestRelayHints_lists.nip17

variable [Gossip.NostrDatabase D]

/-- An event leaves the lists of everyone but its author alone. -/
theorem process_other {user : PublicKey} (h : e.pubkey ≠ user) (source : Option RelayUrl) (now : Timestamp) :
    (inner.process urls e source now).routes.getD user .default = inner.routes.getD user .default := by
  rw [Inner.process_routes, Inner.observe, ExtTreeMap.getD_insert]
  exact if_neg (fun hcmp => h (LawfulEqCmp.compare_eq_iff_eq.mp hcmp))

/-- Processing an event applies it to its author's entry. -/
theorem process_author (source : Option RelayUrl) (now : Timestamp) :
    SameLists ((inner.process urls e source now).routes.getD e.pubkey .default)
      (applyEventToEntry urls inner.options.allowed e (inner.routes.getD e.pubkey .default)) := by
  rw [Inner.process_routes, Inner.observe, ExtTreeMap.getD_insert_self]
  exact countSource_lists source

/-- **One event**: what it changes is signed exactly when it verifies or replaces no list. One way, an event that
    replaces a list changes it, and what changes a list is signed; the other way, a list that has changed was replaced
    by this event. -/
theorem learnt_process_iff (source : Option RelayUrl) (now : Timestamp) :
    Learnt urls crypto inner (inner.process urls e source now) (some e) ↔
      (Replaces urls inner e → e.verify crypto = .ok ()) := by
  have hauthor : SameLists ((inner.process urls e source now).routes.getD e.pubkey .default)
      (applyEventToEntry urls inner.options.allowed e (inner.routes.getD e.pubkey .default)) :=
    process_author source now
  constructor
  · intro h hreplaces
    rcases hreplaces with ⟨list, hlist, hnew, hother⟩ | ⟨relays, hrelays, hnew, hother⟩
    · have hchanged : ((inner.process urls e source now).routes.getD e.pubkey .default).nip65 ≠
          (inner.routes.getD e.pubkey .default).nip65 := by
        rw [hauthor.nip65, nip65_apply, hlist]
        simp only [hnew, if_true]
        exact hother
      obtain ⟨e', he', _, hverify, _⟩ := h.nip65 e.pubkey hchanged
      cases Option.mem_some_iff.mp he'
      exact hverify
    · have hchanged : ((inner.process urls e source now).routes.getD e.pubkey .default).nip17 ≠
          (inner.routes.getD e.pubkey .default).nip17 := by
        rw [hauthor.nip17, nip17_apply, hrelays]
        simp only [hnew, if_true]
        exact hother
      obtain ⟨e', he', _, hverify, _⟩ := h.nip17 e.pubkey hchanged
      cases Option.mem_some_iff.mp he'
      exact hverify
  · intro h
    refine ⟨fun user hchanged => ?_, fun user hchanged => ?_⟩
    · obtain rfl : e.pubkey = user := by
        by_contra hne
        exact hchanged (by rw [process_other hne])
      rw [hauthor.nip65, nip65_apply] at hchanged ⊢
      split at hchanged
      · rename_i list hlist
        split at hchanged
        · rename_i hnew
          refine ⟨e, rfl, rfl, h (Or.inl ⟨list, hlist, hnew, hchanged⟩), list, hlist, if_pos hnew⟩
        · exact absurd rfl hchanged
      · exact absurd rfl hchanged
    · obtain rfl : e.pubkey = user := by
        by_contra hne
        exact hchanged (by rw [process_other hne])
      rw [hauthor.nip17, nip17_apply] at hchanged ⊢
      split at hchanged
      · rename_i relays hrelays
        split at hchanged
        · rename_i hnew
          refine ⟨e, rfl, rfl, h (Or.inr ⟨relays, hrelays, hnew, hchanged⟩), relays, hrelays, if_pos hnew⟩
        · exact absurd rfl hchanged
      · exact absurd rfl hchanged

end OneEvent

/-! ## One step -/

section OneStep

variable (urls : UrlCrate) {D : Type} [Gossip.NostrDatabase D]

/-- The tables hold the same lists. -/
def SameTable (before after : Inner D) : Prop :=
  ∀ user, SameLists (after.routes.getD user .default) (before.routes.getD user .default)

omit [Gossip.NostrDatabase D] in
theorem SameTable.refl (inner : Inner D) : SameTable inner inner := fun _ => ⟨rfl, rfl, rfl, rfl⟩

omit [Gossip.NostrDatabase D] in
/-- The time of a fetch is in no list. -/
theorem sameTable_bump (inner : Inner D) (user : PublicKey) (kind : ListKind) (now : Timestamp) :
    SameTable inner (inner.bumpFetchedAt user kind now) := by
  intro u
  rw [Inner.bumpFetchedAt, ExtTreeMap.getD_insert]
  split
  · rename_i hcmp
    obtain rfl := LawfulEqCmp.compare_eq_iff_eq.mp hcmp
    cases kind <;> exact ⟨rfl, rfl, rfl, rfl⟩
  · exact ⟨rfl, rfl, rfl, rfl⟩

omit [Gossip.NostrDatabase D] in
theorem learnt_of_same {crypto : Crypto} {before after : Inner D} (h : SameTable before after)
    (ingested : Option Event) : Learnt urls crypto before after ingested :=
  ⟨fun user hchanged => absurd (h user).nip65 hchanged, fun user hchanged => absurd (h user).nip17 hchanged⟩

/-- A step of `Gossip::refresh` ingests an event, or leaves the lists. One case for each action of the refresh; only
    `ingest` reaches the lists. -/
theorem gossip_cases (s : Gossip.State D) (calls : List MetadataCall) (a : Gossip.Action) :
    (∃ e source now, Refreshing.ingests ⟨s, calls⟩ (.gossip a) = some e ∧
      (Gossip.step urls s a).inner = s.inner.process urls e source now) ∨
    (Refreshing.ingests ⟨s, calls⟩ (.gossip a) = none ∧ SameTable s.inner (Gossip.step urls s a).inner) := by
  cases a with
  | refresh user kind discovery now => exact Or.inr ⟨rfl, .refl _⟩
  | read n =>
      refine Or.inr ⟨rfl, ?_⟩
      rw [Gossip.step, State.resume]
      split
      · rename_i task _
        split
        · unfold State.read
          repeat' split
          all_goals exact .refl _
        · exact .refl _
      · exact .refl _
  | write n =>
      refine Or.inr ⟨rfl, ?_⟩
      rw [Gossip.step, State.resume]
      split
      · split
        · exact sameTable_bump s.inner _ _ _
        · exact .refl _
      · exact .refl _
  | pulled n stream =>
      refine Or.inr ⟨rfl, ?_⟩
      rw [Gossip.step, State.resume]
      split
      · rename_i task _
        split
        · unfold State.pulled
          repeat' split
          all_goals exact .refl _
        · exact .refl _
      · exact .refl _
  | ingest n now =>
      rw [Gossip.step, State.resume]
      cases htask : s.tasks[n]? with
      | none => exact Or.inr ⟨by simp only [Refreshing.ingests, htask], .refl _⟩
      | some task =>
          obtain ⟨user, kind, discovery, point⟩ := task
          cases point with
          | ingesting event =>
              exact Or.inl ⟨event, none, now, by simp only [Refreshing.ingests, htask], rfl⟩
          | _ => exact Or.inr ⟨by simp only [Refreshing.ingests, htask], .refl _⟩
  | drop n =>
      refine Or.inr ⟨rfl, ?_⟩
      rw [Gossip.step, State.resume]
      split
      · split
        · exact .refl _
        · exact .refl _
      · exact .refl _
  | process event source now => exact Or.inl ⟨event, source, now, rfl, rfl⟩

/-- **One step** ingests an event, or leaves the lists. The calls of `metadata` ingest too, one event at a time. -/
theorem step_cases (s : Refreshing D) (a : RefreshAction) :
    (∃ e source now, s.ingests a = some e ∧
      (s.step urls a).gossip.inner = s.gossip.inner.process urls e source now) ∨
    (s.ingests a = none ∧ SameTable s.gossip.inner (s.step urls a).gossip.inner) := by
  cases a with
  | gossip a => exact gossip_cases urls s.gossip s.calls a
  | metadata pubkeys => exact Or.inr ⟨rfl, .refl _⟩
  | fetched k fetched =>
      refine Or.inr ⟨rfl, ?_⟩
      rw [Refreshing.step]
      split
      · exact .refl _
      · exact .refl _
  | ingest k now =>
      rw [Refreshing.step]
      cases hcall : s.calls[k]? with
      | none => exact Or.inr ⟨by simp only [Refreshing.ingests, hcall], .refl _⟩
      | some call =>
          obtain ⟨left, ingested, point⟩ := call
          cases point with
          | ingesting event =>
              exact Or.inl ⟨event, none, now, by simp only [Refreshing.ingests, hcall], rfl⟩
          | _ => exact Or.inr ⟨by simp only [Refreshing.ingests, hcall], .refl _⟩
  | drop k =>
      refine Or.inr ⟨rfl, ?_⟩
      rw [Refreshing.step]
      split
      · exact .refl _
      · exact .refl _
      · exact .refl _

/-- What a step changes is signed exactly when the event it ingests verifies or replaces no list. -/
theorem learnt_step_iff {crypto : Crypto} (s : Refreshing D) (a : RefreshAction) :
    Learnt urls crypto s.gossip.inner (s.step urls a).gossip.inner (s.ingests a) ↔
      ∀ e ∈ s.ingests a, Replaces urls s.gossip.inner e → e.verify crypto = .ok () := by
  rcases step_cases urls s a with ⟨e, source, now, hingests, hinner⟩ | ⟨hingests, hsame⟩
  · rw [hingests, hinner, learnt_process_iff]
    simp
  · rw [hingests]
    exact iff_of_true (learnt_of_same urls hsame none) nofun

end OneStep

/-! ## One fetch -/

/-- **A list is the user's exactly if** the newest event that came, where it is well formed, is theirs and verifies:
    the client looks at neither. -/
theorem fromUser_getList_iff {α : Type} (crypto : Crypto) (stream : Filter → Fetched) (filter : Filter)
    (user : PublicKey) (parse : Event → Except ListError α) :
    FromUser crypto user parse (stream filter) (getList stream filter parse) ↔
      NewestSigned crypto user parse (stream filter) := by
  unfold FromUser NewestSigned getList
  constructor
  · intro h e list hfirst hparse
    obtain ⟨e', hfirst', _, huser, hverify⟩ := h list (by
      rw [hfirst]
      simp only [hparse]
      rfl)
    cases hfirst.symm.trans hfirst'
    exact ⟨huser, hverify⟩
  · intro h list hresult
    split at hresult
    · cases hresult
    · cases hresult
    · rename_i e hfirst
      cases hparse : parse e with
      | error err =>
          rw [hparse] at hresult
          cases hresult
      | ok list' =>
          rw [hparse] at hresult
          cases hresult
          obtain ⟨huser, hverify⟩ := h e list hfirst hparse
          exact ⟨e, hfirst, hparse, huser, hverify⟩

/-- **Whose word routing is.** Along every run of the two refreshes each change of a user's lists is what an event
    says that the user signed, exactly when each event that replaces a list verifies. A fetched list is the user's
    word exactly when the newest event, if it is a list, is the user's and verifies.

    One action ingests one event at most and processing it touches its author's lists only, so what is learnt is
    what a replacing event says; the fetched lists are the newest event's, unchecked (`fromUser_getList_iff`). -/
theorem learnt_iff (crypto : Crypto) (urls : UrlCrate) {D : Type} [Gossip.NostrDatabase D] :
    (∀ (inner : Inner D) (actions : List RefreshAction),
      EachStep (fun past a => Learnt urls crypto (Refreshing.run urls inner past).gossip.inner
          (Refreshing.run urls inner (past ++ [a])).gossip.inner ((Refreshing.run urls inner past).ingests a)) actions ↔
        EachStep (fun past a => ∀ e ∈ (Refreshing.run urls inner past).ingests a,
          Replaces urls (Refreshing.run urls inner past).gossip.inner e → e.verify crypto = .ok ()) actions) ∧
    ∀ (stream : Filter → Fetched) (user : PublicKey),
      (FromUser crypto user (parseRelayList urls) (stream (listFilter user .nip65)) (getRelayList urls stream user) ↔
        NewestSigned crypto user (parseRelayList urls) (stream (listFilter user .nip65))) ∧
      (FromUser crypto user (parseDmRelays urls) (stream (listFilter user .nip17)) (getDmRelays urls stream user) ↔
        NewestSigned crypto user (parseDmRelays urls) (stream (listFilter user .nip17))) := by
  refine ⟨fun inner actions => ?_, fun stream user => ⟨?_, ?_⟩⟩
  · refine forall_congr' (fun k => forall_congr' (fun a => imp_congr_right (fun _ => ?_)))
    show Learnt urls crypto _ (Refreshing.run urls inner (actions.take k ++ [a])).gossip.inner _ ↔ _
    rw [Refreshing.run_append_singleton]
    exact learnt_step_iff urls _ a
  · exact fromUser_getList_iff crypto stream _ user _
  · exact fromUser_getList_iff crypto stream _ user _

/-! One relay answers for the private-message list of `alice`: with a list under her name that she has not signed, or
with a list of `bob`'s. -/

namespace ListSample

open Nula.Sample Gossip.Sample

/-- An unsigned list of this author's. -/
def dmList (author : PublicKey) : Event := event 1 author 5 10050 [["relay", "wss://two.example/"]]

/-- A relay that sends one event. -/
def fromRelay (e : Event) : Fetched := .ok [(one, .ok e)]

/-- `Gossip::refresh`, up to the ingest. -/
def redirecting : List RefreshAction :=
  [.gossip (.refresh alice .nip17 [one] (some 100)), .gossip (.read 0), .gossip (.write 0),
    .gossip (.pulled 0 (.ok [(one, .ok (dmList alice))])), .gossip (.ingest 0 100)]

end ListSample

section

open Nula.Sample Gossip.Sample ListSample

/-- The relay's list becomes the list of `alice`, and the list of `bob` is returned for hers. -/
theorem redirected_by_relay :
    ¬ EachStep (fun past a => Learnt urlCrate Nula.Sample.crypto (Refreshing.run urlCrate router past).gossip.inner
      (Refreshing.run urlCrate router (past ++ [a])).gossip.inner
      ((Refreshing.run urlCrate router past).ingests a)) redirecting ∧
    ¬ FromUser Nula.Sample.crypto alice (parseDmRelays urlCrate) (fromRelay (dmList bob))
      (getDmRelays urlCrate (fun _ => fromRelay (dmList bob)) alice) := by
  constructor
  · intro h
    have hlearnt := h 4 (.gossip (.ingest 0 100)) rfl
    obtain ⟨e, he, _, hverify, _⟩ := hlearnt.nip17 alice (by decide +kernel)
    have hingests : (Refreshing.run urlCrate router (redirecting.take 4)).ingests (.gossip (.ingest 0 100)) =
        some (dmList alice) := by
      decide +kernel
    rw [hingests] at he
    cases Option.mem_some_iff.mp he
    exact absurd hverify (by decide +kernel)
  · intro h
    have hreturned : getDmRelays urlCrate (fun _ => fromRelay (dmList bob)) alice = .ok (some [two]) := by
      rfl
    obtain ⟨e, hfirst, _, huser, _⟩ := h [two] hreturned
    have hbob : fetchFirst (fromRelay (dmList bob)) = .ok (some (dmList bob)) := by
      rfl
    cases hbob.symm.trans hfirst
    exact absurd huser (by decide)

end

end Nula.Sdk
