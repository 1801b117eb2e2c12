import Nula.Relay.Wire

/-!
# `Relay.Announced` — what is in the map is open on the wire

`Announced`: the frame that opens an entry was accepted by a given socket after the entry was registered.
`AllAnnounced`: the live socket has accepted the opening frame of every entry of the map. It fails when a
refused `REQ` leaves its entry behind, or when a handshake finds an entry it does not reissue, and only then:
`tracked_announced_iff`.
-/

namespace Nula.Relay

open Std

/-- The frame that opens an entry: a `REQ`, or the `NEG-OPEN` of a NIP-77 session. -/
def Opens (id : SubscriptionId) (entry : SubscriptionEntry) : ClientMessage → Prop
  | .req i filters => entry.skipReissue = false ∧ i = id ∧ filters = entry.filters
  | .negOpen i filter _ => entry.skipReissue = true ∧ i = id ∧ entry.filters = [filter]
  | _ => False

/-- The opening frame of the entry was accepted by `socket` after the entry was registered. -/
def Announced (socket : Nat) (log : List (Nat × Obs)) (id : SubscriptionId) (entry : SubscriptionEntry) :
    Prop :=
  ∃ turn message, (turn, .sent socket message) ∈ log ∧ entry.sink ≤ turn ∧ Opens id entry message

theorem Announced.mono {socket : Nat} {log more : List (Nat × Obs)} {id : SubscriptionId}
    {entry : SubscriptionEntry} (h : Announced socket log id entry) :
    Announced socket (log ++ more) id entry := by
  obtain ⟨turn, message, hmem, hturn, hopens⟩ := h
  exact ⟨turn, message, List.mem_append_left _ hmem, hturn, hopens⟩

namespace Wire

/-- Every entry of the map was announced on the live socket. -/
def AllAnnounced (w : Wire) : Prop := ∀ socket, w.sink = some socket →
  ∀ (id : SubscriptionId) entry, w.subscriptions[id]? = some entry → Announced socket w.frames id entry

variable {w : Wire} {env : Env} {turn : Nat}

namespace AllAnnounced

/-- Without a subscription there is nothing to announce. -/
theorem dropped (w : Wire) : w.dropped.AllAnnounced := by
  intro socket hsink
  cases hsink

theorem push {o : Obs} (h : w.AllAnnounced) : (w.push turn o).AllAnnounced :=
  fun socket hsink id entry hentry => (h socket hsink id entry hentry).mono

theorem erase {id : SubscriptionId} (h : w.AllAnnounced) : (w.erase id).AllAnnounced := by
  intro socket hsink k entry hentry
  have hentry' : (w.subscriptions.erase id)[k]? = some entry := hentry
  rw [ExtTreeMap.getElem?_erase] at hentry'
  split at hentry'
  · cases hentry'
  · exact h socket hsink k entry hentry'

/-- A frame that is sent announces nothing away. -/
theorem sendIfLive {message : ClientMessage} (h : w.AllAnnounced) :
    (w.sendIfLive env turn message).AllAnnounced := by
  rw [Wire.sendIfLive]
  cases w.sink with
  | none => exact h
  | some socket =>
      show (if env.refuses message = none then w.push turn (.sent socket message) else w).AllAnnounced
      split
      · exact h.push
      · exact h

/-- An entry whose opening frame goes out as it is registered. -/
theorem insert_push {id : SubscriptionId} {entry : SubscriptionEntry} {socket : Nat}
    {message : ClientMessage} (h : w.AllAnnounced) (hsink : w.sink = some socket)
    (hturn : entry.sink ≤ turn) (hopens : Opens id entry message) :
    ((w.insert id entry).push turn (.sent socket message)).AllAnnounced := by
  intro s hs k e he
  have hs' : w.sink = some s := hs
  rw [hsink] at hs'
  cases hs'
  have he' : (w.subscriptions.insert id entry)[k]? = some e := he
  rw [ExtTreeMap.getElem?_insert] at he'
  split at he'
  · rename_i hid
    cases he'
    cases Std.compare_eq_iff_eq.mp hid
    exact ⟨turn, message, List.mem_append_right _ (List.mem_singleton.mpr rfl), hturn, hopens⟩
  · exact (h socket hsink k e he').mono

/-- An ordinary subscription is announced exactly when a live socket takes its `REQ`. -/
theorem subscribe_iff {id : SubscriptionId} {filters : List Filter} {options : SubscribeOptions}
    (hb : Below turn w) (h : w.AllAnnounced) :
    ((w.insert id ⟨filters, options, turn, false⟩).sendIfLive env turn (.req id filters)).AllAnnounced ↔
    ∀ socket, w.sink = some socket → env.refuses (.req id filters) = none := by
  cases hsink : w.sink with
  | none =>
      rw [sendIfLive_none env turn (w := w.insert id ⟨filters, options, turn, false⟩) hsink]
      refine iff_of_true ?_ (by simp)
      intro socket hs
      have hs' : w.sink = some socket := hs
      rw [hsink] at hs'
      cases hs'
  | some socket =>
      rw [sendIfLive_some env turn (w := w.insert id ⟨filters, options, turn, false⟩) hsink, send]
      split
      · rename_i hok
        exact iff_of_true (h.insert_push hsink le_rfl ⟨rfl, rfl, rfl⟩) (fun _ _ => hok)
      · rename_i hrefuse
        refine iff_of_false ?_ (fun hc => hrefuse (hc socket rfl))
        intro hafter
        -- the entry carries this turn, and no frame on the wire does
        obtain ⟨t, message, hmem, hturn, _⟩ :=
          hafter socket hsink id ⟨filters, options, turn, false⟩ ExtTreeMap.getElem?_insert_self
        exact absurd (hb.frame _ hmem).1 (Nat.not_lt.mpr hturn)

/-- After a handshake every entry is announced exactly when every one is reissued. -/
theorem connected_iff (hb : Below turn w) : (w.connected env turn).AllAnnounced ↔
    ∀ (id : SubscriptionId) entry, w.subscriptions[id]? = some entry →
      entry.skipReissue = false ∧ env.refuses (.req id entry.filters) = none := by
  constructor
  · intro hafter id entry hentry
    obtain ⟨t, message, hmem, _, hopens⟩ := hafter turn rfl id entry hentry
    rcases List.mem_append.mp hmem with hmem | hmem
    · exact absurd ((hb.frame _ hmem).2 turn rfl) (Nat.lt_irrefl _)
    · obtain ⟨⟨k, e⟩, _, hr⟩ := List.mem_filterMap.mp hmem
      simp only [reissued] at hr
      split at hr
      · cases hr
      · split at hr
        · rename_i hok
          cases hr
          obtain ⟨hskip, rfl, hfilters⟩ := hopens
          exact ⟨hskip, by rw [← hfilters]; exact hok⟩
        · cases hr
  · intro hall socket hs id entry hentry
    cases hs
    obtain ⟨hskip, hok⟩ := hall id entry hentry
    -- its reissue is the frame to show
    refine ⟨turn, .req id entry.filters, List.mem_append_right _ ?_, (hb.entry id entry hentry).le,
      hskip, rfl, rfl⟩
    apply List.mem_filterMap.mpr
    exact ⟨(id, entry), HashMap.mem_iter.mpr hentry, by simp [reissued, hskip, hok]⟩

end AllAnnounced

end Wire

namespace Actor

variable (ctx : StaticCtx) {env : Env} {a : Actor}

/-- In a state with a live socket, every entry of the map had its opening frame accepted by it. -/
def AllAnnounced (a : Actor) : Prop := ∀ socket, a.state.sink = some socket →
  ∀ (id : SubscriptionId) entry, a.state.subscriptions[id]? = some entry → Announced socket a.log id entry

/-- Every entry is reissued by a successful handshake. -/
def ReissuesAll (env : Env) (a : Actor) : Prop := env.handshake = .opened →
  ∀ (id : SubscriptionId) entry, a.state.subscriptions[id]? = some entry →
    entry.skipReissue = false ∧ env.refuses (.req id entry.filters) = none

/-- The wakeup leaves no entry in the map that the live socket has not heard of. -/
def Announces (a : Actor) (event : Wakeup × Env) : Prop :=
  match event.1 with
  | .command (.subscribe id filters _) => ∀ socket, a.state.sink = some socket →
      a.blocked ctx id = false → event.2.refuses (.req id filters) = none
  | .command .connect => a.status ≠ .connected → a.ReissuesAll event.2
  | .reconnectTimer => a.ReissuesAll event.2
  | _ => True

theorem wire_allAnnounced_iff (a : Actor) : a.wire.AllAnnounced ↔ a.AllAnnounced := by
  refine forall₂_congr (fun socket _ => forall₃_congr (fun id entry _ => ?_))
  refine exists₂_congr (fun turn message => and_congr_left' ?_)
  show _ ∈ a.log.filter _ ↔ _
  simp [Obs.isFrame]

/-- **A new connection** announces all exactly if every subscription is reissued on it. -/
theorem announced_wireConnect_iff (hb : Wire.Below a.turn a.wire) (h : a.wire.AllAnnounced) :
    (a.wireConnect env).AllAnnounced ↔ a.ReissuesAll env := by
  rw [wireConnect, ReissuesAll]
  cases env.handshake with
  | opened =>
      refine (Wire.AllAnnounced.connected_iff hb).trans ?_
      exact ⟨fun hc _ => hc, fun hc => hc rfl⟩
  | failed text => exact iff_of_true h (by simp)
  | timedOut => exact iff_of_true h (by simp)

/-- What one wakeup makes of the announcements. Only the wakeups that insert an entry or replace the socket have
    anything to show; for them the announcement is the condition. -/
theorem announced_wireAfter_iff (hb : Wire.Below a.turn a.wire) (h : a.wire.AllAnnounced) (w : Wakeup) :
    (a.wireAfter ctx env w).AllAnnounced ↔ Announces ctx a (w, env) := by
  -- an entry is announced where it is inserted, and again where a handshake replaces the socket
  cases w with
  | commandsClosed => exact iff_of_true (Wire.AllAnnounced.dropped _) trivial
  | publishTimer => exact iff_of_true h trivial
  | reconnectTimer => exact announced_wireConnect_iff hb h
  | closeSignal id =>
      refine iff_of_true ?_ trivial
      simp only [wireAfter]
      split
      · exact h.erase.sendIfLive
      · exact h
  | inbound frame =>
      refine iff_of_true ?_ trivial
      simp only [wireAfter]
      cases a.reads ctx (.inbound frame) with
      | none =>
          show (if hangsUp (.inbound frame) then a.wire.dropped else a.wire).AllAnnounced
          split
          · exact Wire.AllAnnounced.dropped _
          · exact h
      | some read =>
          obtain ⟨socket, message⟩ := read
          cases hends : a.ends message with
          | none => simpa [hends] using h.push
          | some id => simpa [hends] using h.push.erase
  | command cmd =>
      cases cmd with
      | shutdown => exact iff_of_true (Wire.AllAnnounced.dropped _) trivial
      | disconnect => exact iff_of_true (Wire.AllAnnounced.dropped _) trivial
      | connect =>
          show _ ↔ (a.status ≠ .connected → a.ReissuesAll env)
          simp only [wireAfter]
          split
          · rename_i hc
            exact iff_of_true h (fun hne => absurd hc hne)
          · rename_i hc
            rw [announced_wireConnect_iff hb h]
            exact ⟨fun hr _ => hr, fun hr => hr hc⟩
      | subscribe id filters options =>
          show _ ↔ ∀ socket, a.wire.sink = some socket →
            a.blocked ctx id = false → env.refuses (.req id filters) = none
          simp only [wireAfter]
          split
          · rename_i hblocked
            exact iff_of_true h (fun _ _ hfree => by rw [hblocked] at hfree; cases hfree)
          · rename_i hfree
            rw [Wire.AllAnnounced.subscribe_iff hb h]
            refine forall₂_congr (fun socket _ => ?_)
            exact ⟨fun hok _ => hok, fun hok => hok (by rwa [Bool.not_eq_true] at hfree)⟩
      | subscribeNeg id filter hex =>
          refine iff_of_true ?_ trivial
          simp only [wireAfter]
          split
          · exact h
          · split
            · exact h
            · rename_i socket hsocket
              split
              · exact h.insert_push hsocket le_rfl ⟨rfl, rfl, rfl⟩
              · exact h
      | publish event options =>
          refine iff_of_true ?_ trivial
          simp only [wireAfter]
          split
          · exact h
          · exact h.sendIfLive
      | authenticate event => exact iff_of_true h.sendIfLive trivial
      | sendMsg message => exact iff_of_true h.sendIfLive trivial

/-- **One step**: all stay announced exactly if the arm that is served announces what it adds. -/
theorem announced_step_iff (hb : Wire.Below a.turn a.wire) (h : a.AllAnnounced) (event : Wakeup × Env) :
    (a.step ctx event).AllAnnounced ↔ (a.serves ctx event → Announces ctx a event) := by
  by_cases hs : a.serves ctx event
  · rw [← wire_allAnnounced_iff, wire_step ctx a event hs,
      announced_wireAfter_iff ctx hb ((wire_allAnnounced_iff a).mpr h)]
    exact ⟨fun hc _ => hc, fun hc => hc hs⟩
  · refine iff_of_true ?_ (fun hc => absurd hc hs)
    rcases step_of_not_serves ctx hs with ⟨hattends, hover, _⟩ | ⟨_, hidle⟩
    · intro socket hsink
      rw [sink_step_of_overflows ctx hattends hover] at hsink
      cases hsink
    · rw [hidle]
      exact h

end Actor

/-- **Tracked in the map, open on the wire.** In every state of a run the entries of the map were announced on
    the live socket, exactly when every `REQ` of the run on a live socket is accepted and no handshake finds
    an entry it does not reissue.

    As in `open_tracked_iff`, the invariant is that no frame of the log is on a socket to come; given it, one step
    keeps all announced exactly if the wakeup announces what it adds (`announced_step_iff`). -/
theorem tracked_announced_iff (ctx : StaticCtx) (schedule : List (Wakeup × Env)) :
    Always (fun past => (Actor.run ctx past).AllAnnounced) schedule ↔
    EachStep (fun past event => (Actor.run ctx past).serves ctx event →
      Actor.Announces ctx (Actor.run ctx past) event) schedule := by
  apply always_iff_eachStep (I := fun past =>
    Wire.Below (Actor.run ctx past).turn (Actor.run ctx past).wire)
  · exact Actor.below_run
  · intro socket hsink
    cases hsink
  · intro past event hb h
    rw [Actor.run_append]
    exact Actor.announced_step_iff ctx hb h event

/-- A reconciliation session whose socket is replaced. -/
def resumedSession : List (Wakeup × Env) :=
  [(.command .connect, Sample.calm),
    (.command (.subscribeNeg Sample.subscription Sample.everything "61"), Sample.calm),
    (.command .disconnect, Sample.calm),
    (.command .connect, Sample.calm)]

/-- The session outlives its socket: the new one has never heard of it. -/
theorem resumedSession_unannounced :
    ¬ Always (fun past => (Actor.run Sample.actorCtx past).AllAnnounced) resumedSession := by
  intro h
  obtain ⟨turn, message, hmem, _⟩ := h.last 3 (by decide +kernel) Sample.subscription
    ⟨[Sample.everything], .new, 1, true⟩ (by decide +kernel)
  have hsilent : (Actor.run Sample.actorCtx resumedSession).log.all
      (fun x => match x.2 with
        | .sent socket _ => socket != 3
        | _ => true) = true := by decide +kernel
  have hsent := List.all_eq_true.mp hsilent _ hmem
  simp at hsent

end Nula.Relay
